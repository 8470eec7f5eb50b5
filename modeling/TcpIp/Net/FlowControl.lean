import TcpIp.Net.Flow
import TcpIp.Tcp.Conservation

/-! Flow control across the wire: no data segment ever ends past the receiver's window. -/
namespace TcpIp

open Runs

/-- Both streams, `first` giving the number of each one's first byte. -/
structure Net.Flowing (first : Side → ℕ) (n : Net) : Prop where
  pos : ∀ x, 0 < first x
  flow : ∀ x,
    Flow (first x) (n.written x) (n.conn x) (n.conn x.other) (n.sent x) (n.sent x.other)
  peer : ∀ x, Peer (n.conn x) (n.sent x)

/-- The number of the first byte of each stream. -/
def Net.first (n : Net) (x : Side) : ℕ := (n.conn x).tcb.snd.nxt.toNat

section Flowing

variable {n n' : Net} {first : Side → ℕ} {x : Side} {l : Label}

theorem Net.Opened.pos (h : n.Opened) (x : Side) : 0 < n.first x := by
  have := h.first_ne x
  unfold Net.first
  bv_omega

theorem Net.Opened.una (h : n.Opened) (x : Side) :
    (n.conn x).tcb.snd.una.toNat ≤ n.first x ∧ n.first x ≤ (n.conn x).tcb.snd.una.toNat + 1 := by
  have hne := h.first_ne x
  unfold Net.first
  rcases (h.established x).una with hu | hu <;> bv_omega

theorem Net.Opened.sending (h : n.Opened) (x : Side) :
    (n.conn x).sender.Sending (n.first x) [] := by
  have he := h.established x
  have hlbw : (n.conn x).tcb.snd.lbw.toNat = n.first x := by rw [he.lbw, Net.first]
  have hwnd : (n.conn x).tcb.snd.wnd.toNat = 65535 := by rw [h.wnd x, toNat_maxBufSize]
  obtain ⟨hle, hge⟩ := h.una x
  have hnxt : (n.conn x).tcb.snd.nxt.toNat = n.first x := rfl
  constructor
  case lbw => exact hlbw
  case first => exact Nat.le_refl _
  case room => simp only [Conn.sender_snd]; omega
  case held =>
    intro q hq hq'
    simp only [Conn.sender_snd] at hq hq'
    omega
  case paced => exact ⟨by simp [he.lbw], by simp [he.send], by simp [he.send]⟩
  case wnd => exact Nat.le_of_eq hwnd
  case edge => simp only [Conn.sender_snd]; omega
  case una => rw [Sender.top_of_ne (by simp [he.send])]; exact hle
  case queue => simp [he.queue]
  case ordered => simp [he.queue, Spans.Ordered]
  case cwnd => exact he.cwnd
  case congestion => exact he.congestion
  case cancelled => exact he.cancelled
  all_goals simp [he.send]

theorem Net.Opened.credit (h : n.Opened) (x : Side) :
    Credit (offers (n.sent x.other)) (n.conn x.other).tcb.rcv.nxt.toNat
      ((n.conn x.other).tcb.rcv.lbr.toNat + 65535) (n.conn x).tcb.snd.una.toNat
      ((n.conn x).tcb.snd.una.toNat + (n.conn x).tcb.snd.wnd.toNat) := by
  have hle := (h.una x).1
  have hwnd : (n.conn x).tcb.snd.wnd.toNat = 65535 := by rw [h.wnd x, toNat_maxBufSize]
  have hnxt : (n.conn x.other).tcb.rcv.nxt.toNat = n.first x := by rw [Net.first, h.first x]
  have hlbr : (n.conn x.other).tcb.rcv.lbr.toNat = n.first x := by
    rw [(h.established x.other).lbr, hnxt]
  have hnone : Credit ∅ (n.conn x.other).tcb.rcv.nxt.toNat
      ((n.conn x.other).tcb.rcv.lbr.toNat + 65535) (n.conn x).tcb.snd.una.toNat
      ((n.conn x).tcb.snd.una.toNat + (n.conn x).tcb.snd.wnd.toNat) := by
    refine ⟨?_, ?_, ?_, ?_, by omega, by omega⟩ <;> simp
  refine hnone.offer fun p hp => Or.inr ?_
  obtain ⟨m, hm, hack, rfl⟩ := hp
  obtain ⟨ha, hw⟩ := (h.sent x.other m hm).2.2 hack
  rw [ha, hw, hlbr, hnxt]
  rfl

theorem Net.Opened.flowing (h : n.Opened) : n.Flowing n.first where
  pos := h.pos
  flow x :=
    { sending := h.written x ▸ h.sending x
      holding := (h.established x.other).toUntouched.holding <| by
        rw [← h.first x]
        exact Nat.le_add_right _ _
      first := by rw [(h.established x.other).lbr, ← h.first x]; exact Nat.le_refl _
      carries := fun m hm hpay => absurd (h.sent x m hm).1 hpay
      credit := h.credit x }
  peer x :=
    { state := Or.inl (h.established x).state
      pending := (h.established x).pendingReceivedFin
      noFin := fun m hm => (h.sent x m hm).2.1
      queued := by simp [(h.established x).queue] }

theorem Side.eq_or (x y : Side) : x = y ∨ x = y.other := by
  cases x <;> cases y <;> simp [Side.other]

/-- A step at one side is a step of the writer of its own stream and of the reader of the
other's. -/
theorem Net.Flowing.step (h : n.Flowing first) (hs : NetStep n (x, l) n')
    (hlbw : KeepsBelow ⟨n, (x, l), n'⟩) : n'.Flowing first := by
  obtain ⟨hev, c', hs, rfl⟩ := hs
  simp only at hev hs
  have hlbw' : (n.conn x).tcb.snd.lbw ≤ c'.tcb.snd.lbw := by simpa using hlbw x
  have hback := (h.peer x.other).noFin
  have hin := h.flow x.other
  rw [Side.other_other] at hin
  have hsend := (h.flow x).send (h.peer x) hs hev hlbw'
  obtain ⟨hreceive, hne⟩ := hin.receive (h.pos x.other) (h.peer x) hback hs hev
  refine ⟨h.pos, fun y => ?_, fun y => ?_⟩
  · rcases y.eq_or x with rfl | rfl
    · simpa using hsend
    · simpa using hreceive
  · rcases y.eq_or x with rfl | rfl
    · simpa using (h.peer y).step hs hev hback hne
    · simpa using h.peer x.other

theorem Net.Opened.run {tr : List (Move Net (Side × Label))} (h0 : n.Opened)
    (h : Run NetStep n tr n') (hbelow : ∀ y ∈ tr, KeepsBelow y) : n'.Flowing n.first :=
  h.state_inv h0.flowing hbelow fun _ _ _ ht hs hb => ht.step hs hb

end Flowing

section FlowControl

variable {n n' : Net} {tr : List (Move Net (Side × Label))} {x : Side} {m : Msg}

theorem Carries.not_straddling {f : ℕ} {W : List U8} {top : ℕ} {r : Receive}
    (h : Carries f W top r m) :
    r.lbr.toNat + 65535 ≤ m.hdr.seqNum.toNat ∨
      m.hdr.seqNum.toNat + m.payload.length ≤ r.lbr.toNat + 65535 := by
  by_cases ho : m.origin = .probe
  · rw [h.probe ho]
    omega
  · exact Or.inr (h.edge ho)

/-- Whatever one side has ever sent as fresh data or as a retransmission ends within the window
the other side has now, and no segment of any kind straddles the edge of that window. -/
theorem flowControl (h0 : n.Opened) (h : Run NetStep n tr n') (hbelow : ∀ y ∈ tr, KeepsBelow y)
    (hm : m ∈ n'.sent x) (hpay : m.payload ≠ []) :
    ((n'.conn x.other).tcb.rcv.nxt.toNat + (n'.conn x.other).tcb.rcv.wnd.toNat =
        (n'.conn x.other).tcb.rcv.lbr.toNat + maxBufSize.toNat) ∧
      (m.origin = .data ∨ m.origin = .resend →
        m.hdr.seqNum.toNat + m.payload.length ≤
          (n'.conn x.other).tcb.rcv.lbr.toNat + maxBufSize.toNat) ∧
      ((n'.conn x.other).tcb.rcv.lbr.toNat + maxBufSize.toNat ≤ m.hdr.seqNum.toNat ∨
        m.hdr.seqNum.toNat + m.payload.length ≤
          (n'.conn x.other).tcb.rcv.lbr.toNat + maxBufSize.toNat) := by
  have hflow := (h0.run h hbelow).flow x
  have hc := hflow.carries m hm hpay
  have hwnd := hflow.holding.wnd
  simp only [Conn.receiver_rcv] at hwnd
  simp only [toNat_maxBufSize]
  refine ⟨by omega, fun ho => hc.edge ?_, hc.not_straddling⟩
  rcases ho with ho | ho <;> simp [ho]

theorem flowControl_reordered :
    ∃ (n n' : Net) (tr : List (Move Net (Side × Label))) (m : Msg), n.Opened ∧
      Run NetStep n tr n' ∧ (∀ y ∈ tr, KeepsBelow y) ∧ m ∈ n'.sent .a ∧ m.origin = .data ∧
      m.payload = [3] ∧ m.hdr.seqNum = 102 ∧
      m.hdr.seqNum.toNat + m.payload.length ≤ (n'.conn .b).tcb.rcv.lbr.toNat + maxBufSize.toNat := by
  have hbelow : ∀ y ∈ (Net.sample.play Net.reordered).1, KeepsBelow y := by decide
  have hmem := List.get_mem ((Net.sample.play Net.reordered).2.sent .a) ⟨3, by decide⟩
  have hdata : (((Net.sample.play Net.reordered).2.sent .a).get ⟨3, by decide⟩).origin = .data := by
    decide
  refine ⟨_, _, _, _, opened_sample, Net.play_run _ Net.reordered, hbelow, hmem, hdata, by decide,
    by decide, ?_⟩
  exact (flowControl opened_sample (Net.play_run _ Net.reordered) hbelow hmem (by decide)).2.1
    (Or.inl hdata)

/-- The data half of `Receive` ends on a segment that does not straddle the window's edge. -/
theorem receiveData_isSome {s : TCB} {key : SocketData} {seg : Segment} {R : ℕ → U8 → Prop}
    {hi : ℕ} {call : Option ReadCall}
    (h : Receiver.Holding R hi ⟨s.rcv, s.earlyArrivals, call⟩)
    (hedge : seg.payload ≠ [] → s.rcv.lbr.toNat + 65535 ≤ seg.hdr.seqNum.toNat ∨
      seg.hdr.seqNum.toNat + seg.payload.length ≤ s.rcv.lbr.toNat + 65535) :
    (s.receiveData key seg.hdr seg.payload).isSome = true := by
  have hlbr := h.lbr_le
  have hwnd := h.wnd
  simp only at hlbr hwnd
  have hfit : 0 < seg.payload.length → s.rcv.nxt ≤ seg.hdr.seqNum →
      seg.hdr.seqNum < s.rcv.nxt + s.rcv.wnd → seg.payload.length ≤ s.rcv.room seg.hdr.seqNum := by
    intro hpos hle hlt
    have hedge := hedge (List.ne_nil_of_length_pos hpos)
    rw [BitVec.le_def] at hle
    rw [BitVec.lt_def, BitVec.toNat_add] at hlt
    have hsub : (seg.hdr.seqNum - s.rcv.lbr).toNat =
        seg.hdr.seqNum.toNat - s.rcv.lbr.toNat := by bv_omega
    have hend : seg.hdr.seqNum.toNat + seg.payload.length ≤ s.rcv.lbr.toNat + 65535 := by omega
    unfold Receive.room
    rw [BitVec.toNat_sub_of_le (by rw [BitVec.le_def, toNat_maxBufSize, hsub]; omega),
      toNat_maxBufSize, hsub]
    omega
  unfold TCB.receiveData
  split
  · rename_i hpos
    split
    · rfl
    · rfl
    · rename_i hc
      obtain ⟨hseq, hlt⟩ := classify_inOrder hc
      have := hfit hpos (by simp [hseq]) (by rwa [hseq])
      rw [hseq] at this ⊢
      simp [TCB.takeData_inOrder hpos seg.payload_le, this]
    · rename_i hc
      obtain ⟨hgt, hlt⟩ := classify_early hc
      simp [TCB.takeData_early hgt hpos seg.payload_le, hfit hpos (BitVec.le_of_lt hgt) hlt]
  · rfl

/-- Hence `Receive` ends on every copy of whatever the other side has sent. -/
theorem delivery_ends (h0 : n.Opened) (h : Run NetStep n tr n') (hbelow : ∀ y ∈ tr, KeepsBelow y)
    (hm : m ∈ n'.sent x) {seg : Segment} (hh : seg.hdr = m.hdr) (hp : seg.payload = m.payload)
    (hin : (n'.conn x.other).inTable = true) (env : Env) :
    ((n'.conn x.other).step env (.segment seg)).isSome = true := by
  have hinv := h0.run h hbelow
  have hflow := hinv.flow x
  have hfin : seg.hdr.hasFin = false := hh ▸ (hinv.peer x).noFin m hm
  have hdata : ((n'.conn x.other).tcb.receiveData (n'.conn x.other).key seg.hdr
      seg.payload).isSome = true := by
    refine receiveData_isSome hflow.holding fun hpay => ?_
    rw [hp] at hpay ⊢
    rw [hh]
    exact (hflow.carries m hm hpay).not_straddling
  rcases (hinv.peer x.other).state with hst | hst
  · simp only [Conn.step, hin, if_true, Option.isSome_map, Conn.receivePacket, hst,
      Conn.handleEstablished, hfin, Bool.false_eq_true, if_false, Conn.receive, TCB.receive]
    split <;> simp [hdata]
  · simp [Conn.step, hin, Conn.receivePacket, hst]

end FlowControl

end TcpIp
