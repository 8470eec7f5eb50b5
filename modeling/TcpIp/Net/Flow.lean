import TcpIp.Lib.Credit
import TcpIp.Net.Network
import TcpIp.Net.Sending

/-! One direction of the network: a stream from its writer to its reader, with the data and the
acknowledgements in flight. -/
namespace TcpIp

/-- What the messages of a side tell the other: the next number, and the end of its window. -/
def offers (msgs : List Msg) : Set (ℕ × ℕ) :=
  { p | ∃ m ∈ msgs, m.hdr.hasAck = true ∧
    p = (m.hdr.ackNum.toNat, m.hdr.ackNum.toNat + m.hdr.windowSize.toNat) }

/-- A data segment of the stream `W`, numbered from `f` on. Bytes that the receiver has gone
past are not looked at any more: a late probe may carry others. -/
structure Carries (f : ℕ) (W : List U8) (top : ℕ) (r : Receive) (m : Msg) : Prop where
  first : f ≤ m.hdr.seqNum.toNat
  le_top : m.hdr.seqNum.toNat + m.payload.length ≤ top
  bytes : ∀ j b, m.payload[j]? = some b → r.nxt.toNat ≤ m.hdr.seqNum.toNat + j →
    Ring.Numbered f W (m.hdr.seqNum.toNat + j) b
  edge : m.origin ≠ .probe → m.hdr.seqNum.toNat + m.payload.length ≤ r.lbr.toNat + 65535
  probe : m.origin = .probe → m.payload.length = 1

/-- The stream `W` from `x` to `y`; `out` is what `x` has sent, `back` what `y` has. -/
structure Flow (f : ℕ) (W : List U8) (x y : Conn) (out back : List Msg) : Prop where
  sending : x.sender.Sending f W
  holding : y.receiver.Holding (Ring.Numbered f W) x.sender.top
  first : f ≤ y.tcb.rcv.lbr.toNat
  carries : ∀ m ∈ out, m.payload ≠ [] → Carries f W x.sender.top y.tcb.rcv m
  credit : Credit (offers back) y.tcb.rcv.nxt.toNat (y.tcb.rcv.lbr.toNat + 65535)
    x.tcb.snd.una.toNat (x.tcb.snd.una.toNat + x.tcb.snd.wnd.toNat)

/-- An endpoint in the data phase that has sent `out`. -/
structure Peer (c : Conn) (out : List Msg) : Prop where
  state : c.tcb.state = .established ∨ c.tcb.state = .closed
  pending : c.tcb.pendingReceivedFin = 0
  noFin : ∀ m ∈ out, m.hdr.hasFin = false
  queued : ∀ e ∈ c.tcb.retransmissionQueue, ∃ m ∈ out, m.hdr = e.tcpHeader

section Peer

variable {c c' : Conn} {out back : List Msg} {l : Label}

theorem Peer.opened (h : Peer c out) : c.tcb.state ≠ .synSent ∧ c.tcb.state ≠ .synReceived := by
  rcases h.state with hst | hst <;> simp [hst]

theorem DataEvent.hasFin {seg : Segment} (h : DataEvent back (.segment seg))
    (hback : ∀ m ∈ back, m.hdr.hasFin = false) : seg.hdr.hasFin = false := by
  cases h with
  | segment hm hh => rw [hh]; exact hback _ hm

theorem DataEvent.countsFin {ev : Event} (h : DataEvent back ev)
    (hback : ∀ m ∈ back, m.hdr.hasFin = false) : c.countsFin ev = false := by
  cases ev with
  | segment seg =>
    have hf := h.hasFin hback
    cases hs : c.tcb.state <;> simp [Conn.countsFin, hs, hf]
  | _ => rfl

/-- `pendingReceivedFin` keeps its initial zero, which RCV.NXT never is. -/
theorem Peer.reachesFin (h : Peer c out) (hs : Step c l c') (hnxt : c'.tcb.rcv.nxt ≠ 0)
    {seg : Segment} (hev : l.ev = .segment seg) : c.reachesFin seg = false := by
  by_contra hr
  apply hnxt
  rw [hs.nxt_of_reachesFin hev (Bool.eq_true_of_not_eq_false hr), h.pending]

theorem Peer.state_step (h : Peer c out) (hs : Step c l c') (hev : DataEvent back l.ev)
    (hback : ∀ m ∈ back, m.hdr.hasFin = false) (hnxt : c'.tcb.rcv.nxt ≠ 0) :
    c'.tcb.state = .established ∨ c'.tcb.state = .closed := by
  have hfin := fun seg (hl : l.ev = .segment seg) => (hl ▸ hev).hasFin hback
  have hreach := fun seg (hl : l.ev = .segment seg) => h.reachesFin hs hnxt hl
  have hm := hs.state
  have hst := h.state
  generalize c'.tcb.state = st at hm ⊢
  generalize l.ev = ev at hm hev hfin hreach
  cases hm with
  | same => exact hst
  | established => exact Or.inl rfl
  | synReceived hs => exact absurd hs h.opened.1
  | pendingFin _ hr => simp [hreach _ rfl] at hr
  | fin _ hf => simp [hfin _ rfl] at hf
  | finSent hc => rcases hc with rfl | rfl <;> cases hev
  | lastAcked | gaveUp | expired => exact Or.inr rfl
  | finAcked hs | finWait1Fin hs | finWait2Fin hs | closingAcked hs =>
    rcases hst with hst | hst <;> simp [hst] at hs

/-- A header that a step of the data phase puts on the wire: one of a queued segment, or an
acknowledgement of the state the step leaves. -/
theorem Peer.emits (h : Peer c out) (hs : Step c l c') (hev : DataEvent back l.ev)
    (hback : ∀ m ∈ back, m.hdr.hasFin = false) (hnxt : c'.tcb.rcv.nxt ≠ 0) {m : Msg}
    (hm : m ∈ l.out.msgs) :
    (∃ m' ∈ out, m.hdr = m'.hdr) ∨ m.hdr.hasFin = false ∧ m.hdr.ackNum = c'.tcb.rcv.nxt ∧
      m.hdr.windowSize = c'.tcb.rcv.wnd.setWidth 16 := by
  have hreach := fun seg (hl : l.ev = .segment seg) => h.reachesFin hs hnxt hl
  have hfin := fun seg (hl : l.ev = .segment seg) => (hl ▸ hev).hasFin hback
  have he := hs.emits hm
  generalize l.ev = ev at he hev hfin hreach
  cases he with
  | resent hp =>
    obtain ⟨m', hm', heq⟩ := h.queued _ hp
    exact Or.inl ⟨m', hm', heq.symm⟩
  | handshakeResent hc => rcases hc with rfl | rfl <;> cases hev
  | opening hs => exact absurd hs (not_or.mpr h.opened)
  | @acked seg hp hpos =>
    rw [if_neg (by simp [hreach seg rfl])]
    exact Or.inr ⟨createTCPHeader_hasFin .., rfl, rfl⟩
  | fin _ hf => simp [hfin _ rfl] at hf
  | finCounted hc => simp [hev.countsFin hback] at hc
  | finRepeated hs => rcases hs with hs | hs <;> rcases h.state with hst | hst <;> simp [hst] at hs
  | data _ _ _ _ hrcv =>
    exact Or.inr ⟨createTCPHeader_hasFin .., by rw [hrcv]; rfl, by rw [hrcv]; rfl⟩
  | probe _ _ hc' =>
    subst hc'
    exact Or.inr ⟨createTCPHeader_hasFin .., rfl, rfl⟩
  | closed hc => rcases hc with rfl | rfl <;> cases hev

/-- A step of the data phase. -/
theorem Peer.step (h : Peer c out) (hs : Step c l c') (hev : DataEvent back l.ev)
    (hback : ∀ m ∈ back, m.hdr.hasFin = false) (hnxt : c'.tcb.rcv.nxt ≠ 0) :
    Peer c' (out ++ l.out.msgs) where
  state := h.state_step hs hev hback hnxt
  pending := by
    rcases hs.pendingReceivedFin with hp | ⟨seg, hl, hf, -⟩
    · rw [hp, h.pending]
    · simp [(hl ▸ hev).hasFin hback] at hf
  noFin m hm := by
    rcases List.mem_append.mp hm with hm | hm
    · exact h.noFin m hm
    · rcases h.emits hs hev hback hnxt hm with ⟨m', hm', heq⟩ | hnew
      · rw [heq]; exact h.noFin m' hm'
      · exact hnew.1
  queued e he := by
    rcases hs.queued he with he | ⟨m, hm, heq, -⟩
    · obtain ⟨m, hm, heq⟩ := h.queued e he
      exact ⟨m, List.mem_append_left _ hm, heq⟩
    · exact ⟨m, List.mem_append_right _ hm, heq⟩

end Peer

section Flow

variable {f : ℕ} {W : List U8} {x x' y y' : Conn} {out back : List Msg} {l : Label}

theorem mem_offers_append {msgs : List Msg} {p : ℕ × ℕ} (h : p ∈ offers (back ++ msgs)) :
    p ∈ offers back ∨ p ∈ offers msgs := by
  obtain ⟨m, hm, hack, hp⟩ := h
  rcases List.mem_append.mp hm with hm | hm
  · exact Or.inl ⟨m, hm, hack, hp⟩
  · exact Or.inr ⟨m, hm, hack, hp⟩

theorem Carries.mono {top top' : ℕ} {r r' : Receive} {m : Msg} (h : Carries f W top r m)
    (htop : top ≤ top') (hnxt : r.nxt.toNat ≤ r'.nxt.toNat) (hlbr : r.lbr.toNat ≤ r'.lbr.toNat)
    (ws : List U8) : Carries f (W ++ ws) top' r' m where
  first := h.first
  le_top := h.le_top.trans htop
  bytes j b hj hle := (h.bytes j b hj (hnxt.trans hle)).append ws
  edge ho := (h.edge ho).trans (Nat.add_le_add_right hlbr _)
  probe := h.probe

/-- Outside the handshake SND.UNA and SND.WND move together, to an acknowledgement. -/
theorem SenderMove.offer {s : Sender} {ev : Event} (hm : SenderMove x ev s)
    (hopen : x.tcb.state ≠ .synSent ∧ x.tcb.state ≠ .synReceived) :
    s.snd.una = x.tcb.snd.una ∧ s.snd.wnd = x.tcb.snd.wnd ∨
      ∃ seg, ev = .segment seg ∧ x.takesAck seg.hdr = true ∧ s.snd.una = seg.hdr.ackNum ∧
        s.snd.wnd = seg.hdr.windowSize.setWidth 32 := by
  cases hm with
  | opened hs => exact absurd hs (not_or.mpr hopen)
  | @acked seg htakes => exact Or.inr ⟨seg, rfl, htakes, rfl, rfl⟩
  | _ => exact Or.inl ⟨rfl, rfl⟩

theorem DataEvent.quiet {ev : Event} (h : DataEvent back ev) :
    ev ≠ .close ∧ ev ≠ .closeWake ∧ ev ≠ .initCC ∧ ev ≠ .enableCC := by
  cases h <;> simp

/-- A segment cut out of the send buffer, inside the offer that the sender goes by. -/
theorem Flow.carries_load (h : Flow f W x y out back) {top q len : ℕ} {m : Msg}
    (ho : m.origin ≠ .probe) (hq : m.hdr.seqNum.toNat = q)
    (hp : m.payload = Ring.load 65535 x.tcb.snd.buffer q len)
    (hlo : max x.tcb.snd.una.toNat f ≤ q) (hlbw : q + len ≤ x.tcb.snd.lbw.toNat)
    (htop : q + len ≤ top) (hwnd : q + len ≤ x.tcb.snd.una.toNat + x.tcb.snd.wnd.toNat) :
    Carries f W top y.tcb.rcv m where
  first := by omega
  le_top := by rwa [hp, Ring.load_length, hq]
  bytes j b hj _ := by
    rw [hp] at hj
    rw [hq]
    exact h.sending.held.load hlo hlbw hj
  edge _ := by
    rw [hp, Ring.load_length, hq]
    exact hwnd.trans h.credit.held_le
  probe hprobe := absurd hprobe ho

theorem Flow.emitted (h : Flow f W x y out back) {ev : Event} {m : Msg}
    (he : Emits x x' ev m) (htop : x.sender.top ≤ x'.sender.top) (hpay : m.payload ≠ []) :
    Carries f W x'.sender.top y.tcb.rcv m := by
  have hnxt : x.tcb.snd.nxt.toNat ≤ x.sender.top := Nat.le_add_right _ _
  have hfirst : f ≤ x.tcb.snd.nxt.toNat := h.sending.first
  have hedge : x.tcb.snd.nxt.toNat ≤ x.tcb.snd.una.toNat + x.tcb.snd.wnd.toNat := h.sending.edge
  cases he with
  | @resent _ p hp =>
    obtain ⟨hlo, hhi⟩ := h.sending.queue p hp
    have hroom := h.sending.room
    have hle := h.sending.paced.le
    simp only [Conn.sender_snd, RetransmitSegment.lo, RetransmitSegment.len] at hlo hhi hroom hle
    rw [BitVec.le_def] at hle
    exact h.carries_load (q := p.tcpHeader.seqNum.toNat) (by simp [TCB.resendMsg]) rfl
      (retransmitPayload_eq x.tcb p (by omega)) hlo (by omega) (by omega) (by omega)
  | @data a b hpc _ _ hnxt' =>
    have huna : x.tcb.snd.una.toNat ≤ x.tcb.snd.nxt.toNat := h.sending.una_le (by simp [hpc])
    have hsum := (h.sending.paced.transmit a b hpc).2
    have hwnd := h.sending.transmit a b hpc
    have hlen := segmentLength_le_sub a b
    simp only [Conn.sender_snd] at hsum hwnd
    have hend : x.tcb.snd.nxt.toNat + (segmentLength a b).toNat ≤ x'.sender.top := by
      refine le_trans ?_ (Nat.le_add_right _ _)
      rw [Conn.sender_snd, hnxt', BitVec.toNat_add]
      omega
    exact h.carries_load (q := x.tcb.snd.nxt.toNat) (by simp [TCB.freshMsg, TCB.dataMsg]) rfl rfl
      (by omega) (by omega) hend (by omega)
  | probe hz =>
    have hlt : x.tcb.snd.nxt < x.tcb.snd.lbw := h.sending.paced.zero hz
    have huna := h.credit.una_le
    refine ⟨hfirst, ?_, fun j b hj hle => ?_, fun ho => absurd rfl ho, fun _ => rfl⟩
    · rwa [Sender.top_of_eq hz] at htop
    · obtain ⟨rfl, rfl⟩ : j = 0 ∧ _ = b := by
        rcases j with _ | j
        · exact ⟨rfl, Option.some.inj hj⟩
        · simp [TCB.dataMsg] at hj
      -- the receiver has not taken the byte, so it is not acknowledged and is still in the buffer
      have hle' : y.tcb.rcv.nxt.toNat ≤ x.tcb.snd.nxt.toNat := hle
      have hheld := h.sending.held x.tcb.snd.nxt.toNat
        (Nat.max_le.mpr ⟨huna.trans hle', hfirst⟩) hlt
      rw [toNat_sequenceToBufferInd]
      exact hheld
  | handshakeResent _ hm => rcases hm with rfl | rfl <;> exact absurd rfl hpay
  | opening _ hm => exact absurd hm.1 hpay
  | acked | fin | finCounted | finRepeated | closed => exact absurd rfl hpay

theorem hasAck_of_takesAck {hdr : TCPFields} (h : x.takesAck hdr = true) : hdr.hasAck = true := by
  simp only [Conn.takesAck, Conn.passesToReceive, Bool.and_eq_true] at h
  exact h.1.1

/-- The offer a side goes over to when it takes an acknowledgement. -/
theorem Flow.taken (h : Flow f W x y out back) {seg : Segment} (hev : DataEvent back (.segment seg))
    (ht : x.takesAck seg.hdr = true) :
    ((seg.hdr.ackNum.toNat, seg.hdr.ackNum.toNat + seg.hdr.windowSize.toNat) ∈ offers back) ∧
      seg.hdr.ackNum.toNat ≤ x.sender.top ∧ x.tcb.snd.una.toNat + x.tcb.snd.wnd.toNat ≤
        seg.hdr.ackNum.toNat + seg.hdr.windowSize.toNat := by
  have hlt := una_lt_of_takesAck ht
  obtain ⟨m, hm, hh⟩ : ∃ m ∈ back, seg.hdr = m.hdr := by
    cases hev with
    | segment hm hh => exact ⟨_, hm, hh⟩
  have hmem : (seg.hdr.ackNum.toNat, seg.hdr.ackNum.toNat + seg.hdr.windowSize.toNat) ∈
      offers back := ⟨m, hm, hh ▸ hasAck_of_takesAck ht, by rw [hh]⟩
  exact ⟨hmem, (h.credit.next_le _ hmem).trans h.holding.nxt_le, h.credit.ahead _ hmem hlt⟩

/-- The writer's side moves. -/
theorem Flow.send (h : Flow f W x y out back) (hpeer : Peer x out) (hs : Step x l x')
    (hev : DataEvent back l.ev) (hlbw : x.tcb.snd.lbw ≤ x'.tcb.snd.lbw) :
    Flow f (W ++ x.written l.ev) x' y (out ++ l.out.msgs) back := by
  have hm := hs.sender
  have htop := h.sending.top_mono hm hpeer.state ⟨hev.quiet.1, hev.quiet.2.1⟩
  refine ⟨h.sending.move hm hpeer.state hev.quiet ?_ hlbw, ?_, h.first, fun m hmem hpay => ?_, ?_⟩
  · intro seg hl ht
    exact (h.taken (hl ▸ hev) ht).2
  · exact h.holding.mono htop fun q b hq => hq.append _
  · rcases List.mem_append.mp hmem with hmem | hmem
    · exact (h.carries m hmem hpay).mono htop (Nat.le_refl _) (Nat.le_refl _) _
    · exact (h.emitted (hs.emits hmem) htop hpay).mono (Nat.le_refl _) (Nat.le_refl _)
        (Nat.le_refl _) _
  · rcases hm.offer hpeer.opened with ⟨hu, hw⟩ | ⟨seg, hl, ht, hu, hw⟩
    · simp only [Conn.sender_snd] at hu hw
      rw [hu, hw]
      exact h.credit
    · simp only [Conn.sender_snd] at hu hw
      have hwnd : (seg.hdr.windowSize.setWidth 32).toNat = seg.hdr.windowSize.toNat := by
        rw [BitVec.toNat_setWidth]
        omega
      rw [hu, hw, hwnd]
      exact h.credit.accept (h.taken (hl ▸ hev) ht).1

/-- The reader's side moves. -/
theorem Flow.receive (h : Flow f W x y out back) (hf : 0 < f) (hpeer : Peer y back)
    (hout : ∀ m ∈ out, m.hdr.hasFin = false) (hs : Step y l y') (hev : DataEvent out l.ev) :
    Flow f W x y' out (back ++ l.out.msgs) ∧ y'.tcb.rcv.nxt ≠ 0 := by
  have hhi : x.sender.top < 2 ^ 32 := h.sending.top_le.trans_lt x.tcb.snd.lbw.isLt
  obtain ⟨hhold, hnxt, hlbr⟩ := h.holding.move hs.receiver hhi hpeer.opened.1
    (hev.countsFin hout) fun seg hl hpos hlo _ _ => by
      obtain ⟨m, hm, hh, hp⟩ : ∃ m ∈ out, seg.hdr = m.hdr ∧ seg.payload = m.payload := by
        rw [hl] at hev
        cases hev with
        | segment hm hh hp => exact ⟨_, hm, hh, hp⟩
      rw [hp] at hpos ⊢
      rw [hh] at hlo ⊢
      have hc := h.carries m hm (List.ne_nil_of_length_pos hpos)
      refine ⟨hc.le_top, fun j b hj => hc.bytes j b hj ?_⟩
      exact (BitVec.le_def.mp hlo).trans (Nat.le_add_right _ _)
  simp only [Conn.receiver_rcv] at hnxt hlbr
  have hfirst := h.first
  have hle := hhold.lbr_le
  simp only [Conn.receiver_rcv] at hle
  have hne : y'.tcb.rcv.nxt ≠ 0 := by
    intro h0
    rw [h0] at hle
    bv_omega
  refine ⟨⟨h.sending, hhold, hfirst.trans hlbr, fun m hm hpay => ?_, ?_⟩, hne⟩
  · simpa using (h.carries m hm hpay).mono (Nat.le_refl _) hnxt hlbr []
  · refine (h.credit.grow hnxt (Nat.add_le_add_right hlbr _)).offer fun p hp => ?_
    rcases mem_offers_append hp with hp | ⟨m, hm, hack, rfl⟩
    · exact Or.inl hp
    rcases hpeer.emits hs hev hout hne hm with ⟨m', hm', heq⟩ | ⟨-, ha, hw⟩
    · exact Or.inl ⟨m', hm', heq ▸ hack, by rw [heq]⟩
    · have hwnd := hhold.wnd
      simp only [Conn.receiver_rcv] at hwnd
      have hw' : (y'.tcb.rcv.wnd.setWidth 16).toNat = y'.tcb.rcv.wnd.toNat := by
        rw [BitVec.toNat_setWidth]
        omega
      rw [ha, hw, hw']
      exact Or.inr (by rw [Prod.mk.injEq]; omega)

end Flow

end TcpIp
