import TcpIp.Lib.Spans
import TcpIp.Tcp.SendPointers

/-! The sending half towards a peer whose acknowledgements can be trusted. -/
namespace TcpIp

open RetransmitSegment (lo len)

/-- The end of what has been put on the wire; a byte that is probed counts. -/
def Sender.top (s : Sender) : ℕ := s.snd.nxt.toNat + if s.pc = .zeroWait then 1 else 0

/-- The sending half of the stream `W`, numbered from `f` on, with congestion control off. -/
structure Sender.Sending (f : ℕ) (W : List U8) (s : Sender) : Prop where
  lbw : s.snd.lbw.toNat = f + W.length
  first : f ≤ s.snd.nxt.toNat
  room : s.snd.lbw.toNat ≤ s.snd.una.toNat + 65535
  held : Ring.Holds 65535 s.snd.buffer (Ring.Numbered f W) (max s.snd.una.toNat f) s.snd.lbw.toNat
  paced : s.Paced
  wnd : s.snd.wnd.toNat ≤ 65535
  /-- nothing was sent past the peer's offer -/
  edge : s.snd.nxt.toNat ≤ s.snd.una.toNat + s.snd.wnd.toNat
  transmit : ∀ a b, s.pc = .transmit a b →
    s.snd.nxt.toNat + (a - b).toNat ≤ s.snd.una.toNat + s.snd.wnd.toNat
  una : s.snd.una.toNat ≤ s.top
  /-- in the zero-window wait only the probed byte can be acknowledged, and then the window opens -/
  zero : s.pc = .zeroWait → s.snd.nxt.toNat ≤ s.snd.una.toNat ∧
    (s.snd.wnd ≠ 0 → s.snd.una.toNat = s.snd.nxt.toNat + 1)
  queue : ∀ e ∈ s.queue, max s.snd.una.toNat f ≤ lo e ∧ lo e + len e ≤ s.snd.nxt.toNat
  ordered : Spans.Ordered lo len s.queue
  cwnd : s.cwnd = maxBufSize
  congestion : s.congestion = false
  cancelled : s.cancelled = false

section Sending

variable {f : ℕ} {W : List U8} {c : Conn} {s : Sender} {ev : Event} {pc : SendPc}

theorem Sender.top_of_ne (h : s.pc ≠ .zeroWait) : s.top = s.snd.nxt.toNat := by
  simp [Sender.top, h]

theorem Sender.top_of_eq (h : s.pc = .zeroWait) : s.top = s.snd.nxt.toNat + 1 := by
  simp [Sender.top, h]

theorem Sender.Sending.top_le (h : s.Sending f W) : s.top ≤ s.snd.lbw.toNat := by
  have hle := h.paced.le
  by_cases hz : s.pc = .zeroWait
  · have := h.paced.zero hz
    rw [Sender.top_of_eq hz]
    bv_omega
  · rw [Sender.top_of_ne hz]
    exact hle

theorem Sender.Sending.una_le (h : s.Sending f W) (hz : s.pc ≠ .zeroWait) :
    s.snd.una.toNat ≤ s.snd.nxt.toNat := by
  have := h.una
  rwa [Sender.top_of_ne hz] at this

/-- What `Send` sets out to transmit ends inside the peer's offer. -/
theorem Sender.Sending.amountToSend_le (h : c.sender.Sending f W) (hz : c.send ≠ .zeroWait) :
    c.tcb.snd.nxt.toNat + c.tcb.amountToSend.toNat ≤
      c.tcb.snd.una.toNat + c.tcb.snd.wnd.toNat := by
  have hedge := h.edge
  have hwnd := h.wnd
  have huna := h.una_le hz
  have hcwnd := h.cwnd
  simp only [Conn.sender_snd, Conn.sender_cwnd] at hedge hwnd huna hcwnd
  have hmin : min32 c.tcb.snd.wnd c.tcb.cwnd = c.tcb.snd.wnd := by
    apply BitVec.eq_of_toNat_eq
    rw [toNat_min32, hcwnd, toNat_maxBufSize]
    omega
  simp only [TCB.amountToSend, toNat_min32, hmin]
  bv_omega

/-- A step of `Send` that changes nothing but its place. -/
theorem Sender.Sending.jump (h : c.sender.Sending f W) (hj : Jump c.tcb c.send pc)
    (hz : c.send = .zeroWait → c.tcb.cancelled = true ∨ c.tcb.snd.wnd = 0 ∧ pc = .zeroWait)
    (hp : ({ c.sender with pc } : Sender).Paced) :
    ({ c.sender with pc } : Sender).Sending f W := by
  by_cases hzero : c.send = .zeroWait
  · rcases hz hzero with hcan | ⟨-, rfl⟩
    · have := h.cancelled
      simp [hcan] at this
    · exact hzero ▸ h
  · have huna := h.una_le hzero
    have hedge := h.edge
    have hamount := h.amountToSend_le hzero
    simp only [Conn.sender_snd] at huna hedge
    refine { h with paced := hp, transmit := fun a b hab => ?_, una := ?_, zero := fun hpc => ?_ }
    · generalize c.send = pc₀ at hj hzero
      cases hj with
      | idle hi => rcases hi with rfl | rfl | ⟨rfl, -⟩ <;> cases hab
      | transmit =>
        obtain ⟨rfl, rfl⟩ := SendPc.transmit.inj hab
        simpa using hamount
      | _ => cases hab
    · exact huna.trans (Nat.le_add_right _ _)
    · generalize c.send = pc₀ at hj hzero
      cases hj with
      | idle => exact absurd hpc hzero
      | zeroWait hw =>
        simp only [Conn.sender_snd, hw] at hedge ⊢
        simpa using hedge
      | _ => cases hpc

/-- A fresh segment of the transmit loop. -/
theorem Sender.Sending.segment (h : c.sender.Sending f W) {a b : U32}
    (hpc : c.send = .transmit a b)
    (hs : s = { c.sender with
      snd := { c.tcb.snd with nxt := c.tcb.snd.nxt + segmentLength a b }
      queue := c.tcb.retransmissionQueue ++
        [⟨(c.tcb.freshMsg c.key (segmentLength a b)).hdr, segmentLength a b⟩]
      pc := .transmit a (b + segmentLength a b) }) (hp : s.Paced) : s.Sending f W := by
  have huna : c.tcb.snd.una.toNat ≤ c.tcb.snd.nxt.toNat := h.una_le (by simp [hpc])
  have hfirst : f ≤ c.tcb.snd.nxt.toNat := h.first
  obtain ⟨hba, hsum⟩ := h.paced.transmit a b hpc
  have htr := h.transmit a b hpc
  have hlen := segmentLength_le_sub a b
  simp only [Conn.sender_snd] at hsum htr
  have hnxt : (c.tcb.snd.nxt + segmentLength a b).toNat =
      c.tcb.snd.nxt.toNat + (segmentLength a b).toNat := by
    rw [BitVec.toNat_add]
    omega
  have hqueue : ∀ e ∈ c.tcb.retransmissionQueue,
      max c.tcb.snd.una.toNat f ≤ lo e ∧ lo e + len e ≤ c.tcb.snd.nxt.toNat := h.queue
  subst hs
  refine { h with
    first := ?_, paced := hp, edge := ?_, transmit := fun a' b' hab => ?_, una := ?_
    zero := by simp, queue := fun e he => ?_, ordered := h.ordered.snoc fun e he => ?_ }
  · simp only [hnxt]
    omega
  · simp only [hnxt]
    omega
  · obtain ⟨rfl, rfl⟩ := SendPc.transmit.inj hab
    simp only
    bv_omega
  · rw [Sender.top_of_ne (by simp)]
    simp only [hnxt]
    omega
  · simp only [hnxt]
    rcases List.mem_append.mp he with he | he
    · have := hqueue e he
      omega
    · rw [List.mem_singleton.mp he]
      exact ⟨Nat.max_le.mpr ⟨huna, hfirst⟩, Nat.le_refl _⟩
  · exact (hqueue e he).2

/-- The end of a zero-window wait, after the probed byte was acknowledged. -/
theorem Sender.Sending.zeroExit (h : c.sender.Sending f W) (hpc : c.send = .zeroWait)
    (hw : c.tcb.snd.wnd ≠ 0) (hpc' : pc = .returned ∨ pc = .windowWait ∨ pc = .top)
    (hs : s = { c.sender with snd := { c.tcb.snd with nxt := c.tcb.snd.nxt + 1 }, pc })
    (hp : s.Paced) : s.Sending f W := by
  have htr : ∀ a b, pc ≠ .transmit a b := by rcases hpc' with rfl | rfl | rfl <;> simp
  have hz : pc ≠ .zeroWait := by rcases hpc' with rfl | rfl | rfl <;> simp
  have hlt : c.tcb.snd.nxt < c.tcb.snd.lbw := h.paced.zero hpc
  have huna : c.tcb.snd.una.toNat = c.tcb.snd.nxt.toNat + 1 := (h.zero hpc).2 hw
  have hnxt : (c.tcb.snd.nxt + 1).toNat = c.tcb.snd.nxt.toNat + 1 := by bv_omega
  have hfirst := h.first
  have hqueue := h.queue
  simp only [Conn.sender_snd, Conn.sender_queue] at hfirst hqueue
  subst hs
  refine { h with
    first := ?_, paced := hp, edge := ?_, transmit := fun a b hab => absurd hab (htr a b)
    una := ?_, zero := fun hpc => absurd hpc hz, queue := fun e he => ?_ }
  · simp only [hnxt]
    omega
  · simp only [hnxt]
    omega
  · rw [Sender.top_of_ne hz]
    simp only [hnxt]
    omega
  · have := hqueue e he
    simp only [hnxt]
    omega

/-- An acknowledgement that goes by a later offer of the peer. -/
theorem Sender.Sending.acked (h : c.sender.Sending f W) {hdr : TCPFields}
    (hlt : c.tcb.snd.una < hdr.ackNum) (htop : hdr.ackNum.toNat ≤ c.sender.top)
    (hoffer : c.tcb.snd.una.toNat + c.tcb.snd.wnd.toNat ≤
      hdr.ackNum.toNat + hdr.windowSize.toNat)
    (hs : s = { c.sender with
      snd := { c.tcb.snd with wnd := hdr.windowSize.setWidth 32, una := hdr.ackNum }
      queue := c.tcb.retransmissionQueue.dropWhile fun r => r.tcpHeader.seqNum < hdr.ackNum
      cwnd := c.ackedCwnd }) : s.Sending f W := by
  have hwnd : (hdr.windowSize.setWidth 32).toNat = hdr.windowSize.toNat := by
    rw [BitVec.toNat_setWidth]
    omega
  have hcwnd : c.ackedCwnd = c.tcb.cwnd := by
    have hcc : c.tcb.cControlEnabled = false := h.congestion
    simp [Conn.ackedCwnd, hcc]
  have hroom := h.room
  have hedge := h.edge
  have htr := h.transmit
  have hz := h.zero
  rw [BitVec.lt_def] at hlt
  simp only [Conn.sender_snd, Conn.sender_pc] at hroom hedge htr hz
  rw [hcwnd] at hs
  subst hs
  refine { h with
    room := ?_, held := h.held.sub ?_ (Nat.le_refl _), paced := { h.paced with }, wnd := ?_
    edge := ?_, transmit := fun a b hab => ?_, una := htop, zero := fun hpc => ?_
    queue := fun e he => ?_, ordered := h.ordered.sublist (List.dropWhile_sublist _) }
  · simp only
    omega
  · simp only [Conn.sender_snd]
    omega
  · simp only [hwnd]
    omega
  · simp only [hwnd]
    omega
  · have := htr a b hab
    simp only [hwnd]
    omega
  · -- only the probed byte lies above SND.UNA
    have hnu := (hz hpc).1
    have htop' : c.sender.top = c.tcb.snd.nxt.toNat + 1 := Sender.top_of_eq hpc
    simp only
    omega
  · have hmem : e ∈ c.tcb.retransmissionQueue := (List.dropWhile_sublist _).subset he
    have hlo : hdr.ackNum.toNat ≤ lo e := h.ordered.le_of_mem_dropWhile he
    have := h.queue e hmem
    simp only [Conn.sender_snd] at this ⊢
    omega

/-- The ring after `xs` was written to the end of the stream. -/
theorem holds_written {buf : ℕ → U8} {lbw una : ℕ} {xs : List U8}
    (h : Ring.Holds 65535 buf (Ring.Numbered f W) (max una f) lbw) (hlbw : lbw = f + W.length)
    (huna : una ≤ lbw) (hroom : lbw + xs.length ≤ una + 65535) :
    Ring.Holds 65535 (Ring.store 65535 buf lbw xs) (Ring.Numbered f (W ++ xs)) (max una f)
      (lbw + xs.length) := by
  have hnew : ∀ j b, xs[j]? = some b → Ring.Numbered f (W ++ xs) (lbw + j) b := by
    intro j b hj
    rw [hlbw]
    exact Ring.numbered_append_right hj
  have hold : Ring.Holds 65535 buf (Ring.Numbered f (W ++ xs)) (max una f) lbw :=
    h.mono (Nat.le_refl _) (Nat.le_refl _) fun q b hq => hq.append xs
  have hleft := hold.store (by omega) hnew (Nat.le_max_left una f) (by omega) huna hroom
  exact hleft.append (Ring.holds_store (by omega) (by omega) hnew)

/-- Bytes written to the end of the stream. -/
theorem Sender.Sending.wrote (h : c.sender.Sending f W) {data : List U8} {buffer : ℕ → U8}
    (hb : (c.tcb.snd.lbw - c.tcb.snd.una).toNat ≤ 65535 →
      buffer = Ring.store 65535 c.tcb.snd.buffer c.tcb.snd.lbw.toNat
        (data.take (c.tcb.snd.writable data).toNat))
    (hs : s = { c.sender with
      snd := { c.tcb.snd with buffer, lbw := c.tcb.snd.lbw + c.tcb.snd.writable data } })
    (hlbw : c.tcb.snd.lbw ≤ s.snd.lbw) (hp : s.Paced) :
    s.Sending f (W ++ data.take (c.tcb.snd.writable data).toNat) := by
  have hle : c.tcb.snd.una.toNat ≤ c.tcb.snd.lbw.toNat := h.una.trans h.top_le
  have hlen : c.tcb.snd.lbw.toNat = f + W.length := h.lbw
  have hroom : c.tcb.snd.lbw.toNat ≤ c.tcb.snd.una.toNat + 65535 := h.room
  have hsub : (c.tcb.snd.lbw - c.tcb.snd.una).toNat =
      c.tcb.snd.lbw.toNat - c.tcb.snd.una.toNat := by bv_omega
  have hfit := Send.writable_add_le (s := c.tcb.snd) data (by omega)
  have htake : (data.take (c.tcb.snd.writable data).toNat).length =
      (c.tcb.snd.writable data).toNat := by
    simp [c.tcb.snd.writable_le_length data]
  have hheld : Ring.Holds 65535 _ (Ring.Numbered f
      (W ++ data.take (c.tcb.snd.writable data).toNat)) _ _ :=
    holds_written h.held hlen hle (by rw [htake]; simp only [Conn.sender_snd]; omega)
  have hlbw' : s.snd.lbw.toNat = c.tcb.snd.lbw.toNat + (c.tcb.snd.writable data).toNat := by
    rw [hs] at hlbw ⊢
    simp only at hlbw ⊢
    bv_omega
  -- the buffer stays opaque, so that the other fields are compared without looking into it
  have hbuf := hb (by omega)
  subst hs
  simp only at hlbw'
  refine { h with lbw := ?_, room := ?_, held := ?_, paced := hp }
  · rw [hlbw', List.length_append, htake]
    omega
  · simp only [hlbw']
    omega
  · simp only [hlbw', hbuf]
    rw [htake] at hheld
    exact hheld

/-- One step of the sending half in the data phase. -/
theorem Sender.Sending.move (h : c.sender.Sending f W) (hm : SenderMove c ev s)
    (hst : c.tcb.state = .established ∨ c.tcb.state = .closed)
    (hev : ev ≠ .close ∧ ev ≠ .closeWake ∧ ev ≠ .initCC ∧ ev ≠ .enableCC)
    (hack : ∀ seg, ev = .segment seg → c.takesAck seg.hdr = true →
      seg.hdr.ackNum.toNat ≤ c.sender.top ∧ c.tcb.snd.una.toNat + c.tcb.snd.wnd.toNat ≤
        seg.hdr.ackNum.toNat + seg.hdr.windowSize.toNat)
    (hlbw : c.tcb.snd.lbw ≤ s.snd.lbw) : s.Sending f (W ++ c.written ev) := by
  have hopen : c.tcb.state ≠ .synSent ∧ c.tcb.state ≠ .synReceived := by
    rcases hst with hst | hst <;> simp [hst]
  have hp := h.paced.move hm hopen ⟨hev.1, fun hw => absurd hw hev.2.1⟩ hlbw
  have hcc : c.tcb.cControlEnabled = false := h.congestion
  have hnil : ∀ {s : Sender} {ev : Event}, c.written ev = [] → s.Sending f W →
      s.Sending f (W ++ c.written ev) := by
    intro s ev hw hs
    rw [hw, List.append_nil]
    exact hs
  cases hm with
  | same _ _ hw => exact hnil hw h
  | opened hs => exact absurd hs (not_or.mpr hopen)
  | wrote _ hw hb =>
    rw [hw]
    exact h.wrote hb rfl hlbw hp
  | jump hj hz => exact hnil rfl (h.jump hj hz hp)
  | segment hpc => exact hnil rfl (h.segment hpc rfl hp)
  | zeroExit hpc hw _ _ hpc' => exact hnil rfl (h.zeroExit hpc hw hpc' rfl hp)
  | acked htakes =>
    obtain ⟨htop, hoffer⟩ := hack _ rfl htakes
    exact hnil rfl (h.acked (una_lt_of_takesAck htakes) htop hoffer rfl)
  | loss hloss =>
    cases ev <;> simp [Conn.seesLoss, TCB.thirdDuplicate, hcc] at hloss
  | initCC => exact absurd rfl hev.2.2.1
  | enableCC => exact absurd rfl hev.2.2.2
  | finSent hfin =>
    rcases hfin with rfl | ⟨rfl, -⟩
    · exact absurd rfl hev.1
    · exact absurd rfl hev.2.1
  | lastAcked hs => rcases hst with hst | hst <;> simp [hst] at hs

theorem Sender.Sending.top_mono (h : c.sender.Sending f W) (hm : SenderMove c ev s)
    (hst : c.tcb.state = .established ∨ c.tcb.state = .closed)
    (hev : ev ≠ .close ∧ ev ≠ .closeWake) : c.sender.top ≤ s.top := by
  cases hm with
  | opened hs => rcases hst with hst | hst <;> simp [hst] at hs
  | jump _ hz =>
    by_cases hzero : c.send = .zeroWait
    · rcases hz hzero with hcan | ⟨-, rfl⟩
      · have := h.cancelled
        simp [hcan] at this
      · rw [Sender.top_of_eq hzero, Sender.top_of_eq rfl]
    · rw [Sender.top_of_ne hzero]
      exact Nat.le_add_right _ _
  | @segment a b hpc =>
    have hsum := (h.paced.transmit a b hpc).2
    have hlen := segmentLength_le_sub a b
    rw [Sender.top_of_ne (by simp [hpc]), Sender.top_of_ne (by simp)]
    simp only [Conn.sender_snd] at hsum ⊢
    rw [BitVec.toNat_add]
    omega
  | zeroExit hpc =>
    have hlt : c.tcb.snd.nxt < c.tcb.snd.lbw := h.paced.zero hpc
    rw [Sender.top_of_eq hpc]
    refine le_trans ?_ (Nat.le_add_right _ _)
    simp only [Conn.sender_snd]
    bv_omega
  | finSent hfin =>
    rcases hfin with rfl | ⟨rfl, -⟩
    · exact absurd rfl hev.1
    · exact absurd rfl hev.2
  | lastAcked hs => rcases hst with hst | hst <;> simp [hst] at hs
  | _ => exact Nat.le_refl _

end Sending

end TcpIp
