import TcpIp.Net.Sending

/-! The sending half as the source of a stream, whatever the windows are: congestion control may be
turned on at any time and shrink its window below what is already out. -/
namespace TcpIp

open RetransmitSegment (lo len)

/-- All of the stream `W` that is not acknowledged is in the ring, the queue lies inside it, and
nothing is acknowledged that was not put on the wire. -/
structure Sender.Backed (f : ℕ) (W : List U8) (s : Sender) : Prop where
  lbw : s.snd.lbw.toNat = f + W.length
  first : f ≤ s.snd.nxt.toNat
  room : s.snd.lbw.toNat ≤ s.snd.una.toNat + 65535
  held : Ring.Holds 65535 s.snd.buffer (Ring.Numbered f W) (max s.snd.una.toNat f) s.snd.lbw.toNat
  paced : s.Paced
  una : s.snd.una.toNat ≤ s.top
  queue : ∀ e ∈ s.queue, max s.snd.una.toNat f ≤ lo e ∧ lo e + len e ≤ s.snd.nxt.toNat
  ordered : Spans.Ordered lo len s.queue
  cancelled : s.cancelled = false

section Backed

variable {f : ℕ} {W : List U8} {c : Conn} {s : Sender} {ev : Event} {pc : SendPc}

theorem Sender.Sending.backed (h : s.Sending f W) : s.Backed f W :=
  ⟨h.lbw, h.first, h.room, h.held, h.paced, h.una, h.queue, h.ordered, h.cancelled⟩

theorem Sender.Paced.top_le (h : s.Paced) : s.top ≤ s.snd.lbw.toNat := by
  have hle := h.le
  by_cases hz : s.pc = .zeroWait
  · have := h.zero hz
    rw [Sender.top_of_eq hz]
    bv_omega
  · rw [Sender.top_of_ne hz]
    exact hle

/-- What is on the wire only grows before the FIN. -/
theorem Sender.Backed.top_mono (h : c.sender.Backed f W) (hm : SenderMove c ev s)
    (hopen : c.tcb.state ≠ .synSent ∧ c.tcb.state ≠ .synReceived)
    (hev : ev ≠ .close ∧ ev ≠ .closeWake) : c.sender.top ≤ s.top := by
  cases hm with
  | opened hs => exact absurd hs (not_or.mpr hopen)
  | jump _ hz =>
    by_cases hzero : c.send = .zeroWait
    · rcases hz hzero with hcan | ⟨-, rfl⟩
      · have := h.cancelled
        simp [hcan] at this
      · rw [Sender.top_of_eq hzero, Sender.top_of_eq rfl]
    · rw [Sender.top_of_ne hzero]
      exact Nat.le_add_right _ _
  | @segment a b hpc =>
    have hsum := (h.paced.transmit a b hpc).2
    have hlen := segmentLength_le_sub a b
    rw [Sender.top_of_ne (by simp [hpc]), Sender.top_of_ne (by simp)]
    simp only [Conn.sender_snd] at hsum ⊢
    rw [BitVec.toNat_add]
    omega
  | zeroExit hpc =>
    have hlt : c.tcb.snd.nxt < c.tcb.snd.lbw := h.paced.zero hpc
    rw [Sender.top_of_eq hpc]
    refine le_trans ?_ (Nat.le_add_right _ _)
    simp only [Conn.sender_snd]
    bv_omega
  | finSent hfin =>
    rcases hfin with rfl | ⟨rfl, -⟩
    · exact absurd rfl hev.1
    · exact absurd rfl hev.2
  | _ => exact Nat.le_refl _

/-- A fresh segment of the transmit loop. -/
theorem Sender.Backed.segment (h : c.sender.Backed f W) {a b : U32}
    (hpc : c.send = .transmit a b)
    (hs : s = { c.sender with
      snd := { c.tcb.snd with nxt := c.tcb.snd.nxt + segmentLength a b }
      queue := c.tcb.retransmissionQueue ++
        [⟨(c.tcb.freshMsg c.key (segmentLength a b)).hdr, segmentLength a b⟩]
      pc := .transmit a (b + segmentLength a b) })
    (hp : s.Paced) (htop : c.sender.top ≤ s.top) : s.Backed f W := by
  have huna : c.tcb.snd.una.toNat ≤ c.tcb.snd.nxt.toNat := by
    have := h.una
    rwa [Sender.top_of_ne (by simp [hpc])] at this
  have hfirst : f ≤ c.tcb.snd.nxt.toNat := h.first
  have hsum := (h.paced.transmit a b hpc).2
  have hlen := segmentLength_le_sub a b
  simp only [Conn.sender_snd] at hsum
  have hnxt : (c.tcb.snd.nxt + segmentLength a b).toNat =
      c.tcb.snd.nxt.toNat + (segmentLength a b).toNat := by
    rw [BitVec.toNat_add]
    omega
  have hqueue : ∀ e ∈ c.tcb.retransmissionQueue,
      max c.tcb.snd.una.toNat f ≤ lo e ∧ lo e + len e ≤ c.tcb.snd.nxt.toNat := h.queue
  have hout : s.snd.una.toNat ≤ s.top := by
    rw [hs] at htop ⊢
    exact h.una.trans htop
  subst hs
  refine { h with
    first := ?_, paced := hp, una := hout, queue := fun e he => ?_
    ordered := h.ordered.snoc fun e he => (hqueue e he).2 }
  · simp only [hnxt]
    omega
  · simp only [hnxt]
    rcases List.mem_append.mp he with he | he
    · have := hqueue e he
      omega
    · rw [List.mem_singleton.mp he]
      exact ⟨Nat.max_le.mpr ⟨huna, hfirst⟩, Nat.le_refl _⟩

/-- An acknowledgement of something that is on the wire. -/
theorem Sender.Backed.acked (h : c.sender.Backed f W) {hdr : TCPFields} {wnd cwnd : U32}
    (hlt : c.tcb.snd.una < hdr.ackNum) (htop : hdr.ackNum.toNat ≤ c.sender.top)
    (hs : s = { c.sender with
      snd := { c.tcb.snd with wnd, una := hdr.ackNum }
      queue := c.tcb.retransmissionQueue.dropWhile fun r => r.tcpHeader.seqNum < hdr.ackNum
      cwnd }) : s.Backed f W := by
  have hroom := h.room
  rw [BitVec.lt_def] at hlt
  simp only [Conn.sender_snd] at hroom
  subst hs
  refine { h with
    room := ?_, held := h.held.sub ?_ (Nat.le_refl _), paced := { h.paced with }, una := htop
    queue := fun e he => ?_, ordered := h.ordered.sublist (List.dropWhile_sublist _) }
  · simp only
    omega
  · simp only [Conn.sender_snd]
    omega
  · have hmem : e ∈ c.tcb.retransmissionQueue := (List.dropWhile_sublist _).subset he
    have hlo : hdr.ackNum.toNat ≤ lo e := h.ordered.le_of_mem_dropWhile he
    have := h.queue e hmem
    simp only [Conn.sender_snd] at this ⊢
    omega

/-- Bytes written to the end of the stream. -/
theorem Sender.Backed.wrote (h : c.sender.Backed f W) {data : List U8} {buffer : ℕ → U8}
    (hb : (c.tcb.snd.lbw - c.tcb.snd.una).toNat ≤ 65535 →
      buffer = Ring.store 65535 c.tcb.snd.buffer c.tcb.snd.lbw.toNat
        (data.take (c.tcb.snd.writable data).toNat))
    (hs : s = { c.sender with
      snd := { c.tcb.snd with buffer, lbw := c.tcb.snd.lbw + c.tcb.snd.writable data } })
    (hlbw : c.tcb.snd.lbw ≤ s.snd.lbw) (hp : s.Paced) :
    s.Backed f (W ++ data.take (c.tcb.snd.writable data).toNat) := by
  have hle : c.tcb.snd.una.toNat ≤ c.tcb.snd.lbw.toNat := h.una.trans h.paced.top_le
  have hlen : c.tcb.snd.lbw.toNat = f + W.length := h.lbw
  have hroom : c.tcb.snd.lbw.toNat ≤ c.tcb.snd.una.toNat + 65535 := h.room
  have hsub : (c.tcb.snd.lbw - c.tcb.snd.una).toNat =
      c.tcb.snd.lbw.toNat - c.tcb.snd.una.toNat := by bv_omega
  have hfit := Send.writable_add_le (s := c.tcb.snd) data (by omega)
  have htake : (data.take (c.tcb.snd.writable data).toNat).length =
      (c.tcb.snd.writable data).toNat := by
    simp [c.tcb.snd.writable_le_length data]
  have hheld : Ring.Holds 65535 _ (Ring.Numbered f
      (W ++ data.take (c.tcb.snd.writable data).toNat)) _ _ :=
    holds_written h.held hlen hle (by rw [htake]; simp only [Conn.sender_snd]; omega)
  have hlbw' : s.snd.lbw.toNat = c.tcb.snd.lbw.toNat + (c.tcb.snd.writable data).toNat := by
    rw [hs] at hlbw ⊢
    simp only at hlbw ⊢
    bv_omega
  have hbuf := hb (by omega)
  subst hs
  simp only at hlbw'
  refine { h with lbw := ?_, room := ?_, held := ?_, paced := hp }
  · rw [hlbw', List.length_append, htake]
    omega
  · simp only [hlbw']
    omega
  · simp only [hlbw', hbuf]
    rw [htake] at hheld
    exact hheld

/-- One step of the sending half before its FIN. -/
theorem Sender.Backed.move (h : c.sender.Backed f W) (hm : SenderMove c ev s)
    (hopen : c.tcb.state ≠ .synSent ∧ c.tcb.state ≠ .synReceived)
    (hev : ev ≠ .close ∧ ev ≠ .closeWake)
    (hack : ∀ seg, ev = .segment seg → c.takesAck seg.hdr = true →
      seg.hdr.ackNum.toNat ≤ c.sender.top)
    (hlbw : c.tcb.snd.lbw ≤ s.snd.lbw) : s.Backed f (W ++ c.written ev) := by
  have hp := h.paced.move hm hopen ⟨hev.1, fun hw => absurd hw hev.2⟩ hlbw
  have htop := h.top_mono hm hopen hev
  have hnil : ∀ {s : Sender} {ev : Event}, c.written ev = [] → s.Backed f W →
      s.Backed f (W ++ c.written ev) := by
    intro s ev hw hs
    rw [hw, List.append_nil]
    exact hs
  cases hm with
  | same _ _ hw => exact hnil hw h
  | opened hs => exact absurd hs (not_or.mpr hopen)
  | wrote _ hw hb =>
    rw [hw]
    exact h.wrote hb rfl hlbw hp
  | jump => exact hnil rfl { h with paced := hp, una := h.una.trans htop }
  | segment hpc => exact hnil rfl (h.segment hpc rfl hp htop)
  | zeroExit hpc =>
    have hlt : c.tcb.snd.nxt < c.tcb.snd.lbw := h.paced.zero hpc
    have hnxt : (c.tcb.snd.nxt + 1).toNat = c.tcb.snd.nxt.toNat + 1 := by bv_omega
    refine hnil rfl { h with
      first := ?_, paced := hp, una := h.una.trans htop, queue := fun e he => ?_ }
    · have := h.first
      simp only [Conn.sender_snd, hnxt] at this ⊢
      omega
    · have := h.queue e he
      simp only [Conn.sender_snd, hnxt] at this ⊢
      omega
  | @acked seg htakes =>
    exact hnil rfl (h.acked (una_lt_of_takesAck htakes) (hack seg rfl htakes) rfl)
  | loss hloss =>
    refine hnil ?_ { h with paced := hp }
    cases ev with
    | segment | timeout => rfl
    | _ => cases hloss
  | initCC | enableCC => exact hnil rfl { h with paced := hp }
  | finSent hfin =>
    rcases hfin with rfl | ⟨rfl, -⟩
    · exact absurd rfl hev.1
    · exact absurd rfl hev.2
  | lastAcked =>
    exact hnil rfl { h with
      paced := hp
      queue := fun e he => h.queue e ((List.dropWhile_sublist _).subset he)
      ordered := h.ordered.sublist (List.dropWhile_sublist _) }

end Backed

end TcpIp
