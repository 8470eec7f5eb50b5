import TcpIp.Net.Backing
import TcpIp.Net.StreamIntegrity

/-! One direction of a connection with any windows: what the writer puts on the wire, what the
reader holds, and what its calls of `Read` return. -/
namespace TcpIp

/-- A data segment of the stream `W`, numbered from `f` on. Bytes that the receiver has gone past are
not looked at any more. -/
structure Piece (f : ℕ) (W : List U8) (top : ℕ) (r : Receive) (m : Msg) : Prop where
  le_top : m.hdr.seqNum.toNat + m.payload.length ≤ top
  bytes : ∀ j b, m.payload[j]? = some b → r.nxt.toNat ≤ m.hdr.seqNum.toNat + j →
    Ring.Numbered f W (m.hdr.seqNum.toNat + j) b

/-- The stream `W` from `x`, which has sent `out`, to `y`. -/
structure Conveys (f : ℕ) (W : List U8) (x y : Conn) (out : List Msg) : Prop where
  backed : x.sender.Backed f W
  holding : y.receiver.Holding (Ring.Numbered f W) x.sender.top
  first : f ≤ y.tcb.rcv.lbr.toNat
  pieces : ∀ m ∈ out, m.payload ≠ [] → Piece f W x.sender.top y.tcb.rcv m
  una : x.tcb.snd.una.toNat ≤ y.tcb.rcv.nxt.toNat

section Conveys

variable {f : ℕ} {W ret : List U8} {x x' y y' : Conn} {out : List Msg} {l : Label} {m : Msg}

theorem Piece.mono {top top' : ℕ} {r r' : Receive} (h : Piece f W top r m) (htop : top ≤ top')
    (hnxt : r.nxt.toNat ≤ r'.nxt.toNat) (ws : List U8) : Piece f (W ++ ws) top' r' m :=
  ⟨h.le_top.trans htop, fun j b hj hle => (h.bytes j b hj (hnxt.trans hle)).append ws⟩

theorem Conveys.nxt_pos (h : Conveys f W x y out) (hf : 0 < f) : y.tcb.rcv.nxt ≠ 0 := by
  have hfirst := h.first
  have hlbr := h.holding.lbr_le
  simp only [Conn.receiver_rcv] at hlbr
  intro h0
  rw [h0] at hlbr
  bv_omega

/-- A segment cut out of the send buffer. -/
theorem Conveys.piece_load (h : Conveys f W x y out) {top q len : ℕ}
    (hq : m.hdr.seqNum.toNat = q) (hp : m.payload = Ring.load 65535 x.tcb.snd.buffer q len)
    (hlo : max x.tcb.snd.una.toNat f ≤ q) (hlbw : q + len ≤ x.tcb.snd.lbw.toNat)
    (htop : q + len ≤ top) : Piece f W top y.tcb.rcv m where
  le_top := by rwa [hp, Ring.load_length, hq]
  bytes j b hj _ := by
    rw [hp] at hj
    rw [hq]
    exact h.backed.held.load hlo hlbw hj

/-- Whatever the writer puts on the wire is a piece of the stream. -/
theorem Conveys.emitted (h : Conveys f W x y out) {ev : Event} (he : Emits x x' ev m)
    (htop : x.sender.top ≤ x'.sender.top) (hpay : m.payload ≠ []) :
    Piece f W x'.sender.top y.tcb.rcv m := by
  have hnxt : x.tcb.snd.nxt.toNat ≤ x.sender.top := Nat.le_add_right _ _
  have hfirst : f ≤ x.tcb.snd.nxt.toNat := h.backed.first
  cases he with
  | @resent _ p hp =>
    obtain ⟨hlo, hhi⟩ := h.backed.queue p hp
    have hroom := h.backed.room
    have hle := h.backed.paced.le
    simp only [Conn.sender_snd, RetransmitSegment.lo, RetransmitSegment.len] at hlo hhi hroom hle
    rw [BitVec.le_def] at hle
    exact h.piece_load (q := p.tcpHeader.seqNum.toNat) rfl
      (retransmitPayload_eq x.tcb p (by omega)) hlo (by omega) (by omega)
  | @data a b hpc _ _ hnxt' =>
    have huna : x.tcb.snd.una.toNat ≤ x.tcb.snd.nxt.toNat := by
      have := h.backed.una
      rwa [Sender.top_of_ne (by simp [hpc])] at this
    have hsum := (h.backed.paced.transmit a b hpc).2
    have hlen := segmentLength_le_sub a b
    simp only [Conn.sender_snd] at hsum
    have hend : x.tcb.snd.nxt.toNat + (segmentLength a b).toNat ≤ x'.sender.top := by
      refine le_trans ?_ (Nat.le_add_right _ _)
      rw [Conn.sender_snd, hnxt', BitVec.toNat_add]
      omega
    exact h.piece_load (q := x.tcb.snd.nxt.toNat) rfl rfl (by omega) (by omega) hend
  | probe hz =>
    have hlt : x.tcb.snd.nxt < x.tcb.snd.lbw := h.backed.paced.zero hz
    refine ⟨?_, fun j b hj hle => ?_⟩
    · rwa [Sender.top_of_eq hz] at htop
    · obtain ⟨rfl, rfl⟩ : j = 0 ∧ _ = b := by
        rcases j with _ | j
        · exact ⟨rfl, Option.some.inj hj⟩
        · simp [TCB.dataMsg] at hj
      -- the receiver has not taken the byte, so it is not acknowledged and is still in the buffer
      have hle' : y.tcb.rcv.nxt.toNat ≤ x.tcb.snd.nxt.toNat := hle
      have hheld := h.backed.held x.tcb.snd.nxt.toNat
        (Nat.max_le.mpr ⟨h.una.trans hle', hfirst⟩) hlt
      rw [toNat_sequenceToBufferInd]
      exact hheld
  | handshakeResent _ hm => rcases hm with rfl | rfl <;> exact absurd rfl hpay
  | opening _ hm => exact absurd hm.1 hpay
  | acked | fin | finCounted | finRepeated | closed => exact absurd rfl hpay

/-- The writer moves, before its FIN. -/
theorem Conveys.send (h : Conveys f W x y out) (hs : Step x l x')
    (hopen : x.tcb.state ≠ .synSent ∧ x.tcb.state ≠ .synReceived)
    (hclose : l.ev ≠ .close ∧ l.ev ≠ .closeWake)
    (hack : ∀ seg, l.ev = .segment seg → seg.hdr.hasAck = true →
      seg.hdr.ackNum.toNat ≤ y.tcb.rcv.nxt.toNat)
    (hlbw : x.tcb.snd.lbw ≤ x'.tcb.snd.lbw) :
    Conveys f (W ++ x.written l.ev) x' y (out ++ l.out.msgs) := by
  have hm := hs.sender
  have htop := h.backed.top_mono hm hopen hclose
  have hnxt : y.tcb.rcv.nxt.toNat ≤ x.sender.top := h.holding.nxt_le
  refine ⟨h.backed.move hm hopen hclose ?_ hlbw, ?_, h.first, fun m hmem hpay => ?_, ?_⟩
  · intro seg hl ht
    exact (hack seg hl (hasAck_of_takesAck ht)).trans hnxt
  · exact h.holding.mono htop fun q b hq => hq.append _
  · rcases List.mem_append.mp hmem with hmem | hmem
    · exact (h.pieces m hmem hpay).mono htop (Nat.le_refl _) _
    · exact (h.emitted (hs.emits hmem) htop hpay).mono (Nat.le_refl _) (Nat.le_refl _) _
  · rcases hm.offer hopen with ⟨hu, -⟩ | ⟨seg, hl, ht, hu, -⟩
    · simp only [Conn.sender_snd] at hu
      rw [hu]
      exact h.una
    · simp only [Conn.sender_snd] at hu
      rw [hu]
      exact hack seg hl (hasAck_of_takesAck ht)

/-- A reader that counts no FIN moves on within the stream. -/
theorem Conveys.receive (h : Conveys f W x y out) (hopen : y.tcb.state ≠ .synSent)
    (hcount : y.countsFin l.ev = false) (hs : Step y l y')
    (hcopy : ∀ seg, l.ev = .segment seg →
      ∃ m ∈ out, seg.hdr = m.hdr ∧ seg.payload = m.payload) :
    Conveys f W x y' out ∧ y.tcb.rcv.nxt.toNat ≤ y'.tcb.rcv.nxt.toNat ∧
      y.tcb.rcv.lbr.toNat ≤ y'.tcb.rcv.lbr.toNat := by
  have hhi : x.sender.top < 2 ^ 32 := h.backed.paced.top_le.trans_lt x.tcb.snd.lbw.isLt
  obtain ⟨hhold, hnxt, hlbr⟩ := h.holding.move hs.receiver hhi hopen hcount
    fun seg hl hpos hlo _ _ => by
      obtain ⟨m, hm, hh, hp⟩ := hcopy seg hl
      rw [hp] at hpos ⊢
      rw [hh] at hlo ⊢
      have hc := h.pieces m hm (List.ne_nil_of_length_pos hpos)
      refine ⟨hc.le_top, fun j b hj => hc.bytes j b hj ?_⟩
      exact (BitVec.le_def.mp hlo).trans (Nat.le_add_right _ _)
  refine ⟨⟨h.backed, hhold, h.first.trans hlbr, fun m hm hpay => ?_, h.una.trans hnxt⟩, hnxt, hlbr⟩
  simpa using (h.pieces m hm hpay).mono (Nat.le_refl _) hnxt []

/-- A call of `Read` whose gathered bytes continue what was returned. -/
theorem Conveys.read_consumed (h : Conveys f W x y out) {call : ReadCall} {t : TCB}
    {o : ReadOutcome} (hr : ReadEffect y.tcb call t o)
    (hcall : ret ++ call.data = W.take (y.tcb.rcv.lbr.toNat - f)) :
    ∃ bytes, o.Delivers bytes ∧ ret ++ bytes = W.take (t.rcv.lbr.toNat - f) := by
  have hfirst := h.first
  have hlbr := h.holding.lbr_le
  have hwnd := h.holding.wnd
  simp only [Conn.receiver_rcv] at hlbr hwnd
  obtain ⟨n, hn, rfl, ho⟩ := hr.consumed
  have hend : (y.tcb.rcv.lbr + n).toNat = y.tcb.rcv.lbr.toNat + n.toNat := by bv_omega
  refine ⟨_, ho (by bv_omega), ?_⟩
  have hload := h.holding.held.load_eq hfirst (Nat.le_refl _)
    (show y.tcb.rcv.lbr.toNat + n.toNat ≤ y.tcb.rcv.nxt.toNat by bv_omega)
  have hnext : (y.tcb.readBy n).rcv.lbr.toNat - f = y.tcb.rcv.lbr.toNat - f + n.toNat := by
    show (y.tcb.rcv.lbr + n).toNat - f = _
    omega
  rw [← List.append_assoc, hcall, hnext, List.take_add]
  exact congrArg _ hload

/-- The stream goes on where it was left. -/
theorem Reading.extend (h : Reading f W y ret) (hc : Conveys f W x y out) (ws : List U8) :
    Reading f (W ++ ws) y ret where
  returned := h.returned.trans (List.prefix_append W ws)
  consumed hy := by
    have hlbw : x.tcb.snd.lbw.toNat = f + W.length := hc.backed.lbw
    have htop : x.sender.top ≤ x.tcb.snd.lbw.toNat := hc.backed.paced.top_le
    have hnxt : y.tcb.rcv.nxt.toNat ≤ x.sender.top := hc.holding.nxt_le
    have hlbr : y.tcb.rcv.lbr.toNat ≤ y.tcb.rcv.nxt.toNat := hc.holding.lbr_le
    rw [List.take_append_of_le_length (by omega)]
    exact h.consumed hy

/-- The reader moves. The end of the stream is reported for a connection that gave up, or where
there is nothing to read and nothing in hand. -/
theorem Reading.pass (h : Reading f W y ret) (hc : Conveys f W x y out)
    (hopen : y.tcb.state ≠ .synSent) (hcount : y.countsFin l.ev = false) (hs : Step y l y')
    (heof : l.out.read = some .eof → y.tcb.timeoutCancelled = true ∨
      y.gathered = [] ∧ y.tcb.rcv.lbr = y.tcb.rcv.nxt) :
    Reading f W y' (ret ++ l.out.bytes) := by
  have hm := hs.receiver
  generalize l.ev = ev at hm hcount
  generalize ho : l.out.read = o at hm heof
  generalize hr : y'.receiver = r at hm
  have hrcv : y'.tcb.rcv = r.rcv := congrArg Receiver.rcv hr
  have hreading : y'.reading = r.reading := congrArg Receiver.reading hr
  cases hm with
  | same => exact h.quiet hs (congrArg _ hrcv) hreading ho
  | opened hsyn => exact absurd hsyn hopen
  | inOrder | early => exact h.quiet hs (by rw [hrcv]; rfl) hreading ho
  | finCounted hf => simp [hcount] at hf
  | @read _ call t o hcall hre =>
    by_cases hbad : o = .eof ∨ o = .failed
    · have hnone : y'.reading = none := by rcases hbad with rfl | rfl <;> exact hreading
      have hbytes : l.out.bytes = [] := by
        rcases hbad with rfl | rfl <;> simp [Output.bytes, ho, ReadOutcome.shown]
      by_cases hcan : y.tcb.timeoutCancelled = true
      · exact h.refused hs hcan hnone hbytes
      · obtain rfl : o = .eof := hbad.resolve_right fun hf => hcan (hre.failed hf)
        obtain ⟨hdata, hlbr⟩ := (heof rfl).resolve_left hcan
        obtain ⟨n, hn, rfl, -⟩ := hre.consumed
        have hn0 : n = 0 := by bv_omega
        have hgiven := h.consumed (Or.inl (Bool.eq_false_of_not_eq_true hcan))
        rw [hdata, List.append_nil] at hgiven
        rw [hbytes, List.append_nil]
        refine ⟨h.returned, fun _ => ?_⟩
        simp only [Conn.gathered, hnone, List.append_nil]
        rw [hgiven, hrcv, hn0]
        simp [TCB.readBy]
    · obtain ⟨hne, hnf⟩ := not_or.mp hbad
      obtain ⟨bytes, hdel, heq⟩ := hc.read_consumed hre (h.call hcall hnf)
      exact h.delivered hne hnf hdel (by rw [hrcv]; exact heq) hreading ho

end Conveys

end TcpIp
