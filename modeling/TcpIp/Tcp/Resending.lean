import TcpIp.Lib.Spans
import TcpIp.Tcp.Closing

/-! What is resent is what was sent first. -/
namespace TcpIp

open Runs Spans

open RetransmitSegment (lo len)

/-- The segment takes up sequence numbers: it has data or a FIN. -/
def Msg.numbered (m : Msg) : Bool := !m.payload.isEmpty || m.hdr.hasFin

/-- The first segment sent under a sequence number. -/
def firstSent (tr : List (Move Conn Label)) (seq : U32) : Option Msg :=
  (tr.flatMap fun x => x.ev.out.msgs).find? fun m => m.numbered && m.hdr.seqNum = seq

/-- Whatever the move resends, header and payload, is what was sent first under its number. The
timers of the handshake, which resend a SYN, are left out. -/
def ExactCopy (pre : List (Move Conn Label)) (x : Move Conn Label) : Prop :=
  ∀ m ∈ x.ev.out.msgs, m.origin = .resend → x.ev.ev ≠ .connectTimeout → x.ev.ev ≠ .ackTimeout →
    ∃ m₀, firstSent pre m.hdr.seqNum = some m₀ ∧ m.hdr = m₀.hdr ∧ m.payload = m₀.payload

/-- Every queued segment is on record, and its payload still lies in the ring. -/
structure Recorded (tr : List (Move Conn Label)) (s : Sender) : Prop where
  una : s.snd.una ≤ s.snd.nxt
  room : s.snd.lbw.toNat ≤ s.snd.una.toNat + 65535
  paced : s.cancelled = false → s.Paced
  bounds : ∀ e ∈ s.queue, s.snd.una.toNat ≤ lo e ∧ lo e + len e ≤ s.snd.lbw.toNat ∧
    lo e + len e ≤ s.snd.nxt.toNat ∧ lo e < s.snd.nxt.toNat
  ordered : Ordered lo len s.queue
  sent : ∀ x ∈ tr, ∀ m ∈ x.ev.out.msgs, m.numbered = true →
    m.hdr.seqNum < s.snd.nxt ∨
      m.hdr.seqNum = s.snd.nxt ∧ s.pc = .zeroWait ∧ s.cancelled = false
  record : ∀ e ∈ s.queue, ∃ m, firstSent tr e.tcpHeader.seqNum = some m ∧
    m.hdr = e.tcpHeader ∧ m.payload = Ring.load 65535 s.snd.buffer (lo e) (len e)

section Emitted

variable {c c' : Conn} {l : Label} {m : Msg}

/-- Sequence numbers are taken up by what is resent, the transmit loop, the probe and `Close`. -/
theorem Step.numbered_emitted (h : Step c l c')
    (hs : c.tcb.state ≠ .synSent ∧ c.tcb.state ≠ .synReceived) (hm : m ∈ l.out.msgs)
    (hn : m.numbered = true) :
    (∃ p ∈ c.tcb.retransmissionQueue, m = c.tcb.resendMsg c.key p) ∨ l.ev = .send ∨
      (c.send = .zeroWait ∧ c.tcb.cancelled = false ∧ m.hdr.seqNum = c.tcb.snd.nxt) ∨
      l.ev = .close ∨ l.ev = .closeWake := by
  have he := h.emits hm
  generalize l.ev = ev at he
  cases he with
  | resent hp => exact Or.inl ⟨_, hp, rfl⟩
  | data => exact Or.inr (Or.inl rfl)
  | probe hz hc => exact Or.inr (Or.inr (Or.inl ⟨hz, hc, rfl⟩))
  | closed hev => exact Or.inr (Or.inr (Or.inr hev))
  | opening hopen => exact absurd hopen (not_or.mpr hs)
  | handshakeResent hev hm' =>
    rcases hm' with rfl | rfl <;>
      simp [Msg.numbered, Conn.synMsg, Conn.synAckMsg, TCPFields.hasFin, tcpFlagSyn, tcpFlagAck,
        tcpFlagFin] at hn
  | acked | fin | finCounted | finRepeated =>
    simp [Msg.numbered, TCB.ackMsg, createTCPHeader_hasFin] at hn

end Emitted

section Steps

variable {c c' : Conn} {l : Label} {s s' : Sender} {x : Move Conn Label}
  {tr : List (Move Conn Label)} {seq : U32} {m : Msg}

theorem firstSent_snoc : firstSent (tr ++ [x]) seq =
    (firstSent tr seq).or (x.ev.out.msgs.find? fun m => m.numbered && m.hdr.seqNum = seq) := by
  simp [firstSent]

/-- Nothing has been sent yet under SND.NXT, but for a probe. -/
theorem Recorded.nxt_unsent (hr : Recorded tr s)
    (h : ¬ (s.pc = .zeroWait ∧ s.cancelled = false)) : firstSent tr s.snd.nxt = none := by
  rw [firstSent, List.find?_eq_none]
  intro m hm
  obtain ⟨x, hx, hm⟩ := List.mem_flatMap.mp hm
  simp only [Bool.and_eq_true, decide_eq_true_eq, not_and]
  intro hn heq
  rcases hr.sent x hx m hm hn with hlt | ⟨-, hz⟩
  · rw [heq] at hlt
    exact BitVec.lt_irrefl _ hlt
  · exact h hz

/-- The part of the invariant about the moves so far, when one more is made. -/
theorem Recorded.snoc (hr : Recorded tr s) (una : s'.snd.una ≤ s'.snd.nxt)
    (room : s'.snd.lbw.toNat ≤ s'.snd.una.toNat + 65535) (paced : s'.cancelled = false → s'.Paced)
    (bounds : ∀ e ∈ s'.queue, s'.snd.una.toNat ≤ lo e ∧ lo e + len e ≤ s'.snd.lbw.toNat ∧
      lo e + len e ≤ s'.snd.nxt.toNat ∧ lo e < s'.snd.nxt.toNat)
    (ordered : Ordered lo len s'.queue)
    (nxt : s.snd.nxt < s'.snd.nxt ∨ s'.snd.nxt = s.snd.nxt ∧
      (s.pc = .zeroWait → s.cancelled = false → s'.pc = .zeroWait ∧ s'.cancelled = false))
    (sent : ∀ m ∈ x.ev.out.msgs, m.numbered = true → m.hdr.seqNum < s'.snd.nxt ∨
      m.hdr.seqNum = s'.snd.nxt ∧ s'.pc = .zeroWait ∧ s'.cancelled = false)
    (record : ∀ e ∈ s'.queue,
      (e ∈ s.queue ∧ Ring.load 65535 s'.snd.buffer (lo e) (len e) =
        Ring.load 65535 s.snd.buffer (lo e) (len e)) ∨
      ∃ m, x.ev.out.msgs = [m] ∧ m.numbered = true ∧ m.hdr = e.tcpHeader ∧
        m.payload = Ring.load 65535 s'.snd.buffer (lo e) (len e) ∧
        firstSent tr e.tcpHeader.seqNum = none) :
    Recorded (tr ++ [x]) s' := by
  refine ⟨una, room, paced, bounds, ordered, fun y hy m hm hn => ?_, fun e he => ?_⟩
  · rcases List.mem_append.mp hy with hy | hy
    · rcases hr.sent y hy m hm hn with hlt | ⟨heq, hz, hc⟩
      · rcases nxt with hgt | ⟨hsame, -⟩
        · exact Or.inl (BitVec.lt_trans hlt hgt)
        · exact Or.inl (hsame ▸ hlt)
      · rcases nxt with hgt | ⟨hsame, hkept⟩
        · exact Or.inl (heq ▸ hgt)
        · exact Or.inr ⟨heq.trans hsame.symm, hkept hz hc⟩
    · rw [List.mem_singleton.mp hy] at hm
      exact sent m hm hn
  · rcases record e he with ⟨hold, hload⟩ | ⟨m, hmsgs, hn, hhdr, hpayload, hnone⟩
    · obtain ⟨m, hfirst, hhdr, hpayload⟩ := hr.record e hold
      exact ⟨m, by rw [firstSent_snoc, hfirst, Option.some_or], hhdr, hpayload.trans hload.symm⟩
    · refine ⟨m, ?_, hhdr, hpayload⟩
      rw [firstSent_snoc, hnone, Option.none_or, hmsgs, List.find?_cons_of_pos (by simp [hn, hhdr])]

/-- A round of `Write` ends within a buffer of UNA, also where UNA is past LBW. -/
theorem Send.writable_room {t : Send} (data : List U8) (h : t.lbw.toNat ≤ t.una.toNat + 65535) :
    (t.lbw + t.writable data).toNat ≤ t.una.toNat + 65535 := by
  have hle : (t.writable data).toNat ≤ (maxBufSize - (t.lbw - t.una)).toNat := by
    rw [Send.writable, toNat_min32]
    exact Nat.min_le_left _ _
  have hmax := toNat_maxBufSize
  bv_omega

/-- A step outside `Send` and `Close`. -/
theorem Recorded.other {ev : Event} {o : Output} (hr : Recorded tr c.sender)
    (hs : c.tcb.state ≠ .synSent ∧ c.tcb.state ≠ .synReceived) (h : Step c ⟨ev, o⟩ c')
    (hsend : ev ≠ .send) (hclose : ev ≠ .close ∧ ev ≠ .closeWake)
    (hcancelled : c'.tcb.cancelled = c.tcb.cancelled)
    (hack : c'.tcb.snd.una ≤ c'.tcb.snd.nxt) (hlbw : c.tcb.snd.lbw ≤ c'.tcb.snd.lbw) :
    Recorded (tr ++ [⟨c, ⟨ev, o⟩, c'⟩]) c'.sender := by
  have hsent : ∀ m ∈ o.msgs, m.numbered = true → m.hdr.seqNum < c.tcb.snd.nxt ∨
      m.hdr.seqNum = c.tcb.snd.nxt ∧ c.send = .zeroWait ∧ c.tcb.cancelled = false := by
    intro m hm hn
    rcases h.numbered_emitted hs hm hn with ⟨p, hp, rfl⟩ | hev | ⟨hz, hc, hseq⟩ | hev
    · exact Or.inl (hr.bounds p hp).2.2.2
    · exact absurd hev hsend
    · exact Or.inr ⟨hseq, hz, hc⟩
    · exact absurd hev (not_or.mpr hclose)
  have hpaced : c'.sender.cancelled = false → c'.sender.Paced := fun hc =>
    (hr.paced (hcancelled.symm.trans hc)).move h.sender hs
      ⟨hclose.1, fun hw => absurd hw hclose.2⟩ hlbw
  have hm := h.sender
  rw [← c'.sender_snd] at hack hlbw
  generalize c'.sender = s at hm hpaced hack hlbw
  cases hm with
  | same | loss | initCC | enableCC =>
    exact hr.snoc hr.una hr.room hpaced hr.bounds hr.ordered
      (Or.inr ⟨rfl, fun hz hc => ⟨hz, hc⟩⟩) hsent fun e he => Or.inl ⟨he, rfl⟩
  | opened hopen => exact absurd hopen (not_or.mpr hs)
  | jump | segment | zeroExit => exact absurd rfl hsend
  | finSent hev => rcases hev with rfl | ⟨rfl, -⟩ <;> simp at hclose
  | @wrote data buffer _ _ hb =>
    have hroom := Send.writable_room data hr.room
    refine hr.snoc hack hroom hpaced (fun e he => ?_) hr.ordered
      (Or.inr ⟨rfl, fun hz hc => ⟨hz, hc⟩⟩) hsent fun e he => Or.inl ⟨he, ?_⟩
    · obtain ⟨huna, hin, hnxt⟩ := hr.bounds e he
      exact ⟨huna, hin.trans hlbw, hnxt⟩
    · -- a queued segment keeps UNA at most LBW
      obtain ⟨huna, hin, -⟩ := hr.bounds e he
      have hle := hr.room
      simp only [Conn.sender_snd] at huna hin hle hlbw hroom
      have hlen := c.tcb.snd.writable_le_length data
      rw [hb (by bv_omega)]
      refine Ring.load_store_of_le (by decide) hin ?_
      rw [List.length_take, Nat.min_eq_left hlen]
      bv_omega
  | acked =>
    refine hr.snoc hack (hr.room.trans ?_) hpaced (fun e he => ?_)
      (hr.ordered.sublist (List.dropWhile_sublist _)) (Or.inr ⟨rfl, fun hz hc => ⟨hz, hc⟩⟩) hsent
      fun e he => Or.inl ⟨(List.dropWhile_sublist _).subset he, rfl⟩
    · rename_i seg htakes
      have := una_lt_of_takesAck htakes
      simp only [Conn.sender_snd]
      bv_omega
    · obtain ⟨-, hin⟩ := hr.bounds e ((List.dropWhile_sublist _).subset he)
      exact ⟨hr.ordered.le_of_mem_dropWhile he, hin⟩
  | lastAcked =>
    exact hr.snoc hack hr.room hpaced
      (fun e he => hr.bounds e ((List.dropWhile_sublist _).subset he))
      (hr.ordered.sublist (List.dropWhile_sublist _)) (Or.inr ⟨rfl, fun hz hc => ⟨hz, hc⟩⟩) hsent
      fun e he => Or.inl ⟨(List.dropWhile_sublist _).subset he, rfl⟩

/-- The FIN is queued as the first segment with its number. -/
theorem Recorded.fin {ev : Event} {c₁ : Conn} (hr : Recorded tr c.sender) (hc : Closing c ev c₁)
    (heq : c.tcb.snd.nxt = c.tcb.snd.lbw) (hnxt : c.tcb.snd.nxt ≤ c.tcb.snd.nxt + 1) :
    Recorded (tr ++ [⟨c, ⟨ev, { msgs := c₁.sendFin.2 }⟩, c₁.sendFin.1⟩]) c₁.sendFin.1.sender := by
  have hsender : c₁.sendFin.1.sender =
      { c.sender with
        snd := { c.tcb.snd with nxt := c.tcb.snd.nxt + 1 }
        queue := c.tcb.retransmissionQueue ++ [⟨c₁.finMsg.hdr, 0⟩]
        cancelled := true } := by cases hc <;> rfl
  have hseq : c₁.finMsg.hdr.seqNum = c.tcb.snd.nxt := by cases hc <;> rfl
  have hlt : c.tcb.snd.nxt < c.tcb.snd.nxt + 1 := by bv_omega
  have hlo : lo ⟨c₁.finMsg.hdr, 0⟩ = c.tcb.snd.nxt.toNat := congrArg BitVec.toNat hseq
  have hun := hr.una
  rw [hsender]
  refine hr.snoc (BitVec.le_trans hr.una hnxt) hr.room (by simp) (fun e he => ?_)
    (hr.ordered.snoc fun e he => ?_) (Or.inl hlt) (fun m hm _ => ?_) fun e he => ?_
  · rcases List.mem_append.mp he with he | he
    · obtain ⟨huna, hin, hle, hlt'⟩ := hr.bounds e he
      exact ⟨huna, hin, hle.trans hnxt, Nat.lt_of_lt_of_le hlt' hnxt⟩
    · rw [List.mem_singleton.mp he, hlo]
      exact ⟨hun, Nat.le_of_eq (congrArg BitVec.toNat heq), hnxt, hlt⟩
  · rw [hlo]
    exact (hr.bounds e he).2.2.1
  · rw [List.mem_singleton.mp hm]
    exact Or.inl (hseq ▸ hlt)
  · rcases List.mem_append.mp he with he | he
    · exact Or.inl ⟨he, rfl⟩
    · obtain rfl := List.mem_singleton.mp he
      refine Or.inr ⟨c₁.finMsg, rfl, ?_, rfl, rfl, ?_⟩
      · simp [Msg.numbered, Conn.finMsg, TCPFields.hasFin, tcpFlagFin, tcpFlagAck]
      · rw [hseq]
        refine hr.nxt_unsent ?_
        rintro ⟨hz, hcancelled⟩
        have hbelow := (hr.paced hcancelled).zero hz
        simp only [Conn.sender_snd, heq] at hbelow
        exact BitVec.lt_irrefl _ hbelow

/-- A step of `Send`. -/
theorem Recorded.send {pc : SendPc} {t : TCB} {out : List Msg} (hr : Recorded tr c.sender)
    (hs : c.tcb.state ≠ .synSent ∧ c.tcb.state ≠ .synReceived)
    (h : SendEffect c.tcb c.key c.send pc t out) :
    Recorded (tr ++ [⟨c, ⟨.send, { msgs := out }⟩, { c with send := pc, tcb := t }⟩])
      ({ c with send := pc, tcb := t } : Conn).sender := by
  have hpaced : c.tcb.cancelled = false → c.tcb.snd.lbw ≤ t.snd.lbw →
      ({ c with send := pc, tcb := t } : Conn).sender.Paced := fun hc hlbw =>
    (hr.paced hc).move (sendEffect_sender h) hs (by simp) hlbw
  have hun := hr.una
  simp only [Conn.sender_snd] at hun
  generalize hpc : c.send = pc₀ at h
  cases h with
  | jump hj hi ht hz =>
    refine hr.snoc hr.una hr.room (fun hc => hpaced hc (BitVec.le_refl _)) hr.bounds hr.ordered
      (Or.inr ⟨rfl, fun hzero hc => ⟨?_, hc⟩⟩) (by simp) fun e he => Or.inl ⟨he, rfl⟩
    rcases hz (hpc.symm.trans hzero) with hcancelled | ⟨-, hstays⟩
    · exact absurd hcancelled (by simpa using hc)
    · exact hstays
  | @segment a b book hlt hc =>
    obtain ⟨hba, hsum⟩ := (hr.paced hc).transmit a b hpc
    have hlen := segmentLength_le_sub a b
    have hpos := segmentLength_pos hlt
    simp only [Conn.sender_snd] at hsum
    have hnxt : (c.tcb.snd.nxt + segmentLength a b).toNat =
        c.tcb.snd.nxt.toNat + (segmentLength a b).toNat := by
      rw [BitVec.toNat_add]
      omega
    have hgt : c.tcb.snd.nxt < c.tcb.snd.nxt + segmentLength a b := by bv_omega
    refine hr.snoc (BitVec.le_trans hun (BitVec.le_of_lt hgt)) hr.room
      (fun _ => hpaced hc (BitVec.le_refl _)) (fun e he => ?_) (hr.ordered.snoc fun e he => ?_)
      (Or.inl hgt) (fun m hm _ => ?_) fun e he => ?_
    · rcases List.mem_append.mp he with he | he
      · obtain ⟨huna, hin, hle, hlt'⟩ := hr.bounds e he
        exact ⟨huna, hin, hle.trans (Nat.le_of_lt hgt), Nat.lt_trans hlt' hgt⟩
      · rw [List.mem_singleton.mp he]
        refine ⟨hun, ?_, Nat.le_of_eq hnxt.symm, hgt⟩
        exact (Nat.add_le_add_left hlen _).trans hsum
    · exact (hr.bounds e he).2.2.1
    · rw [List.mem_singleton.mp hm]
      exact Or.inl hgt
    · rcases List.mem_append.mp he with he | he
      · exact Or.inl ⟨he, rfl⟩
      · obtain rfl := List.mem_singleton.mp he
        refine Or.inr ⟨_, rfl, ?_, rfl, rfl, hr.nxt_unsent ?_⟩
        · have hne : (c.tcb.freshMsg c.key (segmentLength a b)).payload ≠ [] := by
            rw [← List.length_pos_iff]
            simpa [TCB.freshMsg, TCB.dataMsg] using hpos
          simp [Msg.numbered, hne]
        · rintro ⟨hz, -⟩
          exact absurd (hpc.symm.trans hz) (by simp)
  | zeroExit hw hc hj hpc' =>
    have hlt := (hr.paced hc).zero hpc
    simp only [Conn.sender_snd] at hlt
    have hgt : c.tcb.snd.nxt < c.tcb.snd.nxt + 1 := by bv_omega
    refine hr.snoc (BitVec.le_trans hun (BitVec.le_of_lt hgt)) hr.room
      (fun _ => hpaced hc (BitVec.le_refl _)) (fun e he => ?_) hr.ordered (Or.inl hgt) (by simp)
      fun e he => Or.inl ⟨he, rfl⟩
    obtain ⟨huna, hin, hle, hlt'⟩ := hr.bounds e he
    exact ⟨huna, hin, hle.trans (Nat.le_of_lt hgt), Nat.lt_trans hlt' hgt⟩

theorem Recorded.step (hr : Recorded tr c.sender)
    (hs : c.tcb.state ≠ .synSent ∧ c.tcb.state ≠ .synReceived) (h : Step c l c')
    (hack : c'.tcb.snd.una ≤ c'.tcb.snd.nxt) (hlbw : c.tcb.snd.lbw ≤ c'.tcb.snd.lbw)
    (hnxt : c.tcb.snd.nxt ≤ c'.tcb.snd.nxt) : Recorded (tr ++ [⟨c, l, c'⟩]) c'.sender := by
  obtain ⟨ev, o⟩ := l
  cases h.closing with
  | waits hc =>
    cases hc <;>
      exact hr.snoc hr.una hr.room hr.paced hr.bounds hr.ordered
        (Or.inr ⟨rfl, fun hz hc => ⟨hz, hc⟩⟩) (by simp) fun e he => Or.inl ⟨he, rfl⟩
  | fin hc heq => exact hr.fin hc heq (by cases hc <;> exact hnxt)
  | other hev hwaiting hpending hcancelled =>
    by_cases hsend : ev = .send
    · subst hsend
      have hm := h.moved
      cases hm with
      | send he => exact hr.send hs he
      | closeWaits hc => cases hc
      | closes hc => cases hc
      | handshakeGaveUp hev => simp at hev
      | handshakeResent hev => simp at hev
    · exact hr.other hs h hsend hev hcancelled hack hlbw

/-- A resent segment comes from the queue. -/
theorem Recorded.exactCopy (hr : Recorded tr c.sender)
    (hs : c.tcb.state ≠ .synSent ∧ c.tcb.state ≠ .synReceived) (h : Step c l c') :
    ExactCopy tr ⟨c, l, c'⟩ := by
  intro m hm horigin hconnect hwait
  have he := h.emits hm
  simp only at hconnect hwait
  generalize l.ev = ev at he hconnect hwait
  cases he with
  | @resent ev p hp =>
    obtain ⟨huna, hin, -⟩ := hr.bounds p hp
    have hroom := hr.room
    obtain ⟨m₀, hfirst, hhdr, hpayload⟩ := hr.record p hp
    refine ⟨m₀, hfirst, hhdr.symm, ?_⟩
    rw [hpayload]
    exact retransmitPayload_eq c.tcb p (show len p ≤ 65535 by omega)
  | handshakeResent hev => exact absurd hev (not_or.mpr ⟨hconnect, hwait⟩)
  | opening hopen => exact absurd hopen (not_or.mpr hs)
  | _ => cases horigin

end Steps

section Run

variable {c c' : Conn} {tr : List (Move Conn Label)}

theorem Established.recorded (h0 : Established c) (huna : c.tcb.snd.una ≤ c.tcb.snd.nxt) :
    Recorded [] c.sender := by
  refine ⟨huna, ?_, fun _ => h0.paced, ?_, ?_, by simp, ?_⟩
  · have hbuf := (h0.sendPointers huna).2.2
    simp only [Conn.sender_snd, h0.lbw]
    rcases h0.una with heq | heq <;> bv_omega
  all_goals simp [h0.queue, Ordered]

/-- Every segment that the retransmission timer or a third duplicate acknowledgement resends,
data or FIN, is the one first sent under its sequence number, whatever was written since. -/
theorem resent_exact (h0 : Established c) (huna : c.tcb.snd.una ≤ c.tcb.snd.nxt)
    (h : Run Step c tr c') (hack : ∀ x ∈ tr, x.dst.tcb.snd.una ≤ x.dst.tcb.snd.nxt)
    (hcross : ∀ x ∈ tr, x.src.tcb.snd.lbw ≤ x.dst.tcb.snd.lbw ∧
      x.src.tcb.snd.nxt ≤ x.dst.tcb.snd.nxt) : Along ExactCopy tr := by
  refine (h.along_iff (C := fun _ _ => True)
    (I := fun tr c => (c.tcb.state ≠ .synSent ∧ c.tcb.state ≠ .synReceived) ∧ Recorded tr c.sender)
    (H := fun _ x => x.dst.tcb.snd.una ≤ x.dst.tcb.snd.nxt ∧
      x.src.tcb.snd.lbw ≤ x.dst.tcb.snd.lbw ∧ x.src.tcb.snd.nxt ≤ x.dst.tcb.snd.nxt)
    ⟨by simp [h0.state], h0.recorded huna⟩
    (along_of_forall_mem fun x hx => ⟨hack x hx, hcross x hx⟩) ?_ ?_).mpr fun _ _ _ _ => trivial
  · rintro tr t l u ⟨hs, hr⟩ hstep ⟨hle, hlbw, hnxt⟩ -
    exact ⟨hstep.not_opening hs, hr.step hs hstep hle hlbw hnxt⟩
  · rintro tr t l u ⟨hs, hr⟩ hstep -
    exact iff_of_true (hr.exactCopy hs hstep) trivial

/-- A segment across the end of the ring is resent after one more byte was written, and the FIN
after everything before it was acknowledged. -/
theorem resent_exact_data_and_fin :
    let c := Conn.fresh 65533 65533 500
    let tr := (c.play [.write [1, 2, 3, 4], .send, .send, .write [9], .timeout, .send, .send, .send,
      .close, .segment (Segment.fromPeer 500 65538 16 1000 [] (by simp)), .timeout]).1
    (tr.length = 11 ∧
      (∃ x ∈ tr, ∃ m ∈ x.ev.out.msgs, m.origin = .resend ∧ m.payload = [1, 2, 3, 4]) ∧
      ∃ x ∈ tr, ∃ m ∈ x.ev.out.msgs, m.origin = .resend ∧ m.hdr.hasFin = true) ∧
      Along ExactCopy tr :=
  ⟨by decide, resent_exact (established_fresh (Or.inl rfl)) (by decide) (Conn.play_run _ _)
    (by decide) (by decide)⟩

end Run

end TcpIp
