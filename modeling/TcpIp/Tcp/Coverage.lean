import TcpIp.Lib.Spans
import TcpIp.Tcp.SendPointers

/-! The retransmission queue against the bytes that are not yet acknowledged. -/
namespace TcpIp

open Runs Spans

open RetransmitSegment (lo len)

/-- Every unacknowledged data byte, from the first one `f` on, can be retransmitted. -/
def Covered (f : ℕ) (s : Sender) : Prop :=
  (∀ q, f ≤ q → s.snd.una.toNat ≤ q → q < s.snd.nxt.toNat → Covers lo len s.queue q) ∧
    Ordered lo len s.queue

/-- An acknowledgement that is taken is of bytes that were sent. -/
def Conn.acksSent (c : Conn) : Event → Bool
  | .segment seg => !c.takesAck seg.hdr || seg.hdr.ackNum ≤ c.tcb.snd.nxt
  | _ => true

/-- The acknowledgement taken lies inside a queued segment. -/
def Conn.cutsSegment (c : Conn) : Event → Bool
  | .segment seg =>
    c.takesAck seg.hdr && c.tcb.retransmissionQueue.any fun e =>
      lo e < seg.hdr.ackNum.toNat && seg.hdr.ackNum.toNat < lo e + len e
  | _ => false

/-- `Send` leaves its zero-window wait, counting the probed byte as sent. -/
def Conn.leavesZeroWait (c : Conn) : Event → Bool
  | .send => c.send = .zeroWait && c.tcb.snd.wnd ≠ 0 && !c.tcb.cancelled
  | _ => false

/-- The step takes unacknowledged data out of reach of retransmission. -/
def Conn.uncovers (c : Conn) (ev : Event) : Bool := c.cutsSegment ev || c.leavesZeroWait ev

/-- The queue lies end to end over the unacknowledged data. -/
structure Sender.Queued (f : ℕ) (s : Sender) : Prop where
  una : s.snd.una ≤ s.snd.nxt
  syn : f ≤ s.snd.una.toNat + 1
  first : f ≤ s.snd.nxt.toNat
  queue : Contiguous lo len s.queue (max s.snd.una.toNat f) s.snd.nxt.toNat

section Coverage

variable {c c' : Conn} {ev : Event} {s : Sender} {f : ℕ} {tr : List (Move Conn Label)}

theorem Sender.Queued.covered (h : s.Queued f) : Covered f s :=
  ⟨fun _ hf hu hq => h.queue.covers (Nat.max_le.mpr ⟨hu, hf⟩) hq, h.queue.ordered⟩

theorem dropWhile_seqNum (l : List RetransmitSegment) (ackNum : U32) :
    (l.dropWhile fun r => r.tcpHeader.seqNum < ackNum) =
      l.dropWhile fun r => lo r < ackNum.toNat := by
  rfl

/-- An acknowledgement up to SND.NXT leaves everything covered exactly when it cuts no segment. -/
theorem Sender.Queued.acked (hq : c.sender.Queued f) {seg : Segment}
    (hack : c.takesAck seg.hdr = true) (hnxt : seg.hdr.ackNum ≤ c.tcb.snd.nxt)
    (hs : s = { c.sender with
      snd := { c.tcb.snd with wnd := seg.hdr.windowSize.setWidth 32, una := seg.hdr.ackNum }
      queue := c.tcb.retransmissionQueue.dropWhile fun r => r.tcpHeader.seqNum < seg.hdr.ackNum
      cwnd := c.ackedCwnd }) :
    (c.cutsSegment (.segment seg) = false → s.Queued f) ∧
      (c.cutsSegment (.segment seg) = true → ¬ Covered f s) := by
  obtain ⟨hun, hsyn, hf, hqueue⟩ := hq
  simp only [Conn.sender_snd, Conn.sender_queue] at hun hsyn hf hqueue
  have hua := una_lt_of_takesAck hack
  rw [BitVec.lt_def] at hua
  rw [BitVec.le_def] at hnxt
  have hcuts : c.cutsSegment (.segment seg) = true ↔ ∃ e ∈ c.tcb.retransmissionQueue,
      lo e < seg.hdr.ackNum.toNat ∧ seg.hdr.ackNum.toNat < lo e + len e := by
    simp [Conn.cutsSegment, hack]
  rw [dropWhile_seqNum] at hs
  subst hs
  constructor
  · intro hno
    rw [← Bool.not_eq_true, hcuts] at hno
    refine ⟨hnxt, by simp only; omega, hf, ?_⟩
    simp only
    rw [Nat.max_eq_left (by omega)]
    refine hqueue.dropWhile (by omega) hnxt fun e he hcut => hno ⟨e, he, hcut⟩
  · intro hyes hcov
    obtain ⟨e, he, hcut⟩ := hcuts.mp hyes
    have hb := hqueue.bounds e he
    refine hqueue.not_covers_dropWhile he hcut (hcov.1 _ ?_ ?_ ?_)
    · omega
    · exact Nat.le_refl _
    · simp only
      omega

/-- A byte passed over at the end of a zero-window wait is not in the queue. -/
theorem Sender.Queued.zeroExit (hq : c.sender.Queued f) {pc : SendPc}
    (hlt : c.tcb.snd.nxt < c.tcb.snd.lbw) :
    ¬ Covered f { c.sender with snd := { c.tcb.snd with nxt := c.tcb.snd.nxt + 1 }, pc } := by
  obtain ⟨hun, hsyn, hf, hqueue⟩ := hq
  simp only [Conn.sender_snd, Conn.sender_queue] at hun hsyn hf hqueue
  intro hcov
  obtain ⟨e, he, -, hin⟩ := hcov.1 c.tcb.snd.nxt.toNat hf hun (by simp only; bv_omega)
  have := hqueue.bounds e he
  omega

/-- The next segment of the transmit loop joins the end of the queue. -/
theorem Sender.Queued.segment (hq : c.sender.Queued f) {a b : U32} (hlt : b < a)
    (hsum : c.tcb.snd.nxt.toNat + (a - b).toNat ≤ c.tcb.snd.lbw.toNat) :
    Sender.Queued f
      { c.sender with
        snd := { c.tcb.snd with nxt := c.tcb.snd.nxt + segmentLength a b }
        queue := c.tcb.retransmissionQueue ++
          [⟨(c.tcb.freshMsg c.key (segmentLength a b)).hdr, segmentLength a b⟩]
        pc := .transmit a (b + segmentLength a b) } := by
  obtain ⟨hun, hsyn, hf, hqueue⟩ := hq
  simp only [Conn.sender_snd, Conn.sender_queue] at hun hsyn hf hqueue
  have hle := segmentLength_le_sub a b
  have hnxt : (c.tcb.snd.nxt + segmentLength a b).toNat =
      c.tcb.snd.nxt.toNat + (segmentLength a b).toNat := by
    rw [BitVec.toNat_add]
    omega
  refine ⟨?_, hsyn, ?_, ?_⟩
  · simp only [BitVec.le_def, hnxt] at hun ⊢
    omega
  · simp only [hnxt]
    omega
  · simp only [hnxt]
    exact hqueue.snoc rfl (segmentLength_pos hlt)

/-- A step keeps the data covered exactly when it neither cuts a segment nor passes over a byte. -/
theorem Sender.Queued.move (hq : c.sender.Queued f) (hd : DataPhase c) (hp : c.sender.Paced)
    (h : SenderMove c ev s) (hev : ev ≠ .close)
    (hack : c.acksSent ev = true) :
    (c.uncovers ev = false → s.Queued f) ∧ (c.uncovers ev = true → ¬ Covered f s) := by
  have hkeeps : s.Queued f → c.uncovers ev = false →
      (c.uncovers ev = false → s.Queued f) ∧ (c.uncovers ev = true → ¬ Covered f s) := by
    intro hs hno
    exact ⟨fun _ => hs, by simp [hno]⟩
  have hnone : (∀ seg, ev = .segment seg → c.takesAck seg.hdr = false) → ev ≠ .send →
      c.uncovers ev = false := by
    intro hno hne
    cases ev with
    | segment seg => simp [Conn.uncovers, Conn.cutsSegment, Conn.leavesZeroWait, hno seg rfl]
    | send => exact absurd rfl hne
    | _ => rfl
  cases h with
  | same hsend hno => exact hkeeps hq (hnone hno hsend)
  | loss hloss hno =>
    refine hkeeps { hq with } (hnone hno ?_)
    rintro rfl
    simp [Conn.seesLoss] at hloss
  | wrote | initCC | enableCC => exact hkeeps { hq with } rfl
  | jump hj hz =>
    refine hkeeps { hq with } ?_
    simp only [Conn.uncovers, Conn.cutsSegment, Conn.leavesZeroWait, Bool.false_or, hd.cancelled,
      Bool.and_eq_false_iff, decide_eq_false_iff_not]
    by_cases hpc : c.send = .zeroWait
    · rcases hz hpc with hcan | ⟨hw, -⟩
      · simp [hd.cancelled] at hcan
      · simp [hw]
    · simp [hpc]
  | segment hpc hlt hc =>
    refine hkeeps (hq.segment hlt (hp.transmit _ _ hpc).2) ?_
    simp [Conn.uncovers, Conn.cutsSegment, Conn.leavesZeroWait, hpc]
  | zeroExit hpc hw hc hj =>
    refine ⟨fun hno => ?_, fun _ => hq.zeroExit (hp.zero hpc)⟩
    simp only [Conn.uncovers, Conn.cutsSegment, Conn.leavesZeroWait, hpc, hc] at hno
    exact absurd (by simpa using hno) hw
  | acked htakes =>
    rename_i seg
    have hle : seg.hdr.ackNum ≤ c.tcb.snd.nxt := by simpa [Conn.acksSent, htakes] using hack
    have hboth := hq.acked htakes hle rfl
    simpa [Conn.uncovers, Conn.leavesZeroWait] using hboth
  | opened hs => exact absurd hs (not_or.mpr hd.not_opening)
  | finSent hfin =>
    rcases hfin with rfl | ⟨-, hw⟩
    · exact absurd rfl hev
    · simp [hd.closeWaiting] at hw
  | lastAcked hs =>
    have hstate := hd.state
    simp [hs] at hstate

/-- With every acknowledgement taken at most SND.NXT, all unacknowledged data stays in the
queue exactly as long as no acknowledgement cuts a segment and no byte is passed over at the
end of a zero-window wait. -/
theorem covered_iff (h0 : Established c) (huna : c.tcb.snd.una ≤ c.tcb.snd.nxt)
    (h : Run Step c tr c') (hclose : ∀ x ∈ tr, x.ev.ev ≠ .close)
    (hcross : ∀ x ∈ tr, x.src.tcb.snd.lbw ≤ x.dst.tcb.snd.lbw)
    (hack : ∀ x ∈ tr, x.src.acksSent x.ev.ev = true) :
    (∀ x ∈ tr, Covered c.tcb.snd.lbw.toNat x.dst.sender) ↔
      ∀ x ∈ tr, x.src.uncovers x.ev.ev = false := by
  refine h.forall_iff
    (I := fun t => DataPhase t ∧ t.sender.Paced ∧ t.sender.Queued c.tcb.snd.lbw.toNat)
    (H := fun x => x.ev.ev ≠ .close ∧ x.src.tcb.snd.lbw ≤ x.dst.tcb.snd.lbw ∧
      x.src.acksSent x.ev.ev = true)
    ⟨h0.dataPhase, h0.paced, ?_⟩ (fun x hx => ⟨hclose x hx, hcross x hx, hack x hx⟩) ?_ ?_
  · have hsyn : c.tcb.snd.nxt.toNat ≤ c.tcb.snd.una.toNat + 1 := by
      rcases h0.una with heq | heq <;> bv_omega
    refine ⟨huna, ?_, ?_, ?_⟩
    · rw [h0.lbw]
      exact hsyn
    · rw [h0.lbw]
      exact Nat.le_refl _
    · rw [Conn.sender_queue, h0.queue, h0.lbw]
      exact Nat.max_eq_right huna
  · rintro t l u ⟨hd, hp, hq⟩ hs ⟨hev, hlbw, hacks⟩ hno
    exact ⟨hd.step hs hev, hp.move hs.sender hd.not_opening ⟨hev, fun _ => hd.closeWaiting⟩ hlbw,
      (hq.move hd hp hs.sender hev hacks).1 hno⟩
  · rintro t l u ⟨hd, hp, hq⟩ hs ⟨hev, hlbw, hacks⟩
    obtain ⟨hkeep, hlose⟩ := hq.move hd hp hs.sender hev hacks
    constructor
    · intro hcov
      by_contra hyes
      exact hlose (Bool.eq_true_of_not_eq_false hyes) hcov
    · intro hno
      exact (hkeep hno).covered

theorem covered_iff_two_segments :
    let c := Conn.fresh 99 100 500
    let tr := (c.play [.segment (Segment.fromPeer 500 100 16 1000 [] (by simp)), .write [1, 2, 3],
      .send, .send, .send, .write [4, 5], .send, .send,
      .segment (Segment.fromPeer 500 103 16 1000 [] (by simp))]).1
    (∃ x ∈ tr, x.src.tcb.retransmissionQueue.length = 2 ∧
        x.dst.tcb.retransmissionQueue.length = 1) ∧
      ((∀ x ∈ tr, Covered 100 x.dst.sender) ↔ ∀ x ∈ tr, x.src.uncovers x.ev.ev = false) :=
  ⟨by decide, covered_iff (established_fresh (Or.inr rfl)) (by decide) (Conn.play_run _ _)
    (by decide) (by decide) (by decide)⟩

/-- An acknowledgement of the first of three bytes drops the segment that holds them all. -/
theorem covered_broken_by_partial_ack :
    ¬ ∀ (c c' : Conn) (tr : List (Move Conn Label)), Established c →
      c.tcb.snd.una ≤ c.tcb.snd.nxt → Run Step c tr c' → (∀ x ∈ tr, x.ev.ev ≠ .close) →
      (∀ x ∈ tr, x.src.tcb.snd.lbw ≤ x.dst.tcb.snd.lbw) →
      (∀ x ∈ tr, x.src.acksSent x.ev.ev = true) →
      ∀ x ∈ tr, Covered c.tcb.snd.lbw.toNat x.dst.sender := by
  intro h
  have hrun := Conn.play_run (Conn.fresh 100 100 500)
    [.write [1, 2, 3], .send, .send, .segment (Segment.fromPeer 500 101 16 1000 [] (by simp))]
  have hcov := h _ _ _ (established_fresh (Or.inl rfl)) (by decide) hrun (by decide) (by decide)
    (by decide)
  have hlast : ∃ x ∈ ((Conn.fresh 100 100 500).play [.write [1, 2, 3], .send, .send,
      .segment (Segment.fromPeer 500 101 16 1000 [] (by simp))]).1,
      x.dst.tcb.snd.una.toNat = 101 ∧ x.dst.tcb.snd.nxt.toNat = 103 ∧
        x.dst.tcb.retransmissionQueue = [] := by
    decide
  obtain ⟨x, hx, hu, hn, hq⟩ := hlast
  obtain ⟨e, he, -⟩ := (hcov x hx).1 101 (by decide) (by simp [hu]) (by simp [hn])
  simp [hq] at he

end Coverage

end TcpIp
