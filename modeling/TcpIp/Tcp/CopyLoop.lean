import TcpIp.Tcp.Established

/-! Whether the copy loop of `Receive`, which runs with the lock held, comes to an end. -/
namespace TcpIp

open Runs

/-- The variables of the loop when `Receive` enters it. -/
def Receive.copyStart (r : Receive) (seqNum : U32) : Copy :=
  ⟨r, 0, if seqNum > r.nxt then seqNum else r.nxt⟩

/-- The variables after `k` iterations. -/
def Receive.copied (r : Receive) (seg : Segment) (k : ℕ) : Copy :=
  (copyStep (seg.hdr.seqNum > r.nxt) seg.payload)^[k] (r.copyStart seg.hdr.seqNum)

/-- The loop ends after some number of iterations. -/
def Receive.CopyEnds (r : Receive) (seg : Segment) : Prop :=
  ∃ fuel c, copyLoop (seg.hdr.seqNum > r.nxt) seg.payload fuel (r.copyStart seg.hdr.seqNum) = some c

/-- Every iteration copies a byte as long as some of the payload is left. -/
def Receive.CopyAdvances (r : Receive) (seg : Segment) : Prop :=
  ∀ k, (r.copied seg k).amountCopied < BitVec.ofNat 32 seg.payload.length →
    (r.copied seg k).amountCopied < (r.copied seg (k + 1)).amountCopied

/-- The payload ends at the right edge of the window or before it. -/
def Receive.fits (r : Receive) (seg : Segment) : Bool :=
  seg.payload.length ≤ r.room (r.copyStart seg.hdr.seqNum).startCopyIndex

/-- `Receive` copies the payload: there is one, and it starts inside the window. -/
def Receive.copies (r : Receive) (seg : Segment) : Bool :=
  0 < seg.payload.length &&
    (r.classify seg.hdr.seqNum = .inOrder || r.classify seg.hdr.seqNum = .early)

section CopyLoop

variable {early : Bool} {payload : List U8} {r : Receive} {seg : Segment}

theorem copyStep_done {c : Copy} (h : c.amountCopied = BitVec.ofNat 32 payload.length) :
    (copyStep early payload c).amountCopied = c.amountCopied := by
  have hzero : min32 (maxBufSize - (c.startCopyIndex - c.rcv.lbr))
      (BitVec.ofNat 32 payload.length - c.amountCopied) = 0#32 := by
    apply BitVec.eq_of_toNat_eq
    rw [toNat_min32, h, BitVec.sub_self]
    exact Nat.min_zero _
  calc (copyStep early payload c).amountCopied
      = c.amountCopied + min32 (maxBufSize - (c.startCopyIndex - c.rcv.lbr))
          (BitVec.ofNat 32 payload.length - c.amountCopied) := rfl
    _ = c.amountCopied := by rw [hzero, BitVec.add_zero]

theorem Receive.copied_succ (r : Receive) (seg : Segment) (k : ℕ) :
    r.copied seg (k + 1) = copyStep (seg.hdr.seqNum > r.nxt) seg.payload (r.copied seg k) :=
  Function.iterate_succ_apply' _ _ _

/-- The whole of a segment that fits is there after the first iteration. -/
theorem copied_of_fits (hfit : r.fits seg = true) (k : ℕ) :
    (r.copied seg (k + 1)).amountCopied = BitVec.ofNat 32 seg.payload.length := by
  induction k with
  | zero =>
    have hstep := copyStep_of_fits (seg.hdr.seqNum > r.nxt) seg.payload_le
      (of_decide_eq_true hfit)
    rw [Receive.copied_succ]
    exact congrArg Copy.amountCopied hstep
  | succ k ih => rw [Receive.copied_succ, copyStep_done ih, ih]

theorem copyEnds_of_fits (hfit : r.fits seg = true) : r.CopyEnds seg := by
  by_cases hpos : 0 < seg.payload.length
  · have heq := copyLoop_eq (seg.hdr.seqNum > r.nxt) r
      (r.copyStart seg.hdr.seqNum).startCopyIndex hpos seg.payload_le
    rw [if_pos (of_decide_eq_true hfit)] at heq
    exact ⟨_, _, heq⟩
  · refine ⟨1, r.copyStart seg.hdr.seqNum, ?_⟩
    have hnil : seg.payload.length = 0 := Nat.eq_zero_of_not_pos hpos
    rw [copyLoop, if_neg]
    rw [hnil]
    exact BitVec.lt_irrefl _

/-- From the second iteration on nothing moves, however long the loop runs. -/
theorem not_copyEnds_of_not_fits (hfit : r.fits seg = false) : ¬ r.CopyEnds seg := by
  rintro ⟨fuel, c, h⟩
  have hfit' := of_decide_eq_false hfit
  obtain ⟨hroom, hlt⟩ :=
    copyStep_of_not_fits (seg.hdr.seqNum > r.nxt) seg.payload_le hfit'
  cases fuel with
  | zero => cases h
  | succ fuel =>
    have hfirst : (0 : U32) < BitVec.ofNat 32 seg.payload.length := by bv_omega
    rw [copyLoop, if_pos (show (r.copyStart seg.hdr.seqNum).amountCopied < _ from hfirst)] at h
    have hnone := (copyLoop_stuck hroom hlt fuel).symm.trans h
    cases hnone

/-- The loop ends, each iteration copying a byte, exactly for a segment that does not run past
the right edge of the window. -/
theorem copy_terminates_iff (r : Receive) (seg : Segment) :
    r.CopyEnds seg ∧ r.CopyAdvances seg ↔ r.fits seg = true := by
  constructor
  · rintro ⟨hends, -⟩
    by_contra hfit
    exact not_copyEnds_of_not_fits (Bool.eq_false_of_not_eq_true hfit) hends
  · intro hfit
    refine ⟨copyEnds_of_fits hfit, fun k hlt => ?_⟩
    rw [copied_of_fits hfit k]
    exact hlt

/-- `Receive` has no outcome exactly where its loop does not end. -/
theorem takeData_eq_none_iff (s : TCB) (seg : Segment) (hpos : 0 < seg.payload.length) :
    s.takeData seg.hdr.seqNum seg.payload = none ↔ ¬ s.rcv.CopyEnds seg := by
  have hloop : s.takeData seg.hdr.seqNum seg.payload = none ↔
      copyLoop (seg.hdr.seqNum > s.rcv.nxt) seg.payload (seg.payload.length + 1)
        (s.rcv.copyStart seg.hdr.seqNum) = none := by
    simp [TCB.takeData, Receive.copyStart]
  rw [hloop]
  constructor
  · rintro hnone hends
    by_cases hfit : s.rcv.fits seg = true
    · have heq := copyLoop_eq (seg.hdr.seqNum > s.rcv.nxt) s.rcv
        (s.rcv.copyStart seg.hdr.seqNum).startCopyIndex hpos seg.payload_le
      rw [if_pos (of_decide_eq_true hfit)] at heq
      have hsome := hnone.symm.trans heq
      cases hsome
    · exact not_copyEnds_of_not_fits (Bool.eq_false_of_not_eq_true hfit) hends
  · intro hno
    rw [Option.eq_none_iff_forall_ne_some]
    exact fun c hc => hno ⟨_, c, hc⟩

/-- `Receive` gets through with a segment exactly if it has nothing to copy or the loop ends. -/
theorem receiveData_isSome_iff (s : TCB) (key : SocketData) (seg : Segment) :
    (s.receiveData key seg.hdr seg.payload).isSome = true ↔
      (s.rcv.copies seg = true → s.rcv.fits seg = true) := by
  have htake : 0 < seg.payload.length →
      ((s.takeData seg.hdr.seqNum seg.payload).isSome = true ↔ s.rcv.fits seg = true) := by
    intro hpos
    rw [Option.isSome_iff_ne_none, ne_eq, takeData_eq_none_iff s seg hpos, not_not]
    constructor
    · intro hends
      by_contra hfit
      exact not_copyEnds_of_not_fits (Bool.eq_false_of_not_eq_true hfit) hends
    · exact copyEnds_of_fits
  by_cases hpos : 0 < seg.payload.length
  · simp only [TCB.receiveData, gt_iff_lt, Receive.copies, hpos, decide_true, Bool.true_and]
    cases s.rcv.classify seg.hdr.seqNum with
    | alreadyReceived | beyondWindow => simp
    | inOrder | early => simpa using htake hpos
  · simp [TCB.receiveData, Receive.copies, hpos]

/-- The last byte of the window with one more behind it. -/
theorem copy_never_ends :
    ¬ ∀ (c c' : Conn) (tr : List (Move Conn Label)) (seg : Segment), Opening c →
      Run Step c tr c' → c'.passesToReceive seg.hdr = true → c'.tcb.rcv.nxt ≤ seg.hdr.seqNum →
      seg.hdr.seqNum < c'.tcb.rcv.nxt + c'.tcb.rcv.wnd → c'.tcb.rcv.CopyEnds seg := by
  intro h
  have hrun := Conn.play_run (Conn.connect ⟨1, 1000, 2, 2000⟩ 99)
    [.segment (Segment.fromPeer 499 100 18 1000 [] (by simp))]
  refine not_copyEnds_of_not_fits ?_
    (h _ _ _ (Segment.fromPeer 66034 100 16 1000 [1, 2] (by simp)) (opening_connect _ _) hrun
      (by decide) (by decide) (by decide))
  decide

end CopyLoop

end TcpIp
