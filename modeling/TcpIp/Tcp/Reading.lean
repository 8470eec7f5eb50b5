import TcpIp.Tcp.Established

/-! A call of `Read` step by step: it gives up the lock while it copies and while it waits. -/
namespace TcpIp

open Runs

/-- Where a call of `Read` stands. -/
inductive ReadPc
  | outside
  /-- at the test of the loop, with the lock -/
  | looping (call : ReadCall)
  /-- on `ReadBlockedCond` -/
  | waiting (call : ReadCall)
  /-- the amount is fixed and the lock released -/
  | copying (call : ReadCall) (bytesToRead : U32)
  deriving DecidableEq

/-- The call under way. -/
def ReadPc.call : ReadPc → Option ReadCall
  | .outside => none
  | .looping call | .waiting call | .copying call _ => some call

/-- A connection with the one call of `Read` on its handle. -/
structure Reader where
  conn : Conn
  /-- `ReadCancelled` of the handle -/
  readCancelled : Bool := false
  pc : ReadPc := .outside

inductive ReaderEvent
  /-- a step of anything but `Read` -/
  | conn (ev : Event)
  /-- `VShutdown` or `VClose` ends reading on the handle -/
  | cancel
  | enter (amountToRead : U32) (readAll : Bool)
  /-- the next step of the call -/
  | step
  deriving DecidableEq

/-- A step of `Read` as the connection has it, in one piece. -/
def Event.isRead : Event → Bool
  | .read _ _ | .readWake => true
  | _ => false

namespace TCB

/-- The test at the top of the loop. -/
def readTest (s : TCB) (call : ReadCall) : ReadPc × Option ReadOutcome :=
  if call.amountReadSoFar < call.amountToRead then
    if s.rcv.lbr = s.rcv.nxt then
      if ¬ call.readAll ∧ call.amountReadSoFar > 0 then
        (.outside, some (.returned call.amountReadSoFar call.data))
      else if s.state = .closeWait ∨ s.timeoutCancelled then (.outside, some .eof)
      else (.waiting call, none)
    else (.copying call (s.available call), none)
  else (.outside, some (.returned call.amountReadSoFar call.data))

/-- After a wake-up from the wait for data. -/
def readWoken (s : TCB) (call : ReadCall) : ReadPc × Option ReadOutcome :=
  if s.rcv.lbr = s.rcv.nxt then
    if s.state = .closeWait ∨ s.timeoutCancelled then (.outside, some .eof) else (.waiting call, none)
  else (.copying call (s.available call), none)

/-- The copy out of the ring, without the lock; `none` where a slice bound is out of range. -/
def readOut (s : TCB) (call : ReadCall) (bytesToRead : U32) : Option (TCB × ReadCall) :=
  let lbrIndex := sequenceToBufferInd s.rcv.lbr
  let took := fun copied : List U8 => (s.readBy bytesToRead,
    { call with
      amountReadSoFar := call.amountReadSoFar + bytesToRead
      data := call.data ++ copied })
  if lbrIndex + bytesToRead ≥ maxBufSize then
    let copyToEndOfBufferLen := maxBufSize - lbrIndex
    let copyOverflowLen := bytesToRead - copyToEndOfBufferLen
    if copyOverflowLen > maxBufSize then none
    else some (took (Ring.slots s.rcv.buffer lbrIndex.toNat copyToEndOfBufferLen.toNat ++
      Ring.slots s.rcv.buffer 0 copyOverflowLen.toNat))
  else if lbrIndex + bytesToRead < lbrIndex then none
  else some (took (Ring.slots s.rcv.buffer lbrIndex.toNat bytesToRead.toNat))

end TCB

namespace Reader

/-- The guards of a new call: three errors and the EOF of an empty buffer. -/
def enter (r : Reader) (amountToRead : U32) (readAll : Bool) : Reader × Output :=
  let s := r.conn.tcb
  if r.readCancelled then (r, { read := some .failed })
  else if ¬ r.conn.inTable then (r, { read := some .failed })
  else if s.timeoutCancelled then (r, { read := some .failed })
  else if s.state = .closeWait ∧ s.rcv.lbr = s.rcv.nxt then (r, { read := some .eof })
  else ({ r with pc := .looping { amountToRead, readAll } }, {})

def step (r : Reader) (env : Env) : ReaderEvent → Option (Reader × Output)
  | .conn ev =>
    if ev.isRead then none
    else (r.conn.step env ev).map fun q => ({ r with conn := q.1 }, { msgs := q.2.msgs })
  | .cancel => some ({ r with readCancelled := true }, {})
  | .enter amountToRead readAll =>
    if r.pc = .outside ∧ r.conn.hasHandle then some (r.enter amountToRead readAll) else none
  | .step =>
    match r.pc with
    | .outside => none
    | .looping call =>
      let t := r.conn.tcb.readTest call
      some ({ r with pc := t.1 }, { read := t.2 })
    | .waiting call =>
      let t := r.conn.tcb.readWoken call
      some ({ r with pc := t.1 }, { read := t.2 })
    | .copying call bytesToRead =>
      (r.conn.tcb.readOut call bytesToRead).map fun q =>
        ({ r with conn := { r.conn with tcb := q.1 }, pc := .looping q.2 }, {})

end Reader

structure ReaderLabel where
  ev : ReaderEvent
  out : Output

def ReaderStep (r : Reader) (l : ReaderLabel) (r' : Reader) : Prop :=
  ∃ env, r.step env l.ev = some (r', l.out)

/-- What a step can do; only the copy changes LBR for the call. -/
inductive ReaderMove (r : Reader) : ReaderEvent → Option ReadOutcome → Reader → Prop
  | conn {ev : Event} {o : Output} {c : Conn} (hev : ev.isRead = false)
      (h : Step r.conn ⟨ev, o⟩ c) : ReaderMove r (.conn ev) none { r with conn := c }
  | cancel : ReaderMove r .cancel none { r with readCancelled := true }
  | refused {n : U32} {readAll : Bool} {o : ReadOutcome} (hpc : r.pc = .outside)
      (ho : o = .failed ∨ o = .eof) : ReaderMove r (.enter n readAll) (some o) r
  | entered {n : U32} {readAll : Bool} (hpc : r.pc = .outside) :
      ReaderMove r (.enter n readAll) none
        { r with pc := .looping { amountToRead := n, readAll } }
  | returned {call : ReadCall} (hpc : r.pc = .looping call)
      (h : ¬ call.amountReadSoFar < call.amountToRead ∨ call.readAll = false) :
      ReaderMove r .step (some (.returned call.amountReadSoFar call.data))
        { r with pc := .outside }
  | eof {call : ReadCall}
      (hpc : r.pc = .looping call ∧ call.amountReadSoFar < call.amountToRead ∧
          ¬ (call.readAll = false ∧ call.amountReadSoFar > 0) ∨ r.pc = .waiting call)
      (hempty : r.conn.tcb.rcv.lbr = r.conn.tcb.rcv.nxt)
      (hend : r.conn.tcb.state = .closeWait ∨ r.conn.tcb.timeoutCancelled = true) :
      ReaderMove r .step (some .eof) { r with pc := .outside }
  | waits {call : ReadCall} (hpc : r.pc.call = some call)
      (h : ¬ (r.conn.tcb.state = .closeWait ∨ r.conn.tcb.timeoutCancelled = true)) :
      ReaderMove r .step none { r with pc := .waiting call }
  | fixed {call : ReadCall} (hpc : r.pc.call = some call)
      (h : r.conn.tcb.rcv.lbr ≠ r.conn.tcb.rcv.nxt) :
      ReaderMove r .step none { r with pc := .copying call (r.conn.tcb.available call) }
  | copied {call : ReadCall} {n : U32} (hpc : r.pc = .copying call n) :
      ReaderMove r .step none
        { r with
          conn := { r.conn with tcb := r.conn.tcb.readBy n }
          pc := .looping { call with
            amountReadSoFar := call.amountReadSoFar + n
            data := call.data ++
              Ring.load 65535 r.conn.tcb.rcv.buffer r.conn.tcb.rcv.lbr.toNat n.toNat } }

section Moves

variable {r r' : Reader} {s : TCB} {call : ReadCall} {l : ReaderLabel}

/-- A copy that does not panic takes the next bytes of the ring. -/
theorem readOut_eq {n : U32} {q : TCB × ReadCall} (h : s.readOut call n = some q) :
    q = (s.readBy n,
      { call with
        amountReadSoFar := call.amountReadSoFar + n
        data := call.data ++ Ring.load 65535 s.rcv.buffer s.rcv.lbr.toNat n.toNat }) := by
  have hlt := sequenceToBufferInd_lt s.rcv.lbr
  have hidx := toNat_sequenceToBufferInd s.rcv.lbr
  have hmax := toNat_maxBufSize
  simp only [TCB.readOut] at h
  -- no sum of the code's wraps around where it gets past its slices
  have hread : s.rcv.lbr.toNat % 65535 + n.toNat ≤ 131070 →
      (sequenceToBufferInd s.rcv.lbr + n).toNat = s.rcv.lbr.toNat % 65535 + n.toNat →
      _ := fun hle hsum =>
    read_eq_load s.rcv.buffer s.rcv.lbr n hle
      (p := sequenceToBufferInd s.rcv.lbr + n ≥ maxBufSize)
      (by
        intro h
        rw [ge_iff_le, BitVec.le_def, hsum] at h
        exact h)
      (by
        intro h
        rw [ge_iff_le, BitVec.le_def, hsum, hmax] at h
        omega)
  split at h
  · rename_i hwrap
    split at h
    · cases h
    · rename_i hover
      rw [← hread, if_pos hwrap, Option.some.inj h]
      · bv_omega
      · bv_omega
  · rename_i hwrap
    split at h
    · cases h
    · rename_i hback
      rw [← hread, if_neg hwrap, Option.some.inj h]
      · bv_omega
      · bv_omega

theorem enter_moved {n : U32} {readAll : Bool} {o : Output} (hpc : r.pc = .outside)
    (h : r.enter n readAll = (r', o)) : ReaderMove r (.enter n readAll) o.read r' := by
  simp only [Reader.enter] at h
  split at h
  · obtain ⟨rfl, rfl⟩ := Prod.mk.inj h
    exact .refused hpc (Or.inl rfl)
  split at h
  · obtain ⟨rfl, rfl⟩ := Prod.mk.inj h
    exact .refused hpc (Or.inl rfl)
  split at h
  · obtain ⟨rfl, rfl⟩ := Prod.mk.inj h
    exact .refused hpc (Or.inl rfl)
  split at h
  · obtain ⟨rfl, rfl⟩ := Prod.mk.inj h
    exact .refused hpc (Or.inr rfl)
  · obtain ⟨rfl, rfl⟩ := Prod.mk.inj h
    exact .entered hpc

theorem readTest_moved (hpc : r.pc = .looping call) :
    ReaderMove r .step (r.conn.tcb.readTest call).2
      { r with pc := (r.conn.tcb.readTest call).1 } := by
  have hcall : r.pc.call = some call := by rw [hpc]; rfl
  unfold TCB.readTest
  split
  · rename_i hlt
    split
    · rename_i hempty
      split
      · rename_i hall
        exact .returned hpc (Or.inr (by simpa using hall.1))
      · rename_i hall
        split
        · rename_i hend
          exact .eof (Or.inl ⟨hpc, hlt, by simpa using hall⟩) hempty hend
        · rename_i hend
          exact .waits hcall hend
    · rename_i hne
      exact .fixed hcall hne
  · rename_i hlt
    exact .returned hpc (Or.inl hlt)

theorem readWoken_moved (hpc : r.pc = .waiting call) :
    ReaderMove r .step (r.conn.tcb.readWoken call).2
      { r with pc := (r.conn.tcb.readWoken call).1 } := by
  have hcall : r.pc.call = some call := by rw [hpc]; rfl
  unfold TCB.readWoken
  split
  · rename_i hempty
    split
    · rename_i hend
      exact .eof (Or.inr hpc) hempty hend
    · rename_i hend
      exact .waits hcall hend
  · rename_i hne
    exact .fixed hcall hne

theorem ReaderStep.moved (h : ReaderStep r l r') : ReaderMove r l.ev l.out.read r' := by
  obtain ⟨env, h⟩ := h
  generalize l.ev = ev at h
  generalize l.out = o at h
  cases ev with
  | conn ev =>
    simp only [Reader.step] at h
    split at h
    · cases h
    · rename_i hev
      obtain ⟨q, hq, heq⟩ := Option.map_eq_some_iff.mp h
      obtain ⟨rfl, rfl⟩ := Prod.mk.inj heq
      exact .conn (Bool.eq_false_of_not_eq_true hev) ⟨env, hq⟩
  | cancel =>
    obtain ⟨rfl, rfl⟩ := Prod.mk.inj (Option.some.inj h)
    exact .cancel
  | enter n readAll =>
    simp only [Reader.step] at h
    split at h
    · rename_i hpc
      exact enter_moved hpc.1 (Option.some.inj h)
    · cases h
  | step =>
    simp only [Reader.step] at h
    split at h
    · cases h
    · rename_i call hpc
      obtain ⟨rfl, rfl⟩ := Prod.mk.inj (Option.some.inj h)
      exact readTest_moved hpc
    · rename_i call hpc
      obtain ⟨rfl, rfl⟩ := Prod.mk.inj (Option.some.inj h)
      exact readWoken_moved hpc
    · rename_i call n hpc
      obtain ⟨q, hq, heq⟩ := Option.map_eq_some_iff.mp h
      obtain ⟨rfl, rfl⟩ := Prod.mk.inj heq
      rw [readOut_eq hq]
      exact .copied hpc

end Moves

/-- Where a call that the connection runs in one piece is left. -/
def ReadOutcome.pc : ReadOutcome → ReadPc
  | .waiting call => .waiting call
  | _ => .outside

/-- `n` steps of the call with nothing in between, and what the last one returned. -/
def Reader.steps (env : Env) : ℕ → Reader → Option (Reader × Option ReadOutcome)
  | 0, _ => none
  | 1, r => (r.step env .step).map fun q => (q.1, q.2.read)
  | n + 2, r => (r.step env .step).bind fun q => Reader.steps env (n + 1) q.1

section Refinement

variable {c : Conn} {s : TCB} {call : ReadCall} {env : Env}

theorem readTest_stop (h : call.amountReadSoFar < call.amountToRead → s.rcv.lbr = s.rcv.nxt)
    (fuel : ℕ) : ∃ o, TCB.readLoop (fuel + 1) s call = (s, o) ∧
      s.readTest call = (o.pc, o.shown) := by
  unfold TCB.readLoop TCB.readTest
  by_cases hlt : call.amountReadSoFar < call.amountToRead
  · simp only [if_pos hlt, if_pos (h hlt)]
    split
    · exact ⟨_, rfl, rfl⟩
    · split
      · exact ⟨_, rfl, rfl⟩
      · exact ⟨_, rfl, rfl⟩
  · simp only [if_neg hlt]
    exact ⟨_, rfl, rfl⟩

theorem readOut_available (hle : (s.rcv.nxt - s.rcv.lbr).toNat ≤ 65535) :
    s.readOut call (s.available call) = some (s.readCopy call) := by
  have hlt := sequenceToBufferInd_lt s.rcv.lbr
  have hav : (s.available call).toNat ≤ (s.rcv.nxt - s.rcv.lbr).toNat := s.available_le
  have hmax := toNat_maxBufSize
  have hsome : ∃ q, s.readOut call (s.available call) = some q := by
    simp only [TCB.readOut]
    split
    · rw [if_neg (by bv_omega)]
      exact ⟨_, rfl⟩
    · rw [if_neg (by bv_omega)]
      exact ⟨_, rfl⟩
  obtain ⟨q, hq⟩ := hsome
  rw [hq, readOut_eq hq, ← readCopy_eq hle]
  rfl

/-- A call that nothing interrupts is the one step of the connection. -/
theorem steps_readRun (hle : (c.tcb.rcv.nxt - c.tcb.rcv.lbr).toNat ≤ 65535) :
    ∃ n, Reader.steps env n { conn := c, pc := .looping call } =
      some ({ conn := { c with tcb := (c.tcb.readRun call).1 }, pc := (c.tcb.readRun call).2.pc },
        (c.tcb.readRun call).2.shown) := by
  by_cases hstop : call.amountReadSoFar < call.amountToRead → c.tcb.rcv.lbr = c.tcb.rcv.nxt
  · obtain ⟨o, hloop, htest⟩ := readTest_stop hstop call.amountToRead.toNat
    refine ⟨1, ?_⟩
    rw [TCB.readRun, hloop]
    simp [Reader.steps, Reader.step, htest]
  · push Not at hstop
    obtain ⟨hlt, hne⟩ := hstop
    obtain ⟨k, hk⟩ := Nat.exists_eq_add_one_of_ne_zero
      (show call.amountToRead.toNat ≠ 0 by bv_omega)
    -- the first copy takes all that is wanted or all there is
    have hdone : (c.tcb.readCopy call).2.amountReadSoFar < (c.tcb.readCopy call).2.amountToRead →
        (c.tcb.readCopy call).1.rcv.lbr = (c.tcb.readCopy call).1.rcv.nxt := by
      show call.amountReadSoFar + c.tcb.available call < call.amountToRead →
        c.tcb.rcv.lbr + c.tcb.available call = c.tcb.rcv.nxt
      unfold TCB.available
      split <;> bv_omega
    obtain ⟨o, hloop, htest⟩ := readTest_stop hdone k
    have hrun : c.tcb.readRun call = ((c.tcb.readCopy call).1, o) := by
      rw [TCB.readRun, hk, TCB.readLoop, if_pos hlt, if_neg hne]
      exact hloop
    have hfirst : c.tcb.readTest call = (.copying call (c.tcb.available call), none) := by
      rw [TCB.readTest, if_pos hlt, if_neg hne]
    refine ⟨3, ?_⟩
    rw [hrun]
    simp [Reader.steps, Reader.step, hfirst, readOut_available hle, htest]

end Refinement

/-- The count an outcome reports. -/
def ReadOutcome.count : ReadOutcome → U32
  | .returned amountRead _ => amountRead
  | _ => 0

/-- `data[0..n)` of an outcome. -/
def ReadOutcome.bytes : ReadOutcome → List U8
  | .returned amountRead data => data.take amountRead.toNat
  | _ => []

/-- The bytes of the current call so far, with those a move of it takes past LBR. -/
def tookBytes (taken : List U8) (x : Move Reader ReaderLabel) : List U8 :=
  match x.ev.ev with
  | .enter _ _ => []
  | .step => taken ++ Ring.load 65535 x.src.conn.tcb.rcv.buffer x.src.conn.tcb.rcv.lbr.toNat
      (x.dst.conn.tcb.rcv.lbr - x.src.conn.tcb.rcv.lbr).toNat
  | _ => taken

/-- The bytes by which the last call has moved LBR. -/
def callBytes (tr : List (Move Reader ReaderLabel)) : List U8 := tr.foldl tookBytes []

/-- A return reports what the call took. -/
def Accounted (pre : List (Move Reader ReaderLabel)) (x : Move Reader ReaderLabel) : Prop :=
  ∀ o, x.ev.out.read = some o →
    o.count.toNat = (callBytes (pre ++ [x])).length ∧ o.bytes = callBytes (pre ++ [x])

/-- A call that has taken some of its bytes is about to end with `0, io.EOF`. -/
def Reader.losesBytes (r : Reader) : ReaderEvent → Bool
  | .step =>
    let s := r.conn.tcb
    let ended : Bool := s.rcv.lbr = s.rcv.nxt ∧ (s.state = .closeWait ∨ s.timeoutCancelled)
    match r.pc with
    | .looping call =>
      call.readAll && 0 < call.amountReadSoFar && call.amountReadSoFar < call.amountToRead && ended
    | .waiting call => 0 < call.amountReadSoFar && ended
    | _ => false
  | _ => false

/-- A call is about to end with `0, io.EOF` only because the retransmission timer gave up. -/
def Reader.eofByTimeout (r : Reader) : ReaderEvent → Bool
  | .step =>
    let s := r.conn.tcb
    s.timeoutCancelled && s.state ≠ .closeWait && s.rcv.lbr = s.rcv.nxt &&
      match r.pc with
      | .looping call =>
        call.amountReadSoFar < call.amountToRead && (call.readAll || call.amountReadSoFar = 0)
      | .waiting _ => true
      | _ => false
  | _ => false

/-- What the call has in hand is what it took. -/
structure Accounting (tr : List (Move Reader ReaderLabel)) (r : Reader) : Prop where
  taken : ∀ call, r.pc.call = some call →
    call.data = callBytes tr ∧ call.amountReadSoFar.toNat = call.data.length ∧
      call.amountReadSoFar ≤ call.amountToRead
  copying : ∀ call n, r.pc = .copying call n →
    call.amountReadSoFar.toNat + n.toNat ≤ call.amountToRead.toNat

section Accounting

variable {r r' : Reader} {l : ReaderLabel} {tr : List (Move Reader ReaderLabel)}

theorem callBytes_snoc (x : Move Reader ReaderLabel) :
    callBytes (tr ++ [x]) = tookBytes (callBytes tr) x := by
  simp [callBytes]

/-- A step of the call that leaves LBR alone takes nothing. -/
theorem tookBytes_same {x : Move Reader ReaderLabel} {taken : List U8} (hev : x.ev.ev = .step)
    (h : x.dst.conn = x.src.conn) : tookBytes taken x = taken := by
  simp [tookBytes, hev, h, Ring.load]

theorem TCB.available_le_left {s : TCB} {call : ReadCall}
    (h : call.amountReadSoFar ≤ call.amountToRead) :
    call.amountReadSoFar.toNat + (s.available call).toNat ≤ call.amountToRead.toNat := by
  unfold TCB.available
  split <;> bv_omega

theorem Accounting.step (hI : Accounting tr r) (hs : ReaderStep r l r') :
    Accounting (tr ++ [⟨r, l, r'⟩]) r' := by
  have hm := hs.moved
  obtain ⟨ev, out⟩ := l
  simp only at hm
  generalize out.read = o at hm
  have hidle : ∀ {r' : Reader} {tr : List (Move Reader ReaderLabel)}, r'.pc = .outside →
      Accounting tr r' :=
    fun h => ⟨by simp [h, ReadPc.call], by simp [h]⟩
  cases hm with
  | conn | cancel => exact ⟨by rw [callBytes_snoc]; exact hI.taken, hI.copying⟩
  | refused hpc => exact hidle hpc
  | returned | eof => exact hidle rfl
  | entered hpc =>
    refine ⟨fun call hcall => ?_, nofun⟩
    obtain rfl := Option.some.inj hcall
    rw [callBytes_snoc]
    exact ⟨rfl, rfl, by bv_omega⟩
  | waits hpc =>
    refine ⟨fun call hcall => ?_, nofun⟩
    obtain rfl := Option.some.inj hcall
    rw [callBytes_snoc, tookBytes_same rfl rfl]
    exact hI.taken _ hpc
  | fixed hpc =>
    refine ⟨fun call hcall => ?_, fun call n hcall => ?_⟩
    · obtain rfl := Option.some.inj hcall
      rw [callBytes_snoc, tookBytes_same rfl rfl]
      exact hI.taken _ hpc
    · obtain ⟨rfl, rfl⟩ := ReadPc.copying.inj hcall
      exact TCB.available_le_left (hI.taken _ hpc).2.2
  | @copied call n hpc =>
    obtain ⟨hdata, hlen, hle⟩ := hI.taken call (by rw [hpc]; rfl)
    have hroom := hI.copying call n hpc
    refine ⟨fun call' hcall => ?_, nofun⟩
    obtain rfl := Option.some.inj hcall
    have hmoved : r.conn.tcb.rcv.lbr + n - r.conn.tcb.rcv.lbr = n := by bv_omega
    have hsum : (call.amountReadSoFar + n).toNat = call.amountReadSoFar.toNat + n.toNat := by
      rw [BitVec.toNat_add]
      omega
    refine ⟨?_, ?_, ?_⟩
    · rw [callBytes_snoc]
      simp only [tookBytes, TCB.readBy, hmoved, hdata]
    · simp only [hsum, List.length_append, Ring.load_length, hlen]
    · rw [BitVec.le_def, hsum]
      exact hroom

/-- A return is right unless it is an EOF after some bytes. -/
theorem Accounting.accounted_iff (hI : Accounting tr r) (hs : ReaderStep r l r') :
    Accounted tr ⟨r, l, r'⟩ ↔ r.losesBytes l.ev = false := by
  have hm := hs.moved
  unfold Accounted
  rw [callBytes_snoc]
  obtain ⟨ev, out⟩ := l
  simp only at hm ⊢
  generalize out.read = o at hm
  cases hm with
  | conn | cancel | entered => simp [Reader.losesBytes]
  | refused hpc ho =>
    rcases ho with rfl | rfl <;>
      simp [Reader.losesBytes, tookBytes, ReadOutcome.count, ReadOutcome.bytes]
  | returned hpc h =>
    obtain ⟨hdata, hlen, -⟩ := hI.taken _ (by rw [hpc]; rfl)
    rw [tookBytes_same rfl rfl]
    have hkept : r.losesBytes .step = false := by
      rcases h with h | h <;> simp [Reader.losesBytes, hpc, h]
    simp [hkept, ReadOutcome.count, ReadOutcome.bytes, hdata, hlen]
  | @eof call hpc hempty hend =>
    have hcall : r.pc.call = some call := by
      rcases hpc with ⟨hpc, -⟩ | hpc <;> rw [hpc] <;> rfl
    obtain ⟨hdata, hlen, -⟩ := hI.taken _ hcall
    have hnone : call.data = [] ↔ call.amountReadSoFar = 0 := by
      rw [← List.length_eq_zero_iff, ← hlen]
      bv_omega
    have hlost : r.losesBytes .step = false ↔ call.amountReadSoFar = 0 := by
      rcases hpc with ⟨hpc, hlt, hall⟩ | hpc
      · -- some bytes in hand without a full read would have been returned
        by_cases hpos : call.amountReadSoFar = 0
        · simp [Reader.losesBytes, hpc, hpos]
        · have hgt : call.amountReadSoFar > 0 := by bv_omega
          have hfull : call.readAll = true := by
            by_contra hno
            exact hall ⟨Bool.eq_false_of_not_eq_true hno, hgt⟩
          simp [Reader.losesBytes, hpc, hempty, hend, hlt, hfull]
      · simp [Reader.losesBytes, hpc, hempty, hend]
    rw [tookBytes_same rfl rfl, ← hdata, hlost, ← hnone]
    constructor
    · intro hall
      exact (hall _ rfl).2.symm
    · rintro hnil o ho
      obtain rfl := Option.some.inj ho
      rw [hnil]
      exact ⟨rfl, rfl⟩
  | waits hpc h =>
    have hkept : r.losesBytes .step = false := by
      cases hr : r.pc <;> simp [Reader.losesBytes, hr, h]
    simp [hkept]
  | fixed hpc h =>
    have hkept : r.losesBytes .step = false := by
      cases hr : r.pc <;> simp [Reader.losesBytes, hr, h]
    simp [hkept]
  | copied hpc => simp [Reader.losesBytes, hpc]

/-- Whatever the connection does meanwhile, a call reports exactly the bytes it took unless it
ends with EOF after some of them. -/
theorem read_accounts_iff (h0 : r.pc = .outside) (h : Run ReaderStep r tr r') :
    Along Accounted tr ↔ ∀ x ∈ tr, x.src.losesBytes x.ev.ev = false := by
  have hiff : Along Accounted tr ↔ Along (fun _ x => x.src.losesBytes x.ev.ev = false) tr :=
    h.along_iff (I := Accounting) (H := fun _ _ => True)
      ⟨by simp [h0, ReadPc.call], by simp [h0]⟩ (fun _ _ _ _ => trivial)
      (fun _ _ _ _ hI hs _ _ => hI.step hs) (fun _ _ _ _ hI hs _ => hI.accounted_iff hs)
  exact ⟨fun hall => forall_mem_of_along (hiff.mp hall), fun hall =>
    hiff.mpr (along_of_forall_mem hall)⟩

/-- One event as a function. -/
def Reader.next (r : Reader) (ev : ReaderEvent) : Option (ReaderLabel × Reader) :=
  (r.step ⟨0, 0, true⟩ ev).map fun q => (⟨ev, q.2⟩, q.1)

def Reader.play (r : Reader) (events : List ReaderEvent) :
    List (Move Reader ReaderLabel) × Reader :=
  Runs.play Reader.next r events

theorem Reader.play_run (r : Reader) (events : List ReaderEvent) :
    Run ReaderStep r (r.play events).1 (r.play events).2 :=
  play_map_run ReaderLabel.mk (fun _ _ _ _ h => ⟨_, h⟩) r events

/-- A full read that has to wait for its last two bytes. -/
theorem read_accounts_iff_two_segments :
    let r : Reader := { conn := Conn.fresh 100 100 500 }
    let tr := (r.play [.conn (.segment (Segment.fromPeer 500 100 16 1000 [7, 8] (by simp))),
      .enter 4 true, .step, .step, .step,
      .conn (.segment (Segment.fromPeer 502 100 16 1000 [9, 9] (by simp))), .step, .step,
      .step]).1
    (∃ x ∈ tr, x.ev.out.read = some (.returned 4 [7, 8, 9, 9])) ∧
      (Along Accounted tr ↔ ∀ x ∈ tr, x.src.losesBytes x.ev.ev = false) :=
  ⟨by decide, read_accounts_iff rfl (Reader.play_run _ _)⟩

/-- Three bytes come in, a full read of ten takes them and waits, and the peer's FIN ends it with
a count of 0. -/
theorem read_loses_bytes_at_fin :
    ¬ ∀ (r r' : Reader) (tr : List (Move Reader ReaderLabel)), r.pc = .outside →
      Run ReaderStep r tr r' → Along Accounted tr := by
  intro h
  have hrun := Reader.play_run { conn := Conn.fresh 100 100 500 }
    [.conn (.segment (Segment.fromPeer 500 100 16 1000 [7, 8, 9] (by simp))), .enter 10 true,
      .step, .step, .step,
      .conn (.segment (Segment.fromPeer 503 100 17 1000 [] (by simp))), .step]
  have hlast := (h _ _ _ rfl hrun).get ⟨6, by decide⟩ .eof (by decide)
  exact absurd hlast.1 (by decide)

end Accounting

end TcpIp
