import TcpIp.Lib.Fifo
import TcpIp.Tcp.SendPointers

/-! The send ring as a bounded FIFO: `Write` fills it round by round and acknowledgements empty
it. -/
namespace TcpIp

open Runs

/-- A call of `Write` under way. -/
structure WriteCall where
  data : List U8
  amountWritten : U32 := 0
  deriving DecidableEq

namespace WriteCall

def amountToWrite (call : WriteCall) : U32 := BitVec.ofNat 32 call.data.length

def rest (call : WriteCall) : List U8 := call.data.drop call.amountWritten.toNat

end WriteCall

/-- Where a call of `Write` stands. -/
inductive WritePc
  | outside
  /-- at the test of the loop -/
  | looping (call : WriteCall)
  /-- on `WriteBlockedCond` -/
  | blocked (call : WriteCall)
  deriving DecidableEq

def WritePc.call : WritePc → Option WriteCall
  | .outside => none
  | .looping call | .blocked call => some call

/-- A connection with the one call of `Write` on its handle. -/
structure Writer where
  conn : Conn
  /-- `WriteCancelled` of the handle -/
  writeCancelled : Bool := false
  pc : WritePc := .outside

inductive WriterEvent
  /-- a step of anything but `Write` -/
  | conn (ev : Event)
  /-- `VShutdown` or `VClose` ends writing on the handle -/
  | cancel
  | enter (data : List U8)
  /-- the next step of the call -/
  | step
  deriving DecidableEq

/-- What a new call is to write. -/
def WriterEvent.data : WriterEvent → List U8
  | .enter data => data
  | _ => []

inductive WriteOutcome
  | returned (amountWritten : U32)
  | failed
  deriving DecidableEq

namespace Writer

/-- The copies of a round, and the count of what the call has written. -/
def copy (w : Writer) (call : WriteCall) : Option Writer :=
  (w.conn.tcb.writePart call.rest).map fun r =>
    { w with
      conn := { w.conn with tcb := r.1 }
      pc := .looping { call with amountWritten := call.amountWritten + r.2 } }

/-- The guards of a new call. -/
def enter (w : Writer) (data : List U8) : Writer × Option WriteOutcome :=
  if w.writeCancelled then (w, some .failed)
  else if ¬ w.conn.inTable then (w, some .failed)
  else if w.conn.tcb.timeoutCancelled then (w, some .failed)
  else ({ w with pc := .looping { data } }, none)

/-- A round from the top of the loop. -/
def round (w : Writer) (call : WriteCall) : Option (Writer × Option WriteOutcome) :=
  let s := w.conn.tcb
  if call.amountWritten < call.amountToWrite then
    if s.state ≠ .established ∧ s.state ≠ .closeWait then
      some ({ w with pc := .outside }, some .failed)
    else if s.snd.lbw - s.snd.una = maxBufSize then some ({ w with pc := .blocked call }, none)
    else (w.copy call).map fun w' => (w', none)
  else some ({ w with pc := .outside }, some (.returned call.amountToWrite))

/-- A wake-up from the wait for room: the state is not looked at again. -/
def woken (w : Writer) (call : WriteCall) : Option (Writer × Option WriteOutcome) :=
  let s := w.conn.tcb
  if w.writeCancelled then some ({ w with pc := .outside }, some .failed)
  else if s.timeoutCancelled then some ({ w with pc := .outside }, some .failed)
  else if s.snd.lbw - s.snd.una = maxBufSize then some ({ w with pc := .blocked call }, none)
  else (w.copy call).map fun w' => (w', none)

/-- One step; `none` when the event is not possible, or the step panics. -/
def step (w : Writer) (env : Env) : WriterEvent → Option (Writer × Option WriteOutcome)
  | .conn ev =>
    if ev.isWrite then none
    else (w.conn.step env ev).map fun q => ({ w with conn := q.1 }, none)
  | .cancel => some ({ w with writeCancelled := true }, none)
  | .enter data =>
    if w.pc = .outside ∧ w.conn.hasHandle then some (w.enter data) else none
  | .step =>
    match w.pc with
    | .outside => none
    | .looping call => w.round call
    | .blocked call => w.woken call

end Writer

structure WriterLabel where
  ev : WriterEvent
  out : Option WriteOutcome

def WriterStep (w : Writer) (l : WriterLabel) (w' : Writer) : Prop :=
  ∃ env, w.step env l.ev = some (w', l.out)

/-- What a step can do; only the copies of the call change the ring. -/
inductive WriterMove (w : Writer) : WriterEvent → Option WriteOutcome → Writer → Prop
  | conn {ev : Event} {o : Output} {c : Conn} (hev : ev.isWrite = false)
      (h : Step w.conn ⟨ev, o⟩ c) : WriterMove w (.conn ev) none { w with conn := c }
  | cancel : WriterMove w .cancel none { w with writeCancelled := true }
  | refused {data : List U8} (hpc : w.pc = .outside) : WriterMove w (.enter data) (some .failed) w
  | entered {data : List U8} (hpc : w.pc = .outside) :
      WriterMove w (.enter data) none { w with pc := .looping { data } }
  | returned {call : WriteCall} (hpc : w.pc.call = some call)
      (h : ¬ call.amountWritten < call.amountToWrite) :
      WriterMove w .step (some (.returned call.amountToWrite)) { w with pc := .outside }
  | failed : WriterMove w .step (some .failed) { w with pc := .outside }
  | blocks {call : WriteCall} (hpc : w.pc.call = some call) :
      WriterMove w .step none { w with pc := .blocked call }
  | copied {call : WriteCall} {s : TCB} {n : U32} (hpc : w.pc.call = some call)
      (h : w.conn.tcb.writePart call.rest = some (s, n)) :
      WriterMove w .step none
        { w with
          conn := { w.conn with tcb := s }
          pc := .looping { call with amountWritten := call.amountWritten + n } }

section Moves

variable {w w' : Writer} {l : WriterLabel} {call : WriteCall} {env : Env}

theorem copy_moved {o : Option WriteOutcome} (hpc : w.pc.call = some call)
    (h : (w.copy call).map (fun w' => (w', none)) = some (w', o)) : WriterMove w .step o w' := by
  obtain ⟨q, hq, heq⟩ := Option.map_eq_some_iff.mp h
  obtain ⟨rfl, rfl⟩ := Prod.mk.inj heq
  obtain ⟨⟨s, n⟩, hpart, rfl⟩ := Option.map_eq_some_iff.mp hq
  exact .copied hpc hpart

theorem writer_enter_moved {data : List U8} {o : Option WriteOutcome} (hpc : w.pc = .outside)
    (h : w.enter data = (w', o)) : WriterMove w (.enter data) o w' := by
  simp only [Writer.enter] at h
  split at h
  · obtain ⟨rfl, rfl⟩ := Prod.mk.inj h
    exact .refused hpc
  split at h
  · obtain ⟨rfl, rfl⟩ := Prod.mk.inj h
    exact .refused hpc
  split at h
  · obtain ⟨rfl, rfl⟩ := Prod.mk.inj h
    exact .refused hpc
  · obtain ⟨rfl, rfl⟩ := Prod.mk.inj h
    exact .entered hpc

theorem round_moved {o : Option WriteOutcome} (hcall : w.pc.call = some call)
    (h : w.round call = some (w', o)) : WriterMove w .step o w' := by
  simp only [Writer.round] at h
  split at h
  · split at h
    · obtain ⟨rfl, rfl⟩ := Prod.mk.inj (Option.some.inj h)
      exact .failed
    split at h
    · obtain ⟨rfl, rfl⟩ := Prod.mk.inj (Option.some.inj h)
      exact .blocks hcall
    · exact copy_moved hcall h
  · rename_i hdone
    obtain ⟨rfl, rfl⟩ := Prod.mk.inj (Option.some.inj h)
    exact .returned hcall hdone

theorem woken_moved {o : Option WriteOutcome} (hcall : w.pc.call = some call)
    (h : w.woken call = some (w', o)) : WriterMove w .step o w' := by
  simp only [Writer.woken] at h
  split at h
  · obtain ⟨rfl, rfl⟩ := Prod.mk.inj (Option.some.inj h)
    exact .failed
  split at h
  · obtain ⟨rfl, rfl⟩ := Prod.mk.inj (Option.some.inj h)
    exact .failed
  split at h
  · obtain ⟨rfl, rfl⟩ := Prod.mk.inj (Option.some.inj h)
    exact .blocks hcall
  · exact copy_moved hcall h

theorem WriterStep.moved (h : WriterStep w l w') : WriterMove w l.ev l.out w' := by
  obtain ⟨env, h⟩ := h
  generalize l.ev = ev at h
  generalize l.out = o at h
  cases ev with
  | conn ev =>
    simp only [Writer.step] at h
    split at h
    · cases h
    · rename_i hev
      obtain ⟨q, hq, heq⟩ := Option.map_eq_some_iff.mp h
      obtain ⟨rfl, rfl⟩ := Prod.mk.inj heq
      exact .conn (Bool.eq_false_of_not_eq_true hev) ⟨env, hq⟩
  | cancel =>
    obtain ⟨rfl, rfl⟩ := Prod.mk.inj (Option.some.inj h)
    exact .cancel
  | enter data =>
    simp only [Writer.step] at h
    split at h
    · rename_i hpc
      exact writer_enter_moved hpc.1 (Option.some.inj h)
    · cases h
  | step =>
    simp only [Writer.step] at h
    split at h
    · cases h
    · rename_i call hpc
      exact round_moved (by rw [hpc]; rfl) h
    · rename_i call hpc
      exact woken_moved (by rw [hpc]; rfl) h

/-- A round from the top of the loop is the connection's `Write` of what is left. -/
theorem round_step (hpc : w.pc = .looping call) (hlt : call.amountWritten < call.amountToWrite)
    (hhandle : w.conn.hasHandle = true) :
    (w.step env .step).map (fun q => q.1.conn) =
      (w.conn.step env (.write call.rest)).map fun q => q.1 := by
  simp only [Writer.step, hpc, Writer.round, if_pos hlt, Conn.step, if_pos hhandle, writeRound_eq]
  split
  · rfl
  split
  · rfl
  · unfold Writer.copy
    cases w.conn.tcb.writePart call.rest <;> rfl

end Moves

namespace Writer

/-- The oldest data byte not acknowledged; the first one of all has number `f`. -/
def base (f : ℕ) (w : Writer) : ℕ := max w.conn.tcb.snd.una.toNat f

/-- The written-but-unacknowledged bytes in their slots, and what the call has still to write. -/
def fifo (f : ℕ) (w : Writer) : Fifo.Queue U8 where
  items := Ring.load 65535 w.conn.tcb.snd.buffer (w.base f) (w.conn.tcb.snd.lbw.toNat - w.base f)
  rest := (w.pc.call.map WriteCall.rest).getD []

/-- What a move is to the queue. -/
def op (f : ℕ) (x : Move Writer WriterLabel) : Fifo.Op U8 :=
  match x.ev.ev, x.ev.out with
  | .conn _, _ => .release (x.dst.base f - x.src.base f)
  | .cancel, _ => .skip
  | .enter data, none => .call data
  | .enter _, some _ => .skip
  | .step, some (.returned _) => .done
  | .step, some .failed => .abort
  | .step, none => .put (x.dst.conn.tcb.snd.lbw.toNat - x.src.conn.tcb.snd.lbw.toNat)

/-- The move changes no slot of `[UNA, LBW)`. -/
def KeepsUnacked (x : Move Writer WriterLabel) : Prop :=
  ∀ q, x.src.conn.tcb.snd.una.toNat ≤ q → q < x.src.conn.tcb.snd.lbw.toNat →
    x.dst.conn.tcb.snd.buffer (q % 65535) = x.src.conn.tcb.snd.buffer (q % 65535)

end Writer

/-- The pointers are in order, and the call has counted what it wrote. -/
structure Filling (f : ℕ) (w : Writer) : Prop where
  phase : DataPhase w.conn
  paced : w.conn.sender.Paced
  pointers : SendPointers w.conn.tcb.snd
  first : f ≤ w.conn.tcb.snd.lbw.toNat
  count : ∀ call, w.pc.call = some call →
    call.data.length < 2 ^ 32 ∧ call.amountWritten.toNat ≤ call.data.length

/-- What is asked of every move: no `Close`, UNA at most NXT, and no number past `2 ^ 32`. -/
structure Writer.InOrder (x : Move Writer WriterLabel) : Prop where
  open_ : x.ev.ev ≠ .conn .close
  acked : x.dst.conn.tcb.snd.una ≤ x.dst.conn.tcb.snd.nxt
  cross : x.src.conn.tcb.snd.lbw ≤ x.dst.conn.tcb.snd.lbw
  length : x.ev.ev.data.length < 2 ^ 32

section Filling

variable {f : ℕ} {w w' : Writer} {l : WriterLabel} {c : Conn} {ev : Event} {s : Sender}

/-- A segment that leaves UNA at most NXT acknowledged nothing unsent. -/
theorem acksUnsent_of_una_le (h : SenderMove c ev s) (hd : DataPhase c)
    (hle : c.tcb.snd.una ≤ c.tcb.snd.nxt) (hle' : s.snd.una ≤ s.snd.nxt) :
    c.acksUnsent ev = false := by
  cases ev with
  | segment seg =>
    rw [← Bool.not_eq_true, acksUnsent_iff hle]
    rintro ⟨htakes, hlt⟩
    cases h with
    | acked => bv_omega
    | same hsend hseg => simp [hseg seg rfl] at htakes
    | loss hloss hseg => simp [hseg seg rfl] at htakes
    | opened hs => exact absurd hs (not_or.mpr hd.not_opening)
    | lastAcked hs =>
      have hstate := hd.state
      simp [hs] at hstate
    | finSent hev => rcases hev with hev | ⟨hev, -⟩ <;> cases hev
  | _ => rfl

/-- A copy stores the next bytes of the call at LBW, within a buffer of UNA. -/
theorem Filling.part {call : WriteCall} {t : TCB} {n : U32} (hi : Filling f w)
    (h : w.conn.tcb.writePart call.rest = some (t, n)) (hlbw : w.conn.tcb.snd.lbw ≤ t.snd.lbw) :
    n = w.conn.tcb.snd.writable call.rest ∧
    t = { w.conn.tcb with
      snd := { w.conn.tcb.snd with
        buffer := Ring.store 65535 w.conn.tcb.snd.buffer w.conn.tcb.snd.lbw.toNat
          (call.rest.take n.toNat)
        lbw := w.conn.tcb.snd.lbw + n } } ∧
    (w.conn.tcb.snd.lbw + n).toNat = w.conn.tcb.snd.lbw.toNat + n.toNat ∧
    w.conn.tcb.snd.lbw.toNat + n.toNat ≤ w.conn.tcb.snd.una.toNat + 65535 := by
  obtain ⟨hn, buffer, rfl, hb⟩ := writePart_wrote h
  obtain ⟨hun, hnl, hbuf⟩ := hi.pointers
  have hroom := Send.writable_add_le call.rest
    (show (w.conn.tcb.snd.lbw - w.conn.tcb.snd.una).toNat ≤ 65535 from hbuf)
  rw [← hn] at hroom
  obtain ⟨rfl, -⟩ := hb (by omega)
  simp only at hlbw
  refine ⟨hn, rfl, ?_, ?_⟩ <;> bv_omega

/-- The count of the call does not wrap around. -/
theorem Filling.written {call : WriteCall} {n : U32} (hi : Filling f w)
    (hpc : w.pc.call = some call) (hn : n = w.conn.tcb.snd.writable call.rest) :
    n.toNat ≤ call.rest.length ∧
      (call.amountWritten + n).toNat = call.amountWritten.toNat + n.toNat ∧
      (call.amountWritten + n).toNat ≤ call.data.length := by
  obtain ⟨hlen, hcount⟩ := hi.count call hpc
  have hrest : n.toNat ≤ call.rest.length := hn ▸ Send.writable_le_length _ _
  have hleft : n.toNat ≤ call.data.length - call.amountWritten.toNat := by
    rwa [WriteCall.rest, List.length_drop] at hrest
  refine ⟨hrest, ?_, ?_⟩ <;> rw [BitVec.toNat_add] <;> omega

theorem Filling.step (hi : Filling f w) (h : WriterStep w l w')
    (hx : Writer.InOrder ⟨w, l, w'⟩) : Filling f w' := by
  obtain ⟨hopen, hacked, hcross, hlength⟩ := hx
  have hm := h.moved
  simp only at hopen hacked hcross hlength
  generalize l.ev = ev at hm hopen hlength
  generalize l.out = o at hm
  cases hm with
  | @conn ev o c hev hs =>
    have hclose : ev ≠ .close := fun he => hopen (by rw [he])
    have hno := acksUnsent_of_una_le hs.sender hi.phase hi.pointers.1 hacked
    refine ⟨hi.phase.step hs hclose, ?_, ?_, ?_, hi.count⟩
    · exact hi.paced.move hs.sender hi.phase.not_opening
        ⟨hclose, fun _ => hi.phase.closeWaiting⟩ hcross
    · exact (sendPointers_move hs.sender hi.phase hi.paced hi.pointers hclose hcross).mpr hno
    · exact hi.first.trans hcross
  | cancel | refused => exact { hi with }
  | entered hpc =>
    refine { hi with count := ?_ }
    rintro call ⟨⟩
    exact ⟨hlength, Nat.zero_le _⟩
  | returned | failed => exact { hi with count := by rintro call ⟨⟩ }
  | blocks hpc =>
    refine { hi with count := ?_ }
    rintro call ⟨⟩
    exact hi.count _ hpc
  | @copied call t n hpc hpart =>
    obtain ⟨hn, rfl, hadd, hle⟩ := hi.part hpart hcross
    refine ⟨{ hi.phase with }, hi.paced.grow _ hcross, ?_, ?_, ?_⟩
    · rw [hn] at hcross ⊢
      exact hi.pointers.grow _ hcross
    · exact hi.first.trans hcross
    · rintro call' ⟨⟩
      exact ⟨(hi.count call hpc).1, (hi.written hpc hn).2.2⟩

theorem Filling.bounded (hi : Filling f w) :
    w.conn.tcb.snd.lbw.toNat ≤ w.conn.tcb.snd.una.toNat + 65535 := by
  obtain ⟨hun, hnl, hbuf⟩ := hi.pointers
  have hmax := toNat_maxBufSize
  bv_omega

theorem Filling.base_le (hi : Filling f w) : w.base f ≤ w.conn.tcb.snd.lbw.toNat :=
  Nat.max_le.mpr ⟨Nat.le_trans hi.pointers.1 hi.pointers.2.1, hi.first⟩

/-- What the call has still to write is the rest of the queue. -/
theorem fifo_rest (f : ℕ) {call : WriteCall} (hpc : w.pc.call = some call) :
    (w.fifo f).rest = call.rest := by
  simp [Writer.fifo, hpc]

theorem Filling.length_items (hi : Filling f w) :
    (w.fifo f).items.length = w.conn.tcb.snd.lbw.toNat - w.base f ∧
      w.conn.tcb.snd.lbw.toNat - w.base f ≤ 65535 := by
  refine ⟨Ring.load_length _ _, ?_⟩
  have hbound := hi.bounded
  have huna : w.conn.tcb.snd.una.toNat ≤ w.base f := Nat.le_max_left _ _
  omega

/-- A copy appends what it takes from the call. -/
theorem Filling.copied {call : WriteCall} {t : TCB} {n : U32} (hi : Filling f w)
    (hpc : w.pc.call = some call) (hpart : w.conn.tcb.writePart call.rest = some (t, n))
    (hlbw : w.conn.tcb.snd.lbw ≤ t.snd.lbw) :
    (w.fifo f).step 65535 (.put (t.snd.lbw.toNat - w.conn.tcb.snd.lbw.toNat)) =
      some (Writer.fifo f { w with
        conn := { w.conn with tcb := t }
        pc := .looping { call with amountWritten := call.amountWritten + n } }) := by
  obtain ⟨hn, rfl, hadd, hle⟩ := hi.part hpart hlbw
  obtain ⟨hrest, hwritten, -⟩ := hi.written hpc hn
  have hbase := hi.base_le
  have huna : w.conn.tcb.snd.una.toNat ≤ w.base f := Nat.le_max_left _ _
  have htake : (call.rest.take n.toNat).length = n.toNat := by
    rw [List.length_take, Nat.min_eq_left hrest]
  simp only
  rw [hadd, Nat.add_sub_cancel_left, Fifo.step_put]
  · rw [fifo_rest f hpc]
    refine congrArg some (congrArg₂ Fifo.Queue.mk ?_ ?_)
    · show _ = Ring.load 65535 _ (w.base f) ((w.conn.tcb.snd.lbw + n).toNat - w.base f)
      have hsplit : (w.conn.tcb.snd.lbw + n).toNat - w.base f =
          w.conn.tcb.snd.lbw.toNat - w.base f + (call.rest.take n.toNat).length := by
        omega
      rw [hsplit]
      refine (Ring.load_store (by decide) hbase ?_).symm
      omega
    · show _ = List.drop _ call.data
      rw [hwritten, WriteCall.rest, List.drop_drop]
  · rw [fifo_rest f hpc]
    exact hrest
  · rw [hi.length_items.1]
    omega

/-- A call that has written everything leaves nothing to write. -/
theorem Filling.rest_nil {call : WriteCall} (hi : Filling f w) (hpc : w.pc.call = some call)
    (hdone : ¬ call.amountWritten < call.amountToWrite) : call.rest = [] := by
  obtain ⟨hlen, -⟩ := hi.count call hpc
  apply List.drop_eq_nil_of_le
  rw [BitVec.not_lt, BitVec.le_def, WriteCall.amountToWrite, BitVec.toNat_ofNat,
    Nat.mod_eq_of_lt hlen] at hdone
  exact hdone

/-- Every move is its operation of the queue. -/
theorem Filling.simulates (hi : Filling f w) (h : WriterStep w l w')
    (hx : Writer.InOrder ⟨w, l, w'⟩) :
    (w.fifo f).step 65535 (Writer.op f ⟨w, l, w'⟩) = some (w'.fifo f) := by
  have hbase' := (hi.step h hx).base_le
  have hcross := hx.cross
  have hm := h.moved
  simp only [Writer.op] at hcross ⊢
  generalize l.ev = ev at hm ⊢
  generalize l.out = o at hm ⊢
  cases hm with
  | @conn ev o c hev hs =>
    obtain ⟨hbuffer, hlbw, huna⟩ := hs.sender.ring_kept hi.phase.not_opening hev
    simp only [Conn.sender_snd] at hbuffer hlbw huna
    have hmono : w.base f ≤ Writer.base f { w with conn := c } := max_le_max_right f huna
    have hlength := hi.length_items.1
    rw [hlbw] at hbase'
    rw [Fifo.step_release (by omega)]
    simp only [Writer.fifo, Ring.load_drop, hbuffer, hlbw, Option.some.injEq,
      Fifo.Queue.mk.injEq, and_true]
    congr 1 <;> omega
  | cancel | refused => rfl
  | entered hpc =>
    rw [Fifo.step_call (by simp [Writer.fifo, hpc, WritePc.call])]
    rfl
  | @returned call hpc hdone =>
    have hnil := (fifo_rest f hpc).trans (hi.rest_nil hpc hdone)
    rw [Fifo.step_done hnil]
    show some (w.fifo f) = some ⟨(w.fifo f).items, []⟩
    rw [← hnil]
  | failed => rfl
  | @blocks call hpc =>
    rw [Nat.sub_self, Fifo.step_put (Nat.zero_le _)]
    · show _ = some (Fifo.Queue.mk (w.fifo f).items call.rest)
      rw [← fifo_rest f hpc]
      simp
    · rw [hi.length_items.1]
      exact hi.length_items.2
  | copied hpc hpart => exact hi.copied hpc hpart hcross

/-- Only the copies of the call touch the ring, and they start at LBW. -/
theorem Filling.keepsUnacked (hi : Filling f w) (h : WriterStep w l w')
    (hx : Writer.InOrder ⟨w, l, w'⟩) : Writer.KeepsUnacked ⟨w, l, w'⟩ := by
  intro q hq hq'
  have hcross := hx.cross
  have hm := h.moved
  simp only at hq hq' hcross ⊢
  generalize l.ev = ev at hm
  generalize l.out = o at hm
  cases hm with
  | conn hev hs => rw [← Conn.sender_snd, (hs.sender.ring_kept hi.phase.not_opening hev).1]
  | copied hpc hpart =>
    rename_i call t n
    obtain ⟨hn, rfl, hadd, hle⟩ := hi.part hpart hcross
    refine Ring.store_apply_of_lt (by decide) hq' ?_
    rw [List.length_take]
    omega
  | _ => rfl

theorem Filling.isSome (hi : Filling f w) (hpc : w.pc ≠ .outside) (env : Env) :
    (w.step env .step).isSome = true := by
  have hcopy : ∀ call, ((w.copy call).map fun w' => (w', (none : Option WriteOutcome))).isSome =
      true := by
    intro call
    obtain ⟨t, n, hpart⟩ := writePart_isSome call.rest hi.pointers.2.2
    simp [Writer.copy, hpart]
  cases hcall : w.pc with
  | outside => exact absurd hcall hpc
  | looping call =>
    simp only [Writer.step, hcall, Writer.round]
    split
    · split
      · rfl
      split
      · rfl
      · exact hcopy call
    · rfl
  | blocked call =>
    simp only [Writer.step, hcall, Writer.woken]
    split
    · rfl
    split
    · rfl
    split
    · rfl
    · exact hcopy call

theorem filling_of_established (h0 : Established w.conn) (hpc : w.pc = .outside)
    (huna : w.conn.tcb.snd.una ≤ w.conn.tcb.snd.nxt) :
    Filling w.conn.tcb.snd.lbw.toNat w := by
  refine ⟨h0.dataPhase, h0.paced, h0.sendPointers huna, Nat.le_refl _, ?_⟩
  rw [hpc]
  rintro call ⟨⟩

end Filling

section Refinement

variable {w w' : Writer} {tr : List (Move Writer WriterLabel)}

/-- The send ring refines a bounded FIFO: a run with UNA at most NXT is a run of the queue of
`MAX_BUF_SIZE` bytes, no move changes a slot of `[UNA, LBW)`, and no step of a call panics. -/
theorem send_ring_refines_fifo (h0 : Established w.conn) (hpc : w.pc = .outside)
    (huna : w.conn.tcb.snd.una ≤ w.conn.tcb.snd.nxt) (h : Run WriterStep w tr w')
    (hclose : ∀ x ∈ tr, x.ev.ev ≠ .conn .close)
    (hack : ∀ x ∈ tr, x.dst.conn.tcb.snd.una ≤ x.dst.conn.tcb.snd.nxt)
    (hcross : ∀ x ∈ tr, x.src.conn.tcb.snd.lbw ≤ x.dst.conn.tcb.snd.lbw)
    (hlength : ∀ x ∈ tr, x.ev.ev.data.length < 2 ^ 32) :
    Fifo.Queue.run 65535 {} (tr.map (Writer.op w.conn.tcb.snd.lbw.toNat)) =
        some (w'.fifo w.conn.tcb.snd.lbw.toNat) ∧
      (∀ x ∈ tr, Writer.KeepsUnacked x ∧
        x.dst.conn.tcb.snd.lbw.toNat ≤ x.dst.conn.tcb.snd.una.toNat + 65535) ∧
      (w'.pc ≠ .outside → ∀ env, (w'.step env .step).isSome = true) := by
  have hinit := filling_of_established h0 hpc huna
  have horder : ∀ x ∈ tr, Writer.InOrder x := fun x hx =>
    ⟨hclose x hx, hack x hx, hcross x hx, hlength x hx⟩
  have hstep : ∀ t e u, Filling w.conn.tcb.snd.lbw.toNat t → WriterStep t e u →
      Writer.InOrder ⟨t, e, u⟩ → Filling w.conn.tcb.snd.lbw.toNat u :=
    fun t e u hi hs hx => hi.step hs hx
  refine ⟨?_, ?_, fun hne env => (h.state_inv hinit horder hstep).isSome hne env⟩
  · have hempty : w.fifo w.conn.tcb.snd.lbw.toNat = {} := by
      have hbase : w.base w.conn.tcb.snd.lbw.toNat = w.conn.tcb.snd.lbw.toNat :=
        Nat.le_antisymm hinit.base_le (Nat.le_max_right _ _)
      simp [Writer.fifo, hbase, hpc, WritePc.call, Ring.load]
    rw [← hempty]
    exact h.simulates hinit horder hstep fun t e u hi hs hx => hi.simulates hs hx
  · refine (h.forall_iff (I := Filling w.conn.tcb.snd.lbw.toNat) (P := fun _ => True) hinit horder
      (fun t e u hi hs hx _ => hi.step hs hx) ?_).mpr fun _ _ => trivial
    intro t e u hi hs hx
    exact iff_of_true ⟨hi.keepsUnacked hs hx, (hi.step hs hx).bounded⟩ trivial

/-- One event as a function. -/
def Writer.next (w : Writer) (ev : WriterEvent) : Option (WriterLabel × Writer) :=
  (w.step ⟨0, 0, true⟩ ev).map fun q => (⟨ev, q.2⟩, q.1)

def Writer.play (w : Writer) (events : List WriterEvent) :
    List (Move Writer WriterLabel) × Writer :=
  Runs.play Writer.next w events

theorem Writer.play_run (w : Writer) (events : List WriterEvent) :
    Run WriterStep w (w.play events).1 (w.play events).2 :=
  play_map_run WriterLabel.mk (fun _ _ _ _ h => ⟨_, h⟩) w events

/-- Four bytes go in across the end of the ring, two of them are acknowledged, and one more goes
in. -/
theorem send_ring_refines_fifo_wrap :
    let w : Writer := { conn := Conn.fresh 65533 65533 500 }
    let f := w.conn.tcb.snd.lbw.toNat
    let run := w.play [.enter [1, 2, 3, 4], .step, .step, .conn .send, .conn .send,
      .conn (.segment (Segment.fromPeer 500 65535 16 1000 [] (by simp))), .enter [5], .step]
    (run.1.length = 8 ∧ (run.2.fifo f).items = [3, 4, 5]) ∧
      Fifo.Queue.run 65535 {} (run.1.map (Writer.op f)) = some (run.2.fifo f) ∧
      (∀ x ∈ run.1, Writer.KeepsUnacked x ∧
        x.dst.conn.tcb.snd.lbw.toNat ≤ x.dst.conn.tcb.snd.una.toNat + 65535) ∧
      (run.2.pc ≠ .outside → ∀ env, (run.2.step env .step).isSome = true) :=
  ⟨by decide, send_ring_refines_fifo (established_fresh (Or.inl rfl)) rfl (by decide)
    (Writer.play_run _ _) (by decide) (by decide) (by decide) (by decide)⟩

end Refinement

end TcpIp
