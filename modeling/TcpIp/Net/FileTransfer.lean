import TcpIp.Net.HalfClose

/-! `SendFileTCPCommand` at one node and `ReadFileTCPCommand` at another, over the whole stack. -/
namespace TcpIp

open Runs

/-- Where `SendFileTCPCommand` stands after its `Connect`. -/
inductive SendFileStage
  /-- in `SetCCForSocket`, before and after the flag is set -/
  | enabling
  | initialising
  /-- in the loop over the file -/
  | copying
  /-- past the loop -/
  | closing
  /-- in `VClose` or past it -/
  | closed
  /-- returned with an error of `f.Read` or `VWrite` -/
  | failed
  deriving DecidableEq

/-- `SendFileTCPCommand`: what the file has left, and what `VWrite` has left of the chunk it was
called with. -/
structure SendFile where
  file : List U8
  buf : List U8
  stage : SendFileStage

namespace SendFile

def start (file : List U8) (ccontrol : Bool) : SendFile :=
  ⟨file, [], if ccontrol then .enabling else .copying⟩

/-- `f.Read` returns `amountRead` bytes into a buffer of 1024, with or without an error. No bytes
are taken for the end of the file, whatever the error. -/
def read (s : SendFile) (amountRead : ℕ) (err : Bool) : Option SendFile :=
  if s.stage = .copying ∧ s.buf = [] ∧ amountRead ≤ 1024 ∧ amountRead ≤ s.file.length then
    if amountRead = 0 then some { s with stage := .closing }
    else if err then some { s with stage := .failed }
    else some { s with file := s.file.drop amountRead, buf := s.file.take amountRead }
  else none

/-- `SetCCForSocket` does not find the socket. Its error is dropped. -/
def skipCC (s : SendFile) (c : Conn) : Option SendFile :=
  if s.stage = .enabling ∧ c.inTable = false then some { s with stage := .copying } else none

/-- `VWrite` finds that the connection is not in the table or has timed out, at its start or when it
wakes. -/
def writeFails (s : SendFile) (c : Conn) : Option SendFile :=
  if s.stage = .copying ∧ s.buf ≠ [] ∧ (c.inTable = false ∨ c.tcb.timeoutCancelled = true) then
    some { s with stage := .failed }
  else none

/-- The calls the command makes, and what its connection does by itself. -/
def calls (s : SendFile) : Event → Bool
  | .enableCC => s.stage = .enabling
  | .initCC => s.stage = .initialising
  | .write data => s.stage = .copying ∧ data = s.buf ∧ s.buf ≠ []
  | .close => s.stage = .closing
  | .closeWake | .closeReturn => s.stage = .closed
  | .segment _ | .send | .probe | .timeout | .ackToken | .expire => true
  | .read _ _ | .readWake | .connectTimeout | .ackTimeout => false

/-- After a round of `VWrite` the rest of the chunk is left, or the call has failed. -/
def after (s : SendFile) (c : Conn) : Event → SendFile
  | .enableCC => { s with stage := .initialising }
  | .initCC => { s with stage := .copying }
  | .write data =>
    match c.tcb.writeRound data with
    | .closing => { s with stage := .failed }
    | _ => { s with buf := data.drop (c.written (.write data)).length }
  | .close => { s with stage := .closed }
  | _ => s

end SendFile

/-- Where `ReadFileTCPCommand` stands after its `VAccept`. -/
inductive ReadFileStage
  /-- in the loop over the connection, at `VRead` -/
  | reading
  /-- in the loop, at `f.Write` -/
  | writing
  /-- past the loop: `VRead` has returned an error -/
  | closing
  /-- in `VClose` or past it -/
  | closed
  /-- returned with an error of `f.Write`; the connection stays open -/
  | failed
  deriving DecidableEq

/-- `ReadFileTCPCommand` with the file it has written, and what it has read but not written. -/
structure ReadFile where
  file : List U8 := []
  buf : List U8 := []
  stage : ReadFileStage := .reading

namespace ReadFile

/-- The calls the command makes, and what its connection does by itself. -/
def calls (r : ReadFile) : Event → Bool
  | .read amountToRead readAll => r.stage = .reading ∧ amountToRead = 4096 ∧ readAll = false
  | .close => r.stage = .closing
  | .closeWake | .closeReturn => r.stage = .closed
  | .segment _ | .readWake | .send | .probe | .timeout | .ackToken | .expire => true
  | .write _ | .enableCC | .initCC | .connectTimeout | .ackTimeout => false

def close (r : ReadFile) : Event → ReadFile
  | .close => { r with stage := .closed }
  | _ => r

/-- The bytes that `VRead` returns, as many as it says, go to `f.Write`; an error ends the loop. -/
def after (r : ReadFile) (l : Label) : ReadFile :=
  match l.out.read with
  | some (.returned numbytes data) => { r with buf := data.take numbytes.toNat, stage := .writing }
  | some _ => { r with stage := .closing }
  | none => r.close l.ev

/-- `f.Write` writes all of the buffer, or fails after `n` bytes of it. -/
def write (r : ReadFile) (n : ℕ) (err : Bool) : Option ReadFile :=
  if r.stage = .writing ∧ n ≤ r.buf.length then
    if err then
      some { file := r.file ++ r.buf.take n, buf := r.buf.drop n, stage := .failed }
    else if n = r.buf.length then some { file := r.file ++ r.buf, buf := [], stage := .reading }
    else none
  else none

end ReadFile

/-- The loop of `ReadFileTCPCommand` has ended with an error of `VRead`. -/
def ReadFileStage.ended : ReadFileStage → Bool
  | .closing | .closed => true
  | .reading | .writing | .failed => false

/-- The two commands and everything between them. -/
structure FileTransfer (Node : Type*) where
  stack : Stack Node
  sender : SendFile
  receiver : ReadFile

inductive FileEvent (Node : Type*)
  /-- `f.Read` at the sender -/
  | read (amountRead : ℕ) (err : Bool)
  /-- `SetCCForSocket` fails -/
  | skipCC
  /-- `VWrite` fails -/
  | writeFails
  /-- `f.Write` at the receiver -/
  | write (n : ℕ) (err : Bool)
  | stack (ev : StackEvent Node)

namespace FileTransfer

variable {Node : Type*} [DecidableEq Node]

/-- What an endpoint did, on the side of its command; `none` where the command does not call it. -/
def advance (t : FileTransfer Node) (stack : Stack Node) :
    Option (Side × Label) → Option (FileTransfer Node)
  | none => some { t with stack }
  | some (.a, l) =>
    if t.sender.calls l.ev then
      some { t with stack, sender := t.sender.after (t.stack.ends.conn .a) l.ev }
    else none
  | some (.b, l) =>
    if t.receiver.calls l.ev then some { t with stack, receiver := t.receiver.after l }
    else none

def step (site : Side → Node) (now : ℕ) (env : Env) (t : FileTransfer Node) :
    FileEvent Node → Option (FileTransfer Node)
  | .read amountRead err => (t.sender.read amountRead err).map fun sender => { t with sender }
  | .skipCC => (t.sender.skipCC (t.stack.ends.conn .a)).map fun sender => { t with sender }
  | .writeFails =>
    (t.sender.writeFails (t.stack.ends.conn .a)).map fun sender => { t with sender }
  | .write n err => (t.receiver.write n err).map fun receiver => { t with receiver }
  | .stack ev => (t.stack.step site now env ev).bind fun r => t.advance r.1 r.2

end FileTransfer

def FileStep {Node : Type*} [DecidableEq Node] (site : Side → Node) (t : FileTransfer Node)
    (ev : FileEvent Node) (t' : FileTransfer Node) : Prop :=
  ∃ now env, t.step site now env ev = some t'

/-- A step of the commands is one of `f.Read` or `f.Write`, of the hosts, or of an endpoint that its
command calls or that moves by itself. -/
inductive FileMove {Node : Type*} [DecidableEq Node] (site : Side → Node) (t : FileTransfer Node) :
    FileEvent Node → FileTransfer Node → Prop
  | read {amountRead : ℕ} {err : Bool} {sender : SendFile}
      (h : t.sender.read amountRead err = some sender) :
      FileMove site t (.read amountRead err) { t with sender }
  | skipCC {sender : SendFile} (h : t.sender.skipCC (t.stack.ends.conn .a) = some sender) :
      FileMove site t .skipCC { t with sender }
  | writeFails {sender : SendFile} (h : t.sender.writeFails (t.stack.ends.conn .a) = some sender) :
      FileMove site t .writeFails { t with sender }
  | write {n : ℕ} {err : Bool} {receiver : ReadFile} (h : t.receiver.write n err = some receiver) :
      FileMove site t (.write n err) { t with receiver }
  | host {ev : StackEvent Node} {stack : Stack Node} (h : StackStep site t.stack ⟨ev, none⟩ stack) :
      FileMove site t (.stack ev) { t with stack }
  | send {ev : StackEvent Node} {l : Label} {stack : Stack Node}
      (h : StackStep site t.stack ⟨ev, some (.a, l)⟩ stack) (hc : t.sender.calls l.ev = true) :
      FileMove site t (.stack ev)
        { t with stack, sender := t.sender.after (t.stack.ends.conn .a) l.ev }
  | receive {ev : StackEvent Node} {l : Label} {stack : Stack Node}
      (h : StackStep site t.stack ⟨ev, some (.b, l)⟩ stack) (hc : t.receiver.calls l.ev = true) :
      FileMove site t (.stack ev) { t with stack, receiver := t.receiver.after l }

section Moves

variable {Node : Type*} [DecidableEq Node] {site : Side → Node} {t t' : FileTransfer Node}
  {ev : FileEvent Node}

theorem FileStep.moves (h : FileStep site t ev t') : FileMove site t ev t' := by
  obtain ⟨now, env, h⟩ := h
  cases ev with
  | read amountRead err =>
    obtain ⟨sender, hread, rfl⟩ := Option.map_eq_some_iff.mp h
    exact .read hread
  | skipCC =>
    obtain ⟨sender, hskip, rfl⟩ := Option.map_eq_some_iff.mp h
    exact .skipCC hskip
  | writeFails =>
    obtain ⟨sender, hfails, rfl⟩ := Option.map_eq_some_iff.mp h
    exact .writeFails hfails
  | write n err =>
    obtain ⟨receiver, hwrite, rfl⟩ := Option.map_eq_some_iff.mp h
    exact .write hwrite
  | stack ev =>
    obtain ⟨⟨stack, moved⟩, hstep, h⟩ := Option.bind_eq_some_iff.mp h
    have hs : StackStep site t.stack ⟨ev, moved⟩ stack := ⟨now, env, hstep⟩
    match moved with
    | none =>
      obtain rfl := Option.some.inj h
      exact .host hs
    | some (.a, l) =>
      simp only [FileTransfer.advance] at h
      split at h
      · rename_i hc
        obtain rfl := Option.some.inj h
        exact .send hs hc
      · cases h
    | some (.b, l) =>
      simp only [FileTransfer.advance] at h
      split at h
      · rename_i hc
        obtain rfl := Option.some.inj h
        exact .receive hs hc
      · cases h

end Moves

/-- `f.Read` has returned nothing. -/
def FileEvent.readsNothing {Node : Type*} : FileEvent Node → Bool
  | .read 0 _ => true
  | _ => false

/-- `f.Read` returns nothing only at the end of the file. -/
def DiskReads {Node : Type*} (y : Move (FileTransfer Node) (FileEvent Node)) : Prop :=
  y.ev.readsNothing = true → y.src.sender.file = []

instance {Node : Type*} (y : Move (FileTransfer Node) (FileEvent Node)) : Decidable (DiskReads y) :=
  inferInstanceAs (Decidable (_ → _))

/-- Nobody else sends a TCP message in the connection's name. -/
def FileEvent.Foreign {Node : Type*} (key : Side → SocketData) : FileEvent Node → Prop
  | .stack ev => ∀ x, TcpIp.Foreign (key x) ev
  | .read _ _ | .skipCC | .writeFails | .write _ _ => True

instance {Node : Type*} (key : Side → SocketData) (ev : FileEvent Node) :
    Decidable (ev.Foreign key) :=
  match ev with
  | .stack ev => inferInstanceAs (Decidable (∀ x, TcpIp.Foreign (key x) ev))
  | .read _ _ | .skipCC | .writeFails | .write _ _ => .isTrue trivial

/-- The file is spread over what `a` has put in its send buffer, the chunk in hand and what is
left on the disk; what `b` has read is in its file or still to be written. -/
structure FileTransfer.Copying {Node : Type*} (key : Side → SocketData) (first : Side → ℕ)
    (file : List U8) (t : FileTransfer Node) : Prop where
  linked : t.stack.Linked key
  closing : t.stack.ends.HalfClosing first
  silent : (t.stack.ends.conn .b).Silent
  stage : t.receiver.stage.ended = false
  /-- between two calls of `VRead`, and after the last -/
  idle : t.receiver.stage ≠ .reading → (t.stack.ends.conn .b).reading = none
  unwritten : t.receiver.stage = .reading → t.receiver.buf = []
  sent : t.stack.ends.written .a ++ t.sender.buf ++ t.sender.file = file
  received : t.receiver.file ++ t.receiver.buf = t.stack.ends.returned .b
  /-- the FIN goes back to the command's `VClose`, with nothing left of a chunk -/
  closed : 0 < (t.stack.ends.conn .a).closeWaiting ∨
    (t.stack.ends.conn .a).tcb.cancelled = true → t.sender.stage = .closed
  chunk : t.sender.stage = .closing ∨ t.sender.stage = .closed → t.sender.buf = []

/-- Past the loop of `ReadFileTCPCommand`: all that the sender took from its disk is in the file,
and whatever the two connections still do, it is not touched. -/
structure FileTransfer.Copied {Node : Type*} (key : Side → SocketData) (file : List U8)
    (t : FileTransfer Node) : Prop where
  linked : t.stack.Linked key
  stage : t.receiver.stage.ended = true
  idle : (t.stack.ends.conn .b).reading = none
  closed : t.sender.stage = .closed
  received : t.receiver.file ++ t.sender.file = file

section Calls

variable {s : SendFile} {r : ReadFile} {c c' : Conn} {l : Label} {ev : Event}

theorem SendFile.ofHalfClose_of_calls (h : s.calls ev = true) : ev.ofHalfClose .a = true := by
  cases ev with
  | connectTimeout | ackTimeout => cases h
  | _ => rfl

theorem ReadFile.ofReader_of_calls (h : r.calls ev = true) (hr : r.stage.ended = false) :
    ev.ofReader = true := by
  cases ev with
  | read amountToRead readAll =>
    obtain ⟨-, -, rfl⟩ := of_decide_eq_true h
    rfl
  | close | closeWake | closeReturn =>
    have hstage := of_decide_eq_true h
    rw [hstage] at hr
    cases hr
  | write | enableCC | initCC | connectTimeout | ackTimeout => cases h
  | _ => rfl

theorem Event.ofHalfClose_of_ofReader (h : ev.ofReader = true) : ev.ofHalfClose .b = true := by
  cases ev with
  | read amountToRead readAll => exact h
  | close | closeWake | connectTimeout | ackTimeout => cases h
  | _ => rfl

theorem ReadFile.close_of_ofReader (h : ev.ofReader = true) : r.close ev = r := by
  cases ev with
  | close => cases h
  | _ => rfl

/-- What `ReadFileTCPCommand` does with the outcome of a call in its loop: the bytes that the call
returns are to be written, and only the end of the stream ends the loop. -/
theorem ReadFile.after_eq (hs : Step c l c') (hc : c.Silent) (hev : l.ev.ofReader = true)
    (hunread : (c.tcb.rcv.nxt - c.tcb.rcv.lbr).toNat ≤ 65535) :
    r.after l = r ∧ l.out.bytes = [] ∨
      r.after l = { r with buf := l.out.bytes, stage := .writing } ∧ c'.reading = none ∨
      r.after l = { r with stage := .closing } ∧ l.out.bytes = [] ∧ l.out.read = some .eof ∧
        c'.reading = none := by
  have hclose : r.close l.ev = r := ReadFile.close_of_ofReader hev
  rcases hs.fresh hc.reading (Event.ne_read_of_ofReader hev) with
    ⟨-, hnone⟩ | ⟨o, ho, hpending, hshown⟩
  · simp [ReadFile.after, Output.bytes, hnone, hclose]
  · cases ho with
    | waiting =>
      have hnone : l.out.read = none := hshown
      simp [ReadFile.after, Output.bytes, hnone, hclose]
    | eof =>
      have heof : l.out.read = some .eof := hshown
      have hidle : c'.reading = none := hpending
      simp [ReadFile.after, Output.bytes, heof, hidle]
    | returned hcount =>
      have hret : l.out.read = some (.returned _ _) := hshown
      have hidle : c'.reading = none := hpending
      simp [ReadFile.after, Output.bytes, hret, hidle, (hcount hunread).le]
    | failed hgave => simp [hc.kept] at hgave

/-- With no call of `Read` going on and none made, no bytes come. -/
theorem Step.no_read (hs : Step c l c') (hidle : c.reading = none)
    (hev : ∀ k readAll, l.ev ≠ .read k readAll) : c'.reading = none ∧ l.out.read = none := by
  have hm := hs.receiver
  generalize l.ev = ev at hm hev
  generalize hout : l.out.read = o at hm ⊢
  generalize hr : c'.receiver = r at hm
  have hreading : c'.reading = r.reading := congrArg Receiver.reading hr
  rw [hreading]
  cases hm with
  | read hcall =>
    cases hcall with
    | enter => exact absurd rfl (hev _ _)
    | wake hsome => simp [hidle] at hsome
  | _ => exact ⟨hidle, rfl⟩

/-- Away from `VRead` the command only closes. -/
theorem ReadFile.after_idle (hs : Step c l c') (hidle : c.reading = none) (hc : r.calls l.ev = true)
    (hr : r.stage ≠ .reading) :
    c'.reading = none ∧ l.out.read = none ∧ r.after l = r.close l.ev := by
  have hev : ∀ k readAll, l.ev ≠ .read k readAll := by
    intro k readAll hl
    rw [hl] at hc
    exact hr (of_decide_eq_true hc).1
  obtain ⟨hreading, hnone⟩ := hs.no_read hidle hev
  exact ⟨hreading, hnone, by simp only [ReadFile.after, hnone]⟩

theorem ReadFile.close_ended (ev : Event) (hr : r.stage.ended = true) :
    (r.close ev).file = r.file ∧ (r.close ev).stage.ended = true := by
  cases ev with
  | close => exact ⟨rfl, rfl⟩
  | _ => exact ⟨rfl, hr⟩

/-- `f.Write` moves bytes from the buffer to the file. -/
theorem ReadFile.write_eq {r' : ReadFile} {n : ℕ} {err : Bool} (h : r.write n err = some r') :
    r.stage = .writing ∧ r'.file ++ r'.buf = r.file ++ r.buf ∧
      (r'.stage = .failed ∨ r'.stage = .reading ∧ r'.buf = []) := by
  simp only [ReadFile.write] at h
  split at h
  · rename_i hstage
    refine ⟨hstage.1, ?_⟩
    split at h
    · obtain rfl := Option.some.inj h
      simp
    · split at h
      · obtain rfl := Option.some.inj h
        simp
      · cases h
  · cases h

end Calls

section Copying

variable {Node : Type*} [DecidableEq Node] {site : Side → Node} {key : Side → SocketData}
  {first : Side → ℕ} {file : List U8} {t t' : FileTransfer Node} {ev : FileEvent Node}
  {n n' : Net} {l : Label}

/-- What `b` has not read yet fits in its buffer. -/
theorem Net.HalfClosing.unread (h : n.HalfClosing first) :
    ((n.conn .b).tcb.rcv.nxt - (n.conn .b).tcb.rcv.lbr).toNat ≤ 65535 := by
  obtain ⟨R, hi, hhold⟩ : ∃ R hi, (n.conn .b).receiver.Holding R hi := by
    rcases h.phase with hun | ⟨x₀, -, -, hconv⟩
    · exact ⟨_, _, hun.conveys.holding⟩
    · exact ⟨_, _, hconv.holding⟩
  have hlbr := hhold.lbr_le
  have hwnd := hhold.wnd
  simp only [Conn.receiver_rcv] at hlbr hwnd
  bv_omega

theorem TCB.written_append_drop (s : TCB) (data : List U8) :
    s.written data ++ data.drop (s.written data).length = data := by
  unfold TCB.written
  split
  · rename_i n _
    rw [List.length_take]
    rcases Nat.le_total n.toNat data.length with hle | hle
    · rw [Nat.min_eq_left hle, List.take_append_drop]
    · rw [Nat.min_eq_right hle, List.take_of_length_le hle, List.drop_length, List.append_nil]
  · rfl

/-- A round of `VWrite` moves bytes from the chunk to the send buffer. -/
theorem SendFile.after_sent (s : SendFile) {c : Conn} {ev : Event} (h : s.calls ev = true) :
    c.written ev ++ (s.after c ev).buf = s.buf ∧ (s.after c ev).file = s.file := by
  cases ev with
  | write data =>
    simp only [SendFile.calls, decide_eq_true_eq] at h
    obtain ⟨-, rfl, -⟩ := h
    simp only [SendFile.after]
    split
    · rename_i hclosing
      simp [Conn.written, TCB.written, hclosing]
    · exact ⟨c.tcb.written_append_drop _, rfl⟩
  | _ => exact ⟨rfl, rfl⟩

/-- The command leaves its loop with the chunk written, and closes once. -/
theorem SendFile.after_stage (s : SendFile) {c : Conn} {ev : Event} (h : s.calls ev = true) :
    (s.stage = .closed ∨ ev = .close → (s.after c ev).stage = .closed) ∧
      ((s.after c ev).stage = .closing ∨ (s.after c ev).stage = .closed →
        (s.stage = .closing ∨ s.stage = .closed) ∧ (s.after c ev).buf = s.buf) := by
  cases ev with
  | write data =>
    simp only [SendFile.calls, decide_eq_true_eq] at h
    obtain ⟨hstage, rfl, -⟩ := h
    simp only [SendFile.after]
    split <;> simp [hstage]
  | close =>
    have hstage : s.stage = .closing := of_decide_eq_true h
    exact ⟨fun _ => rfl, fun _ => ⟨Or.inl hstage, rfl⟩⟩
  | enableCC | initCC =>
    have hstage := of_decide_eq_true h
    simp [SendFile.after, hstage]
  | _ => exact ⟨fun hc => hc.resolve_right (by simp), fun hc => ⟨hc, rfl⟩⟩

theorem SendFile.read_eq {s s' : SendFile} {amountRead : ℕ} {err : Bool}
    (h : s.read amountRead err = some s') :
    s.stage = .copying ∧ s.buf = [] ∧ s'.buf ++ s'.file = s.file ∧
      (s'.stage = .closing ∧ amountRead = 0 ∧ s'.buf = [] ∨
        s'.stage = .failed ∨ s'.stage = .copying) := by
  simp only [SendFile.read] at h
  split at h
  · rename_i hc
    obtain ⟨hstage, hbuf, -, -⟩ := hc
    refine ⟨hstage, hbuf, ?_⟩
    split at h
    · rename_i hzero
      obtain rfl := Option.some.inj h
      simp [hbuf, hzero]
    · split at h
      · obtain rfl := Option.some.inj h
        simp [hbuf]
      · obtain rfl := Option.some.inj h
        simp [hstage]
  · cases h

theorem SendFile.skipCC_eq {s s' : SendFile} {c : Conn} (h : s.skipCC c = some s') :
    s.stage = .enabling ∧ s' = { s with stage := .copying } := by
  simp only [SendFile.skipCC] at h
  split at h
  · rename_i hc
    exact ⟨hc.1, (Option.some.inj h).symm⟩
  · cases h

theorem SendFile.writeFails_eq {s s' : SendFile} {c : Conn} (h : s.writeFails c = some s') :
    s.stage = .copying ∧ s' = { s with stage := .failed } := by
  simp only [SendFile.writeFails] at h
  split at h
  · rename_i hc
    exact ⟨hc.1, (Option.some.inj h).symm⟩
  · cases h

omit [DecidableEq Node] in
/-- The sender's command goes on, or gives up, before its `VClose`. -/
theorem FileTransfer.Copying.restage (h : t.Copying key first file) {stage : SendFileStage}
    (hbefore : t.sender.stage ≠ .closed) (hafter : ¬ (stage = .closing ∨ stage = .closed)) :
    ({ t with sender := { t.sender with stage } } : FileTransfer Node).Copying key first file :=
  { h with
    sent := h.sent
    closed := fun hc => absurd (h.closed hc) hbefore
    chunk := fun hc => absurd hc hafter }

/-- A host that moves for others leaves the transfer alone. -/
theorem FileTransfer.Copying.host (h : t.Copying key first file) (hkey : Paired key)
    {e : StackEvent Node} {stack : Stack Node} (hs : StackStep site t.stack ⟨e, none⟩ stack)
    (hforeign : ∀ x, Foreign (key x) e) :
    ({ t with stack } : FileTransfer Node).Copying key first file := by
  have hends : stack.ends = t.stack.ends := (h.linked.refines hkey hs).1 rfl
  refine ⟨h.linked.step hs hforeign, ?_, ?_, h.stage, ?_, h.unwritten, ?_, ?_, ?_, h.chunk⟩
  all_goals simp only [hends]
  exacts [h.closing, h.silent, h.idle, h.sent, h.received, h.closed]

/-- The sender's command calls its connection, or the connection moves by itself. -/
theorem FileTransfer.Copying.send (h : t.Copying key first file) (hkey : Paired key)
    {e : StackEvent Node} {stack : Stack Node}
    (hs : StackStep site t.stack ⟨e, some (.a, l)⟩ stack) (hc : t.sender.calls l.ev = true)
    (hforeign : ∀ x, Foreign (key x) e)
    (hbelow : ∀ x, (t.stack.ends.conn x).tcb.snd.lbw ≤ (stack.ends.conn x).tcb.snd.lbw) :
    ({ t with stack, sender := t.sender.after (t.stack.ends.conn .a) l.ev } :
      FileTransfer Node).Copying key first file := by
  have hpair : PairStep t.stack.ends (.a, l) stack.ends := (h.linked.refines hkey hs).2 _ rfl
  have hstep : HalfCloseStep t.stack.ends (.a, l) stack.ends :=
    ⟨hpair, SendFile.ofHalfClose_of_calls hc⟩
  obtain ⟨hsent, hfile⟩ := t.sender.after_sent (c := t.stack.ends.conn .a) hc
  obtain ⟨hstays, hleft⟩ := t.sender.after_stage (c := t.stack.ends.conn .a) hc
  obtain ⟨-, c', hconn, hends⟩ := id hpair
  simp only at hconn hends
  refine ⟨h.linked.step hs hforeign, h.closing.step hstep hbelow, ?_, h.stage, ?_, h.unwritten,
    ?_, ?_, fun hclose => ?_, fun hstage => ?_⟩
  · rw [hends]
    exact h.silent
  · rw [hends]
    exact h.idle
  · rw [hends, Net.advance_written, hfile, List.append_assoc (t.stack.ends.written .a), hsent]
    exact h.sent
  · rw [hends]
    exact h.received
  · rw [hends, Net.advance_conn] at hclose
    exact hstays ((hconn.close_called hclose).symm.imp_left h.closed)
  · obtain ⟨hbefore, hbuf⟩ := hleft hstage
    rw [hbuf]
    exact h.chunk hbefore

/-- The receiver's command calls its connection, or the connection moves by itself. The end of the
stream finds all of it in the file. -/
theorem FileTransfer.Copying.receive (h : t.Copying key first file) (hkey : Paired key)
    {e : StackEvent Node} {stack : Stack Node}
    (hs : StackStep site t.stack ⟨e, some (.b, l)⟩ stack) (hc : t.receiver.calls l.ev = true)
    (hforeign : ∀ x, Foreign (key x) e)
    (hbelow : ∀ x, (t.stack.ends.conn x).tcb.snd.lbw ≤ (stack.ends.conn x).tcb.snd.lbw) :
    let t' : FileTransfer Node := { t with stack, receiver := t.receiver.after l }
    t'.Copying key first file ∨ t'.Copied key file := by
  have hpair : PairStep t.stack.ends (.b, l) stack.ends := (h.linked.refines hkey hs).2 _ rfl
  have hev := ReadFile.ofReader_of_calls hc h.stage
  have hstep : HalfCloseStep t.stack.ends (.b, l) stack.ends :=
    ⟨hpair, Event.ofHalfClose_of_ofReader hev⟩
  have hclosing := h.closing.step hstep hbelow
  have hlinked := h.linked.step hs hforeign
  obtain ⟨-, c', hconn, hends⟩ := id hpair
  simp only at hconn hends
  have hsilent : (stack.ends.conn .b).Silent := by
    rw [hends, Net.advance_conn]
    exact h.silent.step hconn h.closing.reader_opened hev
  have hsent : stack.ends.written .a ++ t.sender.buf ++ t.sender.file = file := by
    rw [hends]
    exact h.sent
  have hclosed : 0 < (stack.ends.conn .a).closeWaiting ∨
      (stack.ends.conn .a).tcb.cancelled = true → t.sender.stage = .closed := by
    rw [hends]
    exact h.closed
  have hreturned : stack.ends.returned .b = t.receiver.file ++ t.receiver.buf ++ l.out.bytes := by
    rw [h.received, hends, Net.advance_returned]
  by_cases hreading : t.receiver.stage = .reading
  · have hbuf := h.unwritten hreading
    rw [hbuf, List.append_nil] at hreturned
    rcases ReadFile.after_eq (r := t.receiver) hconn h.silent hev h.closing.unread with
      ⟨hafter, hnone⟩ | ⟨hafter, hidle⟩ | ⟨hafter, hnone, heof, hidle⟩
    · rw [hnone, List.append_nil] at hreturned
      rw [hafter]
      exact Or.inl ⟨hlinked, hclosing, hsilent, h.stage, fun hne => absurd hreading hne,
        h.unwritten, hsent, by rw [hbuf, List.append_nil, hreturned], hclosed, h.chunk⟩
    · rw [hafter]
      refine Or.inl ⟨hlinked, hclosing, hsilent, rfl, fun _ => ?_, by simp, hsent, hreturned.symm,
        hclosed, h.chunk⟩
      rw [hends, Net.advance_conn]
      exact hidle
    · -- the end of the stream
      have hcomplete := (h.closing.eof hstep heof).resolve_right (by simp [hsilent.kept])
      have hstage := hclosed (Or.inr hcomplete.1)
      rw [hafter]
      refine Or.inr ⟨hlinked, rfl, ?_, hstage, ?_⟩
      · rw [hends, Net.advance_conn]
        exact hidle
      · rw [h.chunk (Or.inr hstage), List.append_nil] at hsent
        rw [hnone, List.append_nil] at hreturned
        rw [← hreturned, hcomplete.returned hclosing hsilent.kept]
        exact hsent
  · obtain ⟨hidle, hnone, hafter⟩ :=
      ReadFile.after_idle hconn (h.idle hreading) hc hreading
    rw [hafter, ReadFile.close_of_ofReader hev]
    refine Or.inl ⟨hlinked, hclosing, hsilent, h.stage, fun _ => ?_, h.unwritten, hsent, ?_,
      hclosed, h.chunk⟩
    · rw [hends, Net.advance_conn]
      exact hidle
    · rw [hreturned]
      simp [Output.bytes, hnone]

theorem FileTransfer.Copying.step (h : t.Copying key first file) (hkey : Paired key)
    (hs : FileStep site t ev t') (hforeign : ev.Foreign key)
    (hbelow : ∀ x, (t.stack.ends.conn x).tcb.snd.lbw ≤ (t'.stack.ends.conn x).tcb.snd.lbw) :
    t'.Copying key first file ∨ t'.Copied key file := by
  cases hs.moves with
  | read hread =>
    obtain ⟨hstage, hbuf, hsum, hnext⟩ := SendFile.read_eq hread
    refine Or.inl { h with sent := ?_, closed := fun hc => ?_, chunk := fun hc => ?_ }
    · have hsent := h.sent
      rw [hbuf, List.append_nil] at hsent
      rw [List.append_assoc, hsum]
      exact hsent
    · have hclosed := h.closed hc
      simp [hstage] at hclosed
    · rcases hnext with ⟨-, -, hnil⟩ | hst | hst
      · exact hnil
      all_goals simp [hst] at hc
  | skipCC hskip =>
    obtain ⟨hstage, rfl⟩ := SendFile.skipCC_eq hskip
    exact Or.inl (h.restage (by simp [hstage]) (by simp))
  | writeFails hfails =>
    obtain ⟨hstage, rfl⟩ := SendFile.writeFails_eq hfails
    exact Or.inl (h.restage (by simp [hstage]) (by simp))
  | write hwrite =>
    obtain ⟨hstage, hsum, hnext⟩ := ReadFile.write_eq hwrite
    have hidle := h.idle (by simp [hstage])
    refine Or.inl { h with stage := ?_, idle := fun _ => hidle, unwritten := fun hread => ?_,
                           received := hsum.trans h.received }
    · rcases hnext with hst | ⟨hst, -⟩ <;> simp [hst, ReadFileStage.ended]
    · rcases hnext with hst | ⟨-, hnil⟩
      · simp [hst] at hread
      · exact hnil
  | host hst => exact Or.inl (h.host hkey hst hforeign)
  | send hst hc => exact Or.inl (h.send hkey hst hc hforeign hbelow)
  | receive hst hc => exact h.receive hkey hst hc hforeign hbelow

theorem FileTransfer.Copied.step (h : t.Copied key file) (hkey : Paired key)
    (hs : FileStep site t ev t') (hforeign : ev.Foreign key) : t'.Copied key file := by
  cases hs.moves with
  | read hread =>
    have hstage := (SendFile.read_eq hread).1
    simp [h.closed] at hstage
  | skipCC hskip =>
    have hstage := (SendFile.skipCC_eq hskip).1
    simp [h.closed] at hstage
  | writeFails hfails =>
    have hstage := (SendFile.writeFails_eq hfails).1
    simp [h.closed] at hstage
  | write hwrite =>
    have hstage := h.stage
    simp [(ReadFile.write_eq hwrite).1, ReadFileStage.ended] at hstage
  | host hst =>
    have hends := (h.linked.refines hkey hst).1 rfl
    exact ⟨h.linked.step hst hforeign, h.stage, by simp only [hends, h.idle], h.closed, h.received⟩
  | @send _ l _ hst hc =>
    obtain ⟨-, c', -, hends⟩ := (h.linked.refines hkey hst).2 _ rfl
    have hfile := (t.sender.after_sent (c := t.stack.ends.conn .a) hc).2
    have hstage := (t.sender.after_stage (c := t.stack.ends.conn .a) hc).1 (Or.inl h.closed)
    refine ⟨h.linked.step hst hforeign, h.stage, ?_, hstage, ?_⟩
    · rw [hends]
      exact h.idle
    · rw [hfile]
      exact h.received
  | @receive _ l _ hst hc =>
    obtain ⟨-, c', hconn, hends⟩ := (h.linked.refines hkey hst).2 _ rfl
    have hreading : t.receiver.stage ≠ .reading := by
      intro hst
      have hstage := h.stage
      simp [hst, ReadFileStage.ended] at hstage
    obtain ⟨hidle, -, hafter⟩ := ReadFile.after_idle hconn h.idle hc hreading
    obtain ⟨hfile, hstage⟩ := ReadFile.close_ended l.ev h.stage
    rw [hafter]
    refine ⟨h.linked.step hst hforeign, hstage, ?_, h.closed, ?_⟩
    · rw [hends, Net.advance_conn]
      exact hidle
    · rw [hfile]
      exact h.received

/-- On a disk that reads on, the command leaves its loop at the end of the file. -/
theorem FileStep.exhausted (hs : FileStep site t ev t') (hdisk : DiskReads ⟨t, ev, t'⟩)
    (h : t.sender.stage = .closing ∨ t.sender.stage = .closed → t.sender.file = [])
    (hstage : t'.sender.stage = .closing ∨ t'.sender.stage = .closed) : t'.sender.file = [] := by
  cases hs.moves with
  | read hread =>
    obtain ⟨-, -, hsum, ⟨-, rfl, hnil⟩ | hst | hst⟩ := SendFile.read_eq hread
    · have hempty : t.sender.file = [] := hdisk rfl
      rw [hnil, List.nil_append] at hsum
      exact hsum.trans hempty
    all_goals simp [hst] at hstage
  | skipCC hskip =>
    obtain ⟨-, rfl⟩ := SendFile.skipCC_eq hskip
    simp at hstage
  | writeFails hfails =>
    obtain ⟨-, rfl⟩ := SendFile.writeFails_eq hfails
    simp at hstage
  | write | host | receive => exact h hstage
  | @send _ l _ _ hc =>
    have hfile := (t.sender.after_sent (c := t.stack.ends.conn .a) hc).2
    have hleft := (t.sender.after_stage (c := t.stack.ends.conn .a) hc).2 hstage
    exact hfile.trans (h hleft.1)

variable {tr : List (Move (FileTransfer Node) (FileEvent Node))}

end Copying

section Sample

def FileTransfer.play (t : FileTransfer Bool) (events : List (FileEvent Bool)) :
    List (Move (FileTransfer Bool) (FileEvent Bool)) × FileTransfer Bool :=
  Runs.play (fun t ev => (t.step stackSite 0 ⟨0, 0, true⟩ ev).map fun t' => (ev, t')) t events

theorem FileTransfer.play_run (t : FileTransfer Bool) (events : List (FileEvent Bool)) :
    Run (FileStep stackSite) t (t.play events).1 (t.play events).2 :=
  play_events_run (fun _ _ _ h => ⟨0, ⟨0, 0, true⟩, h⟩) t events

/-- A file of two bytes, sent with congestion control; the FIN overtakes the data. At the end the
receiver closes too. -/
def finFirst : List (FileEvent Bool) :=
  [.stack (.own .a .enableCC), .stack (.own .a .initCC), .read 2 false,
    .stack (.own .a (.write [1, 2])), .read 0 false, .stack (.own .a .send),
    .stack (.own .a .send), .stack (.own .a .close), .stack (.output .a 2),
    .stack (.ip (.advance 0)), .stack (.ip (.advance 1)), .stack (.output .a 3),
    .stack (.ip (.advance 3)), .stack (.ip (.advance 4)), .stack (.receive .b 5),
    .stack (.receive .b 2), .stack (.own .b (.read 4096 false)), .write 2 false,
    .stack (.own .b (.read 4096 false)), .stack (.own .b .close)]

end Sample

end TcpIp
