import TcpIp.Tcp.Emissions
import TcpIp.Tcp.SendPointers

/-! The iterations of the transmit loop of `Send`, which run without the lock, step by step. -/
namespace TcpIp

open Runs

/-- How far `Send` is in an iteration of its transmit loop. -/
inductive Stage
  | outside
  /-- the segment is made -/
  | built (m : Msg)
  /-- `Cancelled` was not set -/
  | checked (m : Msg)
  /-- the segment is in the retransmission queue -/
  | queued (m : Msg)
  /-- the segment has gone out, SND.NXT is still the old one -/
  | emitted (m : Msg)

/-- The segment of the iteration. -/
def Stage.msg : Stage → Option Msg
  | .outside => none
  | .built m | .checked m | .queued m | .emitted m => some m

/-- A connection whose `Send` may stand inside an iteration. -/
structure Unlocked where
  conn : Conn
  stage : Stage := .outside

inductive UnlockedEvent
  /-- a step of anything but `Send` -/
  | conn (ev : Event)
  /-- the next step of `Send` -/
  | send
  deriving DecidableEq

namespace Unlocked

def send (u : Unlocked) (env : Env) : Option (Unlocked × Output) :=
  let c := u.conn
  match u.stage, c.send with
  | .outside, .transmit amountToSend amountSent =>
    if amountSent < amountToSend then
      let payload := c.tcb.sendPayload (min32 (amountToSend - amountSent) mssData)
      some ({ u with stage := .built (c.tcb.dataMsg c.key .data payload) }, {})
    else (c.step env .send).map fun r => ({ u with conn := r.1 }, r.2)
  | .outside, _ => (c.step env .send).map fun r => ({ u with conn := r.1 }, r.2)
  | .built m, _ =>
    if c.tcb.cancelled then some ({ conn := { c with send := .returned } }, {})
    else some ({ u with stage := .checked m }, {})
  | .checked m, _ =>
    let entry : RetransmitSegment := ⟨m.hdr, BitVec.ofNat 32 m.payload.length⟩
    let q := c.tcb.retransmissionQueue ++ [entry]
    some ({ conn := { c with tcb := { c.tcb with retransmissionQueue := q } }
            stage := .queued m }, {})
  | .queued m, _ => some ({ u with stage := .emitted m }, { msgs := [m] })
  | .emitted _, .transmit amountToSend amountSent =>
    let amountToCopy := min32 (amountToSend - amountSent) mssData
    let s : TCB := { c.tcb with snd := { c.tcb.snd with nxt := c.tcb.snd.nxt + amountToCopy } }
    some ({ conn := { c with
      tcb := s.setTimestamp s.snd.nxt env.now
      send := .transmit amountToSend (amountSent + amountToCopy) } }, {})
  | .emitted _, _ => none

def step (u : Unlocked) (env : Env) : UnlockedEvent → Option (Unlocked × Output)
  | .conn ev =>
    if ev = .send then none else (u.conn.step env ev).map fun r => ({ u with conn := r.1 }, r.2)
  | .send => u.send env

/-- `n` steps of `Send` with nothing in between. -/
def sends (env : Env) : ℕ → Unlocked → Option (Unlocked × List Msg)
  | 0, u => some (u, [])
  | n + 1, u =>
    (u.send env).bind fun r => (sends env n r.1).map fun q => (q.1, r.2.msgs ++ q.2)

end Unlocked

structure UnlockedLabel where
  ev : UnlockedEvent
  out : Output

def UnlockedStep (u : Unlocked) (l : UnlockedLabel) (u' : Unlocked) : Prop :=
  ∃ env, u.step env l.ev = some (u', l.out)

@[simp] theorem TCB.dataMsg_payload (s : TCB) (key : SocketData) (origin : Origin)
    (payload : List U8) : (s.dataMsg key origin payload).payload = payload := rfl

theorem sends_succ {u u' : Unlocked} {env : Env} {o : Output} (h : u.send env = some (u', o))
    (n : ℕ) : Unlocked.sends env (n + 1) u =
      (Unlocked.sends env n u').map fun q => (q.1, o.msgs ++ q.2) := by
  rw [Unlocked.sends, h, Option.bind_some]

section Iteration

variable {c c' : Conn} {env : Env} {o : Output} {a b : U32}

theorem send_built (hpc : c.send = .transmit a b) (hlt : b < a) :
    ({ conn := c } : Unlocked).send env = some ({ conn := c, stage := .built (c.tcb.dataMsg c.key
      .data (c.tcb.sendPayload (min32 (a - b) mssData))) }, {}) := by
  simp only [Unlocked.send, hpc, if_pos hlt]

theorem send_checked {m : Msg} (hc : c.tcb.cancelled = false) :
    ({ conn := c, stage := .built m } : Unlocked).send env =
      some ({ conn := c, stage := .checked m }, {}) := by
  simp only [Unlocked.send, hc, Bool.false_eq_true, if_false]

theorem send_returned {m : Msg} (hc : c.tcb.cancelled = true) :
    ({ conn := c, stage := .built m } : Unlocked).send env =
      some ({ conn := { c with send := .returned } }, {}) := by
  simp only [Unlocked.send, hc, if_true]

/-- An iteration that nothing interrupts is the one step of the connection. -/
theorem sends_iteration (hpc : c.send = .transmit a b) (hlt : b < a)
    (hc : c.tcb.cancelled = false) (h : c.step env .send = some (c', o)) :
    Unlocked.sends env 5 { conn := c } = some ({ conn := c' }, o.msgs) := by
  simp only [Conn.step, hpc, TCB.sendStep, if_pos hlt, TCB.sendSegment, hc] at h
  obtain ⟨rfl, rfl⟩ := Prod.mk.inj (Option.some.inj h)
  rw [sends_succ (send_built hpc hlt), sends_succ (send_checked hc), sends_succ rfl,
    sends_succ rfl]
  simp [Unlocked.sends, Unlocked.send, hpc, hc, TCB.setTimestamp]

theorem sends_cancelled (hpc : c.send = .transmit a b) (hlt : b < a)
    (hc : c.tcb.cancelled = true) (h : c.step env .send = some (c', o)) :
    Unlocked.sends env 2 { conn := c } = some ({ conn := c' }, o.msgs) := by
  simp only [Conn.step, hpc, TCB.sendStep, if_pos hlt, TCB.sendSegment, hc] at h
  obtain ⟨rfl, rfl⟩ := Prod.mk.inj (Option.some.inj h)
  rw [sends_succ (send_built hpc hlt), sends_succ (send_returned hc)]
  rfl

end Iteration

/-- Everything a step can do. -/
inductive UnlockedMove (u : Unlocked) : UnlockedEvent → Output → Unlocked → Prop
  | conn {ev : Event} {o : Output} {c' : Conn} (hev : ev ≠ .send)
      (h : Step u.conn ⟨ev, o⟩ c') : UnlockedMove u (.conn ev) o { u with conn := c' }
  | outer {o : Output} {c' : Conn} (hst : u.stage = .outside)
      (hpc : ∀ a b, u.conn.send = .transmit a b → ¬ b < a)
      (h : Step u.conn ⟨.send, o⟩ c') : UnlockedMove u .send o { u with conn := c' }
  | built {a b : U32} (hst : u.stage = .outside) (hpc : u.conn.send = .transmit a b)
      (hlt : b < a) :
      UnlockedMove u .send {}
        { u with stage := .built (u.conn.tcb.freshMsg u.conn.key (segmentLength a b)) }
  | stopped {m : Msg} (hst : u.stage = .built m) (hc : u.conn.tcb.cancelled = true) :
      UnlockedMove u .send {} { conn := { u.conn with send := .returned } }
  | checked {m : Msg} (hst : u.stage = .built m) (hc : u.conn.tcb.cancelled = false) :
      UnlockedMove u .send {} { u with stage := .checked m }
  | queued {m : Msg} (hst : u.stage = .checked m) :
      UnlockedMove u .send {}
        { conn := { u.conn with tcb := { u.conn.tcb with
            retransmissionQueue := u.conn.tcb.retransmissionQueue ++
              [⟨m.hdr, BitVec.ofNat 32 m.payload.length⟩] } }
          stage := .queued m }
  | emitted {m : Msg} (hst : u.stage = .queued m) :
      UnlockedMove u .send { msgs := [m] } { u with stage := .emitted m }
  | advanced {m : Msg} {a b : U32} (book : Book) (hst : u.stage = .emitted m)
      (hpc : u.conn.send = .transmit a b) :
      UnlockedMove u .send {}
        { conn := { u.conn with
            tcb := { u.conn.tcb with
              snd := { u.conn.tcb.snd with
                nxt := u.conn.tcb.snd.nxt + segmentLength a b } }.withBook book
            send := .transmit a (b + segmentLength a b) } }

section Moves

variable {u u' : Unlocked} {l : UnlockedLabel} {env : Env} {o : Output}

theorem send_outer {r : Option (Unlocked × Output)}
    (hr : r = (u.conn.step env .send).map fun r => ({ u with conn := r.1 }, r.2))
    (hst : u.stage = .outside) (hpc : ∀ a b, u.conn.send = .transmit a b → ¬ b < a)
    (h : r = some (u', o)) : UnlockedMove u .send o u' := by
  rw [hr] at h
  obtain ⟨⟨c', o'⟩, hs, heq⟩ := Option.map_eq_some_iff.mp h
  obtain ⟨rfl, rfl⟩ := Prod.mk.inj heq
  exact .outer hst hpc ⟨env, hs⟩

theorem send_moved (h : u.send env = some (u', o)) : UnlockedMove u .send o u' := by
  unfold Unlocked.send at h
  simp only at h
  split at h
  · rename_i a b hst hpc
    split at h
    · rename_i hlt
      obtain ⟨rfl, rfl⟩ := Prod.mk.inj (Option.some.inj h)
      have hm := sendPayload_eq u.conn.tcb a b
      unfold segmentLength at hm
      rw [hm]
      exact .built hst hpc hlt
    · rename_i hlt
      refine send_outer rfl hst (fun a' b' hab => ?_) h
      rw [hpc] at hab
      obtain ⟨rfl, rfl⟩ := SendPc.transmit.inj hab
      exact hlt
  · rename_i hst hpc
    exact send_outer rfl hst (fun a b hab => absurd hab (hpc a b)) h
  · rename_i m hst
    split at h
    · rename_i hc
      obtain ⟨rfl, rfl⟩ := Prod.mk.inj (Option.some.inj h)
      exact .stopped hst hc
    · rename_i hc
      obtain ⟨rfl, rfl⟩ := Prod.mk.inj (Option.some.inj h)
      exact .checked hst (Bool.eq_false_of_not_eq_true hc)
  · rename_i m hst
    obtain ⟨rfl, rfl⟩ := Prod.mk.inj (Option.some.inj h)
    exact .queued hst
  · rename_i m hst
    obtain ⟨rfl, rfl⟩ := Prod.mk.inj (Option.some.inj h)
    exact .emitted hst
  · rename_i m a b hst hpc
    obtain ⟨rfl, rfl⟩ := Prod.mk.inj (Option.some.inj h)
    exact .advanced (u.conn.tcb.setTimestamp (u.conn.tcb.snd.nxt + segmentLength a b) env.now).book
      hst hpc
  · cases h

/-- The inversion lemma of the finer machine. -/
theorem UnlockedStep.moved (h : UnlockedStep u l u') : UnlockedMove u l.ev l.out u' := by
  obtain ⟨env, h⟩ := h
  generalize l.ev = ev at h
  cases ev with
  | conn ev =>
    simp only [Unlocked.step] at h
    split at h
    · cases h
    · rename_i hev
      obtain ⟨⟨c', o'⟩, hs, heq⟩ := Option.map_eq_some_iff.mp h
      obtain ⟨rfl, hout⟩ := Prod.mk.inj heq
      rw [← hout]
      exact .conn hev ⟨env, hs⟩
  | send => exact send_moved h

/-- Between iterations `Send` only moves on, but for the byte it counts after a zero window. -/
theorem Step.send_outer {c c' : Conn} (h : Step c ⟨.send, o⟩ c')
    (hpc : ∀ a b, c.send = .transmit a b → ¬ b < a) :
    o.msgs = [] ∧ ((∃ pc, Jump c.tcb c.send pc ∧ c' = { c with send := pc }) ∨
      c.send = .zeroWait ∧ c.tcb.cancelled = false) := by
  obtain ⟨env, h⟩ := h
  obtain ⟨rfl, rfl⟩ := Prod.mk.inj (Option.some.inj h)
  generalize hr : c.tcb.sendStep c.key env.now c.send = r
  have he : SendEffect c.tcb c.key c.send r.1 r.2.1 r.2.2 := sendStep_effect hr
  generalize hs : c.send = pc₀ at he hpc
  generalize r.1 = pc, r.2.1 = s, r.2.2 = out at he
  cases he with
  | jump hj => exact ⟨rfl, Or.inl ⟨pc, hj, rfl⟩⟩
  | segment b hlt => exact absurd hlt (hpc _ _ rfl)
  | zeroExit hw hc => exact ⟨rfl, Or.inr ⟨rfl, hc⟩⟩

end Moves

end TcpIp
