import TcpIp.Tcp.Established
import TcpIp.Tcp.States

/-! The channel `RTOTimeoutChan` of a passively opened connection and the two goroutines that
receive from it. -/
namespace TcpIp

open Runs

/-- A receiver of the channel. -/
inductive Waiter
  | waitForAckReceiver | waitTimeout
  deriving DecidableEq

/-- The size of the channel's buffer. -/
def timeoutChanSize : ℕ := 49

/-- A connection with its channel. -/
structure Timed where
  conn : Conn
  /-- goroutines that are about to send on the channel -/
  owed : ℕ := 0
  /-- what lies in the buffer -/
  tokens : ℕ := 0
  /-- the receivers that wait in their select, in the order they came -/
  waiting : List Waiter := []
  /-- `WaitForAckReceiver` is in the branch of its timer -/
  fired : Bool := false

inductive TimedEvent
  /-- a step of the connection that is not one of `WaitForAckReceiver` -/
  | conn (ev : Event)
  /-- a send on the channel -/
  | put
  /-- a receiver comes to its select -/
  | enter (w : Waiter)
  /-- the timer of `WaitForAckReceiver` -/
  | fire
  /-- the branch of that timer -/
  | resend
  deriving DecidableEq

/-- The segment is the last ACK of the handshake. -/
def Conn.endsHandshake (c : Conn) (seg : Segment) : Bool :=
  c.tcb.state = .synReceived && !(seg.payload.length > 0) && seg.hdr.hasAck &&
    c.tcb.snd.una < seg.hdr.ackNum && seg.hdr.ackNum ≤ c.tcb.snd.nxt

/-- How many sends on the channel a step leads to: one each from the last ACK of the handshake,
`fastRetransmit`, `updateTimeout`, a segment of `Send` and the FIN of `Close`. -/
def Conn.owes (c c' : Conn) (o : Output) : Event → ℕ
  | .segment seg =>
    if c.tcb.state = .synReceived then if c'.tcb.state = .established then 1 else 0
    else if c.passesToReceive seg.hdr && c.tcb.thirdDuplicate seg.hdr then 1
    else if c.takesAck seg.hdr && (c.tcb.segmentToTimestamp seg.hdr.ackNum).isSome then 1
    else 0
  | .send | .close | .closeWake => o.msgs.length
  | _ => 0

namespace Timed

def start (localAddr : U32) (key : SocketData) (iss : U32) (syn : TCPFields) : Timed where
  conn := Conn.handleStateListen localAddr key iss syn

/-- `WaitForAckReceiver` has received from the channel: it resets the counter and returns. -/
def ackToken (t : Timed) (env : Env) : Option Timed :=
  (t.conn.step env .ackToken).map fun r => { t with conn := r.1 }

/-- A send goes to the receiver that has waited longest, else into the buffer. -/
def put (t : Timed) (env : Env) : Option Timed :=
  match t.waiting with
  | [] => if t.tokens < timeoutChanSize then some { t with tokens := t.tokens + 1 } else none
  | .waitForAckReceiver :: rest => { t with waiting := rest }.ackToken env
  | .waitTimeout :: rest => some { t with waiting := rest }

/-- A receiver at its select takes what lies in the buffer, else it waits. -/
def enter (t : Timed) (env : Env) (w : Waiter) : Option Timed :=
  if 0 < t.tokens then
    match w with
    | .waitForAckReceiver => { t with tokens := t.tokens - 1 }.ackToken env
    | .waitTimeout => some { t with tokens := t.tokens - 1 }
  else some { t with waiting := t.waiting ++ [w] }

/-- The goroutine runs and is not at its select. -/
def away (t : Timed) (w : Waiter) : Bool :=
  w ∉ t.waiting &&
    match w with
    | .waitForAckReceiver => t.conn.waitForAck && !t.fired
    | .waitTimeout => t.conn.timer

def step (t : Timed) (env : Env) : TimedEvent → Option Timed
  | .conn ev =>
    if ev = .ackTimeout ∨ ev = .ackToken then none
    else
      (t.conn.step env ev).map fun r =>
        { t with
          conn := r.1
          owed := t.owed + t.conn.owes r.1 r.2 ev
          -- the timer branch of `waitTimeout` leaves the select
          waiting := if ev = .timeout then t.waiting.erase .waitTimeout else t.waiting }
  | .put => if 0 < t.owed then { t with owed := t.owed - 1 }.put env else none
  | .enter w => if t.away w then t.enter env w else none
  | .fire =>
    if t.conn.waitForAck ∧ ¬ t.fired then
      some { t with waiting := t.waiting.erase .waitForAckReceiver, fired := true }
    else none
  | .resend =>
    if t.fired then
      (t.conn.step env .ackTimeout).map fun r => { t with conn := r.1, fired := false }
    else none

end Timed

def TimedStep (t : Timed) (e : TimedEvent) (t' : Timed) : Prop := ∃ env, t.step env e = some t'

/-- Everything a step can do. -/
inductive TimedMove (t : Timed) : TimedEvent → Timed → Prop
  | conn {ev : Event} {c' : Conn} {o : Output} (hev : ev ≠ .ackTimeout)
      (h : Step t.conn ⟨ev, o⟩ c') :
      TimedMove t (.conn ev) { t with
        conn := c'
        owed := t.owed + t.conn.owes c' o ev
        waiting := if ev = .timeout then t.waiting.erase .waitTimeout else t.waiting }
  | stored {owed tokens : ℕ} (hw : t.waiting = []) : TimedMove t .put { t with owed, tokens }
  | dismissed {e : TimedEvent} {c' : Conn} {o : Output} {owed tokens : ℕ} {waiting : List Waiter}
      (h : Step t.conn ⟨.ackToken, o⟩ c') :
      TimedMove t e { t with conn := c', owed, tokens, waiting }
  | reset {rest : List Waiter} {owed : ℕ} (hw : t.waiting = .waitTimeout :: rest) :
      TimedMove t .put { t with owed, waiting := rest }
  | found {tokens : ℕ} : TimedMove t (.enter .waitTimeout) { t with tokens }
  | waits {w : Waiter} (h : t.away w = true) :
      TimedMove t (.enter w) { t with waiting := t.waiting ++ [w] }
  | fired (hw : t.conn.waitForAck = true) : TimedMove t .fire
      { t with waiting := t.waiting.erase .waitForAckReceiver, fired := true }
  | resent {c' : Conn} {o : Output} (hf : t.fired = true) (h : Step t.conn ⟨.ackTimeout, o⟩ c') :
      TimedMove t .resend { t with conn := c', fired := false }

section Moves

variable {t t' : Timed} {e : TimedEvent} {env : Env}

theorem ackToken_moved {owed tokens : ℕ} {waiting : List Waiter}
    (h : { t with owed, tokens, waiting }.ackToken env = some t') : TimedMove t e t' := by
  obtain ⟨r, hr, rfl⟩ := Option.map_eq_some_iff.mp h
  exact .dismissed ⟨env, hr⟩

theorem TimedStep.moved (h : TimedStep t e t') : TimedMove t e t' := by
  obtain ⟨env, h⟩ := h
  cases e with
  | conn ev =>
    simp only [Timed.step] at h
    split at h
    · cases h
    · rename_i hev
      obtain ⟨r, hr, rfl⟩ := Option.map_eq_some_iff.mp h
      exact .conn (not_or.mp hev).1 ⟨env, hr⟩
  | put =>
    simp only [Timed.step, Timed.put] at h
    split at h
    · split at h
      · rename_i hw
        split at h
        · cases h
          exact .stored hw
        · cases h
      · exact ackToken_moved h
      · rename_i hw
        cases h
        exact .reset hw
    · cases h
  | enter w =>
    simp only [Timed.step, Timed.enter] at h
    split at h
    · rename_i haway
      split at h
      · split at h
        · exact ackToken_moved h
        · cases h
          exact .found
      · cases h
        exact .waits haway
    · cases h
  | fire =>
    simp only [Timed.step] at h
    split at h
    · rename_i hw
      cases h
      exact .fired hw.1
    · cases h
  | resend =>
    simp only [Timed.step] at h
    split at h
    · rename_i hf
      obtain ⟨r, hr, rfl⟩ := Option.map_eq_some_iff.mp h
      exact .resent hf ⟨env, hr⟩
    · cases h

/-- The channel takes part in no more than the steps of the connection. -/
theorem TimedStep.refines (h : TimedStep t e t') :
    t'.conn = t.conn ∨ ∃ l, Step t.conn l t'.conn := by
  cases h.moved with
  | conn _ hs | dismissed hs | resent _ hs => exact Or.inr ⟨_, hs⟩
  | stored | reset | found | waits | fired => exact Or.inl rfl

theorem Step.ackToken {c c' : Conn} {o : Output} (h : Step c ⟨.ackToken, o⟩ c') :
    c.hasHandle = true ∧ c'.waitForAck = false := by
  obtain ⟨env, h⟩ := h
  simp only [Conn.step] at h
  split at h
  · rename_i hh
    obtain ⟨rfl, -⟩ := Prod.mk.inj (Option.some.inj h)
    exact ⟨hh.2, rfl⟩
  · cases h

/-- Only a segment makes a connection ESTABLISHED. -/
theorem Step.established {c c' : Conn} {l : Label} (h : Step c l c')
    (he : c'.tcb.state = .established) (hne : c.tcb.state ≠ .established) :
    (c.tcb.state = .synSent ∨ c.tcb.state = .synReceived) ∧ ∃ seg, l.ev = .segment seg := by
  have hm := h.state
  generalize l.ev = ev at hm
  generalize hst : c'.tcb.state = st at hm he
  cases hm with
  | same => exact absurd he hne
  | established hs => exact ⟨hs, _, rfl⟩
  | finWait1Fin | finSent => split at he <;> cases he
  | _ => cases he

/-- What makes a passively opened connection ESTABLISHED is the last ACK of its handshake. -/
theorem Step.endsHandshake {c c' : Conn} {l : Label} (h : Step c l c')
    (he : c'.tcb.state = .established) (hs : c.tcb.state = .synReceived) :
    ∃ seg, l.ev = .segment seg ∧ c.endsHandshake seg = true := by
  obtain ⟨-, seg, hseg⟩ := h.established he (by simp [hs])
  refine ⟨seg, hseg, ?_⟩
  have hh := h.handled hseg
  generalize l.out.msgs = out at hh
  cases hh with
  | accepted _ hack _ hflag hpayload =>
    simpa [Conn.endsHandshake, hs, hflag, hack] using hpayload
  | ignored | synRepeated => simp [hs] at he
  | synSent iss hs' | fin hs' | finWait1Fin hs' | finWait2Fin hs' | closingAcked hs'
  | lastAcked k hs' => simp [hs'] at hs
  | finRepeated hs' => rcases hs' with hs' | hs' <;> simp [hs'] at hs
  | received hr => cases hr <;> simp_all

/-- No step starts `WaitForAckReceiver`. -/
theorem Step.waitForAck {c c' : Conn} {l : Label} (h : Step c l c') (hw : c'.waitForAck = true) :
    c.waitForAck = true := by
  have hm := h.moved
  generalize l.ev = ev at hm
  generalize l.out = o at hm
  cases hm with
  | segment hin hh =>
    cases hh with
    | synSent iss hs _ _ hc' =>
      subst hc'
      exact hw
    | _ => exact hw
  | closeWaits hc | closes hc => cases hc <;> exact hw
  | handshakeGaveUp | ackToken => simp at hw
  | _ => exact hw

end Moves

/-- Before ESTABLISHED: `waitTimeout` has not started. -/
structure Timed.Opening (t : Timed) : Prop where
  conn : TcpIp.Opening t.conn
  passive : t.conn.tcb.state ≠ .synSent
  waiting : t.waiting = [] ∨ t.waiting = [.waitForAckReceiver]
  fired : .waitForAckReceiver ∈ t.waiting → t.fired = false

/-- From ESTABLISHED on: `WaitForAckReceiver` is gone, or a goroutine is about to send the token
that it gets. -/
structure Timed.Dismissing (t : Timed) : Prop where
  state : t.conn.tcb.state ≠ .synSent ∧ t.conn.tcb.state ≠ .synReceived
  fired : t.fired = false
  next : t.conn.waitForAck = true →
    t.waiting.head? = some .waitForAckReceiver ∧ 0 < t.owed

/-- The step handles that ACK. -/
def Timed.endsHandshake (t : Timed) : TimedEvent → Bool
  | .conn (.segment seg) => t.conn.endsHandshake seg
  | _ => false

/-- The last ACK finds `WaitForAckReceiver` in its select, and the timer does not fire while a
goroutine is about to send on the channel. -/
def InTime (x : Move Timed TimedEvent) : Prop :=
  (x.src.endsHandshake x.ev = true → .waitForAckReceiver ∈ x.src.waiting) ∧
  (x.ev = .fire → x.src.owed = 0)

instance (x : Move Timed TimedEvent) : Decidable (InTime x) := inferInstanceAs (Decidable (_ ∧ _))

/-- Once the connection has been ESTABLISHED, the timer branch of `WaitForAckReceiver` neither
changes its state nor takes it from the table. -/
def SparesEstablished (pre : List (Move Timed TimedEvent)) (x : Move Timed TimedEvent) : Prop :=
  (∃ y ∈ pre, y.dst.conn.tcb.state = .established) → x.ev = .resend →
    x.dst.conn.tcb.state = x.src.conn.tcb.state ∧ x.dst.conn.inTable = x.src.conn.inTable

section Dismissal

variable {t t' : Timed} {e : TimedEvent}

theorem Timed.Dismissing.step (hd : t.Dismissing) (h : TimedStep t e t')
    (hin : InTime ⟨t, e, t'⟩) : t'.Dismissing := by
  cases h.moved with
  | conn hev hs =>
    refine ⟨hs.not_opening hd.state, hd.fired, fun hw => ?_⟩
    obtain ⟨hnext, howed⟩ := hd.next (hs.waitForAck hw)
    refine ⟨?_, Nat.add_pos_left howed _⟩
    split
    · -- `waitTimeout` is not the first in the queue
      obtain ⟨rest, hrest⟩ := List.head?_eq_some_iff.mp hnext
      simp [hrest]
    · exact hnext
  | dismissed hs =>
    refine ⟨hs.not_opening hd.state, hd.fired, fun hw => ?_⟩
    simp [hs.ackToken.2] at hw
  | reset hw | stored hw =>
    refine ⟨hd.state, hd.fired, fun hack => ?_⟩
    have hnext := (hd.next hack).1
    simp [hw] at hnext
  | found => exact ⟨hd.state, hd.fired, hd.next⟩
  | waits =>
    refine ⟨hd.state, hd.fired, fun hw => ?_⟩
    simp [hd.next hw]
  | fired hw =>
    -- the timer is still there only while the token is to be sent
    have howed := (hd.next hw).2
    rw [hin.2 rfl] at howed
    exact absurd howed (Nat.lt_irrefl 0)
  | resent hf => simp [hd.fired] at hf

theorem opening_not_established {c : Conn} (ho : Opening c) : c.tcb.state ≠ .established := by
  intro he
  have hstate := ho.state
  simp [he] at hstate

/-- A step before ESTABLISHED stays there, or makes the connection ESTABLISHED in time. -/
theorem Timed.Opening.step (ho : t.Opening) (h : TimedStep t e t') (hin : InTime ⟨t, e, t'⟩) :
    t'.Opening ∨ t'.Dismissing := by
  have hne := opening_not_established ho.conn
  cases h.moved with
  | @conn ev c' o hev hs =>
    have hwaiting : (if ev = .timeout then t.waiting.erase .waitTimeout else t.waiting) =
        t.waiting := by
      rcases ho.waiting with hw | hw <;> simp [hw]
    rw [hwaiting] at hin ⊢
    rcases ho.conn.step hs with hc | ⟨-, he, -⟩
    · exact Or.inl ⟨hc, mt hs.synSent ho.passive, ho.waiting, ho.fired⟩
    · -- the last ACK: `WaitForAckReceiver` is the only one that waits
      have hrec := (hs.established he hne).1.resolve_left ho.passive
      obtain ⟨seg, rfl, hlast⟩ := hs.endsHandshake he hrec
      have hmem := hin.1 hlast
      refine Or.inr ⟨by simp [he], ho.fired hmem, fun _ => ⟨?_, ?_⟩⟩
      · rcases ho.waiting with hw | hw
        · simp [hw] at hmem
        · simp [hw]
      · -- and its token is to be sent
        simp [Conn.owes, hrec, he]
  | dismissed hs =>
    have hh := hs.ackToken.1
    simp [Conn.hasHandle, ho.conn.send] at hh
  | resent hf hs =>
    rcases ho.conn.step hs with hc | ⟨-, he, -⟩
    · exact Or.inl ⟨hc, mt hs.synSent ho.passive, ho.waiting, fun _ => rfl⟩
    · obtain ⟨-, seg, hseg⟩ := hs.established he hne
      cases hseg
  | stored | found => exact Or.inl ⟨ho.conn, ho.passive, ho.waiting, ho.fired⟩
  | reset hw =>
    have hwaiting := ho.waiting
    simp [hw] at hwaiting
  | @waits w haway =>
    cases w with
    | waitForAckReceiver =>
      simp only [Timed.away, Bool.and_eq_true, decide_eq_true_eq, Bool.not_eq_true'] at haway
      refine Or.inl ⟨ho.conn, ho.passive, ?_, fun _ => haway.2.2⟩
      rcases ho.waiting with hw | hw <;> simp [hw] at haway ⊢
    | waitTimeout => simp [Timed.away, ho.conn.timer] at haway
  | fired =>
    refine Or.inl ⟨ho.conn, ho.passive, ?_, ?_⟩ <;>
      rcases ho.waiting with hw | hw <;> simp [hw]

theorem opening_start (localAddr : U32) (key : SocketData) (iss : U32) (syn : TCPFields) :
    (Timed.start localAddr key iss syn).Opening where
  conn := opening_handleStateListen localAddr key iss syn
  passive := by simp [Timed.start, Conn.handleStateListen]
  waiting := Or.inl rfl
  fired := by simp [Timed.start]

/-- Whoever has been ESTABLISHED is past the opening. -/
theorem dismissing_of_run {t₀ : Timed} {tr : List (Move Timed TimedEvent)}
    (h : Run TimedStep t₀ tr t) (ho : t₀.Opening) (hin : ∀ x ∈ tr, InTime x)
    (he : ∃ y ∈ tr, y.dst.conn.tcb.state = .established) : t.Dismissing := by
  have hinv : (t.Opening ∧ ∀ y ∈ tr, y.dst.conn.tcb.state ≠ .established) ∨ t.Dismissing := by
    refine h.inv (I := fun tr t =>
      (t.Opening ∧ ∀ y ∈ tr, y.dst.conn.tcb.state ≠ .established) ∨ t.Dismissing)
      (C := fun _ => InTime) (Or.inl ⟨ho, by simp⟩) (along_of_forall_mem hin) ?_
    rintro tr t e u (⟨ht, hpast⟩ | ht) hs hx
    · refine (ht.step hs hx).imp (fun hu => ⟨hu, fun y hy => ?_⟩) id
      rcases List.mem_append.mp hy with hy | hy
      · exact hpast y hy
      · rw [List.mem_singleton.mp hy]
        exact opening_not_established hu.conn
    · exact Or.inr (ht.step hs hx)
  rcases hinv with ⟨-, hpast⟩ | hd
  · obtain ⟨y, hy, hye⟩ := he
    exact absurd hye (hpast y hy)
  · exact hd

end Dismissal

/-- Where the last ACK comes in time, the handshake timer leaves the connection alone for good. -/
theorem handshakeTimer_spares {localAddr : U32} {key : SocketData} {iss : U32} {syn : TCPFields}
    {tr : List (Move Timed TimedEvent)} {t : Timed}
    (h : Run TimedStep (Timed.start localAddr key iss syn) tr t) (hin : ∀ x ∈ tr, InTime x) :
    Along SparesEstablished tr := by
  rintro pre x post hx hest hev
  obtain ⟨hpre, hs⟩ := h.pre hx
  have hd := dismissing_of_run hpre (opening_start localAddr key iss syn)
    (fun y hy => hin y (by simp [hx, hy])) hest
  rw [hev] at hs
  obtain ⟨env, hs⟩ := hs
  simp [Timed.step, hd.fired] at hs

section Sample

def Timed.next (t : Timed) (e : TimedEvent) : Option (TimedEvent × Timed) :=
  (t.step ⟨0, 0, true⟩ e).map fun t' => (e, t')

def Timed.play (t : Timed) (events : List TimedEvent) : List (Move Timed TimedEvent) × Timed :=
  Runs.play Timed.next t events

theorem Timed.play_run (t : Timed) (events : List TimedEvent) :
    Run TimedStep t (t.play events).1 (t.play events).2 :=
  play_events_run (fun _ _ _ h => ⟨_, h⟩) t events

/-- A listener's connection for a SYN with the number 99; its own initial number is 499. -/
def Timed.sample : Timed :=
  .start 1 ⟨1, 1000, 2, 2000⟩ 499 (Segment.fromPeer 99 0 2 65535 [] Segment.nil_le).hdr

/-- The last ACK of that handshake. -/
def TimedEvent.lastAck : TimedEvent :=
  .conn (.segment (.fromPeer 100 500 16 65535 [] Segment.nil_le))

/-- The SYN-ACK is resent once, and the last ACK finds `WaitForAckReceiver` back in its select. -/
def Timed.answered : List TimedEvent :=
  [.enter .waitForAckReceiver, .fire, .resend, .enter .waitForAckReceiver, .lastAck, .put]

theorem handshakeTimer_spares_answered :
    Along SparesEstablished (Timed.sample.play Timed.answered).1 ∧
      (Timed.sample.play Timed.answered).2.conn.tcb.state = .established :=
  ⟨handshakeTimer_spares (Timed.play_run _ _) (by decide), by decide⟩

/-- The last ACK comes while `WaitForAckReceiver` resends. `waitTimeout` is at the channel first, so
the timer of the handshake runs on to its end. -/
def Timed.robbed : List TimedEvent :=
  [.enter .waitForAckReceiver, .fire, .lastAck, .put, .enter .waitTimeout, .resend] ++
    (List.replicate 5 [.enter .waitForAckReceiver, .fire, .resend]).flatten

theorem handshakeTimer_kills :
    ¬ ∀ (localAddr : U32) (key : SocketData) (iss : U32) (syn : TCPFields)
      (tr : List (Move Timed TimedEvent)) (t : Timed),
      Run TimedStep (Timed.start localAddr key iss syn) tr t → Along SparesEstablished tr := by
  intro h
  have hkill := (h _ _ _ _ _ _ (Timed.play_run Timed.sample Timed.robbed)).get ⟨20, by decide⟩
    (by decide) (by decide)
  exact absurd hkill.2 (by decide)

end Sample

end TcpIp
