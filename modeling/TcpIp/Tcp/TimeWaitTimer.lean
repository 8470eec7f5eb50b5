import TcpIp.Tcp.Established
import TcpIp.Tcp.States

/-! `ResetWaitChan` in TIME_WAIT: who sends on it, and which `WaitForClosed` goroutines receive. -/
namespace TcpIp

open Runs

/-- A connection with its `WaitForClosed` goroutines and the channel they share. -/
structure Lingering where
  conn : Conn
  /-- the channels made are numbered from 1 on; 0 is nil -/
  resetWaitChan : ℕ := 0
  /-- goroutines on their way to their select -/
  starting : ℕ := 0
  /-- the channels that goroutines in their select receive from -/
  waiting : List ℕ := []
  /-- goroutines whose timer has fired, at the lock -/
  fired : ℕ := 0
  /-- `HandleTimeWait` is at its send, and holds the lock -/
  sending : Bool := false

inductive LingeringEvent
  /-- a step of the connection that is not one of `WaitForClosed` -/
  | conn (ev : Event)
  /-- a goroutine comes to its select -/
  | start
  /-- the timer of the `i`-th goroutine in its select -/
  | fire (i : ℕ)
  /-- the branch of the timer, with the lock -/
  | expire
  /-- the `i`-th goroutine takes what `HandleTimeWait` sends, and comes to its select again -/
  | reset (i : ℕ)

/-- The steps that cannot be made while another goroutine holds the lock. -/
def Event.takesLock : Event → Bool
  | .probe | .closeReturn | .connectTimeout | .ackTimeout | .ackToken | .enableCC => false
  | _ => true

namespace Conn

/-- `HandleFinWait2` enters TIME_WAIT, for which it makes a channel. -/
def makesResetChan (c : Conn) (ev : Event) : Bool := c.tcb.state = .finWait2 && c.countsFin ev

/-- `HandleFinWait1` or `HandleClosing` enters TIME_WAIT, and makes none. -/
def skipsResetChan (c : Conn) : Event → Bool
  | .segment seg =>
    seg.hdr.hasAck &&
      (c.tcb.state = .finWait1 && seg.hdr.hasFin && seg.hdr.ackNum ≠ c.tcb.snd.nxt &&
          seg.hdr.ackNum ≠ c.tcb.snd.nxt - 1 ||
        c.tcb.state = .closing && seg.hdr.ackNum = c.tcb.snd.nxt)
  | _ => false

/-- A repeated FIN in TIME_WAIT. -/
def sendsReset (c : Conn) : Event → Bool
  | .segment seg => c.tcb.state = .timeWait && seg.hdr.hasFin
  | _ => false

end Conn

namespace Lingering

def step (t : Lingering) (env : Env) : LingeringEvent → Option Lingering
  | .conn ev =>
    if ev = .expire ∨ t.sending ∧ ev.takesLock then none
    else
      (t.conn.step env ev).map fun r =>
        { t with
          conn := r.1
          resetWaitChan :=
            if t.conn.makesResetChan ev then t.resetWaitChan + 1 else t.resetWaitChan
          starting := t.starting + (r.1.waitForClosed - t.conn.waitForClosed)
          sending := t.sending || t.conn.sendsReset ev }
  | .start =>
    if 0 < t.starting then
      some { t with starting := t.starting - 1, waiting := t.waiting ++ [t.resetWaitChan] }
    else none
  | .fire i =>
    if i < t.waiting.length then
      some { t with waiting := t.waiting.eraseIdx i, fired := t.fired + 1 }
    else none
  | .expire =>
    if 0 < t.fired ∧ ¬ t.sending then
      (t.conn.step env .expire).map fun r => { t with conn := r.1, fired := t.fired - 1 }
    else none
  | .reset i =>
    -- a send on a nil channel finds no receiver
    if t.sending ∧ t.resetWaitChan ≠ 0 ∧ t.waiting[i]? = some t.resetWaitChan then
      some { t with sending := false, waiting := t.waiting.set i t.resetWaitChan }
    else none

/-- The channel is there, and a goroutine receives from it or is about to. -/
def live (t : Lingering) : Bool :=
  t.resetWaitChan ≠ 0 && (0 < t.starting || t.resetWaitChan ∈ t.waiting)

/-- TIME_WAIT can be refreshed. -/
def Refreshable (t : Lingering) : Prop := t.conn.tcb.state = .timeWait → t.live = true

/-- TIME_WAIT is entered without a channel, or its last receiver leaves for the lock. -/
def losesReceiver (t : Lingering) : LingeringEvent → Bool
  | .conn ev => t.conn.skipsResetChan ev && t.resetWaitChan = 0
  | .fire i =>
    t.conn.tcb.state = .timeWait && t.starting = 0 && t.resetWaitChan ∉ t.waiting.eraseIdx i
  | _ => false

end Lingering

def LingeringStep (t : Lingering) (e : LingeringEvent) (t' : Lingering) : Prop :=
  ∃ env, t.step env e = some t'

/-- What a step can do. -/
inductive LingeringMove (t : Lingering) : LingeringEvent → Lingering → Prop
  | conn {ev : Event} {o : Output} {c : Conn} (hfree : t.sending = true → ev.takesLock = false)
      (h : Step t.conn ⟨ev, o⟩ c) :
      LingeringMove t (.conn ev)
        { t with
          conn := c
          resetWaitChan :=
            if t.conn.makesResetChan ev then t.resetWaitChan + 1 else t.resetWaitChan
          starting := t.starting + (c.waitForClosed - t.conn.waitForClosed)
          sending := t.sending || t.conn.sendsReset ev }
  | start (hpos : 0 < t.starting) :
      LingeringMove t .start
        { t with starting := t.starting - 1, waiting := t.waiting ++ [t.resetWaitChan] }
  | fire {i : ℕ} :
      LingeringMove t (.fire i)
        { t with waiting := t.waiting.eraseIdx i, fired := t.fired + 1 }
  | expire {c : Conn} (hfree : t.sending = false) (hc : c.tcb.state = .closed) :
      LingeringMove t .expire { t with conn := c, fired := t.fired - 1 }
  | reset {i : ℕ} (hchan : t.resetWaitChan ≠ 0) (hi : t.waiting[i]? = some t.resetWaitChan) :
      LingeringMove t (.reset i)
        { t with sending := false, waiting := t.waiting.set i t.resetWaitChan }

theorem LingeringStep.moved {t t' : Lingering} {e : LingeringEvent} (h : LingeringStep t e t') :
    LingeringMove t e t' := by
  obtain ⟨env, h⟩ := h
  cases e with
  | conn ev =>
    simp only [Lingering.step] at h
    split at h
    · cases h
    · rename_i hfree
      obtain ⟨⟨c, o⟩, hstep, rfl⟩ := Option.map_eq_some_iff.mp h
      exact .conn (fun hsend => by simpa [hsend] using (not_or.mp hfree).2) ⟨env, hstep⟩
  | start =>
    simp only [Lingering.step] at h
    split at h
    · rename_i hpos
      obtain rfl := Option.some.inj h
      exact .start hpos
    · cases h
  | fire i =>
    simp only [Lingering.step] at h
    split at h
    · obtain rfl := Option.some.inj h
      exact .fire
    · cases h
  | expire =>
    simp only [Lingering.step] at h
    split at h
    · rename_i hfree
      obtain ⟨⟨c, o⟩, hstep, rfl⟩ := Option.map_eq_some_iff.mp h
      refine .expire (by simpa using hfree.2) ?_
      simp only [Conn.step] at hstep
      split at hstep
      · rw [← (Prod.mk.inj (Option.some.inj hstep)).1]
      · cases hstep
    · cases h
  | reset i =>
    simp only [Lingering.step] at h
    split at h
    · rename_i hready
      obtain rfl := Option.some.inj h
      exact .reset hready.2.1 hready.2.2
    · cases h

section Entering

variable {c c' : Conn} {ev : Event} {o : Output}

/-- TIME_WAIT is entered in these two ways. -/
theorem Step.entersTimeWait (h : Step c ⟨ev, o⟩ c') (hs' : c'.tcb.state = .timeWait)
    (hs : c.tcb.state ≠ .timeWait) :
    c.makesResetChan ev = true ∨ c.skipsResetChan ev = true := by
  have hm := h.state
  simp only at hm
  generalize c'.tcb.state = st at hm hs'
  cases hm with
  | same => exact absurd hs' hs
  | finWait1Fin hs hack ha hf =>
    split at hs'
    · cases hs'
    · rename_i hne
      exact Or.inr (by simpa [Conn.skipsResetChan, hs, hack, ha, hf] using hne)
  | finWait2Fin hs hf hseq => simp [Conn.makesResetChan, Conn.countsFin, hs, hf, hseq]
  | closingAcked hs hack ha => simp [Conn.skipsResetChan, hs, hack, ha]
  | finSent => split at hs' <;> cases hs'
  | _ => cases hs'

/-- Both ways start a `WaitForClosed`. -/
theorem Step.startsWaitForClosed (h : Step c ⟨ev, o⟩ c')
    (hev : c.makesResetChan ev = true ∨ c.skipsResetChan ev = true) :
    c'.tcb.state = .timeWait ∧ c'.waitForClosed = c.waitForClosed + 1 := by
  obtain ⟨seg, rfl⟩ : ∃ seg, ev = .segment seg := by
    cases ev <;> simp_all [Conn.makesResetChan, Conn.countsFin, Conn.skipsResetChan]
  obtain ⟨env, h⟩ := h
  simp only [Conn.step] at h
  split at h
  · obtain ⟨r, hr, heq⟩ := Option.map_eq_some_iff.mp h
    obtain ⟨rfl, -⟩ := Prod.mk.inj heq
    rcases hev with hev | hev
    · simp only [Conn.makesResetChan, Conn.countsFin, Bool.and_eq_true, Bool.or_eq_true,
        decide_eq_true_eq] at hev
      obtain ⟨hs, hf, ⟨⟨hs', -⟩, -⟩ | ⟨-, hseq⟩⟩ := hev
      · simp [hs] at hs'
      · simp only [Conn.receivePacket, hs, Conn.handleFinWait2, hf, hseq, ne_eq, not_true_eq_false,
          if_true, if_false, Option.some.injEq] at hr
        rw [← hr]
        exact ⟨rfl, rfl⟩
    · simp only [Conn.skipsResetChan, Bool.and_eq_true, Bool.or_eq_true, decide_eq_true_eq] at hev
      obtain ⟨hack, ⟨⟨⟨hs, hf⟩, ha⟩, hne⟩ | ⟨hs, ha⟩⟩ := hev
      · simp only [Conn.receivePacket, hs, Conn.handleFinWait1, hack, ha, hf, if_true, if_false,
          Conn.finInFinWait1, hne, Option.some.injEq] at hr
        rw [← hr]
        exact ⟨rfl, rfl⟩
      · simp only [Conn.receivePacket, hs, Conn.handleClosing, hack, ha, and_self, if_true,
          Option.some.injEq] at hr
        rw [← hr]
        exact ⟨rfl, rfl⟩
  · cases h

end Entering

section Refresh

variable {t t' : Lingering} {e : LingeringEvent} {ev : Event} {o : Output} {c' : Conn}

/-- A step of the connection; TIME_WAIT counts as entered only with a new goroutine. -/
theorem refreshable_conn_iff (hI : t.Refreshable) (h : Step t.conn ⟨ev, o⟩ c')
    (ht' : t' = { t with
      conn := c'
      resetWaitChan := if t.conn.makesResetChan ev then t.resetWaitChan + 1 else t.resetWaitChan
      starting := t.starting + (c'.waitForClosed - t.conn.waitForClosed)
      sending := t.sending || t.conn.sendsReset ev }) :
    t'.Refreshable ↔ (t.conn.skipsResetChan ev && decide (t.resetWaitChan = 0)) = false := by
  subst ht'
  cases hmakes : t.conn.makesResetChan ev with
  | true =>
    have hskips : t.conn.skipsResetChan ev = false := by
      cases ev <;> simp_all [Conn.makesResetChan, Conn.skipsResetChan]
    obtain ⟨-, hnew⟩ := h.startsWaitForClosed (Or.inl hmakes)
    refine iff_of_true (fun _ => ?_) (by simp [hskips])
    simp only [Lingering.live, if_true, hnew]
    simp
  | false =>
    cases hskips : t.conn.skipsResetChan ev with
    | true =>
      obtain ⟨hs', hnew⟩ := h.startsWaitForClosed (Or.inr hskips)
      simp [Lingering.Refreshable, Lingering.live, hs', hnew]
    | false =>
      refine iff_of_true (fun hs' => ?_) (by simp)
      have hs : t.conn.tcb.state = .timeWait := by
        by_contra hne
        have henter := h.entersTimeWait hs' hne
        simp [hmakes, hskips] at henter
      have hlive := hI hs
      simp only [Lingering.live, Bool.and_eq_true, Bool.or_eq_true, decide_eq_true_eq] at hlive ⊢
      exact ⟨hlive.1, hlive.2.imp (fun h => by omega) id⟩

theorem Lingering.Refreshable.step_iff (hI : t.Refreshable) (h : LingeringStep t e t') :
    t'.Refreshable ↔ t.losesReceiver e = false := by
  cases h.moved with
  | conn _ hstep => exact refreshable_conn_iff hI hstep rfl
  | start =>
    refine iff_of_true (fun hs => ?_) rfl
    have hlive := hI hs
    simp only [Lingering.live, Bool.and_eq_true, decide_eq_true_eq] at hlive
    simp [Lingering.live, hlive.1]
  | fire =>
    by_cases hs : t.conn.tcb.state = .timeWait
    · have hlive := hI hs
      simp only [Lingering.live, Bool.and_eq_true, decide_eq_true_eq] at hlive
      simp [Lingering.Refreshable, Lingering.live, Lingering.losesReceiver, hs, hlive.1,
        Nat.pos_iff_ne_zero, imp_iff_not_or]
    · exact iff_of_true (fun hs' => absurd hs' hs) (by simp [Lingering.losesReceiver, hs])
  | expire _ hc => exact iff_of_true (fun hs => by simp [hc] at hs) rfl
  | @reset i hchan hi =>
    refine iff_of_true (fun _ => ?_) rfl
    have hmem := List.mem_set (List.getElem?_eq_some_iff.mp hi).1 t.resetWaitChan
    simp [Lingering.live, hchan, hmem]

/-- From the opening of the connection on, TIME_WAIT can be refreshed throughout a run exactly if
it is never entered past FIN_WAIT_2 while there is no channel, and no timer fires in it that takes
away the last receiver. -/
theorem time_wait_refreshable_iff {c : Conn} {tr : List (Move Lingering LingeringEvent)}
    (h0 : Opening c) (h : Run LingeringStep { conn := c } tr t') :
    (∀ x ∈ tr, x.dst.Refreshable) ↔ ∀ x ∈ tr, x.src.losesReceiver x.ev = false := by
  refine h.forall_iff (I := Lingering.Refreshable) (H := fun _ => True) (fun hs => ?_)
    (fun _ _ => trivial) (fun t e u hI hs _ hP => (hI.step_iff hs).mpr hP)
    (fun t e u hI hs _ => hI.step_iff hs)
  have hstate := h0.state
  have hs' : c.tcb.state = .timeWait := hs
  simp [hs'] at hstate

end Refresh

section Deadlock

variable {t t' : Lingering} {e : LingeringEvent}

theorem Step.waitForClosed_of_not_takesLock {c c' : Conn} {ev : Event} {o : Output}
    (h : Step c ⟨ev, o⟩ c') (hev : ev.takesLock = false) : c'.waitForClosed = c.waitForClosed := by
  have hm := h.moved
  simp only at hm
  cases hm with
  | closeWaits hc | closes hc => cases hc <;> cases hev
  | closeReturn | probe | enableCC | ackToken | handshakeGaveUp | handshakeResent => rfl
  | _ => cases hev

/-- Where nobody receives, `HandleTimeWait` stays at its send, and nobody comes. -/
theorem Lingering.sending_step (hsend : t.sending = true) (hdead : t.live = false)
    (h : LingeringStep t e t') : t'.sending = true ∧ t'.live = false := by
  have hdead' : t.resetWaitChan = 0 ∨ t.starting = 0 ∧ t.resetWaitChan ∉ t.waiting := by
    simp only [Lingering.live, Bool.and_eq_false_iff, Bool.or_eq_false_iff,
      decide_eq_false_iff_not] at hdead
    exact hdead.imp (fun h => not_not.mp h) fun h => ⟨by omega, h.2⟩
  cases h.moved with
  | @conn ev o c hfree hstep =>
    have hlock : ev.takesLock = false := hfree hsend
    have hmakes : t.conn.makesResetChan ev = false := by
      cases ev <;> simp_all [Conn.makesResetChan, Conn.countsFin, Event.takesLock]
    have hsame := hstep.waitForClosed_of_not_takesLock hlock
    refine ⟨by simp [hsend], ?_⟩
    simpa [Lingering.live, hmakes, hsame] using hdead
  | start hpos =>
    have hnil : t.resetWaitChan = 0 := hdead'.resolve_right fun h => by omega
    exact ⟨hsend, by simp [Lingering.live, hnil]⟩
  | @fire i =>
    refine ⟨hsend, ?_⟩
    rcases hdead' with hnil | ⟨hno, hnone⟩
    · simp [Lingering.live, hnil]
    · have hgone : t.resetWaitChan ∉ t.waiting.eraseIdx i :=
        fun hmem => hnone (List.mem_of_mem_eraseIdx hmem)
      simp [Lingering.live, hno, hgone]
  | expire hfree => simp [hsend] at hfree
  | reset hchan hi =>
    rcases hdead' with hnil | ⟨-, hnone⟩
    · exact absurd hnil hchan
    · exact absurd (List.mem_of_getElem? hi) hnone

/-- The lock is never released again. -/
theorem reset_never_taken {tr : List (Move Lingering LingeringEvent)} (hsend : t.sending = true)
    (hdead : t.live = false) (h : Run LingeringStep t tr t') : t'.sending = true :=
  (h.state_inv (I := fun t => t.sending = true ∧ t.live = false) (P := fun _ => True)
    ⟨hsend, hdead⟩ (fun _ _ => trivial)
    fun _ _ _ hI hs _ => Lingering.sending_step hI.1 hI.2 hs).1

theorem Lingering.reset_step {i : ℕ} (hsend : t.sending = true) (hchan : t.resetWaitChan ≠ 0)
    (hi : t.waiting[i]? = some t.resetWaitChan) :
    LingeringStep t (.reset i)
      { t with sending := false, waiting := t.waiting.set i t.resetWaitChan } := by
  refine ⟨⟨0, 0, true⟩, ?_⟩
  simp only [Lingering.step]
  rw [if_pos ⟨hsend, hchan, hi⟩]

/-- Where somebody receives, the send can go through. -/
theorem reset_taken (hsend : t.sending = true) (hlive : t.live = true) :
    ∃ tr t', Run LingeringStep t tr t' ∧ t'.sending = false := by
  simp only [Lingering.live, Bool.and_eq_true, Bool.or_eq_true, decide_eq_true_eq] at hlive
  obtain ⟨hchan, hpos | hmem⟩ := hlive
  · have hstart : LingeringStep t .start
        { t with starting := t.starting - 1, waiting := t.waiting ++ [t.resetWaitChan] } := by
      refine ⟨⟨0, 0, true⟩, ?_⟩
      simp only [Lingering.step]
      rw [if_pos hpos]
    have hreset := Lingering.reset_step (i := t.waiting.length)
      (t := { t with starting := t.starting - 1, waiting := t.waiting ++ [t.resetWaitChan] })
      hsend hchan (by simp)
    exact ⟨_, _, (Run.nil.snoc hstart).snoc hreset, rfl⟩
  · obtain ⟨i, hi⟩ := List.mem_iff_getElem?.mp hmem
    exact ⟨_, _, Run.nil.snoc (Lingering.reset_step hsend hchan hi), rfl⟩

end Deadlock

section Sample

/-- One event as a function, at a fixed clock. -/
def Lingering.next (t : Lingering) (e : LingeringEvent) : Option (LingeringEvent × Lingering) :=
  (t.step ⟨0, 0, true⟩ e).map fun t' => (e, t')

def Lingering.play (t : Lingering) (events : List LingeringEvent) :
    List (Move Lingering LingeringEvent) × Lingering :=
  Runs.play Lingering.next t events

theorem Lingering.play_run (t : Lingering) (events : List LingeringEvent) :
    Run LingeringStep t (t.play events).1 (t.play events).2 :=
  play_events_run (fun _ _ _ h => ⟨_, h⟩) t events

/-- The handshake of an active open, and `Close`. -/
def closedAtOnce : List LingeringEvent :=
  [.conn (.segment (Segment.fromPeer 499 100 18 1000 [] Segment.nil_le)), .conn .close]

/-- The peer answers the FIN, sends its own and repeats it: the goroutine is reset. -/
theorem time_wait_refreshable_iff_repeated_fin :
    let t : Lingering := { conn := Conn.connect ⟨1, 1000, 2, 2000⟩ 99 }
    let tr := (t.play (closedAtOnce ++
      [.conn (.segment (Segment.fromPeer 500 101 16 1000 [] Segment.nil_le)),
        .conn (.segment (Segment.fromPeer 500 101 17 1000 [] Segment.nil_le)), .start,
        .conn (.segment (Segment.fromPeer 500 101 17 1000 [] Segment.nil_le)), .reset 0])).1
    (tr.length = 7 ∧ ∃ x ∈ tr, x.src.sending = true ∧ x.dst.conn.tcb.state = .timeWait) ∧
      ((∀ x ∈ tr, x.dst.Refreshable) ↔ ∀ x ∈ tr, x.src.losesReceiver x.ev = false) :=
  ⟨by decide, time_wait_refreshable_iff (opening_connect _ _) (Lingering.play_run _ _)⟩

/-- Both sides close at once: TIME_WAIT is entered from CLOSING, and there is no channel. -/
theorem time_wait_not_refreshable_closing :
    ¬ ∀ (c : Conn) (tr : List (Move Lingering LingeringEvent)) (t' : Lingering), Opening c →
      Run LingeringStep { conn := c } tr t' → ∀ x ∈ tr, x.dst.Refreshable := by
  intro h
  have hrun := Lingering.play_run { conn := Conn.connect ⟨1, 1000, 2, 2000⟩ 99 } (closedAtOnce ++
    [.conn (.segment (Segment.fromPeer 500 100 17 1000 [] Segment.nil_le)),
      .conn (.segment (Segment.fromPeer 501 101 16 1000 [] Segment.nil_le))])
  have hlast := h _ _ _ (opening_connect _ _) hrun _ (List.get_mem _ ⟨3, by decide⟩)
  exact absurd (hlast (by decide)) (by decide)

end Sample

end TcpIp
