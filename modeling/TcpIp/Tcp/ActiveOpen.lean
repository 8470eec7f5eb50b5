import TcpIp.Tcp.Established
import TcpIp.Tcp.States

/-! The answer to the own SYN: which segments end SYN_SENT, and what they leave. -/
namespace TcpIp

open Runs

/-- A label that shows also what the step was given: the clock, the number that `NewISS` draws and
whether the listener's entry is in the table. -/
structure EnvLabel extends Label where
  env : Env

def EnvStep (c : Conn) (l : EnvLabel) (c' : Conn) : Prop := c.step l.env l.ev = some (c', l.out)

theorem EnvStep.step {c c' : Conn} {l : EnvLabel} (h : EnvStep c l c') : Step c l.toLabel c' :=
  ⟨l.env, h⟩

/-- In SYN_SENT only the SYN-ACK of the own SYN establishes the connection; a SYN alone takes it to
SYN_RECEIVED with the sequence numbers of the SYN-ACK that answers. -/
def OpensByOwnSyn (x : Move Conn EnvLabel) : Prop :=
  ∀ seg, x.ev.ev = .segment seg → x.src.tcb.state = .synSent →
    (x.dst.tcb.state = .established →
      seg.hdr.hasSyn = true ∧ seg.hdr.hasAck = true ∧ seg.hdr.ackNum = x.src.tcb.snd.iss + 1 ∧
        x.dst.tcb.snd.una = x.dst.tcb.snd.nxt) ∧
    (seg.hdr.hasSyn = true → seg.hdr.hasAck = false →
      x.dst.tcb.state ≠ .established ∧ x.dst.tcb.snd.iss < x.dst.tcb.snd.nxt ∧
        x.dst.tcb.snd.nxt = x.dst.tcb.snd.iss + 1 ∧
        ∃ m, x.ev.out.msgs = [m] ∧ m.hdr.flags = tcpFlagSyn ||| tcpFlagAck ∧
          m.hdr.seqNum = x.dst.tcb.snd.iss)

/-- A SYN alone comes with an acknowledgement field that is not past the own SYN, and `NewISS` draws
the old initial number again, which is not the last. -/
def KeepsIss (x : Move Conn EnvLabel) : Prop :=
  ∀ seg, x.ev.ev = .segment seg → x.src.tcb.state = .synSent → seg.hdr.hasSyn = true →
    seg.hdr.hasAck = false →
    seg.hdr.ackNum ≤ x.src.tcb.snd.iss ∧ x.ev.env.newISS = x.src.tcb.snd.iss ∧
      x.src.tcb.snd.iss.toNat ≠ 2 ^ 32 - 1

section SynSent

variable {c c' : Conn} {l : EnvLabel} {seg : Segment}

theorem EnvStep.handleStateSynSent (h : EnvStep c l c') (hev : l.ev = .segment seg)
    (hs : c.tcb.state = .synSent) :
    c.handleStateSynSent l.env seg.hdr = (c', l.out.msgs) := by
  rw [EnvStep, hev, Conn.step] at h
  split at h
  · simp only [Conn.receivePacket, hs, Option.map_some, Option.some.injEq] at h
    rw [← (Prod.mk.inj h).1, ← (Prod.mk.inj h).2]
  · cases h

/-- With the ACK flag, the number has to be the one after the own SYN's. -/
theorem ackNum_of_inRange {iss nxt ackNum : U32} (hnxt : iss + 1 = nxt)
    (h : ¬ (ackNum ≤ iss ∨ ackNum > nxt)) : ackNum = iss + 1 := by
  bv_omega

/-- A segment with the ACK flag. -/
theorem opens_of_hasAck {env : Env} {out : List Msg} (hs : c.tcb.state = .synSent)
    (hnxt : c.tcb.snd.iss + 1 = c.tcb.snd.nxt) (hack : seg.hdr.hasAck = true)
    (h : c.handleStateSynSent env seg.hdr = (c', out)) (he : c'.tcb.state = .established) :
    seg.hdr.hasSyn = true ∧ seg.hdr.ackNum = c.tcb.snd.iss + 1 ∧
      c'.tcb.snd.una = c'.tcb.snd.nxt := by
  have hsame : c ≠ c' := by
    rintro rfl
    simp [hs] at he
  simp only [Conn.handleStateSynSent, hack, true_and] at h
  split at h
  · exact absurd (Prod.mk.inj h).1 hsame
  rename_i hrange
  have hnum := ackNum_of_inRange hnxt hrange
  split at h
  · rename_i hsyn
    rw [if_pos (by bv_omega)] at h
    obtain ⟨rfl, -⟩ := Prod.mk.inj h
    exact ⟨hsyn, hnum, hnum.trans hnxt⟩
  · exact absurd (Prod.mk.inj h).1 hsame

/-- A SYN alone: the number in the acknowledgement field decides although the flag is not set. -/
theorem opens_iff_of_syn {env : Env} {out : List Msg} (hnxt : c.tcb.snd.iss + 1 = c.tcb.snd.nxt)
    (hsyn : seg.hdr.hasSyn = true) (hack : seg.hdr.hasAck = false)
    (h : c.handleStateSynSent env seg.hdr = (c', out)) :
    (c'.tcb.state ≠ .established ∧ c'.tcb.snd.iss < c'.tcb.snd.nxt ∧
        c'.tcb.snd.nxt = c'.tcb.snd.iss + 1 ∧
        ∃ m, out = [m] ∧ m.hdr.flags = tcpFlagSyn ||| tcpFlagAck ∧
          m.hdr.seqNum = c'.tcb.snd.iss) ↔
      seg.hdr.ackNum ≤ c.tcb.snd.iss ∧ env.newISS = c.tcb.snd.iss ∧
        c.tcb.snd.iss.toNat ≠ 2 ^ 32 - 1 := by
  simp only [Conn.handleStateSynSent, hsyn, hack, Bool.false_eq_true, false_and, if_false,
    if_true] at h
  split at h
  · rename_i hgt
    obtain ⟨rfl, -⟩ := Prod.mk.inj h
    have hno : ¬ seg.hdr.ackNum ≤ c.tcb.snd.iss := by bv_omega
    simp [hno]
  · rename_i hle
    obtain ⟨rfl, rfl⟩ := Prod.mk.inj h
    have hle' : seg.hdr.ackNum ≤ c.tcb.snd.iss := by bv_omega
    simp only [ne_eq, reduceCtorEq, not_false_eq_true, true_and, hle', Conn.synAckMsg,
      createTCPHeader, List.cons.injEq, and_true, exists_eq_left']
    rw [← hnxt]
    constructor
    · rintro ⟨hlt, heq⟩
      refine ⟨?_, ?_⟩ <;> bv_omega
    · rintro ⟨heq, hlast⟩
      rw [heq]
      refine ⟨?_, rfl⟩
      bv_omega

theorem opensByOwnSyn_iff (ho : c.tcb.state = .synSent → Opening c) (h : EnvStep c l c') :
    OpensByOwnSyn ⟨c, l, c'⟩ ↔ KeepsIss ⟨c, l, c'⟩ := by
  constructor
  · intro hp seg hev hs hsyn hack
    have hc := h.handleStateSynSent hev hs
    exact (opens_iff_of_syn ((ho hs).iss hs).2 hsyn hack hc).mp ((hp seg hev hs).2 hsyn hack)
  · intro hk seg hev hs
    have hc := h.handleStateSynSent hev hs
    have hnxt := ((ho hs).iss hs).2
    have halone := fun hsyn hack =>
      (opens_iff_of_syn hnxt hsyn hack hc).mpr (hk seg hev hs hsyn hack)
    refine ⟨fun he => ?_, halone⟩
    cases hack : seg.hdr.hasAck with
    | true =>
      obtain ⟨hsyn, hnum, huna⟩ := opens_of_hasAck hs hnxt hack hc he
      exact ⟨hsyn, rfl, hnum, huna⟩
    | false =>
      cases hsyn : seg.hdr.hasSyn with
      | true => exact absurd he (halone hsyn hack).1
      | false =>
        simp only [Conn.handleStateSynSent, hsyn, hack, Bool.false_eq_true, false_and,
          if_false] at hc
        rw [← (Prod.mk.inj hc).1, hs] at he
        cases he

/-- SYN_SENT is as `Connect` has left it. -/
theorem Opening.synSent_step (ho : c.tcb.state = .synSent → Opening c) (h : EnvStep c l c') :
    c'.tcb.state = .synSent → Opening c' := by
  intro hs
  rcases (ho (h.step.synSent hs)).step h.step with ho' | ⟨-, he, -⟩
  · exact ho'
  · simp [hs] at he

end SynSent

section Result

variable {key : SocketData} {iss : U32} {c' : Conn} {tr : List (Move Conn EnvLabel)}

/-- Along every run of an active open, the connection is opened by the answer to its own SYN alone
exactly if every SYN without ACK that arrives in SYN_SENT keeps the initial sequence number. -/
theorem active_open_iff (h : Run EnvStep (Conn.connect key iss) tr c') :
    (∀ x ∈ tr, OpensByOwnSyn x) ↔ ∀ x ∈ tr, KeepsIss x :=
  h.forall_iff (I := fun c => c.tcb.state = .synSent → Opening c) (H := fun _ => True)
    (fun _ => opening_connect key iss) (fun _ _ => trivial)
    (fun _ _ _ ho hs _ _ => Opening.synSent_step ho hs)
    (fun _ _ _ ho hs _ => opensByOwnSyn_iff ho hs)

/-- The run a list of events makes in one environment. -/
def Conn.playIn (env : Env) (c : Conn) (events : List Event) :
    List (Move Conn EnvLabel) × Conn :=
  Runs.play (fun c ev => (c.step env ev).map fun r => (⟨⟨ev, r.2⟩, env⟩, r.1)) c events

theorem Conn.playIn_run (env : Env) (c : Conn) (events : List Event) :
    Run EnvStep c (c.playIn env events).1 (c.playIn env events).2 :=
  play_map_run (f := fun c ev => c.step env ev) (fun ev o => EnvLabel.mk ⟨ev, o⟩ env)
    (fun _ _ _ _ h => h) c events

/-- A SYN-ACK with a wrong number, and then the right one. -/
theorem active_open_iff_synAck :
    let tr := ((Conn.connect ⟨1, 1000, 2, 2000⟩ 99).playIn ⟨0, 7, true⟩ [
      .segment (Segment.fromPeer 500 98 (tcpFlagSyn ||| tcpFlagAck) 1000 [] (by simp)),
      .segment (Segment.fromPeer 500 100 (tcpFlagSyn ||| tcpFlagAck) 1000 [] (by simp))]).1
    (∃ x ∈ tr, x.dst.tcb.state = .established) ∧
      ((∀ x ∈ tr, OpensByOwnSyn x) ↔ ∀ x ∈ tr, KeepsIss x) :=
  ⟨by decide, active_open_iff (Conn.playIn_run _ _ _)⟩

/-- A SYN without ACK whose acknowledgement field happens to be large. -/
theorem syn_alone_establishes :
    ¬ ∀ (key : SocketData) (iss : U32) (tr : List (Move Conn EnvLabel)) (c' : Conn),
      Run EnvStep (Conn.connect key iss) tr c' → ∀ x ∈ tr, OpensByOwnSyn x := by
  intro h
  have hrun := Conn.playIn_run ⟨0, 7, true⟩ (Conn.connect ⟨1, 1000, 2, 2000⟩ 99)
    [.segment (Segment.fromPeer 500 7000 tcpFlagSyn 1000 [] (by simp))]
  have hx := h _ _ _ _ hrun _ (List.get_mem _ ⟨0, by decide⟩) _ rfl (by decide)
  exact absurd (by decide) (hx.2 (by decide) (by decide)).1

end Result

end TcpIp
