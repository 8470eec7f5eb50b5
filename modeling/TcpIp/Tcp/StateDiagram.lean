import TcpIp.Tcp.States
import TcpIp.Tcp.Established

/-! Conformance to the connection diagram of RFC 793. -/
namespace TcpIp

open Runs Relation

/-- The edges of the diagram, without those out of CLOSED, which open a new connection. -/
inductive Edge : ConnectionState → ConnectionState → Prop
  | listenSynReceived : Edge .listen .synReceived
  | listenSynSent : Edge .listen .synSent
  | listenClosed : Edge .listen .closed
  | synSentSynReceived : Edge .synSent .synReceived
  | synSentEstablished : Edge .synSent .established
  | synSentClosed : Edge .synSent .closed
  | synReceivedEstablished : Edge .synReceived .established
  | synReceivedFinWait1 : Edge .synReceived .finWait1
  | establishedFinWait1 : Edge .established .finWait1
  | establishedCloseWait : Edge .established .closeWait
  | finWait1FinWait2 : Edge .finWait1 .finWait2
  | finWait1Closing : Edge .finWait1 .closing
  | finWait2TimeWait : Edge .finWait2 .timeWait
  | closingTimeWait : Edge .closing .timeWait
  | timeWaitClosed : Edge .timeWait .closed
  | closeWaitLastAck : Edge .closeWait .lastAck
  | lastAckClosed : Edge .lastAck .closed

/-- How far a state is along the diagram. -/
def ConnectionState.rank : ConnectionState → ℕ
  | .listen => 0
  | .synSent => 1
  | .synReceived => 2
  | .established => 3
  | .finWait1 => 4
  | .closeWait => 4
  | .finWait2 => 5
  | .closing => 5
  | .lastAck => 5
  | .timeWait => 6
  | .closed => 7

/-- The states from the local FIN on. -/
def ConnectionState.finSent : ConnectionState → Bool
  | .finWait1 | .finWait2 | .closing | .lastAck | .timeWait | .closed => true
  | _ => false

section Diagram

variable {s t : ConnectionState}

theorem Edge.rank_lt (h : Edge s t) : s.rank < t.rank := by
  cases h <;> decide

theorem Edge.finSent (h : Edge s t) (hs : s.finSent = true) : t.finSent = true := by
  cases h <;> first | rfl | cases hs

/-- A path goes up in rank unless it is empty. -/
theorem rank_lt_of_path (h : ReflTransGen Edge s t) (hne : s ≠ t) : s.rank < t.rank := by
  induction h with
  | refl => exact absurd rfl hne
  | @tail u v _ he ih =>
    have hlt := he.rank_lt
    by_cases hsu : s = u
    · exact hsu ▸ hlt
    · exact (ih hsu).trans hlt

theorem finSent_of_path (h : ReflTransGen Edge s t) (hs : s.finSent = true) :
    t.finSent = true := by
  induction h with
  | refl => exact hs
  | tail _ he ih => exact he.finSent ih

end Diagram

/-- The step leaves the diagram: a remembered FIN takes FIN_WAIT_1 or FIN_WAIT_2 to CLOSE_WAIT,
or `Close` sends a FIN when one was sent before or the connection is gone. -/
def Conn.offDiagram (c : Conn) : Event → Bool
  | .segment seg => c.reachesFin seg && c.tcb.state ≠ .established
  | .close | .closeWake =>
    c.tcb.snd.nxt = c.tcb.snd.lbw && c.tcb.state.finSent && c.tcb.state ≠ .finWait1
  | _ => false

/-- The timers that may give the connection up. -/
def Event.isTimer : Event → Bool
  | .timeout | .connectTimeout | .ackTimeout => true
  | _ => false

/-- The state moves along the diagram, or a timer gives the connection up. -/
def Conforms (x : Move Conn Label) : Prop :=
  ReflTransGen Edge x.src.tcb.state x.dst.tcb.state ∨
    x.ev.ev.isTimer = true ∧ x.dst.tcb.state = .closed

/-- The 2 MSL timer runs only in TIME_WAIT and after it. -/
def Conn.Lingers (c : Conn) : Prop :=
  0 < c.waitForClosed → c.tcb.state = .timeWait ∨ c.tcb.state = .closed

section Conformance

variable {c c' : Conn} {seg : Segment} {out : List Msg} {l : Label} {ev : Event}
  {st : ConnectionState} {tr : List (Move Conn Label)}

theorem Handled.waitForClosed (h : Handled c seg c' out) :
    c'.waitForClosed = c.waitForClosed ∨ c'.tcb.state = .timeWait := by
  cases h with
  | synSent iss hs hsyn hack hc' => exact Or.inl (by rw [hc'])
  | finWait2Fin hs hf hseq hs' => exact Or.inr (by rw [hs'])
  | closingAcked => exact Or.inr rfl
  | finWait1Fin =>
    simp only [Conn.finInFinWait1]
    split <;> simp
  | _ => exact Or.inl rfl

/-- Only the way into TIME_WAIT starts the 2 MSL timer. -/
theorem Step.waitForClosed (h : Step c l c') :
    c'.waitForClosed ≤ c.waitForClosed ∨ c'.tcb.state = .timeWait := by
  have hm := h.moved
  generalize l.ev = ev at hm
  generalize l.out = o at hm
  cases hm with
  | segment hin hh => exact hh.waitForClosed.imp Nat.le_of_eq id
  | closeWaits hc | closes hc => cases hc <;> exact Or.inl (Nat.le_refl _)
  | expired => exact Or.inl (Nat.sub_le _ _)
  | _ => exact Or.inl (Nat.le_refl _)

theorem StateMove.lingers (h : StateMove c ev st) (hno : c.offDiagram ev = false)
    (hs : c.tcb.state = .timeWait ∨ c.tcb.state = .closed) : st = .timeWait ∨ st = .closed := by
  have hoff : ∀ ev, ev = .close ∨ ev = .closeWake → c.tcb.snd.nxt = c.tcb.snd.lbw →
      c.offDiagram ev = true := by
    rintro ev (rfl | rfl) heq <;> rcases hs with hs | hs <;>
      simp [Conn.offDiagram, heq, hs, ConnectionState.finSent]
  cases h with
  | same => exact hs
  | finSent hev heq =>
    rw [hoff _ hev heq] at hno
    cases hno
  | gaveUp | expired | lastAcked => exact Or.inr rfl
  | finWait2Fin | closingAcked => exact Or.inl rfl
  | established hs' => rcases hs with hs | hs <;> simp [hs] at hs'
  | synReceived hs' | finAcked hs' | fin hs' | finWait1Fin hs' =>
    rcases hs with hs | hs <;> simp [hs] at hs'
  | pendingFin hr => rcases hs with hs | hs <;> cases hr <;> simp_all

theorem Conn.Lingers.step (hl : c.Lingers) (h : Step c l c') (hno : c.offDiagram l.ev = false) :
    c'.Lingers := by
  intro hpos
  rcases h.waitForClosed with hle | htw
  · exact h.state.lingers hno (hl (by omega))
  · exact Or.inl htw

/-- A step that is not off the diagram follows a path of it. -/
theorem StateMove.conforms (h : StateMove c ev st) (hl : c.Lingers)
    (hno : c.offDiagram ev = false) :
    ReflTransGen Edge c.tcb.state st ∨ ev.isTimer = true ∧ st = .closed := by
  cases h with
  | same => exact Or.inl .refl
  | established hs =>
    rcases hs with hs | hs <;> rw [hs]
    · exact Or.inl (.single .synSentEstablished)
    · exact Or.inl (.single .synReceivedEstablished)
  | synReceived hs => exact Or.inl (hs ▸ .single .synSentSynReceived)
  | finAcked hs => exact Or.inl (hs ▸ .single .finWait1FinWait2)
  | pendingFin hr h =>
    have hs : c.tcb.state = .established := by simpa [Conn.offDiagram, h] using hno
    exact Or.inl (hs ▸ .single .establishedCloseWait)
  | fin hs => exact Or.inl (hs ▸ .single .establishedCloseWait)
  | finWait1Fin hs =>
    rw [hs]
    split
    · exact Or.inl (.single .finWait1Closing)
    · exact Or.inl (.tail (.single .finWait1Closing) .closingTimeWait)
  | finWait2Fin hs => exact Or.inl (hs ▸ .single .finWait2TimeWait)
  | closingAcked hs => exact Or.inl (hs ▸ .single .closingTimeWait)
  | lastAcked hs => exact Or.inl (hs ▸ .single .lastAckClosed)
  | gaveUp hev =>
    refine Or.inr ⟨?_, rfl⟩
    rcases hev with rfl | rfl | rfl <;> rfl
  | expired hw =>
    rcases hl hw with hs | hs <;> rw [hs]
    · exact Or.inl (.single .timeWaitClosed)
    · exact Or.inl .refl
  | finSent hev heq =>
    left
    have hfin : c.tcb.state.finSent = false ∨ c.tcb.state = .finWait1 := by
      rcases hev with rfl | rfl <;>
        simpa [Conn.offDiagram, heq, or_iff_not_imp_left] using hno
    generalize c.tcb.state = s at hfin
    cases s with
    | listen => exact .tail (.single .listenSynReceived) .synReceivedFinWait1
    | synSent => exact .tail (.single .synSentSynReceived) .synReceivedFinWait1
    | synReceived => exact .single .synReceivedFinWait1
    | established => exact .single .establishedFinWait1
    | closeWait => exact .single .closeWaitLastAck
    | finWait1 => exact .refl
    | _ => simp [ConnectionState.finSent] at hfin

/-- A step off the diagram follows none of its paths. -/
theorem StateMove.not_conforms (h : StateMove c ev st) (hoff : c.offDiagram ev = true) :
    ¬ (ReflTransGen Edge c.tcb.state st ∨ ev.isTimer = true ∧ st = .closed) := by
  rintro (hpath | ⟨htimer, -⟩)
  · have hrank := rank_lt_of_path hpath
    cases h with
    | same hseg hclose =>
      cases ev with
      | segment seg => simp [Conn.offDiagram, hseg seg rfl] at hoff
      | close => simp [Conn.offDiagram, hclose (Or.inl rfl)] at hoff
      | closeWake => simp [Conn.offDiagram, hclose (Or.inr rfl)] at hoff
      | _ => simp [Conn.offDiagram] at hoff
    | pendingFin hr h =>
      have hs : c.tcb.state ≠ .established := by simpa [Conn.offDiagram, h] using hoff
      cases hr with
      | established hs' => exact hs hs'
      | finWait1 hs' | finAcked hs' | finWait2 hs' =>
        simp [hs', ConnectionState.rank] at hrank
    | finSent hev heq =>
      have hfin : c.tcb.state.finSent = true ∧ c.tcb.state ≠ .finWait1 := by
        rcases hev with rfl | rfl <;> simpa [Conn.offDiagram, heq] using hoff
      generalize c.tcb.state = s at hfin hrank
      cases s <;> simp_all [ConnectionState.finSent, ConnectionState.rank]
    | established hs =>
      rcases hs with hs | hs <;>
        simp [Conn.offDiagram, Conn.reachesFin, Conn.passesToReceive, hs] at hoff
    | finAcked hs hack ha hr => simp [Conn.offDiagram, hr] at hoff
    | fin hs => simp [Conn.offDiagram, hs] at hoff
    | finWait1Fin hs hack ha hf =>
      simp [Conn.offDiagram, Conn.reachesFin, Conn.passesToReceive, hs, ha, hf] at hoff
    | finWait2Fin hs hf =>
      simp [Conn.offDiagram, Conn.reachesFin, Conn.passesToReceive, hs, hf] at hoff
    | synReceived hs | closingAcked hs | lastAcked hs =>
      simp [Conn.offDiagram, Conn.reachesFin, Conn.passesToReceive, hs] at hoff
    | gaveUp hev => rcases hev with rfl | rfl | rfl <;> simp [Conn.offDiagram] at hoff
    | expired => simp [Conn.offDiagram] at hoff
  · cases ev <;> simp [Event.isTimer, Conn.offDiagram] at htimer hoff

/-- From either way to open a connection, every change of state follows the diagram exactly as
long as no step is off it; and then a connection that has sent its FIN stays past it. -/
theorem conforms_iff (h0 : Opening c) (h : Run Step c tr c') :
    ((∀ x ∈ tr, Conforms x) ↔ ∀ x ∈ tr, x.src.offDiagram x.ev.ev = false) ∧
      ((∀ x ∈ tr, x.src.offDiagram x.ev.ev = false) → ∀ x ∈ tr,
        x.src.tcb.state.finSent = true → x.dst.tcb.state.finSent = true) := by
  have hiff : (∀ x ∈ tr, Conforms x) ↔ ∀ x ∈ tr, x.src.offDiagram x.ev.ev = false := by
    refine h.forall_iff (I := Conn.Lingers) (H := fun _ => True) ?_ (fun _ _ => trivial) ?_ ?_
    · intro hpos
      simp [h0.waitForClosed] at hpos
    · intro t l u ht hs _ hno
      exact ht.step hs hno
    · intro t l u ht hs _
      constructor
      · intro hc
        by_contra hoff
        exact hs.state.not_conforms (Bool.eq_true_of_not_eq_false hoff) hc
      · intro hno
        exact hs.state.conforms ht hno
  refine ⟨hiff, fun hno x hx hfin => ?_⟩
  rcases hiff.mpr hno x hx with hpath | ⟨-, hclosed⟩
  · exact finSent_of_path hpath hfin
  · rw [hclosed]
    rfl

theorem conforms_iff_active_close :
    let c := Conn.connect ⟨1, 1000, 2, 2000⟩ 99
    let tr := (c.play [.segment (Segment.fromPeer 499 100 18 1000 [] (by simp)), .close,
      .segment (Segment.fromPeer 500 101 16 1000 [] (by simp)),
      .segment (Segment.fromPeer 500 101 17 1000 [] (by simp)), .expire]).1
    (tr.map fun x => x.dst.tcb.state) =
        [.established, .finWait1, .finWait2, .timeWait, .closed] ∧
      ((∀ x ∈ tr, Conforms x) ↔ ∀ x ∈ tr, x.src.offDiagram x.ev.ev = false) ∧
      ((∀ x ∈ tr, x.src.offDiagram x.ev.ev = false) → ∀ x ∈ tr,
        x.src.tcb.state.finSent = true → x.dst.tcb.state.finSent = true) :=
  ⟨by decide, conforms_iff (opening_connect _ _) (Conn.play_run _ _)⟩

/-- The SYN-ACK, a FIN two bytes early, the local `Close`, then the two bytes. -/
def pendingFinEvents : List Event :=
  [.segment (Segment.fromPeer 499 100 18 1000 [] Segment.nil_le),
    .segment (Segment.fromPeer 502 100 17 1000 [] Segment.nil_le), .close,
    .segment (Segment.fromPeer 500 100 16 1000 [1, 2] (by simp))]

/-- The early FIN takes FIN_WAIT_1 to CLOSE_WAIT. -/
theorem conforms_broken_by_pending_fin :
    ¬ ∀ (c c' : Conn) (tr : List (Move Conn Label)), Opening c → Run Step c tr c' →
      ∀ x ∈ tr, Conforms x := by
  intro h
  have hconf := h _ _ _ (opening_connect ⟨1, 1000, 2, 2000⟩ 99)
    (Conn.play_run _ pendingFinEvents)
  have hlast : ∃ x ∈ ((Conn.connect ⟨1, 1000, 2, 2000⟩ 99).play pendingFinEvents).1,
      x.src.tcb.state = .finWait1 ∧ x.dst.tcb.state = .closeWait := by
    decide
  obtain ⟨x, hx, hsrc, hdst⟩ := hlast
  have hx := hconf x hx
  simp only [Conforms, hsrc, hdst, reduceCtorEq, and_false, or_false] at hx
  have hrank := rank_lt_of_path hx (by simp)
  simp [ConnectionState.rank] at hrank

end Conformance

end TcpIp
