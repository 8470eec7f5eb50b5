import TcpIp.Tcp.Moves

/-! The state field of a connection as a machine of its own, and the connection's refinement of
it. -/
namespace TcpIp

/-- The segment's data is taken and brings RCV.NXT to the remembered FIN. -/
def Conn.reachesFin (c : Conn) (seg : Segment) : Bool :=
  c.passesToReceive seg.hdr && 0 < seg.payload.length &&
    match c.tcb.rcv.classify seg.hdr.seqNum with
    | .inOrder => (c.tcb.tookInOrder seg.payload).rcv.nxt = c.tcb.pendingReceivedFin
    | .early => c.tcb.rcv.nxt = c.tcb.pendingReceivedFin
    | _ => false

/-- What a step can do to the state. -/
inductive StateMove (c : Conn) : Event → ConnectionState → Prop
  | same {ev : Event} (hseg : ∀ seg, ev = .segment seg → c.reachesFin seg = false)
      (hclose : ev = .close ∨ ev = .closeWake → c.tcb.snd.nxt ≠ c.tcb.snd.lbw) :
      StateMove c ev c.tcb.state
  | established {seg : Segment} (hs : c.tcb.state = .synSent ∨ c.tcb.state = .synReceived) :
      StateMove c (.segment seg) .established
  | synReceived {seg : Segment} (hs : c.tcb.state = .synSent) :
      StateMove c (.segment seg) .synReceived
  | finAcked {seg : Segment} (hs : c.tcb.state = .finWait1) (hack : seg.hdr.hasAck = true)
      (ha : seg.hdr.ackNum = c.tcb.snd.nxt) (hr : c.reachesFin seg = false) :
      StateMove c (.segment seg) .finWait2
  | pendingFin {seg : Segment} {st : ConnectionState} (hr : Receives c seg.hdr st)
      (h : c.reachesFin seg = true) : StateMove c (.segment seg) .closeWait
  | fin {seg : Segment} (hs : c.tcb.state = .established) (hf : seg.hdr.hasFin = true)
      (hseq : seg.hdr.seqNum = c.tcb.rcv.nxt) : StateMove c (.segment seg) .closeWait
  | finWait1Fin {seg : Segment} (hs : c.tcb.state = .finWait1) (hack : seg.hdr.hasAck = true)
      (ha : seg.hdr.ackNum ≠ c.tcb.snd.nxt) (hf : seg.hdr.hasFin = true) :
      StateMove c (.segment seg)
        (if seg.hdr.ackNum = c.tcb.snd.nxt - 1 then .closing else .timeWait)
  | finWait2Fin {seg : Segment} (hs : c.tcb.state = .finWait2) (hf : seg.hdr.hasFin = true)
      (hseq : seg.hdr.seqNum = c.tcb.rcv.nxt) : StateMove c (.segment seg) .timeWait
  | closingAcked {seg : Segment} (hs : c.tcb.state = .closing) (hack : seg.hdr.hasAck = true)
      (ha : seg.hdr.ackNum = c.tcb.snd.nxt) : StateMove c (.segment seg) .timeWait
  | lastAcked {seg : Segment} (hs : c.tcb.state = .lastAck) : StateMove c (.segment seg) .closed
  | finSent {ev : Event} (hev : ev = .close ∨ ev = .closeWake)
      (h : c.tcb.snd.nxt = c.tcb.snd.lbw) :
      StateMove c ev (if c.tcb.state = .closeWait then .lastAck else .finWait1)
  | gaveUp {ev : Event} (hev : ev = .timeout ∨ ev = .connectTimeout ∨ ev = .ackTimeout) :
      StateMove c ev .closed
  | expired (h : 0 < c.waitForClosed) : StateMove c .expire .closed

section Refinement

variable {c c' : Conn} {seg : Segment} {out : List Msg} {l : Label}

theorem reachesFin_of_not_passes (h : c.passesToReceive seg.hdr = false) :
    c.reachesFin seg = false := by
  simp [Conn.reachesFin, h]

theorem reachesFin_iff (hp : c.passesToReceive seg.hdr = true) :
    c.reachesFin seg = true ↔ 0 < seg.payload.length ∧
      (c.tcb.rcv.classify seg.hdr.seqNum = .inOrder ∧
          (c.tcb.tookInOrder seg.payload).rcv.nxt = c.tcb.pendingReceivedFin ∨
        c.tcb.rcv.classify seg.hdr.seqNum = .early ∧
          c.tcb.rcv.nxt = c.tcb.pendingReceivedFin) := by
  simp only [Conn.reachesFin, hp, Bool.true_and, Bool.and_eq_true, decide_eq_true_eq]
  cases c.tcb.rcv.classify seg.hdr.seqNum <;> simp

/-- The data half moves the state exactly where the remembered FIN is reached. -/
theorem DataEffect.state_eq {st : ConnectionState} {u : TCB}
    (h : DataEffect { c.tcb with state := st } c.key seg u out)
    (hp : c.passesToReceive seg.hdr = true) :
    u.state = if c.reachesFin seg then .closeWait else st := by
  have hdef := reachesFin_iff hp
  cases h with
  | empty h => rw [if_neg (by simp [hdef, h])]
  | refused hpos h =>
    have h' : c.tcb.rcv.classify seg.hdr.seqNum = .alreadyReceived ∨
      c.tcb.rcv.classify seg.hdr.seqNum = .beyondWindow := h
    rw [if_neg (by rcases h' with h' | h' <;> simp [hdef, h'])]
  | inOrder hpos hc hfit =>
    have hc' : c.tcb.rcv.classify seg.hdr.seqNum = .inOrder := hc
    rw [TCB.ackData_eq]
    simp only [hdef, hpos, hc', true_and, reduceCtorEq, false_and, or_false]
    rfl
  | early hpos hc hfit =>
    have hc' : c.tcb.rcv.classify seg.hdr.seqNum = .early := hc
    rw [TCB.ackData_eq]
    simp only [hdef, hpos, hc', true_and, reduceCtorEq, false_and, false_or]
    rfl

theorem AckEffect.state_eq {s t : TCB} {key : SocketData} {hdr : TCPFields}
    (h : AckEffect s key hdr t out) : t.state = s.state := by
  obtain ⟨snd, q, cwnd, b, rfl⟩ := h.frame
  rfl

theorem received_state {st : ConnectionState} {u t : TCB} {o₁ o₂ : List Msg}
    (hr : Receives c seg.hdr st) (hack : seg.hdr.hasAck = true)
    (hd : DataEffect { c.tcb with state := st } c.key seg u o₁)
    (ha : AckEffect u c.key seg.hdr t o₂) : StateMove c (.segment seg) t.state := by
  rw [ha.state_eq, hd.state_eq (hr.passes hack)]
  split
  · rename_i h
    exact .pendingFin hr h
  · rename_i h
    have hno : c.reachesFin seg = false := Bool.eq_false_of_not_eq_true h
    have hsame : StateMove c (.segment seg) c.tcb.state :=
      .same (fun _ hseg => by cases hseg; exact hno) (by simp)
    cases hr with
    | established hs => exact hs ▸ hsame
    | finWait1 hs => exact hs ▸ hsame
    | finWait2 hs => exact hs ▸ hsame
    | finAcked hs ha' => exact .finAcked hs hack ha' hno

theorem Handled.state (h : Handled c seg c' out) :
    StateMove c (.segment seg) c'.tcb.state := by
  have same : c.passesToReceive seg.hdr = false → StateMove c (.segment seg) c.tcb.state := by
    intro hp
    refine .same (fun seg' hseg => ?_) (by simp)
    cases hseg
    exact reachesFin_of_not_passes hp
  cases h with
  | ignored hp => exact same hp
  | synSent iss hs hsyn hack hc' =>
    subst hc'
    simp only
    split
    · exact .established (Or.inl hs)
    · exact .synReceived hs
  | synRepeated hs => exact same (by simp [Conn.passesToReceive, hs])
  | accepted hs => exact .established (Or.inr hs)
  | received hr hack hd ha => exact received_state hr hack hd ha
  | fin hs hf =>
    have hp : c.passesToReceive seg.hdr = false := by simp [Conn.passesToReceive, hs, hf]
    simp only [TCB.receiveFin]
    split
    · rename_i hseq
      exact .fin hs hf hseq
    · split
      · exact same hp
      · exact same hp
  | finWait1Fin hs hack ha hf => exact .finWait1Fin hs hack ha hf
  | finWait2Fin hs hf hseq hs' =>
    subst hs'
    exact .finWait2Fin hs hf hseq
  | closingAcked hs hack ha => exact .closingAcked hs hack ha
  | finRepeated hs =>
    exact same (by rcases hs with hs | hs <;> simp [Conn.passesToReceive, hs])
  | lastAcked k hs => exact .lastAcked hs

theorem Handled.of_passes (h : Handled c seg c' out) (hp : c.passesToReceive seg.hdr = true) :
    ∃ st u t o₁ o₂, Receives c seg.hdr st ∧
      DataEffect { c.tcb with state := st } c.key seg u o₁ ∧
      AckEffect u c.key seg.hdr t o₂ ∧ c' = { c with tcb := t } ∧ out = o₁ ++ o₂ := by
  cases h with
  | received hr hack hd ha => exact ⟨_, _, _, _, _, hr, hd, ha, rfl, rfl⟩
  | ignored h => simp [h] at hp
  | synSent iss hs | synRepeated hs | accepted hs | closingAcked hs | lastAcked k hs =>
    simp [Conn.passesToReceive, hs] at hp
  | fin hs hf | finWait2Fin hs hf => simp [Conn.passesToReceive, hs, hf] at hp
  | finWait1Fin hs hack ha hf => simp [Conn.passesToReceive, hs, ha, hf] at hp
  | finRepeated hs => rcases hs with hs | hs <;> simp [Conn.passesToReceive, hs] at hp

/-- Data that reaches the remembered FIN brings RCV.NXT to it. -/
theorem Step.nxt_of_reachesFin (h : Step c l c') (hev : l.ev = .segment seg)
    (hr : c.reachesFin seg = true) : c'.tcb.rcv.nxt = c.tcb.pendingReceivedFin := by
  have hp : c.passesToReceive seg.hdr = true := by
    by_contra hno
    simp [reachesFin_of_not_passes (Bool.eq_false_of_not_eq_true hno)] at hr
  obtain ⟨st, u, t, o₁, o₂, -, hd, ha, rfl, -⟩ := (h.handled hev).of_passes hp
  obtain ⟨snd, q, cwnd, b, rfl⟩ := ha.frame
  obtain ⟨hpos, hclass⟩ := (reachesFin_iff hp).mp hr
  cases hd with
  | empty hnil => simp [hnil] at hpos
  | refused _ hc =>
    have hc' : c.tcb.rcv.classify seg.hdr.seqNum = .alreadyReceived ∨
      c.tcb.rcv.classify seg.hdr.seqNum = .beyondWindow := hc
    rcases hc' with hc' | hc' <;> simp [hc'] at hclass
  | inOrder _ hc =>
    have hc' : c.tcb.rcv.classify seg.hdr.seqNum = .inOrder := hc
    have hnxt : (c.tcb.tookInOrder seg.payload).rcv.nxt = c.tcb.pendingReceivedFin := by
      simpa [hc'] using hclass
    rw [TCB.ackData_eq]
    exact hnxt
  | early _ hc =>
    have hc' : c.tcb.rcv.classify seg.hdr.seqNum = .early := hc
    have hnxt : c.tcb.rcv.nxt = c.tcb.pendingReceivedFin := by simpa [hc'] using hclass
    rw [TCB.ackData_eq]
    exact hnxt

/-- Only a FIN in ESTABLISHED that is ahead of its turn is remembered. -/
theorem Step.pendingReceivedFin (h : Step c l c') :
    c'.tcb.pendingReceivedFin = c.tcb.pendingReceivedFin ∨
      ∃ seg, l.ev = .segment seg ∧ seg.hdr.hasFin = true ∧ c.tcb.state = .established ∧
        c.tcb.rcv.nxt < seg.hdr.seqNum ∧ c'.tcb.pendingReceivedFin = seg.hdr.seqNum := by
  have hm := h.moved
  generalize l.ev = ev at hm
  generalize l.out = o at hm
  cases hm with
  | segment hin hh =>
    cases hh with
    | received hr hack hd ha =>
      obtain ⟨st', r, e, rfl⟩ := hd.frame
      obtain ⟨snd, q, cwnd, b, rfl⟩ := ha.frame
      exact Or.inl rfl
    | synSent iss hs _ _ hc' =>
      subst hc'
      exact Or.inl rfl
    | fin hs hf =>
      simp only [TCB.receiveFin]
      split
      · exact Or.inl rfl
      · split
        · rename_i hgt
          exact Or.inr ⟨_, rfl, hf, hs, hgt, rfl⟩
        · exact Or.inl rfl
    | finWait2Fin hs hf _ hs' =>
      subst hs'
      exact Or.inl rfl
    | _ => exact Or.inl rfl
  | wrote hh hw =>
    obtain ⟨-, -, buffer, rfl, -⟩ := writeRound_wrote hw
    exact Or.inl rfl
  | read hr hh hin he | readWake hr he =>
    obtain ⟨n, -, rfl, -⟩ := he.consumed
    exact Or.inl rfl
  | send he =>
    generalize c.send = pc at he
    cases he <;> exact Or.inl rfl
  | closeWaits hc | closes hc => cases hc <;> exact Or.inl rfl
  | _ => exact Or.inl rfl

/-- Only the retransmission timer gives a connection up, and it closes it. -/
theorem Step.timeoutCancelled_cases (h : Step c l c') :
    c'.tcb.timeoutCancelled = c.tcb.timeoutCancelled ∨
      c'.tcb.timeoutCancelled = true ∧ c'.tcb.state = .closed := by
  have hm := h.moved
  generalize l.ev = ev at hm
  generalize l.out = o at hm
  cases hm with
  | segment hin hh =>
    refine Or.inl ?_
    cases hh with
    | received hr hack hd ha =>
      obtain ⟨st', r, e, rfl⟩ := hd.frame
      obtain ⟨snd, q, cwnd, b, rfl⟩ := ha.frame
      rfl
    | synSent iss hs _ _ hc' =>
      subst hc'
      rfl
    | fin hs hf =>
      simp only [TCB.receiveFin]
      split
      · rfl
      · split <;> rfl
    | finWait2Fin hs hf _ hs' =>
      subst hs'
      rfl
    | _ => rfl
  | wrote hh hw =>
    obtain ⟨-, -, buffer, rfl, -⟩ := writeRound_wrote hw
    exact Or.inl rfl
  | read hr hh hin he | readWake hr he =>
    obtain ⟨n, -, rfl, -⟩ := he.consumed
    exact Or.inl rfl
  | send he =>
    generalize c.send = pc at he
    cases he <;> exact Or.inl rfl
  | closeWaits hcl | closes hcl => cases hcl <;> exact Or.inl rfl
  | gaveUp => exact Or.inr ⟨rfl, rfl⟩
  | _ => exact Or.inl rfl

/-- A connection that was given up stays so. -/
theorem Step.timeoutCancelled (h : Step c l c') (hc : c.tcb.timeoutCancelled = true) :
    c'.tcb.timeoutCancelled = true := by
  rcases h.timeoutCancelled_cases with heq | ⟨heq, -⟩
  · rw [heq, hc]
  · exact heq

/-- Every step of the connection is a step of its state. -/
theorem Step.state (h : Step c l c') : StateMove c l.ev c'.tcb.state := by
  have hm := h.moved
  generalize l.ev = ev at hm
  generalize l.out = o at hm
  cases hm with
  | segment hin hh => exact hh.state
  | wrote hh hw =>
    obtain ⟨-, -, buffer, rfl, -⟩ := writeRound_wrote hw
    exact .same (by simp) (by simp)
  | read hr hh hin he | readWake hr he =>
    obtain ⟨n, -, rfl, -⟩ := he.consumed
    exact .same (by simp) (by simp)
  | send he =>
    generalize c.send = pc at he
    cases he <;> exact .same (by simp) (by simp)
  | closeWaits hc hne =>
    cases hc with
    | enter => exact .same (by simp) fun _ => hne
    | wake => exact .same (by simp) fun _ => hne
  | closes hc heq =>
    cases hc with
    | enter => exact .finSent (Or.inl rfl) heq
    | wake => exact .finSent (Or.inr rfl) heq
  | gaveUp => exact .gaveUp (Or.inl rfl)
  | handshakeGaveUp hev =>
    rcases hev with ⟨rfl, -⟩ | ⟨rfl, -⟩
    · exact .gaveUp (Or.inr (Or.inl rfl))
    · exact .gaveUp (Or.inr (Or.inr rfl))
  | handshakeResent hev =>
    rcases hev with ⟨rfl, -⟩ | ⟨rfl, -⟩
    · exact .same (by simp) (by simp)
    · exact .same (by simp) (by simp)
  | expired hw => exact .expired hw
  | notWritten | probe | closeReturn | timerStopped | timerIdle | resent | ackToken | enableCC
  | initCC => exact .same (by simp) (by simp)

/-- No step goes back to SYN_SENT. -/
theorem Step.synSent (h : Step c l c') (hst : c'.tcb.state = .synSent) :
    c.tcb.state = .synSent := by
  have hm := h.state
  generalize c'.tcb.state = st at hm hst
  generalize l.ev = ev at hm
  cases hm with
  | same => exact hst
  | finWait1Fin | finSent => split at hst <;> cases hst
  | _ => cases hst

/-- No step leads back into the handshake. -/
theorem Step.not_opening (h : Step c l c')
    (hc : c.tcb.state ≠ .synSent ∧ c.tcb.state ≠ .synReceived) :
    c'.tcb.state ≠ .synSent ∧ c'.tcb.state ≠ .synReceived := by
  have hm := h.state
  generalize l.ev = ev at hm
  generalize c'.tcb.state = st at hm
  cases hm with
  | same => exact hc
  | established hs => exact absurd hs (not_or.mpr hc)
  | synReceived hs => exact absurd hs hc.1
  | finWait1Fin | finSent => split <;> simp
  | _ => simp

end Refinement

end TcpIp
