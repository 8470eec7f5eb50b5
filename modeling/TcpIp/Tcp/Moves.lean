import TcpIp.Tcp.CallEffect

/-! Inversion of the machine: everything one step can do. -/
namespace TcpIp

/-- `ReceivePacket` hands the segment to `Receive`, which does not return at once. -/
def Conn.passesToReceive (c : Conn) (hdr : TCPFields) : Bool :=
  hdr.hasAck &&
    match c.tcb.state with
    | .established | .finWait2 => !hdr.hasFin
    | .finWait1 => hdr.ackNum == c.tcb.snd.nxt || !hdr.hasFin
    | _ => false

/-- A FIN takes a place in RCV.NXT, as it does in FIN_WAIT_1 and FIN_WAIT_2. -/
def Conn.countsFin (c : Conn) : Event → Bool
  | .segment seg =>
    seg.hdr.hasFin &&
      (c.tcb.state = .finWait1 && seg.hdr.hasAck && seg.hdr.ackNum ≠ c.tcb.snd.nxt ||
        c.tcb.state = .finWait2 && seg.hdr.seqNum = c.tcb.rcv.nxt)
  | _ => false

/-- The state in which `Receive` is called on a segment, where it is called at all. -/
inductive Receives (c : Conn) (hdr : TCPFields) : ConnectionState → Prop
  | established (hs : c.tcb.state = .established) (hf : hdr.hasFin = false) :
      Receives c hdr .established
  | finWait1 (hs : c.tcb.state = .finWait1) (ha : hdr.ackNum ≠ c.tcb.snd.nxt)
      (hf : hdr.hasFin = false) : Receives c hdr .finWait1
  | finAcked (hs : c.tcb.state = .finWait1) (ha : hdr.ackNum = c.tcb.snd.nxt) :
      Receives c hdr .finWait2
  | finWait2 (hs : c.tcb.state = .finWait2) (hf : hdr.hasFin = false) : Receives c hdr .finWait2

/-- What `ReceivePacket` can do to a connection. -/
inductive Handled (c : Conn) (seg : Segment) : Conn → List Msg → Prop
  | ignored (h : c.passesToReceive seg.hdr = false) (hf : c.countsFin (.segment seg) = false) :
      Handled c seg c []
  | synSent (iss : U32) (hs : c.tcb.state = .synSent) (hsyn : seg.hdr.hasSyn = true)
      (hack : seg.hdr.hasAck = true → ¬ (seg.hdr.ackNum ≤ c.tcb.snd.iss ∨
        seg.hdr.ackNum > c.tcb.snd.nxt)) {c' : Conn} {out : List Msg}
      (hc' : c' = { c with
        tcb := { c.tcb with
          state := if seg.hdr.ackNum > c.tcb.snd.iss then .established else .synReceived
          rcv := { c.tcb.rcv with
            nxt := seg.hdr.seqNum + 1
            lbr := seg.hdr.seqNum + 1
            irs := seg.hdr.seqNum }
          snd := { c.tcb.snd with
            wnd := seg.hdr.windowSize.setWidth 32
            una := seg.hdr.ackNum
            iss }
          retransmitCounter :=
            if seg.hdr.ackNum > c.tcb.snd.iss then 0 else c.tcb.retransmitCounter }
        connecting := if seg.hdr.ackNum > c.tcb.snd.iss then false else c.connecting
        send := if seg.hdr.ackNum > c.tcb.snd.iss then .top else c.send
        timer := if seg.hdr.ackNum > c.tcb.snd.iss then true else c.timer })
      (hout : ∀ m ∈ out, m.hdr.hasAck = true ∧ m.hdr.hasFin = false ∧ m.payload = [] ∧
        m.hdr.ackNum = c'.tcb.rcv.nxt) :
      Handled c seg c' out
  | synRepeated (hs : c.tcb.state = .synReceived) : Handled c seg c [c.synAckMsg .control]
  | accepted {out : List Msg} (hs : c.tcb.state = .synReceived)
      (hack : c.tcb.snd.una < seg.hdr.ackNum ∧ seg.hdr.ackNum ≤ c.tcb.snd.nxt)
      (hout : ∀ m ∈ out, m = c.synAckMsg .control) (hflag : seg.hdr.hasAck = true)
      (hpayload : ¬ seg.payload.length > 0) :
      Handled c seg { c with
        tcb := { c.tcb with
          state := .established
          snd := { c.tcb.snd with wnd := seg.hdr.windowSize.setWidth 32 } }
        send := if c.passive then .top else c.send
        timer := if c.passive then true else c.timer } out
  | received {st : ConnectionState} {u t : TCB} {o₁ o₂ : List Msg} (hr : Receives c seg.hdr st)
      (hack : seg.hdr.hasAck = true) (hd : DataEffect { c.tcb with state := st } c.key seg u o₁)
      (ha : AckEffect u c.key seg.hdr t o₂) : Handled c seg { c with tcb := t } (o₁ ++ o₂)
  | fin (hs : c.tcb.state = .established) (hf : seg.hdr.hasFin = true) :
      Handled c seg { c with tcb := (c.tcb.receiveFin c.key seg.hdr).1 }
        (c.tcb.receiveFin c.key seg.hdr).2
  | finWait1Fin (hs : c.tcb.state = .finWait1) (hack : seg.hdr.hasAck = true)
      (ha : seg.hdr.ackNum ≠ c.tcb.snd.nxt) (hf : seg.hdr.hasFin = true) :
      Handled c seg (c.finInFinWait1 seg.hdr).1 (c.finInFinWait1 seg.hdr).2
  | finWait2Fin {s : TCB} (hs : c.tcb.state = .finWait2) (hf : seg.hdr.hasFin = true)
      (hseq : seg.hdr.seqNum = c.tcb.rcv.nxt)
      (hs' : s = { c.tcb with
        state := .timeWait
        rcv := { c.tcb.rcv with nxt := c.tcb.rcv.nxt + 1 }
        resetWaitChan := true }) :
      Handled c seg { c with tcb := s, waitForClosed := c.waitForClosed + 1 }
        [s.ackMsg c.key s.rcv.nxt]
  | closingAcked (hs : c.tcb.state = .closing) (hack : seg.hdr.hasAck = true)
      (ha : seg.hdr.ackNum = c.tcb.snd.nxt) :
      Handled c seg { c with
        tcb := { c.tcb with state := .timeWait }
        waitForClosed := c.waitForClosed + 1 } []
  | finRepeated (hs : c.tcb.state = .timeWait ∨ c.tcb.state = .closeWait)
      (hf : seg.hdr.hasFin = true) : Handled c seg c [c.tcb.ackMsg c.key c.tcb.rcv.nxt]
  | lastAcked (k : ℕ) (hs : c.tcb.state = .lastAck) (ha : seg.hdr.ackNum = c.tcb.snd.nxt) :
      Handled c seg { c with
        tcb := { c.tcb with
          state := .closed
          retransmissionQueue :=
            c.tcb.retransmissionQueue.dropWhile fun r => r.tcpHeader.seqNum < seg.hdr.ackNum
          retransmitCounter := k }
        closedNotice := true } []

section Handled

variable {c c' : Conn} {env : Env} {seg : Segment} {out : List Msg} {st : ConnectionState}

theorem Receives.passes {hdr : TCPFields} {st : ConnectionState} (h : Receives c hdr st)
    (hack : hdr.hasAck = true) : c.passesToReceive hdr = true := by
  cases h with
  | established hs hf | finWait2 hs hf => simp [Conn.passesToReceive, hs, hf, hack]
  | finWait1 hs ha hf => simp [Conn.passesToReceive, hs, hf, hack]
  | finAcked hs ha => simp [Conn.passesToReceive, hs, ha, hack]

theorem handled_receive (hr : Receives c seg.hdr st)
    (h : ({ c with tcb := { c.tcb with state := st } } : Conn).receive env seg = some (c', out))
    (hno : seg.hdr.hasAck = false → st = c.tcb.state) : Handled c seg c' out := by
  obtain ⟨⟨t, o⟩, ht, hc⟩ := Option.map_eq_some_iff.mp h
  obtain ⟨rfl, rfl⟩ := Prod.mk.inj hc
  rcases receive_effect ht with ⟨hack, rfl, rfl⟩ | ⟨hack, u, o₁, o₂, hd, ha, rfl⟩
  · have hst := hno hack
    subst hst
    refine .ignored (by simp [Conn.passesToReceive, hack]) ?_
    generalize hs : c.tcb.state = st at hr
    cases hr with
    | established _ hf | finWait1 _ _ hf | finWait2 _ hf => simp [Conn.countsFin, hf]
    | finAcked hs' => simp [hs'] at hs
  · exact .received hr hack hd ha

theorem handled_receive_same (hr : Receives c seg.hdr c.tcb.state)
    (h : c.receive env seg = some (c', out)) : Handled c seg c' out :=
  handled_receive hr h fun _ => rfl

theorem handleStateSynSent_handled (hs : c.tcb.state = .synSent)
    (h : c.handleStateSynSent env seg.hdr = (c', out)) : Handled c seg c' out := by
  have hno : c.passesToReceive seg.hdr = false := by simp [Conn.passesToReceive, hs]
  have hfin : c.countsFin (.segment seg) = false := by simp [Conn.countsFin, hs]
  simp only [Conn.handleStateSynSent] at h
  split at h
  · obtain ⟨rfl, rfl⟩ := Prod.mk.inj h
    exact .ignored hno hfin
  rename_i hack
  split at h
  · rename_i hsyn
    have hack' : seg.hdr.hasAck = true → ¬ _ := fun h1 h2 => hack ⟨h1, h2⟩
    split at h
    · rename_i hgt
      obtain ⟨rfl, rfl⟩ := Prod.mk.inj h
      exact .synSent env.newISS hs hsyn hack' (by simp only [if_pos hgt])
        (by simp [TCPFields.hasAck, TCPFields.hasFin, tcpFlagAck, tcpFlagFin])
    · rename_i hgt
      obtain ⟨rfl, rfl⟩ := Prod.mk.inj h
      exact .synSent env.newISS hs hsyn hack' (by simp only [if_neg hgt])
        (by simp [Conn.synAckMsg, TCPFields.hasAck, TCPFields.hasFin, tcpFlagSyn, tcpFlagAck,
          tcpFlagFin])
  · obtain ⟨rfl, rfl⟩ := Prod.mk.inj h
    exact .ignored hno hfin

theorem handleStateSynReceived_handled (hs : c.tcb.state = .synReceived)
    (h : c.handleStateSynReceived env seg = some (c', out)) : Handled c seg c' out := by
  have hno : c.passesToReceive seg.hdr = false := by simp [Conn.passesToReceive, hs]
  have hfin : c.countsFin (.segment seg) = false := by simp [Conn.countsFin, hs]
  have hout : ∀ m ∈ (if seg.hdr.hasSyn then [c.synAckMsg .control] else []),
      m = c.synAckMsg .control := by
    intro m hm
    split at hm
    · simpa using hm
    · simp at hm
  have hsame : Handled c seg c (if seg.hdr.hasSyn then [c.synAckMsg .control] else []) := by
    split
    · exact .synRepeated hs
    · exact .ignored hno hfin
  unfold Conn.handleStateSynReceived at h
  split at h
  · obtain ⟨rfl, rfl⟩ := Prod.mk.inj (Option.some.inj h)
    exact .ignored hno hfin
  rename_i hpayload
  simp only at h
  split at h
  · rename_i hflag
    split at h
    · rename_i hack
      have haccepted := Handled.accepted hs hack hout hflag hpayload
      split at h
      · rename_i hp
        obtain ⟨rfl, rfl⟩ := Prod.mk.inj (Option.some.inj h)
        simpa only [if_neg hp] using haccepted
      rename_i hp
      split at h
      · obtain ⟨rfl, rfl⟩ := Prod.mk.inj (Option.some.inj h)
        simpa only [if_pos (not_not.mp hp)] using haccepted
      · cases h
    · obtain ⟨rfl, rfl⟩ := Prod.mk.inj (Option.some.inj h)
      exact hsame
  · obtain ⟨rfl, rfl⟩ := Prod.mk.inj (Option.some.inj h)
    exact hsame

theorem handleEstablished_handled (hs : c.tcb.state = .established)
    (h : c.handleEstablished env seg = some (c', out)) : Handled c seg c' out := by
  unfold Conn.handleEstablished at h
  split at h
  · rename_i hf
    obtain ⟨rfl, rfl⟩ := Prod.mk.inj (Option.some.inj h)
    exact .fin hs hf
  · rename_i hf
    exact handled_receive_same (hs ▸ .established hs (Bool.eq_false_of_not_eq_true hf)) h

theorem handleFinWait1_handled (hs : c.tcb.state = .finWait1)
    (h : c.handleFinWait1 env seg = some (c', out)) : Handled c seg c' out := by
  unfold Conn.handleFinWait1 at h
  split at h
  · rename_i hack
    split at h
    · rename_i ha
      exact handled_receive (.finAcked hs ha) h (by simp [hack])
    · rename_i ha
      split at h
      · rename_i hf
        obtain ⟨rfl, rfl⟩ := Prod.mk.inj (Option.some.inj h)
        exact .finWait1Fin hs hack ha hf
      · rename_i hf
        exact handled_receive_same (hs ▸ .finWait1 hs ha (Bool.eq_false_of_not_eq_true hf)) h
  · rename_i hack
    obtain ⟨rfl, rfl⟩ := Prod.mk.inj (Option.some.inj h)
    exact .ignored (by simp [Conn.passesToReceive, hack]) (by simp [Conn.countsFin, hs, hack])

theorem handleFinWait2_handled (hs : c.tcb.state = .finWait2)
    (h : c.handleFinWait2 env seg = some (c', out)) : Handled c seg c' out := by
  unfold Conn.handleFinWait2 at h
  split at h
  · rename_i hf
    split at h
    · rename_i hseq
      obtain ⟨rfl, rfl⟩ := Prod.mk.inj (Option.some.inj h)
      exact .ignored (by simp [Conn.passesToReceive, hs, hf]) (by simp [Conn.countsFin, hs, hseq])
    · rename_i hseq
      obtain ⟨rfl, rfl⟩ := Prod.mk.inj (Option.some.inj h)
      exact .finWait2Fin hs hf (not_not.mp hseq) rfl
  · rename_i hf
    exact handled_receive_same (hs ▸ .finWait2 hs (Bool.eq_false_of_not_eq_true hf)) h

theorem handleClosing_handled (hs : c.tcb.state = .closing)
    (h : c.handleClosing seg.hdr = (c', out)) : Handled c seg c' out := by
  unfold Conn.handleClosing at h
  split at h
  · rename_i ha
    obtain ⟨rfl, rfl⟩ := Prod.mk.inj h
    exact .closingAcked hs ha.1 ha.2
  · obtain ⟨rfl, rfl⟩ := Prod.mk.inj h
    exact .ignored (by simp [Conn.passesToReceive, hs]) (by simp [Conn.countsFin, hs])

theorem handleLastAck_handled (hs : c.tcb.state = .lastAck)
    (h : c.handleLastAck seg.hdr = (c', out)) : Handled c seg c' out := by
  unfold Conn.handleLastAck at h
  split at h
  · rename_i ha
    obtain ⟨k, hk⟩ :=
      ({ c.tcb with state := .closed } : TCB).removeFromRetransmissionQueue_eq seg.hdr.ackNum
    simp only [hk] at h
    obtain ⟨rfl, rfl⟩ := Prod.mk.inj h
    exact .lastAcked k hs ha.2
  · obtain ⟨rfl, rfl⟩ := Prod.mk.inj h
    exact .ignored (by simp [Conn.passesToReceive, hs]) (by simp [Conn.countsFin, hs])

/-- The answer to a repeated FIN is the same in TIME_WAIT and CLOSE_WAIT. -/
theorem repeatedFin_handled (hs : c.tcb.state = .timeWait ∨ c.tcb.state = .closeWait)
    (h : (if seg.hdr.hasFin then (c, [c.tcb.ackMsg c.key c.tcb.rcv.nxt]) else (c, [])) =
      (c', out)) : Handled c seg c' out := by
  split at h
  · rename_i hf
    obtain ⟨rfl, rfl⟩ := Prod.mk.inj h
    exact .finRepeated hs hf
  · obtain ⟨rfl, rfl⟩ := Prod.mk.inj h
    exact .ignored (by rcases hs with hs | hs <;> simp [Conn.passesToReceive, hs])
      (by rcases hs with hs | hs <;> simp [Conn.countsFin, hs])

theorem receivePacket_handled (h : c.receivePacket env seg = some (c', out)) :
    Handled c seg c' out := by
  unfold Conn.receivePacket at h
  split at h <;> rename_i hs
  · obtain ⟨rfl, rfl⟩ := Prod.mk.inj (Option.some.inj h)
    exact .ignored (by simp [Conn.passesToReceive, hs]) (by simp [Conn.countsFin, hs])
  · obtain ⟨rfl, rfl⟩ := Prod.mk.inj (Option.some.inj h)
    exact .ignored (by simp [Conn.passesToReceive, hs]) (by simp [Conn.countsFin, hs])
  · exact handleStateSynSent_handled hs (Option.some.inj h)
  · exact handleStateSynReceived_handled hs h
  · exact handleEstablished_handled hs h
  · exact handleFinWait1_handled hs h
  · exact handleFinWait2_handled hs h
  · exact handleClosing_handled hs (Option.some.inj h)
  · exact repeatedFin_handled (Or.inl hs) (Option.some.inj h)
  · exact repeatedFin_handled (Or.inr hs) (Option.some.inj h)
  · exact handleLastAck_handled hs (Option.some.inj h)

end Handled

/-- The call that stays open after an outcome. -/
def ReadOutcome.pending : ReadOutcome → Option ReadCall
  | .waiting call => some call
  | _ => none

/-- The outcome shown to the caller. -/
def ReadOutcome.shown : ReadOutcome → Option ReadOutcome
  | .waiting _ => none
  | o => some o

theorem applyRead_eq (c : Conn) (s : TCB) (o : ReadOutcome) :
    c.applyRead (s, o) = ({ c with tcb := s, reading := o.pending }, { read := o.shown }) := by
  cases o <;> rfl

/-- `Close` enters, or wakes from its wait. -/
inductive Closing (c : Conn) : Event → Conn → Prop
  | enter (hh : c.hasHandle = true) (hin : c.inTable = true) :
      Closing c .close { c with tcb := { c.tcb with pendingSendingFin := true } }
  | wake (hw : 0 < c.closeWaiting) :
      Closing c .closeWake { c with closeWaiting := c.closeWaiting - 1 }

/-- Everything a step can do. -/
inductive Moved (c : Conn) : Event → Output → Conn → Prop
  | segment {seg : Segment} {c' : Conn} {out : List Msg} (hin : c.inTable = true)
      (h : Handled c seg c' out) : Moved c (.segment seg) { msgs := out } c'
  | wrote {data : List U8} {s : TCB} {n : U32} (hh : c.hasHandle = true)
      (h : c.tcb.writeRound data = .wrote s n) : Moved c (.write data) {} { c with tcb := s }
  | notWritten {data : List U8} (h : c.tcb.written data = []) : Moved c (.write data) {} c
  | read {n : U32} {readAll : Bool} {s : TCB} {o : ReadOutcome} (hr : c.reading = none)
      (hh : c.hasHandle = true) (hin : c.inTable = true)
      (h : ReadEffect c.tcb { amountToRead := n, readAll } s o)
      (ht : c.tcb.timeoutCancelled = true → o = .failed) :
      Moved c (.read n readAll) { read := o.shown } { c with tcb := s, reading := o.pending }
  | readWake {call : ReadCall} {s : TCB} {o : ReadOutcome} (hr : c.reading = some call)
      (h : ReadEffect c.tcb call s o) :
      Moved c .readWake { read := o.shown } { c with tcb := s, reading := o.pending }
  | send {pc : SendPc} {s : TCB} {out : List Msg} (h : SendEffect c.tcb c.key c.send pc s out) :
      Moved c .send { msgs := out } { c with send := pc, tcb := s }
  | probe (hz : c.send = .zeroWait) : Moved c .probe { msgs := c.tcb.probe c.key } c
  | closeWaits {ev : Event} {c₁ : Conn} (hc : Closing c ev c₁)
      (hne : c₁.tcb.snd.nxt ≠ c₁.tcb.snd.lbw) :
      Moved c ev {} { c₁ with closeWaiting := c₁.closeWaiting + 1 }
  | closes {ev : Event} {c₁ : Conn} (hc : Closing c ev c₁)
      (heq : c₁.tcb.snd.nxt = c₁.tcb.snd.lbw) : Moved c ev { msgs := c₁.sendFin.2 } c₁.sendFin.1
  | closeReturn (h : c.closedNotice = true) :
      Moved c .closeReturn {}
        { c with inTable := false, closeSent := c.closeSent - 1, closedNotice := false }
  | timerStopped (ht : c.timer = true) (hs : c.tcb.state = .timeWait ∨ c.tcb.state = .closed) :
      Moved c .timeout {} { c with timer := false }
  | timerIdle (ht : c.timer = true) : Moved c .timeout {} c
  | gaveUp (ht : c.timer = true) :
      Moved c .timeout {}
        { c with
          tcb := { c.tcb with state := .closed, timeoutCancelled := true }
          timer := false
          inTable := false }
  | resent (b : Book) {p : RetransmitSegment} {rest : List RetransmitSegment} {cwnd : U32}
      (ht : c.timer = true) (hs : c.tcb.state ≠ .timeWait ∧ c.tcb.state ≠ .closed)
      (hq : c.tcb.retransmissionQueue = p :: rest)
      (hk : c.tcb.retransmitCounter ≠ maxRetransmissions)
      (hcwnd : cwnd = if c.tcb.cControlEnabled then initCwnd else c.tcb.cwnd) :
      Moved c .timeout { msgs := [c.tcb.resendMsg c.key p] }
        { c with tcb := { c.tcb with cwnd }.withBook b }
  | handshakeGaveUp {ev : Event}
      (h : ev = .connectTimeout ∧ c.connecting = true ∨ ev = .ackTimeout ∧ c.waitForAck = true) :
      Moved c ev {}
        { c with
          tcb := { c.tcb with state := .closed }
          inTable := false
          connecting := false
          waitForAck := false }
  | handshakeResent {ev : Event} {m : Msg}
      (h : ev = .connectTimeout ∧ c.connecting = true ∧ m = c.synMsg .resend ∨
        ev = .ackTimeout ∧ c.waitForAck = true ∧ m = c.synAckMsg .resend) :
      Moved c ev { msgs := [m] }
        { c with tcb := { c.tcb with retransmitCounter := c.tcb.retransmitCounter + 1 } }
  | ackToken (hh : c.hasHandle = true) :
      Moved c .ackToken {}
        { c with waitForAck := false, tcb := { c.tcb with retransmitCounter := 0 } }
  | expired (h : 0 < c.waitForClosed) :
      Moved c .expire {}
        { c with
          tcb := { c.tcb with state := .closed }
          waitForClosed := c.waitForClosed - 1
          closedNotice := true }
  | enableCC (hh : c.hasHandle = true) : Moved c .enableCC {} { c with tcb := c.tcb.enableCC }
  | initCC (h : c.tcb.cControlEnabled = true) : Moved c .initCC {} { c with tcb := c.tcb.initCC }

section Moved

variable {c c' : Conn} {env : Env} {out : Output} {ev : Event}

theorem read_effect (s : TCB) (n : U32) (readAll : Bool) :
    ReadEffect s { amountToRead := n, readAll } (s.read n readAll).1 (s.read n readAll).2 := by
  unfold TCB.read
  split
  · rename_i h
    exact ⟨⟨0, by bv_omega, s.readBy_zero.symm, fun _ => trivial⟩, by simp, fun _ => h⟩
  · split
    · rename_i h
      exact ⟨⟨0, by bv_omega, s.readBy_zero.symm, fun _ => trivial⟩, fun _ => Or.inl h.1, by simp⟩
    · exact readLoop_effect _

theorem closeStep_moved {c₁ : Conn} (hc : Closing c ev c₁) (h : c₁.closeStep = (c', out)) :
    Moved c ev out c' := by
  unfold Conn.closeStep at h
  split at h
  · rename_i hne
    obtain ⟨rfl, rfl⟩ := Prod.mk.inj h
    exact .closeWaits hc hne
  · rename_i heq
    obtain ⟨rfl, rfl⟩ := Prod.mk.inj h
    exact .closes hc (not_not.mp heq)

theorem applyTimeout_moved (ht : c.timer = true)
    (h : c.applyTimeout (c.tcb.waitTimeout c.key env.now) = (c', out)) :
    Moved c .timeout out c' := by
  generalize hr : c.tcb.waitTimeout c.key env.now = r at h
  have heff : TimeoutEffect c.tcb c.key r := hr ▸ waitTimeout_effect
  cases heff with
  | stop hs =>
    obtain ⟨rfl, rfl⟩ := Prod.mk.inj h
    exact .timerStopped ht hs
  | idle =>
    obtain ⟨rfl, rfl⟩ := Prod.mk.inj h
    exact .timerIdle ht
  | giveUp =>
    obtain ⟨rfl, rfl⟩ := Prod.mk.inj h
    exact .gaveUp ht
  | resent b hs hq hk hcwnd =>
    obtain ⟨rfl, rfl⟩ := Prod.mk.inj h
    exact .resent b ht hs hq hk hcwnd

theorem handshakeTimeout_moved {m : Msg}
    (hm : ev = .connectTimeout ∧ c.connecting = true ∧ m = c.synMsg .resend ∨
      ev = .ackTimeout ∧ c.waitForAck = true ∧ m = c.synAckMsg .resend)
    (h : c.handshakeTimeout m = (c', out)) : Moved c ev out c' := by
  unfold Conn.handshakeTimeout at h
  split at h
  · obtain ⟨rfl, rfl⟩ := Prod.mk.inj h
    exact .handshakeGaveUp (hm.imp (fun h => ⟨h.1, h.2.1⟩) fun h => ⟨h.1, h.2.1⟩)
  · obtain ⟨rfl, rfl⟩ := Prod.mk.inj h
    exact .handshakeResent hm

theorem step_moved (h : c.step env ev = some (c', out)) : Moved c ev out c' := by
  cases ev with
  | segment seg =>
    simp only [Conn.step] at h
    split at h
    · rename_i hin
      obtain ⟨⟨c₁, msgs⟩, hr, heq⟩ := Option.map_eq_some_iff.mp h
      obtain ⟨rfl, rfl⟩ := Prod.mk.inj heq
      exact .segment hin (receivePacket_handled hr)
    · cases h
  | write data =>
    simp only [Conn.step] at h
    split at h
    · rename_i hh
      split at h
      · rename_i hw
        obtain ⟨rfl, rfl⟩ := Prod.mk.inj (Option.some.inj h)
        exact .wrote hh hw
      · rename_i hw
        obtain ⟨rfl, rfl⟩ := Prod.mk.inj (Option.some.inj h)
        exact .notWritten (by simp [TCB.written, hw])
      · rename_i hw
        obtain ⟨rfl, rfl⟩ := Prod.mk.inj (Option.some.inj h)
        exact .notWritten (by simp [TCB.written, hw])
      · cases h
    · cases h
  | read n readAll =>
    simp only [Conn.step] at h
    split at h
    · rename_i hh
      rw [← Prod.eta (c.tcb.read n readAll), applyRead_eq] at h
      obtain ⟨rfl, rfl⟩ := Prod.mk.inj (Option.some.inj h)
      refine .read (Option.isNone_iff_eq_none.mp hh.2.2) hh.1 hh.2.1 (read_effect _ _ _) fun ht => ?_
      simp [TCB.read, ht]
    · cases h
  | readWake =>
    obtain ⟨call, hr, heq⟩ := Option.map_eq_some_iff.mp h
    rw [← Prod.eta (c.tcb.readRun call), applyRead_eq] at heq
    obtain ⟨rfl, rfl⟩ := Prod.mk.inj heq
    exact .readWake hr (readLoop_effect _)
  | send =>
    obtain ⟨rfl, rfl⟩ := Prod.mk.inj (Option.some.inj h)
    exact .send (sendStep_effect rfl)
  | probe =>
    simp only [Conn.step] at h
    split at h
    · rename_i hz
      obtain ⟨rfl, rfl⟩ := Prod.mk.inj (Option.some.inj h)
      exact .probe hz
    · cases h
  | close =>
    simp only [Conn.step] at h
    split at h
    · rename_i hh
      exact closeStep_moved (.enter hh.1 hh.2) (Option.some.inj h)
    · cases h
  | closeWake =>
    simp only [Conn.step] at h
    split at h
    · rename_i hw
      exact closeStep_moved (.wake hw) (Option.some.inj h)
    · cases h
  | closeReturn =>
    simp only [Conn.step] at h
    split at h
    · rename_i hh
      obtain ⟨rfl, rfl⟩ := Prod.mk.inj (Option.some.inj h)
      exact .closeReturn hh.2
    · cases h
  | timeout =>
    simp only [Conn.step] at h
    split at h
    · rename_i ht
      exact applyTimeout_moved ht (Option.some.inj h)
    · cases h
  | connectTimeout =>
    simp only [Conn.step] at h
    split at h
    · rename_i hc
      exact handshakeTimeout_moved (Or.inl ⟨rfl, hc, rfl⟩) (Option.some.inj h)
    · cases h
  | ackTimeout =>
    simp only [Conn.step] at h
    split at h
    · rename_i hc
      exact handshakeTimeout_moved (Or.inr ⟨rfl, hc, rfl⟩) (Option.some.inj h)
    · cases h
  | ackToken =>
    simp only [Conn.step] at h
    split at h
    · rename_i hh
      obtain ⟨rfl, rfl⟩ := Prod.mk.inj (Option.some.inj h)
      exact .ackToken hh.2
    · cases h
  | expire =>
    simp only [Conn.step] at h
    split at h
    · rename_i hw
      obtain ⟨rfl, rfl⟩ := Prod.mk.inj (Option.some.inj h)
      exact .expired hw
    · cases h
  | enableCC =>
    simp only [Conn.step] at h
    split at h
    · rename_i hh
      obtain ⟨rfl, rfl⟩ := Prod.mk.inj (Option.some.inj h)
      exact .enableCC hh.1
    · cases h
  | initCC =>
    simp only [Conn.step] at h
    split at h
    · rename_i hcc
      obtain ⟨rfl, rfl⟩ := Prod.mk.inj (Option.some.inj h)
      exact .initCC hcc
    · cases h

/-- The inversion lemma of the machine. -/
theorem Step.moved {l : Label} (h : Step c l c') : Moved c l.ev l.out c' := by
  obtain ⟨env, henv⟩ := h
  exact step_moved henv

theorem Step.handled {l : Label} {seg : Segment} (h : Step c l c') (hev : l.ev = .segment seg) :
    Handled c seg c' l.out.msgs := by
  obtain ⟨env, henv⟩ := h
  simp only [hev, Conn.step] at henv
  split at henv
  · obtain ⟨r, hr, heq⟩ := Option.map_eq_some_iff.mp henv
    obtain ⟨rfl, hout⟩ := Prod.mk.inj heq
    rw [← hout]
    exact receivePacket_handled hr
  · cases henv

end Moved

end TcpIp
