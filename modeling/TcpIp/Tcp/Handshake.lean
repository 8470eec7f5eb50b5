import TcpIp.Tcp.Moves

/-! The handshake steps of a connection on which nothing is written or closed. -/
namespace TcpIp

/-- No data and no FIN, neither from the application nor in a segment. -/
def Event.quiet : Event → Bool
  | .write _ | .close => false
  | .segment seg => seg.payload.isEmpty && !seg.hdr.hasFin
  | _ => true

/-- There is nothing to send, and nothing to close. -/
structure Idle (c : Conn) : Prop where
  state : c.tcb.state = .synSent ∨ c.tcb.state = .synReceived ∨ c.tcb.state = .established ∨
    c.tcb.state = .closed
  lbw : c.tcb.snd.nxt = c.tcb.snd.lbw
  queue : c.tcb.retransmissionQueue = []
  transmit : ∀ a b, c.send ≠ .transmit a b
  zeroWait : c.send ≠ .zeroWait
  closeWaiting : c.closeWaiting = 0
  waitForClosed : c.waitForClosed = 0
  closedNotice : c.closedNotice = false

/-- What the handshake knows of the peer, and how it was opened. -/
structure SameOpening (c c' : Conn) : Prop where
  passive : c'.passive = c.passive
  waitForAck : c'.waitForAck = true → c.waitForAck = true
  connecting : c'.connecting = true → c.connecting = true
  iss : c'.tcb.snd.iss = c.tcb.snd.iss
  irs : c'.tcb.rcv.irs = c.tcb.rcv.irs
  nxt : c'.tcb.rcv.nxt = c.tcb.rcv.nxt

theorem SameOpening.not_waiting {c c' : Conn} (h : SameOpening c c') (hw : c.waitForAck = false) :
    c'.waitForAck = false := by
  by_contra hw'
  simp [h.waitForAck (Bool.eq_true_of_not_eq_false hw')] at hw

/-- What a step can do on an idle connection. -/
inductive HandshakeMove (c : Conn) : Event → List Msg → Conn → Prop
  | still {ev : Event} {c' : Conn} (h : SameOpening c c') (hstate : c'.tcb.state = c.tcb.state)
      (hsnd : c.tcb.state ≠ .established → c'.tcb.snd = c.tcb.snd) : HandshakeMove c ev [] c'
  | gaveUp {ev : Event} {c' : Conn} (h : SameOpening c c') (hstate : c'.tcb.state = .closed) :
      HandshakeMove c ev [] c'
  | resent {ev : Event} {m : Msg} {c' : Conn}
      (hm : ev = .connectTimeout ∧ c.connecting = true ∧ m = c.synMsg .resend ∨
        ev = .ackTimeout ∧ c.waitForAck = true ∧ m = c.synAckMsg .resend)
      (h : SameOpening c c') (hstate : c'.tcb.state = c.tcb.state)
      (hsnd : c'.tcb.snd = c.tcb.snd) : HandshakeMove c ev [m] c'
  | repeated {seg : Segment} (hs : c.tcb.state = .synReceived) :
      HandshakeMove c (.segment seg) [c.synAckMsg .control] c
  /-- the SYN of the peer, alone or with the ACK of the own one -/
  | connected {seg : Segment} {c' : Conn} {out : List Msg} (hs : c.tcb.state = .synSent)
      (hack : seg.hdr.hasAck = true → c.tcb.snd.iss < seg.hdr.ackNum)
      (hstate : c'.tcb.state =
        if c.tcb.snd.iss < seg.hdr.ackNum then .established else .synReceived)
      (hpassive : c'.passive = c.passive) (hwait : c'.waitForAck = c.waitForAck)
      (hirs : c'.tcb.rcv.irs = seg.hdr.seqNum) (hnxt : c'.tcb.rcv.nxt = seg.hdr.seqNum + 1)
      (hout : ∀ m ∈ out, m.hdr.hasAck = true ∧ m.hdr.hasFin = false ∧ m.payload = [] ∧
        m.hdr.ackNum = c'.tcb.rcv.nxt) : HandshakeMove c (.segment seg) out c'
  | accepted {seg : Segment} {c' : Conn} {out : List Msg} (hs : c.tcb.state = .synReceived)
      (hack : c.tcb.snd.una < seg.hdr.ackNum ∧ seg.hdr.ackNum ≤ c.tcb.snd.nxt)
      (h : SameOpening c c') (hstate : c'.tcb.state = .established)
      (hout : ∀ m ∈ out, m = c.synAckMsg .control) : HandshakeMove c (.segment seg) out c'

section Idle

variable {c c' : Conn} {seg : Segment} {out : List Msg} {l : Label}

/-- What leaves the sequence numbers and the way of opening alone. -/
theorem still_of_same {ev : Event} (hstate : c'.tcb.state = c.tcb.state)
    (hsnd : c'.tcb.snd = c.tcb.snd) (hirs : c'.tcb.rcv.irs = c.tcb.rcv.irs)
    (hnxt : c'.tcb.rcv.nxt = c.tcb.rcv.nxt) (hp : c'.passive = c.passive)
    (hw : c'.waitForAck = true → c.waitForAck = true)
    (hc : c'.connecting = true → c.connecting = true) : HandshakeMove c ev [] c' :=
  .still ⟨hp, hw, hc, by rw [hsnd], hirs, hnxt⟩ hstate fun _ => hsnd

theorem Idle.handled (hi : Idle c) (h : Handled c seg c' out)
    (hp : seg.payload = []) (hfin : seg.hdr.hasFin = false) :
    Idle c' ∧ HandshakeMove c (.segment seg) out c' := by
  have hstate := hi.state
  cases h with
  | ignored => exact ⟨hi, still_of_same rfl rfl rfl rfl rfl id id⟩
  | synSent iss hs hsyn hrange hc' hout =>
    subst hc'
    refine ⟨?_, .connected hs (fun h => ?_) rfl rfl rfl rfl rfl hout⟩
    · constructor
      case state => simp only; split <;> simp
      case transmit => simp only; split <;> simp [hi.transmit]
      case zeroWait => simp only; split <;> simp [hi.zeroWait]
      exacts [hi.lbw, hi.queue, hi.closeWaiting, hi.waitForClosed, hi.closedNotice]
    · have := hrange h
      bv_omega
  | synRepeated hs => exact ⟨hi, .repeated hs⟩
  | accepted hs hack hout =>
    refine ⟨{ hi with state := by simp, transmit := ?_, zeroWait := ?_ },
      .accepted hs hack ⟨rfl, id, id, rfl, rfl, rfl⟩ rfl hout⟩
    · simp only; split <;> simp [hi.transmit]
    · simp only; split <;> simp [hi.zeroWait]
  | received hr hack hd ha =>
    cases hr with
    | established hs =>
      cases hd with
      | empty =>
        cases ha with
        | dropped b =>
          exact ⟨{ hi with state := by simp },
            .still ⟨rfl, id, id, rfl, rfl, rfl⟩ hs.symm fun hne => absurd hs hne⟩
        | fast b h hcc hq =>
          have hq' : c.tcb.retransmissionQueue = _ :: _ := hq
          simp [hi.queue] at hq'
        | accepted b h =>
          refine ⟨{ hi with state := by simp, queue := ?_ },
            .still ⟨rfl, id, id, rfl, rfl, rfl⟩ hs.symm fun hne => absurd hs hne⟩
          simp [hi.queue]
      | refused hpos | inOrder hpos | early hpos => simp [hp] at hpos
    | finWait1 hs | finAcked hs | finWait2 hs => simp [hs] at hstate
  | fin hs hf | finWait1Fin _ _ _ hf | finWait2Fin _ hf | finRepeated _ hf => simp [hf] at hfin
  | closingAcked hs | lastAcked k hs => simp [hs] at hstate

theorem Idle.jump (hi : Idle c) {pc : SendPc} (h : Jump c.tcb c.send pc) :
    (∀ a b, pc ≠ .transmit a b) ∧ pc ≠ .zeroWait := by
  generalize hpc : c.send = pc₀ at h
  cases h with
  | idle => exact ⟨hpc ▸ hi.transmit, hpc ▸ hi.zeroWait⟩
  | transmit hdata => exact absurd hi.lbw hdata
  | zeroWait hw hdata => exact absurd hi.lbw (by bv_omega)
  | _ => simp

/-- The inversion lemma of the handshake. -/
theorem Idle.step (hi : Idle c) (h : Step c l c') (hq : l.ev.quiet = true) :
    Idle c' ∧ HandshakeMove c l.ev l.out.msgs c' := by
  have hm := h.moved
  generalize l.ev = ev at hm hq
  generalize l.out = o at hm
  cases hm with
  | segment hin hh =>
    simp only [Event.quiet, Bool.and_eq_true, List.isEmpty_iff, Bool.not_eq_true'] at hq
    exact hi.handled hh hq.1 hq.2
  | wrote => simp [Event.quiet] at hq
  | closeWaits hc | closes hc =>
    cases hc with
    | enter => simp [Event.quiet] at hq
    | wake hw => simp [hi.closeWaiting] at hw
  | read hr hh hin he | readWake hr he =>
    obtain ⟨n, -, rfl, -⟩ := he.consumed
    exact ⟨{ hi with }, still_of_same rfl rfl rfl rfl rfl id id⟩
  | send he =>
    generalize hpc : c.send = pc at he
    cases he with
    | jump hj =>
      obtain ⟨ht, hz⟩ := hi.jump (hpc ▸ hj)
      exact ⟨{ hi with transmit := ht, zeroWait := hz }, still_of_same rfl rfl rfl rfl rfl id id⟩
    | segment => exact absurd hpc (hi.transmit _ _)
    | zeroExit => exact absurd hpc hi.zeroWait
  | probe hz => exact absurd hz hi.zeroWait
  | resent b ht hs hq' => simp [hi.queue] at hq'
  | closeReturn hn => simp [hi.closedNotice] at hn
  | expired hw => simp [hi.waitForClosed] at hw
  | gaveUp => exact ⟨{ hi with state := by simp }, .gaveUp ⟨rfl, id, id, rfl, rfl, rfl⟩ rfl⟩
  | handshakeGaveUp =>
    exact ⟨{ hi with state := by simp }, .gaveUp ⟨rfl, by simp, by simp, rfl, rfl, rfl⟩ rfl⟩
  | handshakeResent hev =>
    exact ⟨{ hi with }, .resent hev ⟨rfl, id, id, rfl, rfl, rfl⟩ rfl rfl⟩
  | ackToken => exact ⟨{ hi with }, still_of_same rfl rfl rfl rfl rfl (by simp) id⟩
  | timerStopped | enableCC | initCC =>
    exact ⟨{ hi with }, still_of_same rfl rfl rfl rfl rfl id id⟩
  | notWritten | timerIdle => exact ⟨hi, still_of_same rfl rfl rfl rfl rfl id id⟩

theorem idle_connect (key : SocketData) (iss : U32) : Idle (Conn.connect key iss) := by
  constructor <;> simp [Conn.connect]

theorem idle_handleStateListen (localAddr : U32) (key : SocketData) (iss : U32)
    (hdr : TCPFields) : Idle (Conn.handleStateListen localAddr key iss hdr) := by
  constructor <;> simp [Conn.handleStateListen]

end Idle

end TcpIp
