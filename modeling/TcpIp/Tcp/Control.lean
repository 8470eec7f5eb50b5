import TcpIp.Tcp.Sender

/-! What a step does to the fields of congestion control and to RTO. -/
namespace TcpIp

/-- The fields of congestion control, and RTO. -/
structure Control where
  cwnd : U32
  ssthresh : U32
  enabled : Bool
  currentAck : U32
  currentAckFreq : ℕ
  rto : Int64

def TCB.control (s : TCB) : Control where
  cwnd := s.cwnd
  ssthresh := s.ssthresh
  enabled := s.cControlEnabled
  currentAck := s.currentAck
  currentAckFreq := s.currentAckFreq
  rto := s.rto

/-- The segment calls `fastRetransmit`. -/
def Conn.fastRetransmits (c : Conn) (hdr : TCPFields) : Bool :=
  c.passesToReceive hdr && c.tcb.thirdDuplicate hdr

/-- RTO is doubled: the timer resends, or a third duplicate comes. -/
def Conn.backsOff (c : Conn) : Event → Bool
  | .segment seg => c.fastRetransmits seg.hdr
  | .timeout =>
    !c.tcb.retransmissionQueue.isEmpty && c.tcb.state ≠ .timeWait && c.tcb.state ≠ .closed &&
      c.tcb.retransmitCounter ≠ maxRetransmissions
  | _ => false

/-- The acknowledgement is taken and `updateTimeout` finds its timestamp. -/
def Conn.samples (c : Conn) : Event → Bool
  | .segment seg =>
    c.takesAck seg.hdr && (c.tcb.segmentToTimestamp seg.hdr.ackNum).isSome
  | _ => false

/-- What a step can do to these fields. -/
inductive ControlMove (c : Conn) : Event → Control → Prop
  | same {ev : Event} (hseg : ∀ seg, ev = .segment seg → c.passesToReceive seg.hdr = false)
      (hb : c.backsOff ev = false) : ControlMove c ev c.tcb.control
  | dropped {seg : Segment} (hp : c.passesToReceive seg.hdr = true)
      (hf : c.tcb.thirdDuplicate seg.hdr = false) (ha : c.takesAck seg.hdr = false) :
      ControlMove c (.segment seg)
        { c.tcb.control with
          currentAckFreq :=
            if c.tcb.cControlEnabled ∧ seg.hdr.ackNum = c.tcb.currentAck then
              c.tcb.currentAckFreq + 1
            else c.tcb.currentAckFreq }
  | acked {seg : Segment} {rto : Int64} (ha : c.takesAck seg.hdr = true)
      (hrto : c.samples (.segment seg) = false → rto = c.tcb.rto) :
      ControlMove c (.segment seg)
        { c.tcb.control with
          cwnd := c.ackedCwnd
          currentAck := if c.tcb.cControlEnabled then seg.hdr.ackNum else c.tcb.currentAck
          currentAckFreq := if c.tcb.cControlEnabled then 1 else c.tcb.currentAckFreq
          rto }
  | fast {seg : Segment} (h : c.fastRetransmits seg.hdr = true) :
      ControlMove c (.segment seg)
        { c.tcb.control with
          cwnd := initCwnd
          ssthresh := c.tcb.cwnd / 2
          currentAckFreq := 0
          rto := c.tcb.rto * 2 }
  | timedOut (h : c.backsOff .timeout = true) :
      ControlMove c .timeout
        { c.tcb.control with
          cwnd := if c.tcb.cControlEnabled then initCwnd else c.tcb.cwnd
          ssthresh := if c.tcb.cControlEnabled then c.tcb.cwnd / 2 else c.tcb.ssthresh
          rto := c.tcb.rto * 2 }
  | enableCC : ControlMove c .enableCC { c.tcb.control with enabled := true }
  | initCC (h : c.tcb.cControlEnabled = true) :
      ControlMove c .initCC { c.tcb.control with cwnd := initCwnd, ssthresh := initThreshold }

section Receive

variable {c c' : Conn} {env : Env} {seg : Segment} {out : List Msg} {l : Label}

/-- The data half of `Receive` sends acknowledgements only. -/
theorem DataEffect.origin {s u : TCB} {key : SocketData} {m : Msg}
    (h : DataEffect s key seg u out) (hm : m ∈ out) : m.origin = .ack := by
  cases h with
  | empty => simp at hm
  | refused => rw [List.mem_singleton.mp hm]; rfl
  | inOrder | early =>
    rw [TCB.ackData_eq] at hm
    rw [List.mem_singleton.mp hm]
    rfl

/-- On a segment that passes to it, `Receive` runs its acknowledgement half on a TCB whose
sending half is still the old one. -/
theorem receive_acks {s t : TCB} {key : SocketData} {now : Int64} {o : List Msg}
    (hack : seg.hdr.hasAck = true) (h : s.receive key now seg = some (t, o)) :
    ∃ st r e o₁ o₂,
      ({ s with state := st, rcv := r, earlyArrivals := e } : TCB).receiveAck key now seg.hdr =
        (t, o₂) ∧ (∀ m ∈ o₁, m.origin = .ack) ∧ o = o₁ ++ o₂ := by
  rw [TCB.receive, if_pos hack] at h
  obtain ⟨⟨u, o₁⟩, hd, ha⟩ := Option.map_eq_some_iff.mp h
  obtain ⟨rfl, rfl⟩ := Prod.mk.inj ha
  have he := receiveData_effect hd
  obtain ⟨st, r, e, rfl⟩ := he.frame
  exact ⟨st, r, e, o₁, _, rfl, fun m hm => he.origin hm, rfl⟩

theorem receivePacket_receive (hp : c.passesToReceive seg.hdr = true)
    (h : c.receivePacket env seg = some (c', out)) :
    ∃ st, ({ c with tcb := { c.tcb with state := st } } : Conn).receive env seg =
      some (c', out) := by
  simp only [Conn.passesToReceive, Bool.and_eq_true] at hp
  obtain ⟨hack, hp⟩ := hp
  unfold Conn.receivePacket at h
  cases hs : c.tcb.state with
  | established =>
    simp only [hs, Bool.not_eq_true'] at hp h
    exact ⟨c.tcb.state, by simpa [Conn.handleEstablished, hp] using h⟩
  | finWait2 =>
    simp only [hs, Bool.not_eq_true'] at hp h
    exact ⟨c.tcb.state, by simpa [Conn.handleFinWait2, hp] using h⟩
  | finWait1 =>
    simp only [hs, Bool.or_eq_true, beq_iff_eq, Bool.not_eq_true'] at hp h
    by_cases ha : seg.hdr.ackNum = c.tcb.snd.nxt
    · exact ⟨.finWait2, by simpa [Conn.handleFinWait1, hack, ha] using h⟩
    · have hfin := hp.resolve_left ha
      exact ⟨c.tcb.state, by simpa [Conn.handleFinWait1, hack, ha, hfin] using h⟩
  | closed | listen | synSent | synReceived | closeWait | closing | timeWait | lastAck =>
    simp [hs] at hp

/-- The acknowledgement half of `Receive`, on a segment that gets there. -/
theorem step_acks {o : Output} (h : c.step env (.segment seg) = some (c', o))
    (hp : c.passesToReceive seg.hdr = true) :
    ∃ u o₁ o₂, (∃ st r e, u = { c.tcb with state := st, rcv := r, earlyArrivals := e }) ∧
      u.receiveAck c.key env.now seg.hdr = (c'.tcb, o₂) ∧ (∀ m ∈ o₁, m.origin = .ack) ∧
      o.msgs = o₁ ++ o₂ := by
  have hack : seg.hdr.hasAck = true := by
    simp only [Conn.passesToReceive, Bool.and_eq_true] at hp
    exact hp.1
  simp only [Conn.step] at h
  split at h
  · obtain ⟨⟨c₁, msgs⟩, hr, heq⟩ := Option.map_eq_some_iff.mp h
    obtain ⟨rfl, rfl⟩ := Prod.mk.inj heq
    obtain ⟨st, hrecv⟩ := receivePacket_receive hp hr
    obtain ⟨⟨t, o⟩, ht, hc⟩ := Option.map_eq_some_iff.mp hrecv
    obtain ⟨rfl, rfl⟩ := Prod.mk.inj hc
    obtain ⟨st', r', e, o₁, o₂, hacks, horigin, ho⟩ := receive_acks hack ht
    exact ⟨_, o₁, o₂, ⟨st', r', e, rfl⟩, hacks, horigin, ho⟩
  · cases h

end Receive

section Control

variable {c c' : Conn} {seg : Segment} {out : List Msg} {l : Label}

theorem updateTimeout_control (s : TCB) (now : Int64) (n : U32) :
    ∃ rto, (s.updateTimeout now n).control = { s.control with rto } ∧
      ((s.segmentToTimestamp n).isSome = false → rto = s.rto) := by
  unfold TCB.updateTimeout
  cases h : s.segmentToTimestamp n with
  | none => exact ⟨s.rto, rfl, fun _ => rfl⟩
  | some sent => exact ⟨_, rfl, by simp⟩

theorem acceptAck_control (s : TCB) (now : Int64) (hdr : TCPFields) :
    ∃ rto,
      (s.acceptAck now hdr).control =
        { s.control with
          cwnd := if s.cControlEnabled then s.grownCwnd else s.cwnd
          currentAck := if s.cControlEnabled then hdr.ackNum else s.currentAck
          currentAckFreq := if s.cControlEnabled then 1 else s.currentAckFreq
          rto } ∧
      ((s.segmentToTimestamp hdr.ackNum).isSome = false → rto = s.rto) := by
  obtain ⟨k, hk⟩ := acceptAck_split s now hdr
  rw [hk]
  exact updateTimeout_control _ _ _

theorem sendStep_control (s : TCB) (key : SocketData) (now : Int64) (pc : SendPc) :
    (s.sendStep key now pc).2.1.control = s.control := by
  cases pc with
  | notStarted | returned | top | waitData1 | waitData2 | windowWait => rfl
  | transmit a b =>
    simp only [TCB.sendStep, TCB.sendSegment]
    split
    · split <;> rfl
    · rfl
  | zeroWait =>
    simp only [TCB.sendStep]
    split
    · rfl
    · split <;> rfl

theorem receiveFin_control (s : TCB) (key : SocketData) (hdr : TCPFields) :
    (s.receiveFin key hdr).1.control = s.control := by
  unfold TCB.receiveFin
  split
  · rfl
  · split <;> rfl

/-- A segment that does not get to `Receive` changes none of these fields. -/
theorem Handled.control (h : Handled c seg c' out) (hp : c.passesToReceive seg.hdr = false) :
    c'.tcb.control = c.tcb.control := by
  cases h with
  | received hr hack => simp [hr.passes hack] at hp
  | fin => exact receiveFin_control _ _ _
  | synSent iss hs hsyn hack hc' => rw [hc']; rfl
  | finWait2Fin hs hf hseq hs' => rw [hs']; rfl
  | ignored | synRepeated | accepted | finWait1Fin | closingAcked | finRepeated | lastAcked => rfl

section ReceiveAck

variable {s : TCB} {hdr : TCPFields}

theorem receiveAck_fast (key : SocketData) (now : Int64) (h : s.thirdDuplicate hdr = true) :
    (s.receiveAck key now hdr).1.control = { s.control with
      cwnd := initCwnd, ssthresh := s.cwnd / 2, currentAckFreq := 0, rto := s.rto * 2 } := by
  have hthird := h
  simp only [TCB.thirdDuplicate, decide_eq_true_eq] at hthird
  obtain ⟨p, rest, hq⟩ := List.exists_cons_of_length_pos hthird.2.2.2
  simp only [TCB.receiveAck, if_pos h, TCB.fastRetransmit, hq]
  rfl

theorem receiveAck_dropped (key : SocketData) (now : Int64)
    (hf : s.thirdDuplicate hdr = false) (ha : s.acceptsAck hdr = false) :
    (s.receiveAck key now hdr).1.control = { s.control with
      currentAckFreq :=
        if s.cControlEnabled ∧ hdr.ackNum = s.currentAck then s.currentAckFreq + 1
        else s.currentAckFreq } := by
  have hd : s.ackDropped hdr = true := by simpa [TCB.acceptsAck, hf] using ha
  rw [receiveAck_of_not_third hf, if_pos hd]
  unfold TCB.countDuplicate
  split <;> rfl

theorem receiveAck_accepted (key : SocketData) (now : Int64) (ha : s.acceptsAck hdr = true) :
    ∃ rto,
      (s.receiveAck key now hdr).1.control = { s.control with
        cwnd := if s.cControlEnabled then s.grownCwnd else s.cwnd
        currentAck := if s.cControlEnabled then hdr.ackNum else s.currentAck
        currentAckFreq := if s.cControlEnabled then 1 else s.currentAckFreq
        rto } ∧
      ((s.segmentToTimestamp hdr.ackNum).isSome = false → rto = s.rto) := by
  have hand := ha
  simp only [TCB.acceptsAck, Bool.and_eq_true, Bool.not_eq_true'] at hand
  obtain ⟨hf, hd⟩ := hand
  rw [receiveAck_of_not_third hf, if_neg (by simp [hd])]
  unfold TCB.countDuplicate
  split
  · rename_i hcc
    -- the count this acknowledgement added is overwritten, for congestion control is on
    obtain ⟨rto, heq, hrto⟩ :=
      acceptAck_control { s with currentAckFreq := s.currentAckFreq + 1 } now hdr
    refine ⟨rto, heq.trans ?_, hrto⟩
    simp only [if_pos hcc.1]
    rfl
  · exact acceptAck_control s now hdr

end ReceiveAck

theorem Step.control_of_passes (h : Step c l c') (hev : l.ev = .segment seg)
    (hp : c.passesToReceive seg.hdr = true) : ControlMove c (.segment seg) c'.tcb.control := by
  obtain ⟨env, henv⟩ := h
  rw [hev] at henv
  obtain ⟨u, o₁, o₂, ⟨st, r, e, hu⟩, hack, -⟩ := step_acks henv hp
  have hthird : u.thirdDuplicate seg.hdr = c.tcb.thirdDuplicate seg.hdr := by
    rw [hu]
    rfl
  have hacc : u.acceptsAck seg.hdr = c.tcb.acceptsAck seg.hdr := by
    rw [hu]
    rfl
  have ht : (u.receiveAck c.key env.now seg.hdr).1 = c'.tcb := by rw [hack]
  rw [← ht]
  cases hf : c.tcb.thirdDuplicate seg.hdr with
  | true =>
    rw [receiveAck_fast c.key env.now (hthird.trans hf), hu]
    exact .fast (by simp [Conn.fastRetransmits, hp, hf])
  | false =>
    cases ha : c.tcb.acceptsAck seg.hdr with
    | true =>
      have htakes : c.takesAck seg.hdr = true := by simp [Conn.takesAck, hp, ha]
      obtain ⟨rto, heq, hrto⟩ := receiveAck_accepted c.key env.now (hacc.trans ha)
      rw [heq]
      subst hu
      exact .acked htakes fun hs => hrto (by simpa [Conn.samples, htakes] using hs)
    | false =>
      rw [receiveAck_dropped c.key env.now (hthird.trans hf) (hacc.trans ha), hu]
      exact .dropped hp hf (by simp [Conn.takesAck, ha])

theorem Step.control_of_timeout (h : Step c l c') (hev : l.ev = .timeout) :
    ControlMove c .timeout c'.tcb.control := by
  obtain ⟨env, henv⟩ := h
  simp only [hev, Conn.step] at henv
  split at henv
  · have hst := Option.some.inj henv
    unfold TCB.waitTimeout at hst
    split at hst
    · rename_i hs
      obtain ⟨rfl, -⟩ := Prod.mk.inj hst
      exact .same (by simp) (by rcases hs with hs | hs <;> simp [Conn.backsOff, hs])
    rename_i hs
    split at hst
    · rename_i hq
      obtain ⟨rfl, -⟩ := Prod.mk.inj hst
      exact .same (by simp) (by simp [Conn.backsOff, hq])
    rename_i p rest hq
    split at hst
    · rename_i hk
      obtain ⟨rfl, -⟩ := Prod.mk.inj hst
      exact .same (by simp) (by simp [Conn.backsOff, hk])
    · rename_i hk
      have hb : c.backsOff .timeout = true := by
        simpa [Conn.backsOff, hq, hk] using not_or.mp hs
      obtain ⟨rfl, -⟩ := Prod.mk.inj hst
      have hmove := ControlMove.timedOut hb
      by_cases hcc : c.tcb.cControlEnabled = true
      · simp only [if_pos hcc] at hmove ⊢
        exact hmove
      · simp only [if_neg hcc] at hmove ⊢
        exact hmove
  · cases henv

/-- The inversion lemma for these fields. -/
theorem Step.control (h : Step c l c') : ControlMove c l.ev c'.tcb.control := by
  have hm := h.moved
  generalize hev : l.ev = ev at hm
  generalize l.out = o at hm
  have same (hseg : ∀ seg, ev ≠ .segment seg) (hne : ev ≠ .timeout) :
      ControlMove c ev c.tcb.control := by
    refine .same (fun seg hs => absurd hs (hseg seg)) ?_
    cases ev with
    | segment seg => exact absurd rfl (hseg seg)
    | timeout => exact absurd rfl hne
    | _ => rfl
  cases hm with
  | @segment seg c' msgs hin hh =>
    by_cases hp : c.passesToReceive seg.hdr = true
    · exact h.control_of_passes hev hp
    · have hp' := Bool.eq_false_of_not_eq_true hp
      rw [hh.control hp']
      refine .same (fun seg' hseg => ?_) (by simp [Conn.backsOff, Conn.fastRetransmits, hp'])
      cases hseg
      exact hp'
  | send =>
    obtain ⟨env, henv⟩ := h
    simp only [hev, Conn.step] at henv
    have hs := congrArg Conn.tcb (Prod.mk.inj (Option.some.inj henv)).1
    dsimp only at hs ⊢
    rw [← hs, sendStep_control]
    exact same (by simp) (by simp)
  | wrote hh hw =>
    obtain ⟨hs, hn, buffer, rfl, hb⟩ := writeRound_wrote hw
    exact same (by simp) (by simp)
  | read hr hh hin he =>
    obtain ⟨n, -, rfl, -⟩ := he.consumed
    exact same (by simp) (by simp)
  | readWake hr he =>
    obtain ⟨n, -, rfl, -⟩ := he.consumed
    exact same (by simp) (by simp)
  | closeWaits hc =>
    cases hc with
    | enter | wake => exact same (by simp) (by simp)
  | closes hc =>
    cases hc with
    | enter | wake => exact same (by simp) (by simp)
  | handshakeGaveUp hev | handshakeResent hev =>
    rcases hev with ⟨rfl, -⟩ | ⟨rfl, -⟩ <;> exact same (by simp) (by simp)
  | timerStopped | timerIdle | gaveUp | resent => exact h.control_of_timeout hev
  | enableCC => exact .enableCC
  | initCC hcc => exact .initCC hcc
  | notWritten | probe | closeReturn | ackToken | expired => exact same (by simp) (by simp)

end Control

end TcpIp
