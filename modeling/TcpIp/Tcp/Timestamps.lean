import TcpIp.Tcp.Control
import TcpIp.Tcp.Emissions
import TcpIp.Tcp.Established

/-! The keys under which the transmission times of segments are kept. -/
namespace TcpIp

open Runs

/-- An event with what it showed and the reading of the clock at it. -/
structure Stamped extends Label where
  now : Int64

def StampedStep (c : Conn) (l : Stamped) (c' : Conn) : Prop :=
  ∃ env : Env, env.now = l.now ∧ c.step env l.ev = some (c', l.out)

/-- The acknowledgement number a transmitted segment asks for. -/
def Msg.expectedAck (m : Msg) : U32 := m.hdr.seqNum + BitVec.ofNat 32 m.payload.length

/-- Sent by the transmit loop, or sent again from the retransmission queue. -/
def Msg.timed (m : Msg) : Bool := m.origin = .data ∨ m.origin = .resend

/-- The segments an event transmits; the SYN and SYN-ACK of the handshake's own timers have no
timestamp. -/
def Stamped.transmits (l : Stamped) : List Msg :=
  if l.ev = .connectTimeout ∨ l.ev = .ackTimeout then [] else l.out.msgs.filter Msg.timed

/-- The time of the last transmission that asks for `ackNum`. -/
def latest (tr : List (Move Conn Stamped)) (ackNum : U32) : Option Int64 :=
  (tr.reverse.find? fun x => x.ev.transmits.any fun m => m.expectedAck = ackNum).map fun x =>
    x.ev.now

/-- The timestamps around a move are kept under the numbers that are asked for. -/
structure KeptByAck (pre : List (Move Conn Stamped)) (x : Move Conn Stamped) : Prop where
  /-- every key is the number that a transmitted segment asks for -/
  keyed : ∀ ackNum, (x.dst.tcb.segmentToTimestamp ackNum).isSome = true →
    ∃ y ∈ pre ++ [x], ∃ m ∈ y.ev.transmits, m.expectedAck = ackNum
  /-- a retransmission replaces the timestamp of the segment -/
  resent : ∀ m ∈ x.ev.transmits, m.origin = .resend →
    x.dst.tcb.segmentToTimestamp m.expectedAck = some x.ev.now
  /-- no timestamp is one of a superseded transmission -/
  superseded : ∀ ackNum sent, x.dst.tcb.segmentToTimestamp ackNum = some sent →
    latest (pre ++ [x]) ackNum = some sent
  /-- a round trip is measured from the last transmission -/
  measured : ∀ seg sent, x.ev.ev = .segment seg → x.src.takesAck seg.hdr = true →
    x.src.tcb.segmentToTimestamp seg.hdr.ackNum = some sent →
    latest pre seg.hdr.ackNum = some sent

/-- Whatever the move resends has a sequence number that is its own index in the ring. -/
def ResendsLow (_ : List (Move Conn Stamped)) (x : Move Conn Stamped) : Prop :=
  ∀ m ∈ x.ev.transmits, m.origin = .resend → m.hdr.seqNum.toNat < 65535

/-- The clock has not shown this reading before. -/
def Ticks (pre : List (Move Conn Stamped)) (x : Move Conn Stamped) : Prop :=
  ∀ y ∈ pre, y.ev.now ≠ x.ev.now

instance (pre : List (Move Conn Stamped)) (x : Move Conn Stamped) :
    Decidable (ResendsLow pre x) :=
  inferInstanceAs (Decidable (∀ m ∈ x.ev.transmits, m.origin = .resend → _))

instance (pre : List (Move Conn Stamped)) (x : Move Conn Stamped) : Decidable (Ticks pre x) :=
  inferInstanceAs (Decidable (∀ y ∈ pre, y.ev.now ≠ x.ev.now))

/-- What a step can do to the timestamps, with the segments it transmits. -/
inductive StampMove (c : Conn) (now : Int64) : List Msg → (U32 → Option Int64) → Prop
  | same : StampMove c now [] c.tcb.segmentToTimestamp
  | measured (ackNum : U32) :
      StampMove c now [] (Function.update c.tcb.segmentToTimestamp ackNum none)
  | sent {m : Msg} (hm : m.origin = .data) :
      StampMove c now [m] (Function.update c.tcb.segmentToTimestamp m.expectedAck (some now))
  | resent {p : RetransmitSegment} {rest : List RetransmitSegment}
      (hq : c.tcb.retransmissionQueue = p :: rest) :
      StampMove c now [c.tcb.resendMsg c.key p]
        (Function.update c.tcb.segmentToTimestamp
          (sequenceToBufferInd p.tcpHeader.seqNum + p.payloadLen) (some now))

section Receive

variable {c c' : Conn} {env : Env} {seg : Segment} {out : List Msg} {s : TCB} {hdr : TCPFields}

theorem Stamped.transmits_of_untimed {l : Stamped} (h : ∀ m ∈ l.out.msgs, m.timed = false) :
    l.transmits = [] := by
  unfold Stamped.transmits
  split
  · rfl
  · exact List.filter_eq_nil_iff.mpr fun m hm => by simp [h m hm]

theorem updateTimeout_stamps (s : TCB) (now : Int64) (n : U32) :
    (s.updateTimeout now n).segmentToTimestamp = Function.update s.segmentToTimestamp n none := by
  unfold TCB.updateTimeout
  cases h : s.segmentToTimestamp n with
  | none => exact (Function.update_eq_self_iff.mpr h.symm).symm
  | some sent => rfl

/-- A third duplicate resends the first queued segment and keeps its time under the sum of the
ring index and the length. -/
theorem receiveAck_stamps_third (key : SocketData) (now : Int64)
    (h : s.thirdDuplicate hdr = true) :
    ∃ p rest, s.retransmissionQueue = p :: rest ∧
      (s.receiveAck key now hdr).1.segmentToTimestamp = Function.update s.segmentToTimestamp
        (sequenceToBufferInd p.tcpHeader.seqNum + p.payloadLen) (some now) ∧
      (s.receiveAck key now hdr).2 = [s.resendMsg key p] := by
  have hthird := h
  simp only [TCB.thirdDuplicate, decide_eq_true_eq] at hthird
  obtain ⟨p, rest, hq⟩ := List.exists_cons_of_length_pos hthird.2.2.2
  refine ⟨p, rest, hq, ?_⟩
  simp only [TCB.receiveAck, if_pos h, TCB.fastRetransmit, hq]
  exact ⟨rfl, rfl⟩

theorem receiveAck_stamps_not_third (key : SocketData) (now : Int64)
    (h : s.thirdDuplicate hdr = false) :
    ((s.receiveAck key now hdr).1.segmentToTimestamp = s.segmentToTimestamp ∨
      (s.receiveAck key now hdr).1.segmentToTimestamp =
        Function.update s.segmentToTimestamp hdr.ackNum none) ∧
      (s.receiveAck key now hdr).2 = [] := by
  obtain ⟨k, hk⟩ := s.countDuplicate_eq hdr
  rw [receiveAck_of_not_third h, hk]
  split
  · exact ⟨Or.inl rfl, rfl⟩
  · obtain ⟨k', hk'⟩ := acceptAck_split { s with currentAckFreq := k } now hdr
    rw [hk']
    exact ⟨Or.inr (updateTimeout_stamps _ _ _), rfl⟩

theorem Handled.stamps (h : Handled c seg c' out) (hp : c.passesToReceive seg.hdr = false) :
    c'.tcb.segmentToTimestamp = c.tcb.segmentToTimestamp := by
  cases h with
  | received hr hack => simp [hr.passes hack] at hp
  | fin =>
    dsimp only [TCB.receiveFin]
    split
    · rfl
    · split <;> rfl
  | synSent iss hs hsyn hack hc' => rw [hc']
  | finWait2Fin hs hf hseq hs' => rw [hs']
  | ignored | synRepeated | accepted | finWait1Fin | closingAcked | finRepeated | lastAcked => rfl

/-- A segment that does not get to `Receive` is answered, if at all, with an acknowledgement or a
SYN-ACK. -/
theorem receivePacket_untimed (h : c.receivePacket env seg = some (c', out))
    (hp : c.passesToReceive seg.hdr = false) {m : Msg} (hm : m ∈ out) : m.timed = false := by
  cases receivePacket_handled h with
  | ignored | closingAcked | lastAcked => simp at hm
  | synSent iss hs hsyn hack =>
    have hno : ¬ (seg.hdr.hasAck = true ∧ (seg.hdr.ackNum ≤ c.tcb.snd.iss ∨
        seg.hdr.ackNum > c.tcb.snd.nxt)) := fun h' => hack h'.1 h'.2
    simp only [Conn.receivePacket, hs, Conn.handleStateSynSent, if_neg hno, if_pos hsyn] at h
    split at h <;>
    · obtain ⟨-, rfl⟩ := Prod.mk.inj (Option.some.inj h)
      rw [List.mem_singleton.mp hm]
      rfl
  | synRepeated | finRepeated | finWait1Fin | finWait2Fin =>
    rw [List.mem_singleton.mp hm]
    rfl
  | accepted hs hack hout =>
    rw [hout m hm]
    rfl
  | received hr hack => simp [hr.passes hack] at hp
  | fin =>
    rw [TCB.receiveFin_msgs, List.mem_singleton] at hm
    rw [hm]
    rfl

end Receive

section Steps

variable {c c' : Conn} {l : Stamped} {seg : Segment}

theorem StampedStep.step (h : StampedStep c l c') : Step c l.toLabel c' := by
  obtain ⟨env, -, h⟩ := h
  exact ⟨env, h⟩

/-- The part of `Receive` that handles the acknowledgement: it measures, or resends on the third
duplicate. -/
theorem stampMove_receiveAck {u : TCB}
    (hu : ∃ st r e, u = { c.tcb with state := st, rcv := r, earlyArrivals := e }) (now : Int64)
    (hdr : TCPFields) :
    StampMove c now ((u.receiveAck c.key now hdr).2.filter Msg.timed)
      (u.receiveAck c.key now hdr).1.segmentToTimestamp := by
  obtain ⟨st, r, e, rfl⟩ := hu
  cases hf : ({ c.tcb with state := st, rcv := r, earlyArrivals := e } : TCB).thirdDuplicate
      hdr with
  | true =>
    obtain ⟨p, rest, hq, hts, hm⟩ := receiveAck_stamps_third c.key now hf
    rw [hts, hm]
    exact .resent hq
  | false =>
    obtain ⟨hts, hm⟩ := receiveAck_stamps_not_third c.key now hf
    rw [hm]
    rcases hts with hts | hts
    · rw [hts]
      exact .same
    · rw [hts]
      exact .measured _

theorem StampedStep.stamps_of_segment (h : StampedStep c l c') (hev : l.ev = .segment seg) :
    StampMove c l.now l.transmits c'.tcb.segmentToTimestamp := by
  obtain ⟨env, hnow, henv⟩ := h
  rw [hev] at henv
  rw [← hnow]
  by_cases hp : c.passesToReceive seg.hdr = true
  · obtain ⟨u, o₁, o₂, hu, hack, horigin, hout⟩ := step_acks henv hp
    have htransmits : l.transmits = l.out.msgs.filter Msg.timed := by
      simp [Stamped.transmits, hev]
    have hdata : o₁.filter Msg.timed = [] :=
      List.filter_eq_nil_iff.mpr fun m hm => by simp [Msg.timed, horigin m hm]
    have hmove := stampMove_receiveAck hu env.now seg.hdr
    rwa [hack, ← List.nil_append (List.filter _ _), ← hdata, ← List.filter_append, ← hout,
      ← htransmits] at hmove
  · have hp' := Bool.eq_false_of_not_eq_true hp
    simp only [Conn.step] at henv
    split at henv
    · obtain ⟨⟨c₁, msgs⟩, hr, heq⟩ := Option.map_eq_some_iff.mp henv
      obtain ⟨rfl, hout⟩ := Prod.mk.inj heq
      have hnone : l.transmits = [] := by
        refine Stamped.transmits_of_untimed fun m hm => ?_
        rw [← hout] at hm
        exact receivePacket_untimed hr hp' hm
      rw [hnone, (receivePacket_handled hr).stamps hp']
      exact .same
    · cases henv

theorem StampedStep.stamps_of_send (h : StampedStep c l c') (hev : l.ev = .send) :
    StampMove c l.now l.transmits c'.tcb.segmentToTimestamp := by
  obtain ⟨env, hnow, henv⟩ := h
  rw [hev] at henv
  rw [← hnow]
  have htransmits : l.transmits = l.out.msgs.filter Msg.timed := by
    simp [Stamped.transmits, hev]
  obtain ⟨rfl, hout⟩ := Prod.mk.inj (Option.some.inj henv)
  rw [htransmits, ← hout]
  dsimp only
  cases c.send with
  | notStarted | returned | top | waitData1 | waitData2 | windowWait => exact .same
  | zeroWait =>
    simp only [TCB.sendStep]
    split
    · exact .same
    · split <;> exact .same
  | transmit a b =>
    simp only [TCB.sendStep, TCB.sendSegment]
    split
    · split
      · exact .same
      · -- the key is SND.NXT past the segment
        have hlen : (c.tcb.sendPayload (segmentLength a b)).length =
            (segmentLength a b).toNat := by
          rw [sendPayload_eq, Ring.load_length]
        have hmove : StampMove c env.now
            [c.tcb.dataMsg c.key .data (c.tcb.sendPayload (segmentLength a b))] _ := .sent rfl
        have hack : (c.tcb.dataMsg c.key .data
            (c.tcb.sendPayload (segmentLength a b))).expectedAck =
              c.tcb.snd.nxt + segmentLength a b := by
          simp [Msg.expectedAck, TCB.dataMsg, createTCPHeader, hlen]
        rw [hack] at hmove
        exact hmove
    · exact .same

theorem StampedStep.stamps_of_timeout (h : StampedStep c l c') (hev : l.ev = .timeout) :
    StampMove c l.now l.transmits c'.tcb.segmentToTimestamp := by
  obtain ⟨env, hnow, henv⟩ := h
  rw [hev] at henv
  rw [← hnow]
  have htransmits : l.transmits = l.out.msgs.filter Msg.timed := by
    simp [Stamped.transmits, hev]
  simp only [Conn.step] at henv
  split at henv
  · have hst := Option.some.inj henv
    unfold TCB.waitTimeout at hst
    split at hst
    · obtain ⟨rfl, hout⟩ := Prod.mk.inj hst
      rw [htransmits, ← hout]
      exact .same
    split at hst
    · obtain ⟨rfl, hout⟩ := Prod.mk.inj hst
      rw [htransmits, ← hout]
      exact .same
    rename_i p rest hq
    split at hst
    · obtain ⟨rfl, hout⟩ := Prod.mk.inj hst
      rw [htransmits, ← hout]
      exact .same
    · obtain ⟨rfl, hout⟩ := Prod.mk.inj hst
      rw [htransmits, ← hout]
      split <;> exact .resent hq
  · cases henv

/-- The inversion lemma for the timestamps. -/
theorem StampedStep.stamps (h : StampedStep c l c') :
    StampMove c l.now l.transmits c'.tcb.segmentToTimestamp := by
  have hm := h.step.moved
  generalize hev : l.ev = ev at hm
  generalize ho : l.out = o at hm
  -- outside `Receive`, `Send` and the timer nothing is transmitted
  have same (hmsgs : ∀ m ∈ o.msgs, m.timed = false)
      (hts : c'.tcb.segmentToTimestamp = c.tcb.segmentToTimestamp) :
      StampMove c l.now l.transmits c'.tcb.segmentToTimestamp := by
    rw [Stamped.transmits_of_untimed (by rwa [ho]), hts]
    exact .same
  cases hm with
  | segment => exact h.stamps_of_segment hev
  | send => exact h.stamps_of_send hev
  | timerStopped | timerIdle | gaveUp | resent => exact h.stamps_of_timeout hev
  | wrote hh hw =>
    obtain ⟨-, -, buffer, rfl, -⟩ := writeRound_wrote hw
    exact same (by simp) rfl
  | read hr hh hin he =>
    obtain ⟨n, -, rfl, -⟩ := he.consumed
    exact same (by simp) rfl
  | readWake hr he =>
    obtain ⟨n, -, rfl, -⟩ := he.consumed
    exact same (by simp) rfl
  | probe =>
    refine same (fun m hm => ?_) rfl
    simp only [TCB.probe] at hm
    split at hm
    · simp at hm
    · rw [List.mem_singleton.mp hm]
      rfl
  | closeWaits hc => cases hc <;> exact same (by simp) rfl
  | closes hc =>
    cases hc <;>
    · refine same (fun m hm => ?_) rfl
      rw [List.mem_singleton.mp hm]
      rfl
  | handshakeResent hev' =>
    have hnone : l.transmits = [] := by
      rcases hev' with ⟨rfl, -⟩ | ⟨rfl, -⟩ <;> simp [Stamped.transmits, hev]
    rw [hnone]
    exact .same
  | notWritten | closeReturn | handshakeGaveUp | ackToken | expired | enableCC | initCC =>
    exact same (by simp) rfl

end Steps

/-- Every timestamp is that of the last transmission asking for its key, and the queue holds
segments of the sizes `Send` cuts. -/
structure Current (tr : List (Move Conn Stamped)) (c : Conn) : Prop where
  stamps : ∀ ackNum sent, c.tcb.segmentToTimestamp ackNum = some sent →
    latest tr ackNum = some sent
  short : ∀ p ∈ c.tcb.retransmissionQueue, p.payloadLen.toNat ≤ 1360

section Runs

variable {c c' : Conn} {l : Stamped} {tr : List (Move Conn Stamped)} {x : Move Conn Stamped}
  {ackNum : U32} {sent : Int64} {p : RetransmitSegment}

theorem latest_snoc : latest (tr ++ [x]) ackNum =
    if x.ev.transmits.any fun m => m.expectedAck = ackNum then some x.ev.now
    else latest tr ackNum := by
  simp only [latest, List.reverse_append, List.reverse_singleton, List.singleton_append,
    List.find?_cons]
  split <;> simp [*]

theorem latest_eq_some (h : latest tr ackNum = some sent) :
    ∃ y ∈ tr, y.ev.now = sent ∧ ∃ m ∈ y.ev.transmits, m.expectedAck = ackNum := by
  obtain ⟨y, hy, hnow⟩ := Option.map_eq_some_iff.mp h
  have hany := List.find?_some hy
  simp only [List.any_eq_true, decide_eq_true_eq] at hany
  exact ⟨y, List.mem_reverse.mp (List.mem_of_find?_eq_some hy), hnow, hany⟩

theorem expectedAck_resendMsg (h : p.payloadLen.toNat ≤ 1360) :
    (c.tcb.resendMsg c.key p).expectedAck = p.tcpHeader.seqNum + p.payloadLen := by
  simp [Msg.expectedAck, TCB.resendMsg, retransmitPayload_eq c.tcb p (by omega)]

/-- The key of the two retransmission paths is the expected acknowledgement just for the sequence
numbers below the size of the ring. -/
theorem key_eq_expectedAck_iff (h : p.payloadLen.toNat ≤ 1360) :
    sequenceToBufferInd p.tcpHeader.seqNum + p.payloadLen =
        (c.tcb.resendMsg c.key p).expectedAck ↔
      p.tcpHeader.seqNum.toNat < 65535 := by
  have hind := toNat_sequenceToBufferInd p.tcpHeader.seqNum
  rw [expectedAck_resendMsg h]
  constructor
  · intro heq
    have : sequenceToBufferInd p.tcpHeader.seqNum = p.tcpHeader.seqNum := by bv_omega
    rw [this] at hind
    omega
  · intro hlt
    rw [Nat.mod_eq_of_lt hlt] at hind
    rw [BitVec.eq_of_toNat_eq hind]

/-- The number under which a resent segment's time is to be found. -/
theorem Current.resent_key (hc : Current tr c) {rest : List RetransmitSegment}
    (hq : c.tcb.retransmissionQueue = p :: rest) :
    sequenceToBufferInd p.tcpHeader.seqNum + p.payloadLen =
        (c.tcb.resendMsg c.key p).expectedAck ↔
      p.tcpHeader.seqNum.toNat < 65535 :=
  key_eq_expectedAck_iff (hc.short p (by simp [hq]))

theorem short_step (hc : Current tr c) (h : StampedStep c l c') :
    ∀ p ∈ c'.tcb.retransmissionQueue, p.payloadLen.toNat ≤ 1360 := by
  intro p hp
  rcases h.step.queued hp with hold | ⟨m, -, -, ⟨a, b, -, hlen⟩ | ⟨-, hlen⟩⟩
  · exact hc.short p hold
  · rw [hlen]
    exact segmentLength_le a b
  · simp [hlen]

/-- Where what is resent has a low number, a step leaves under each key the time of the last
transmission that asks for it. -/
theorem Current.latest_step (hc : Current tr c) (h : StampedStep c l c')
    (hlow : ResendsLow tr ⟨c, l, c'⟩) (hts : c'.tcb.segmentToTimestamp ackNum = some sent) :
    latest (tr ++ [⟨c, l, c'⟩]) ackNum = some sent := by
  have hm := h.stamps
  rw [latest_snoc]
  unfold ResendsLow at hlow
  dsimp only at hlow ⊢
  generalize l.transmits = ms at hm hlow
  generalize c'.tcb.segmentToTimestamp = ts at hm hts
  -- a transmission puts its time under the number it asks for
  have put {m : Msg}
      (hput : Function.update c.tcb.segmentToTimestamp m.expectedAck (some l.now) ackNum =
        some sent) :
      (if [m].any fun m => m.expectedAck = ackNum then some l.now else latest tr ackNum) =
        some sent := by
    by_cases heq : ackNum = m.expectedAck
    · subst heq
      simpa using hput
    · rw [Function.update_of_ne heq] at hput
      simpa [Ne.symm heq] using hc.stamps ackNum sent hput
  cases hm with
  | same => simpa using hc.stamps ackNum sent hts
  | measured n =>
    by_cases heq : ackNum = n
    · simp [heq] at hts
    · rw [Function.update_of_ne heq] at hts
      simpa using hc.stamps ackNum sent hts
  | sent => exact put hts
  | resent hq =>
    have hseq := hlow _ (List.mem_singleton_self _) rfl
    rw [(hc.resent_key hq).mpr hseq] at hts
    exact put hts

theorem Current.step (hc : Current tr c) (h : StampedStep c l c')
    (hlow : ResendsLow tr ⟨c, l, c'⟩) : Current (tr ++ [⟨c, l, c'⟩]) c' :=
  ⟨fun _ _ => hc.latest_step h hlow, short_step hc h⟩

/-- A retransmission with a low number is kept under its expected acknowledgement. -/
theorem Current.resent_kept (hc : Current tr c) (h : StampedStep c l c')
    (hlow : ResendsLow tr ⟨c, l, c'⟩) {m : Msg} (hm : m ∈ l.transmits)
    (horigin : m.origin = .resend) :
    c'.tcb.segmentToTimestamp m.expectedAck = some l.now := by
  have hseq := hlow m hm horigin
  have hmove := h.stamps
  generalize l.transmits = ms at hmove hm
  generalize c'.tcb.segmentToTimestamp = ts at hmove
  cases hmove with
  | same | measured => simp at hm
  | sent =>
    rw [List.mem_singleton.mp hm]
    exact Function.update_self _ _ _
  | resent hq =>
    rw [List.mem_singleton] at hm
    subst hm
    rw [(hc.resent_key hq).mpr hseq]
    exact Function.update_self _ _ _

/-- Where the clock ticks, one with a high number is not. -/
theorem Current.low_of_kept (hc : Current tr c) (h : StampedStep c l c')
    (hticks : Ticks tr ⟨c, l, c'⟩) (hkept : KeptByAck tr ⟨c, l, c'⟩) :
    ResendsLow tr ⟨c, l, c'⟩ := by
  intro m hm horigin
  have hkeep : c'.tcb.segmentToTimestamp m.expectedAck = some l.now := hkept.resent m hm horigin
  have hmove := h.stamps
  dsimp only at hm
  generalize l.transmits = ms at hmove hm
  generalize c'.tcb.segmentToTimestamp = ts at hmove hkeep
  cases hmove with
  | same | measured => simp at hm
  | sent hdata =>
    rw [List.mem_singleton.mp hm, hdata] at horigin
    cases horigin
  | resent hq =>
    rw [List.mem_singleton] at hm
    subst hm
    by_contra hhigh
    -- what is found under the expected number is of an earlier move
    have hne := mt (hc.resent_key hq).mp hhigh
    rw [Function.update_of_ne (Ne.symm hne)] at hkeep
    obtain ⟨y, hy, hnow, -⟩ := latest_eq_some (hc.stamps _ _ hkeep)
    exact hticks y hy hnow

theorem Current.kept (hc : Current tr c) (h : StampedStep c l c')
    (hlow : ResendsLow tr ⟨c, l, c'⟩) : KeptByAck tr ⟨c, l, c'⟩ where
  keyed ackNum hsome := by
    obtain ⟨sent, hsent⟩ := Option.isSome_iff_exists.mp hsome
    obtain ⟨y, hy, -, hm⟩ := latest_eq_some (hc.latest_step h hlow hsent)
    exact ⟨y, hy, hm⟩
  resent m hm horigin := hc.resent_kept h hlow hm horigin
  superseded _ _ hsent := hc.latest_step h hlow hsent
  measured seg sent _ _ hsent := hc.stamps seg.hdr.ackNum sent hsent

end Runs

/-- Nothing sent and nothing timed yet. -/
structure Unstamped (c : Conn) : Prop where
  stamps : ∀ ackNum, c.tcb.segmentToTimestamp ackNum = none
  queue : c.tcb.retransmissionQueue = []

theorem Unstamped.current {c : Conn} (h : Unstamped c) : Current [] c where
  stamps ackNum sent hsent := by simp [h.stamps] at hsent
  short p hp := by simp [h.queue] at hp

/-- Timestamps stay under expected acknowledgements while only segments with numbers below the
size of the ring are resent, and, the clock ticking, in no other run. -/
theorem timestamps_kept_by_ack {c c' : Conn} {tr : List (Move Conn Stamped)} (h0 : Unstamped c)
    (h : Run StampedStep c tr c') :
    (Along ResendsLow tr → Along KeptByAck tr) ∧
      (Along Ticks tr → Along KeptByAck tr → Along ResendsLow tr) := by
  constructor
  · intro hlow pre x post hx
    obtain ⟨hpre, hstep⟩ := h.pre hx
    have hleft : Along ResendsLow pre := by
      rw [hx] at hlow
      exact hlow.left
    have hcur := hpre.inv h0.current hleft fun _ _ _ _ hc hs hl => hc.step hs hl
    exact hcur.kept hstep (hlow pre x post hx)
  · intro hticks
    refine (h.along_iff h0.current hticks (fun _ _ _ _ hc hs _ hl => hc.step hs hl) ?_).mp
    intro pre u l v hc hs ht
    exact ⟨hc.low_of_kept hs ht, hc.kept hs⟩

/-- The run a list of events with clock readings makes. -/
def Conn.playStamped (c : Conn) (events : List (Event × Int64)) :
    List (Move Conn Stamped) × Conn :=
  Runs.play (fun c i => (c.step ⟨i.2, 0, true⟩ i.1).map fun r =>
    ({ ev := i.1, out := r.2, now := i.2 }, r.1)) c events

theorem Conn.playStamped_run (c : Conn) (events : List (Event × Int64)) :
    Run StampedStep c (c.playStamped events).1 (c.playStamped events).2 :=
  play_map_run (f := fun (c : Conn) (i : Event × Int64) => c.step ⟨i.2, 0, true⟩ i.1)
    (fun i o => ({ ev := i.1, out := o, now := i.2 } : Stamped))
    (fun _ _ _ _ h => ⟨_, rfl, h⟩) c events

/-- Two bytes are written and sent at time 10, sent again by the timer at time 20, and
acknowledged at time 30. -/
def resentOnce (f : U32) : List (Event × Int64) :=
  [(.write [1, 2], 0), (.send, 5), (.send, 10), (.timeout, 20),
    (.segment (Segment.fromPeer 500 (f + 2) 16 1000 [] (Nat.zero_le _)), 30)]

theorem unstamped_fresh (una f g : U32) : Unstamped (Conn.fresh una f g) := ⟨fun _ => rfl, rfl⟩

theorem timestamps_kept_by_ack_low :
    let r := (Conn.fresh 100 100 500).playStamped (resentOnce 100)
    r.1.length = 5 ∧ Along Ticks r.1 ∧ Along KeptByAck r.1 := by
  have h := timestamps_kept_by_ack (unstamped_fresh 100 100 500)
    (Conn.playStamped_run (Conn.fresh 100 100 500) (resentOnce 100))
  exact ⟨by decide, along_of_forall_fin (by decide), h.1 (along_of_forall_fin (by decide))⟩

/-- One past the size of the ring the retransmission's time goes under 3, for which no segment
asks, and the round trip is measured from the first transmission. -/
theorem resent_time_misfiled :
    let r := (Conn.fresh 65536 65536 500).playStamped (resentOnce 65536)
    Run StampedStep (Conn.fresh 65536 65536 500) r.1 r.2 ∧
      (∃ x, r.1[3]? = some x ∧ x.ev.transmits.map Msg.expectedAck = [65538] ∧ x.ev.now = 20 ∧
        x.dst.tcb.segmentToTimestamp 65538 = some 10 ∧
        x.dst.tcb.segmentToTimestamp 3 = some 20) ∧
      (∃ x, r.1[4]? = some x ∧ x.src.samples x.ev.ev = true ∧
        x.src.tcb.segmentToTimestamp 65538 = some 10 ∧ latest (r.1.take 4) 65538 = some 20) ∧
      ¬ Along KeptByAck r.1 := by
  refine ⟨Conn.playStamped_run _ _, ⟨_, rfl, by decide, by decide, by decide, by decide⟩,
    ⟨_, rfl, by decide, by decide, by decide⟩, fun hkept => ?_⟩
  have h3 := (hkept.get ⟨3, by decide⟩).resent
  revert h3
  decide

end TcpIp
