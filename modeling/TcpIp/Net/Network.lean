import TcpIp.Tcp.Emissions
import TcpIp.Tcp.Established

/-! Two endpoints that run this code, and a network that may lose, duplicate, delay and reorder
what they send. -/
namespace TcpIp

open Runs

inductive Side
  | a | b
  deriving DecidableEq

def Side.other : Side → Side
  | .a => .b
  | .b => .a

@[simp] theorem Side.other_other (x : Side) : x.other.other = x := by cases x <;> rfl

@[simp] theorem Side.other_ne (x : Side) : x.other ≠ x := by cases x <;> simp [Side.other]

@[simp] theorem Side.ne_other (x : Side) : x ≠ x.other := x.other_ne.symm

theorem Side.forall_iff {p : Side → Prop} : (∀ x, p x) ↔ p .a ∧ p .b :=
  ⟨fun h => ⟨h .a, h .b⟩, fun h x => by cases x <;> simp [h]⟩

/-- One value for each side. -/
def Side.pair {α : Type} (p q : α) : Side → α
  | .a => p
  | .b => q

/-- The endpoints with everything each has sent, put in its send buffer, and read. -/
structure Net where
  conn : Side → Conn
  sent : Side → List Msg
  written : Side → List U8
  returned : Side → List U8

/-- The bytes a call of `Read` returns. -/
def Output.bytes (o : Output) : List U8 :=
  match o.read with
  | some (.returned _ data) => data
  | _ => []

/-- A side moves, and what it emits can be delivered from then on, any number of times. -/
def Net.advance (n : Net) (x : Side) (l : Label) (c' : Conn) : Net where
  conn := Function.update n.conn x c'
  sent := Function.update n.sent x (n.sent x ++ l.out.msgs)
  written := Function.update n.written x (n.written x ++ (n.conn x).written l.ev)
  returned := Function.update n.returned x (n.returned x ++ l.out.bytes)

/-- The events of the data phase at a side whose peer has sent `back`: segments are copies of
the peer's, nobody closes, and congestion control is never enabled. -/
inductive DataEvent (back : List Msg) : Event → Prop
  | segment {seg : Segment} {m : Msg} (hm : m ∈ back) (hh : seg.hdr = m.hdr)
      (hp : seg.payload = m.payload) : DataEvent back (.segment seg)
  | write {data : List U8} : DataEvent back (.write data)
  | read {amountToRead : U32} {readAll : Bool} : DataEvent back (.read amountToRead readAll)
  | readWake : DataEvent back .readWake
  | send : DataEvent back .send
  | probe : DataEvent back .probe
  | timeout : DataEvent back .timeout

/-- `Send` moves from one critical section to the next, so that deliveries, writes and timeouts
may fall between the segments of one pass. -/
def NetStep (n : Net) (l : Side × Label) (n' : Net) : Prop :=
  DataEvent (n.sent l.1.other) l.2.ev ∧ ∃ c', Step (n.conn l.1) l.2 c' ∧ n' = n.advance l.1 l.2 c'

/-- Both sides as the handshake leaves them, with its messages still in the network. The first
sequence number is not zero: the initial one was not the last of the 32-bit numbers. -/
structure Net.Opened (n : Net) : Prop where
  established : ∀ x, Established (n.conn x)
  first : ∀ x, (n.conn x).tcb.snd.nxt = (n.conn x.other).tcb.rcv.nxt
  first_ne : ∀ x, (n.conn x).tcb.snd.nxt ≠ 0
  wnd : ∀ x, (n.conn x).tcb.snd.wnd = maxBufSize
  sent : ∀ x, ∀ m ∈ n.sent x, m.payload = [] ∧ m.hdr.hasFin = false ∧
    (m.hdr.hasAck = true → m.hdr.ackNum = (n.conn x).tcb.rcv.nxt ∧ m.hdr.windowSize = 65535)
  written : ∀ x, n.written x = []
  returned : ∀ x, n.returned x = []

/-- No sequence number of either side crosses the last one. -/
def KeepsBelow (y : Move Net (Side × Label)) : Prop :=
  ∀ x, (y.src.conn x).tcb.snd.lbw ≤ (y.dst.conn x).tcb.snd.lbw

instance (y : Move Net (Side × Label)) : Decidable (KeepsBelow y) :=
  decidable_of_iff _ Side.forall_iff.symm

/-- The three segments of a handshake in which nothing is lost. -/
def Net.handshake (env : Env) (key : SocketData) (issA issB : U32) : Option Net :=
  let a := Conn.connect key issA
  let syn := a.synMsg .control
  let b := Conn.handleStateListen key.destAddr
    ⟨key.destAddr, key.destPort, key.localAddr, key.localPort⟩ issB syn.hdr
  let synAck := b.synAckMsg .control
  (a.step env (.segment ⟨synAck.hdr, [], Segment.nil_le⟩)).bind fun ra =>
    ra.2.msgs.head?.bind fun ack =>
      (b.step env (.segment ⟨ack.hdr, [], Segment.nil_le⟩)).map fun rb =>
        ⟨Side.pair ra.1 rb.1, Side.pair [syn, ack] [synAck], fun _ => [], fun _ => []⟩

section Advance

variable {n : Net} {x : Side} {l : Label} {c' : Conn}

@[simp] theorem Net.advance_conn : (n.advance x l c').conn x = c' := by simp [Net.advance]

@[simp] theorem Net.advance_conn_other : (n.advance x l c').conn x.other = n.conn x.other := by
  simp [Net.advance]

@[simp] theorem Net.advance_sent : (n.advance x l c').sent x = n.sent x ++ l.out.msgs := by
  simp [Net.advance]

@[simp] theorem Net.advance_sent_other : (n.advance x l c').sent x.other = n.sent x.other := by
  simp [Net.advance]

@[simp] theorem Net.advance_written :
    (n.advance x l c').written x = n.written x ++ (n.conn x).written l.ev := by
  simp [Net.advance]

@[simp] theorem Net.advance_written_other :
    (n.advance x l c').written x.other = n.written x.other := by
  simp [Net.advance]

@[simp] theorem Net.advance_returned :
    (n.advance x l c').returned x = n.returned x ++ l.out.bytes := by
  simp [Net.advance]

@[simp] theorem Net.advance_returned_other :
    (n.advance x l c').returned x.other = n.returned x.other := by
  simp [Net.advance]

end Advance

section Handshake

variable (env : Env) (key : SocketData) (iss : U32) {issA issB : U32} {hdr : TCPFields}

/-- The active side takes the SYN-ACK. -/
theorem connect_step (hsyn : hdr.hasSyn = true) (ha : hdr.ackNum = iss + 1)
    (hw : hdr.windowSize = 65535) (hne : iss + 1 ≠ 0) :
    ∃ c' m, (Conn.connect key iss).step env (.segment ⟨hdr, [], by simp⟩) =
        some (c', { msgs := [m] }) ∧
      Established c' ∧ c'.tcb.snd.nxt = iss + 1 ∧ c'.tcb.snd.wnd = maxBufSize ∧
      c'.tcb.rcv.nxt = hdr.seqNum + 1 ∧ m.payload = [] ∧ m.hdr.flags = tcpFlagAck ∧
      m.hdr.ackNum = c'.tcb.rcv.nxt ∧ m.hdr.windowSize = 65535 := by
  have hout : ¬ (hdr.hasAck = true ∧ (hdr.ackNum ≤ (Conn.connect key iss).tcb.snd.iss ∨
      hdr.ackNum > (Conn.connect key iss).tcb.snd.nxt)) := by
    rw [ha]
    simp only [Conn.connect]
    bv_omega
  have hgt : hdr.ackNum > (Conn.connect key iss).tcb.snd.iss := by
    rw [ha]
    simp only [Conn.connect]
    bv_omega
  have hstep : (Conn.connect key iss).step env (.segment ⟨hdr, [], by simp⟩) =
      some (((Conn.connect key iss).handleStateSynSent env hdr).1,
        { msgs := ((Conn.connect key iss).handleStateSynSent env hdr).2 }) := rfl
  rw [hstep]
  unfold Conn.handleStateSynSent
  rw [if_neg hout, if_pos hsyn, if_pos hgt]
  refine ⟨_, _, rfl, ?_, rfl, by simp [hw, maxBufSize], rfl, rfl, rfl, rfl, rfl⟩
  constructor
  case una => exact Or.inl ha
  case toUntouched => constructor <;> rfl
  all_goals rfl

/-- The passive side takes the ACK. -/
theorem handleStateListen_step (localAddr : U32) (syn : TCPFields) (hl : env.listener = true)
    (hack : hdr.hasAck = true) (hsyn : hdr.hasSyn = false) (ha : hdr.ackNum = iss + 1)
    (hw : hdr.windowSize = 65535) (hne : iss + 1 ≠ 0) :
    ∃ c', (Conn.handleStateListen localAddr key iss syn).step env (.segment ⟨hdr, [], by simp⟩) =
        some (c', {}) ∧
      Established c' ∧ c'.tcb.snd.nxt = iss + 1 ∧ c'.tcb.snd.wnd = maxBufSize ∧
      c'.tcb.rcv.nxt = syn.seqNum + 1 := by
  have hin : (Conn.handleStateListen localAddr key iss syn).tcb.snd.una < hdr.ackNum ∧
      hdr.ackNum ≤ (Conn.handleStateListen localAddr key iss syn).tcb.snd.nxt := by
    rw [ha]
    simp only [Conn.handleStateListen]
    bv_omega
  have hstep : (Conn.handleStateListen localAddr key iss syn).step env
        (.segment ⟨hdr, [], by simp⟩) =
      ((Conn.handleStateListen localAddr key iss syn).handleStateSynReceived env
        ⟨hdr, [], by simp⟩).map fun r => (r.1, { msgs := r.2 }) := rfl
  rw [hstep]
  unfold Conn.handleStateSynReceived
  have hpassive : (Conn.handleStateListen localAddr key iss syn).passive = true := rfl
  rw [if_neg (by simp), if_pos hack, if_pos hin, if_neg (not_not.mpr hpassive), if_pos hl]
  simp only [hsyn]
  refine ⟨_, rfl, ?_, rfl, by simp [hw, maxBufSize], rfl⟩
  constructor
  case una => exact Or.inr rfl
  case toUntouched => constructor <;> rfl
  all_goals rfl

/-- A handshake between two sides of this code leads to the data phase. -/
theorem opened_handshake (hl : env.listener = true) (ha : issA + 1 ≠ 0) (hb : issB + 1 ≠ 0) :
    ∃ n, Net.handshake env key issA issB = some n ∧ n.Opened := by
  let syn := (Conn.connect key issA).synMsg .control
  let b := Conn.handleStateListen key.destAddr
    ⟨key.destAddr, key.destPort, key.localAddr, key.localPort⟩ issB syn.hdr
  let synAck := b.synAckMsg .control
  obtain ⟨a', ack, hstepA, hestA, hnxtA, hwndA, hrcvA, hpay, hflags, hack, hwin⟩ :=
    connect_step env key issA
      (show synAck.hdr.hasSyn = true by
        simp [synAck, Conn.synAckMsg, TCPFields.hasSyn, tcpFlagSyn, tcpFlagAck]) rfl rfl ha
  obtain ⟨b', hstepB, hestB, hnxtB, hwndB, hrcvB⟩ :=
    handleStateListen_step env ⟨key.destAddr, key.destPort, key.localAddr, key.localPort⟩ issB
      key.destAddr syn.hdr hl
      (show ack.hdr.hasAck = true by simp [TCPFields.hasAck, hflags, tcpFlagAck])
      (by simp [TCPFields.hasSyn, hflags, tcpFlagSyn, tcpFlagAck]) (hack.trans hrcvA) hwin hb
  refine ⟨⟨Side.pair a' b', Side.pair [syn, ack] [synAck], fun _ => [], fun _ => []⟩, ?_, ?_⟩
  · unfold Net.handshake
    exact Option.bind_eq_some_iff.mpr ⟨_, hstepA, Option.bind_eq_some_iff.mpr
      ⟨ack, rfl, Option.map_eq_some_iff.mpr ⟨_, hstepB, rfl⟩⟩⟩
  · refine ⟨?_, ?_, ?_, ?_, ?_, fun _ => rfl, fun _ => rfl⟩ <;> rw [Side.forall_iff]
    · exact ⟨hestA, hestB⟩
    · exact ⟨hnxtA.trans hrcvB.symm, hnxtB.trans hrcvA.symm⟩
    · exact ⟨hnxtA ▸ ha, hnxtB ▸ hb⟩
    · exact ⟨hwndA, hwndB⟩
    · refine ⟨fun m hm => ?_, fun m hm => ?_⟩
      · rcases List.mem_pair.mp hm with rfl | rfl
        · refine ⟨rfl, ?_, ?_⟩ <;>
            simp [syn, Conn.synMsg, TCPFields.hasFin, TCPFields.hasAck, tcpFlagSyn, tcpFlagFin,
              tcpFlagAck]
        · refine ⟨hpay, ?_, fun _ => ⟨hack, hwin⟩⟩
          simp [TCPFields.hasFin, hflags, tcpFlagFin, tcpFlagAck]
      · rw [List.mem_singleton.mp hm]
        refine ⟨rfl, ?_, fun _ => ⟨hrcvB.symm, rfl⟩⟩
        simp [synAck, Conn.synAckMsg, TCPFields.hasFin, tcpFlagSyn, tcpFlagFin, tcpFlagAck]

end Handshake

section Sample

/-- An event of a side's own, or the delivery of a message of the other side. -/
def Net.event (n : Net) (x : Side) : Event ⊕ ℕ → Option Event
  | .inl (.write data) => some (.write data)
  | .inl (.read amountToRead readAll) => some (.read amountToRead readAll)
  | .inl .readWake => some .readWake
  | .inl .send => some .send
  | .inl .probe => some .probe
  | .inl .timeout => some .timeout
  | .inl _ => none
  | .inr i => (n.sent x.other)[i]?.bind fun m =>
    if h : m.payload.length ≤ 65535 then some (.segment ⟨m.hdr, m.payload, h⟩) else none

/-- A step of a schedule. -/
def Net.next (n : Net) (i : Side × (Event ⊕ ℕ)) : Option ((Side × Label) × Net) :=
  (n.event i.1 i.2).bind fun ev =>
    ((n.conn i.1).next ev).map fun r => ((i.1, r.1), n.advance i.1 r.1 r.2)

theorem dataEvent_event {n : Net} {x : Side} {i : Event ⊕ ℕ} {ev : Event}
    (h : n.event x i = some ev) : DataEvent (n.sent x.other) ev := by
  cases i with
  | inl i => cases i <;> cases h <;> constructor
  | inr i =>
    obtain ⟨m, hm, h⟩ := Option.bind_eq_some_iff.mp h
    split at h
    · cases h
      exact .segment (List.mem_of_getElem? hm) rfl rfl
    · cases h

theorem netStep_next (n : Net) (i : Side × (Event ⊕ ℕ)) (l : Side × Label) (n' : Net)
    (h : n.next i = some (l, n')) : NetStep n l n' := by
  obtain ⟨ev, hev, h⟩ := Option.bind_eq_some_iff.mp h
  obtain ⟨⟨l', c'⟩, hs, h⟩ := Option.map_eq_some_iff.mp h
  obtain ⟨rfl, rfl⟩ := Prod.mk.inj h
  obtain ⟨r, hr, hl⟩ := Option.map_eq_some_iff.mp hs
  obtain ⟨rfl, rfl⟩ := Prod.mk.inj hl
  exact ⟨dataEvent_event hev, r.1, ⟨_, hr⟩, rfl⟩

def Net.play (n : Net) (schedule : List (Side × (Event ⊕ ℕ))) :
    List (Move Net (Side × Label)) × Net :=
  Runs.play Net.next n schedule

theorem Net.play_run (n : Net) (schedule : List (Side × (Event ⊕ ℕ))) :
    Run NetStep n (n.play schedule).1 (n.play schedule).2 :=
  Runs.play_run netStep_next n schedule

/-- Two sides after a handshake from the initial numbers 99 and 499. -/
def Net.sample : Net := (Net.handshake ⟨0, 0, true⟩ ⟨1, 1000, 2, 2000⟩ 99 499).get (by decide)

theorem opened_sample : Net.sample.Opened := by
  obtain ⟨n, hn, ho⟩ := opened_handshake ⟨0, 0, true⟩ ⟨1, 1000, 2, 2000⟩ rfl
    (show (99 : U32) + 1 ≠ 0 by decide) (show (499 : U32) + 1 ≠ 0 by decide)
  have heq : Net.sample = n := Option.get_of_eq_some _ hn
  exact heq ▸ ho

/-- Two segments of `a`, the second one delivered first; `b` reads both, `a` gets one of the
acknowledgements. -/
def Net.reordered : List (Side × (Event ⊕ ℕ)) :=
  [(.a, .inl (.write [1, 2])), (.a, .inl .send), (.a, .inl .send), (.a, .inl .send),
    (.a, .inl (.write [3])), (.a, .inl .send), (.a, .inl .send), (.b, .inr 3), (.b, .inr 2),
    (.b, .inl (.read 3 true)), (.a, .inr 2)]

end Sample

end TcpIp
