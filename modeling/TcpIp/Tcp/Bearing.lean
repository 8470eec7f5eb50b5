import TcpIp.Tcp.Emissions
import TcpIp.Tcp.Handler

/-! Whatever a connection sends has the ports and addresses of its key. -/
namespace TcpIp

/-- The addresses in front of a message. -/
inductive Msg.Addressed (localAddr : U32) (key : SocketData) (m : Msg) : Prop
  | key (h : m.addrs = some (key.localAddr, key.destAddr))
  /-- the FIN of `Close` has the handler's own address as its source -/
  | close (hfin : m.hdr.flags = tcpFlagFin ||| tcpFlagAck)
      (h : m.addrs = some (localAddr, key.destAddr))
  /-- the SYN-ACK of a simultaneous open goes out without addresses -/
  | forgotten (hsyn : m.hdr.flags = tcpFlagSyn ||| tcpFlagAck) (h : m.addrs = none)

/-- The message has the ports and, but for two exceptions, the addresses of the key. -/
structure Msg.Bears (localAddr : U32) (key : SocketData) (m : Msg) : Prop where
  srcPort : m.hdr.srcPort = key.localPort
  dstPort : m.hdr.dstPort = key.destPort
  addrs : m.Addressed localAddr key

/-- What may be resent has the ports of the key. -/
def TCB.QueueOf (key : SocketData) (s : TCB) : Prop :=
  ∀ e ∈ s.retransmissionQueue, e.tcpHeader.srcPort = key.localPort ∧
    e.tcpHeader.dstPort = key.destPort

section Conn

variable {s t : TCB} {key : SocketData} {seg : Segment} {out : List Msg} {m : Msg} {c c' : Conn}
  {env : Env} {localAddr : U32} {l : Label}

/-- Most messages name the key themselves. -/
theorem bears_of_key (hsrc : m.hdr.srcPort = key.localPort) (hdst : m.hdr.dstPort = key.destPort)
    (haddrs : m.addrs = some (key.localAddr, key.destAddr)) : m.Bears localAddr key :=
  ⟨hsrc, hdst, .key haddrs⟩

theorem ackMsg_bears (s : TCB) (key : SocketData) (ackNum : U32) :
    (s.ackMsg key ackNum).Bears localAddr key := bears_of_key rfl rfl rfl

theorem resendMsg_bears (hq : s.QueueOf key) {p : RetransmitSegment}
    (hp : p ∈ s.retransmissionQueue) : (s.resendMsg key p).Bears localAddr key :=
  bears_of_key (hq p hp).1 (hq p hp).2 rfl

theorem receive_bears {now : Int64} (h : s.receive key now seg = some (t, out))
    (hq : s.QueueOf key) : t.QueueOf key ∧ ∀ m ∈ out, m.Bears localAddr key := by
  rcases receive_effect h with ⟨-, rfl, rfl⟩ | ⟨-, u, o₁, o₂, hd, ha, rfl⟩
  · exact ⟨hq, by simp⟩
  have hqu : u.QueueOf key := by
    obtain ⟨st, r, e, rfl⟩ := hd.frame
    exact hq
  have hdata : ∀ m ∈ o₁, m.Bears localAddr key := by
    cases hd with
    | empty => simp
    | refused =>
      intro m hm
      rw [List.mem_singleton.mp hm]
      exact ackMsg_bears _ _ _
    | inOrder | early =>
      intro m hm
      rw [TCB.ackData_eq] at hm
      rw [List.mem_singleton.mp hm]
      exact ackMsg_bears _ _ _
  constructor
  · cases ha with
    | dropped | fast => exact hqu
    | accepted => exact fun e he => hqu e ((List.dropWhile_sublist _).subset he)
  · intro m hm
    rcases List.mem_append.mp hm with hm | hm
    · exact hdata m hm
    · cases ha with
      | dropped | accepted => simp at hm
      | fast b h hcc hqueue =>
        rw [List.mem_singleton.mp hm]
        exact resendMsg_bears hqu (hqueue ▸ List.mem_cons_self)

theorem Conn.receive_bears (h : c.receive env seg = some (c', out)) (hq : c.tcb.QueueOf c.key) :
    c'.tcb.QueueOf c.key ∧ ∀ m ∈ out, m.Bears localAddr c.key := by
  obtain ⟨⟨t, o⟩, hr, heq⟩ := Option.map_eq_some_iff.mp h
  obtain ⟨rfl, rfl⟩ := Prod.mk.inj heq
  exact TcpIp.receive_bears hr hq

theorem receiveFin_bears (hdr : TCPFields) (hq : s.QueueOf key) :
    (s.receiveFin key hdr).1.QueueOf key ∧
      ∀ m ∈ (s.receiveFin key hdr).2, m.Bears localAddr key := by
  constructor
  · simp only [TCB.receiveFin]
    split
    · exact hq
    · split <;> exact hq
  · intro m hm
    rw [TCB.receiveFin_msgs, List.mem_singleton] at hm
    rw [hm]
    exact ackMsg_bears _ _ _

/-- A segment handler keeps to the key, also when the state it was chosen for is no longer the state
of the connection. -/
theorem Conn.handle_bears {st : ConnectionState} (h : c.handle env seg st = some (c', out))
    (hq : c.tcb.QueueOf c.key) :
    c'.tcb.QueueOf c.key ∧ ∀ m ∈ out, m.Bears localAddr c.key := by
  have hnone : ∀ {c' : Conn} {out : List Msg}, c' = c → out = [] →
      c'.tcb.QueueOf c.key ∧ ∀ m ∈ out, m.Bears localAddr c.key := by
    rintro c' out rfl rfl
    exact ⟨hq, by simp⟩
  have hone : ∀ {c' : Conn} {m : Msg}, c'.tcb.QueueOf c.key → m.Bears localAddr c.key →
      c'.tcb.QueueOf c.key ∧ ∀ m' ∈ [m], m'.Bears localAddr c.key := by
    intro c' m hq' hm
    exact ⟨hq', fun m' hm' => List.mem_singleton.mp hm' ▸ hm⟩
  cases st with
  | closed | listen =>
    obtain ⟨rfl, rfl⟩ := Prod.mk.inj (Option.some.inj h)
    exact hnone rfl rfl
  | synSent =>
    simp only [Conn.handle, Conn.handleStateSynSent, Option.some.injEq] at h
    split at h
    · obtain ⟨rfl, rfl⟩ := Prod.mk.inj h
      exact hnone rfl rfl
    split at h
    · split at h
      · obtain ⟨rfl, rfl⟩ := Prod.mk.inj h
        exact hone hq (bears_of_key rfl rfl rfl)
      · obtain ⟨rfl, rfl⟩ := Prod.mk.inj h
        exact hone hq ⟨rfl, rfl, .forgotten rfl rfl⟩
    · obtain ⟨rfl, rfl⟩ := Prod.mk.inj h
      exact hnone rfl rfl
  | synReceived =>
    simp only [Conn.handle, Conn.handleStateSynReceived] at h
    have hout : ∀ m ∈ (if seg.hdr.hasSyn then [c.synAckMsg .control] else []),
        m.Bears localAddr c.key := by
      intro m hm
      split at hm
      · rw [List.mem_singleton.mp hm]
        exact bears_of_key rfl rfl rfl
      · cases hm
    split at h
    · obtain ⟨rfl, rfl⟩ := Prod.mk.inj (Option.some.inj h)
      exact hnone rfl rfl
    split at h
    · split at h
      · split at h
        · obtain ⟨rfl, rfl⟩ := Prod.mk.inj (Option.some.inj h)
          exact ⟨hq, hout⟩
        split at h
        · obtain ⟨rfl, rfl⟩ := Prod.mk.inj (Option.some.inj h)
          exact ⟨hq, hout⟩
        · cases h
      · obtain ⟨rfl, rfl⟩ := Prod.mk.inj (Option.some.inj h)
        exact ⟨hq, hout⟩
    · obtain ⟨rfl, rfl⟩ := Prod.mk.inj (Option.some.inj h)
      exact ⟨hq, hout⟩
  | established =>
    simp only [Conn.handle, Conn.handleEstablished] at h
    split at h
    · obtain ⟨rfl, rfl⟩ := Prod.mk.inj (Option.some.inj h)
      exact receiveFin_bears seg.hdr hq
    · exact Conn.receive_bears h hq
  | finWait1 =>
    simp only [Conn.handle, Conn.handleFinWait1] at h
    split at h
    · split at h
      · have hr : _ ∧ ∀ m ∈ out, m.Bears localAddr _ := Conn.receive_bears h hq
        exact hr
      split at h
      · obtain ⟨rfl, rfl⟩ := Prod.mk.inj (Option.some.inj h)
        exact hone hq (ackMsg_bears _ _ _)
      · exact Conn.receive_bears h hq
    · obtain ⟨rfl, rfl⟩ := Prod.mk.inj (Option.some.inj h)
      exact hnone rfl rfl
  | finWait2 =>
    simp only [Conn.handle, Conn.handleFinWait2] at h
    split at h
    · split at h
      · obtain ⟨rfl, rfl⟩ := Prod.mk.inj (Option.some.inj h)
        exact hnone rfl rfl
      · obtain ⟨rfl, rfl⟩ := Prod.mk.inj (Option.some.inj h)
        exact hone hq (ackMsg_bears _ _ _)
    · exact Conn.receive_bears h hq
  | closing =>
    simp only [Conn.handle, Conn.handleClosing, Option.some.injEq] at h
    split at h <;> obtain ⟨rfl, rfl⟩ := Prod.mk.inj h
    · exact ⟨hq, by simp⟩
    · exact hnone rfl rfl
  | timeWait =>
    simp only [Conn.handle, Conn.handleTimeWait, Option.some.injEq] at h
    split at h <;> obtain ⟨rfl, rfl⟩ := Prod.mk.inj h
    · exact hone hq (ackMsg_bears _ _ _)
    · exact hnone rfl rfl
  | closeWait =>
    simp only [Conn.handle, Conn.handleCloseWait, Option.some.injEq] at h
    split at h <;> obtain ⟨rfl, rfl⟩ := Prod.mk.inj h
    · exact hone hq (ackMsg_bears _ _ _)
    · exact hnone rfl rfl
  | lastAck =>
    simp only [Conn.handle, Conn.handleLastAck, Option.some.injEq] at h
    split at h <;> obtain ⟨rfl, rfl⟩ := Prod.mk.inj h
    · obtain ⟨k, hk⟩ :=
        ({ c.tcb with state := .closed } : TCB).removeFromRetransmissionQueue_eq seg.hdr.ackNum
      refine ⟨fun e he => ?_, by simp⟩
      rw [hk] at he
      exact hq e ((List.dropWhile_sublist _).subset he)
    · exact hnone rfl rfl

theorem sendStep_bears {now : Int64} {pc pc' : SendPc} (h : s.sendStep key now pc = (pc', t, out))
    (hq : s.QueueOf key) : t.QueueOf key ∧ ∀ m ∈ out, m.Bears localAddr key := by
  cases sendStep_effect h with
  | jump | zeroExit => exact ⟨hq, by simp⟩
  | segment b hlt hc =>
    constructor
    · intro e he
      rcases List.mem_append.mp he with hold | hnew
      · exact hq e hold
      · rw [List.mem_singleton.mp hnew]
        exact ⟨rfl, rfl⟩
    · intro m hm
      rw [List.mem_singleton.mp hm]
      exact bears_of_key rfl rfl rfl

theorem closeStep_bears (hq : c.tcb.QueueOf c.key) : c.closeStep.1.tcb.QueueOf c.key ∧
    ∀ m ∈ c.closeStep.2.msgs, m.Bears c.localAddr c.key := by
  unfold Conn.closeStep
  split
  · exact ⟨hq, by simp⟩
  · constructor
    · intro e he
      rcases List.mem_append.mp he with hold | hnew
      · exact hq e hold
      · rw [List.mem_singleton.mp hnew]
        exact ⟨rfl, rfl⟩
    · intro m hm
      rw [List.mem_singleton.mp hm]
      exact ⟨rfl, rfl, .close rfl rfl⟩

theorem readRun_queue (s : TCB) (call : ReadCall) :
    (s.readRun call).1.retransmissionQueue = s.retransmissionQueue := by
  have heff : ReadEffect s call (s.readRun call).1 (s.readRun call).2 := readLoop_effect _
  obtain ⟨n, -, hn, -⟩ := heff.consumed
  rw [hn]
  rfl

theorem read_queue (s : TCB) (n : U32) (readAll : Bool) :
    (s.read n readAll).1.retransmissionQueue = s.retransmissionQueue := by
  unfold TCB.read
  split
  · rfl
  split
  · rfl
  · exact readRun_queue _ _

end Conn

end TcpIp
