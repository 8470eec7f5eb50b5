import TcpIp.Lib.Ring
import TcpIp.Tcp.Wire

/-! The transmission control block and the queue of early arrivals. -/
namespace TcpIp

inductive ConnectionState
  | closed | listen | synSent | synReceived | established | finWait1 | finWait2 | closing
  | timeWait | closeWait | lastAck
  deriving DecidableEq

/-- The sending half; `buffer` is the ring of `MAX_BUF_SIZE` bytes. -/
structure Send where
  buffer : ℕ → U8
  una : U32
  nxt : U32
  wnd : U32
  iss : U32
  lbw : U32

/-- The receiving half; `lbr` is the next byte to be read by the application. -/
structure Receive where
  buffer : ℕ → U8
  nxt : U32
  wnd : U32
  irs : U32
  lbr : U32

structure EarlyArrivalEntry where
  sequenceNum : U32
  payloadLen : U32
  deriving DecidableEq

structure RetransmitSegment where
  tcpHeader : TCPFields
  payloadLen : U32
  deriving DecidableEq

structure TCB where
  state : ConnectionState
  snd : Send
  rcv : Receive
  cancelled : Bool := false
  timeoutCancelled : Bool := false
  resetWaitChan : Bool := false
  rto : Int64
  srtt : Int64
  retransmissionQueue : List RetransmitSegment := []
  retransmitCounter : ℕ := 0
  segmentToTimestamp : U32 → Option Int64 := fun _ => none
  pendingReceivedFin : U32 := 0
  pendingSendingFin : Bool := false
  earlyArrivals : List EarlyArrivalEntry := []
  cwnd : U32
  ssthresh : U32 := 0
  cControlEnabled : Bool := false
  currentAck : U32 := 0
  currentAckFreq : ℕ := 0

namespace EarlyArrivalQueue

/-- The new entry goes before the first one it ends before, else to the end. -/
def push : List EarlyArrivalEntry → EarlyArrivalEntry → List EarlyArrivalEntry
  | [], newEntry => [newEntry]
  | e :: rest, newEntry =>
    if newEntry.sequenceNum + newEntry.payloadLen ≤ e.sequenceNum then newEntry :: e :: rest
    else e :: push rest newEntry

theorem mem_push {q : List EarlyArrivalEntry} {e newEntry : EarlyArrivalEntry} :
    e ∈ push q newEntry ↔ e = newEntry ∨ e ∈ q := by
  induction q with
  | nil => simp [push]
  | cons a rest ih =>
    unfold push
    split
    · simp
    · simp only [List.mem_cons, ih]
      tauto

end EarlyArrivalQueue

/-- Pop entries while the head starts at the next expected number. -/
def updateAckNum : List EarlyArrivalEntry → U32 → List EarlyArrivalEntry × U32
  | [], entryNum => ([], entryNum)
  | e :: rest, entryNum =>
    if entryNum = e.sequenceNum then updateAckNum rest (e.sequenceNum + e.payloadLen)
    else (e :: rest, entryNum)

theorem updateAckNum_subset {q : List EarlyArrivalEntry} {n : U32} {e : EarlyArrivalEntry}
    (h : e ∈ (updateAckNum q n).1) : e ∈ q := by
  induction q generalizing n with
  | nil => simp [updateAckNum] at h
  | cons a rest ih =>
    unfold updateAckNum at h
    split at h
    · exact List.mem_cons_of_mem _ (ih h)
    · exact h

/-- Induction along the merge: what holds at the start and survives taking over an entry that
starts at the current number holds of the result. -/
theorem updateAckNum_induction {P : U32 → Prop} {q : List EarlyArrivalEntry} {n : U32} (h0 : P n)
    (hs : ∀ e ∈ q, P e.sequenceNum → P (e.sequenceNum + e.payloadLen)) :
    P (updateAckNum q n).2 := by
  induction q generalizing n with
  | nil => exact h0
  | cons a rest ih =>
    unfold updateAckNum
    split
    · rename_i he
      subst he
      exact ih (hs a List.mem_cons_self h0) fun e he => hs e (List.mem_cons_of_mem _ he)
    · exact h0

namespace TCB

/-- Every pure acknowledgement is built from these fields. -/
def ackMsg (s : TCB) (key : SocketData) (ackNum : U32) : Msg where
  origin := .ack
  addrs := some (key.localAddr, key.destAddr)
  hdr := createTCPHeader key.localAddr key.destAddr key.localPort key.destPort s.snd.nxt ackNum
    tcpFlagAck s.rcv.wnd []
  payload := []

end TCB

end TcpIp
