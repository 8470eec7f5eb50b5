import TcpIp.Tcp.Receive

/-! The `Send` goroutine, its zero-window probe, and `Write` and `Read`. -/
namespace TcpIp

/-- Where `Send` stands between two critical sections: at the top of its outer loop, in one of
its four condition waits, or inside the unlocked transmit loop. -/
inductive SendPc
  | notStarted
  | top
  | waitData1
  | transmit (amountToSend amountSent : U32)
  | waitData2
  | zeroWait
  | windowWait
  | returned
  deriving DecidableEq

namespace TCB

/-- The wait for unacknowledged data to leave a full window. -/
def sendWindow (s : TCB) : SendPc :=
  if s.snd.nxt - s.snd.una = min32 s.snd.wnd s.cwnd ∧ s.snd.wnd ≠ 0 then
    if s.cancelled then .returned else .windowWait
  else .top

/-- The zero-window branch starts the prober and waits for the window to open. -/
def sendZero (s : TCB) : SendPc :=
  if s.snd.wnd = 0 ∧ s.snd.lbw > s.snd.nxt then .zeroWait else s.sendWindow

/-- The wait for data outside the window loop. -/
def sendData2 (s : TCB) : SendPc :=
  if s.snd.nxt = s.snd.lbw then
    if s.pendingSendingFin then .returned
    else if s.cancelled then .returned
    else .waitData2
  else s.sendZero

/-- The amount computed from the window and the written data. -/
def amountToSend (s : TCB) : U32 :=
  let totalWinIndex := s.snd.una + min32 s.snd.wnd s.cwnd
  min32 (totalWinIndex - s.snd.nxt) (s.snd.lbw - s.snd.nxt)

/-- The wait for data inside the window loop. -/
def sendData1 (s : TCB) : SendPc :=
  if s.snd.nxt = s.snd.lbw then
    if s.pendingSendingFin then .returned
    else if s.cancelled then .returned
    else .waitData1
  else .transmit s.amountToSend 0

/-- The test of the window loop. -/
def sendHead (s : TCB) : SendPc :=
  if s.snd.nxt - s.snd.una < min32 s.snd.wnd s.cwnd then s.sendData1 else s.sendData2

/-- The next segment's payload, cut from the ring. -/
def sendPayload (s : TCB) (amountToCopy : U32) : List U8 :=
  let nxtIndex := sequenceToBufferInd s.snd.nxt
  if nxtIndex + amountToCopy ≥ maxBufSize then
    let amountLeftover := nxtIndex + amountToCopy - maxBufSize
    Ring.slots s.snd.buffer nxtIndex.toNat (maxBufSize - nxtIndex).toNat ++
      Ring.slots s.snd.buffer 0 amountLeftover.toNat
  else Ring.slots s.snd.buffer nxtIndex.toNat amountToCopy.toNat

/-- A data segment at SND.NXT; the probe builds the same one around a single byte. -/
def dataMsg (s : TCB) (key : SocketData) (origin : Origin) (payload : List U8) : Msg where
  origin
  addrs := some (key.localAddr, key.destAddr)
  hdr := createTCPHeader key.localAddr key.destAddr key.localPort key.destPort s.snd.nxt s.rcv.nxt
    tcpFlagAck s.rcv.wnd payload
  payload

/-- One iteration of the transmit loop. -/
def sendSegment (s : TCB) (key : SocketData) (now : Int64) (amountToSend amountSent : U32) :
    SendPc × TCB × List Msg :=
  let amountToCopy := min32 (amountToSend - amountSent) mssData
  let payload := s.sendPayload amountToCopy
  let m := s.dataMsg key .data payload
  if s.cancelled then (.returned, s, [])
  else
    let s1 : TCB := { s with
      retransmissionQueue := s.retransmissionQueue ++ [⟨m.hdr, BitVec.ofNat 32 payload.length⟩]
      snd := { s.snd with nxt := s.snd.nxt + amountToCopy } }
    (.transmit amountToSend (amountSent + amountToCopy), s1.setTimestamp s1.snd.nxt now, [m])

/-- `Send` from one release of the lock (or one emission) to the next. A condition wait may end
at any time: the code tests its condition again. -/
def sendStep (s : TCB) (key : SocketData) (now : Int64) : SendPc → SendPc × TCB × List Msg
  | .notStarted => (.notStarted, s, [])
  | .returned => (.returned, s, [])
  | .top => (s.sendHead, s, [])
  | .waitData1 => (if s.cancelled then .returned else s.sendData1, s, [])
  | .transmit amountToSend amountSent =>
    if amountSent < amountToSend then s.sendSegment key now amountToSend amountSent
    else (s.sendHead, s, [])
  | .waitData2 => (if s.cancelled then .returned else s.sendData2, s, [])
  | .zeroWait =>
    if s.cancelled then (.returned, s, [])
    else if s.snd.wnd = 0 then (.zeroWait, s, [])
    else
      let s1 := { s with snd := { s.snd with nxt := s.snd.nxt + 1 } }
      (s1.sendWindow, s1, [])
  | .windowWait => (if s.cancelled then .returned else s.sendWindow, s, [])

/-- A tick of the probe goroutine. -/
def probe (s : TCB) (key : SocketData) : List Msg :=
  let payload := [s.snd.buffer (sequenceToBufferInd s.snd.nxt).toNat]
  if s.cancelled then [] else [s.dataMsg key .probe payload]

end TCB

/-- How one round of `Write` ends. -/
inductive WriteResult
  /-- neither ESTABLISHED nor CLOSE_WAIT: an error (returned with the lock held) -/
  | closing
  /-- no space: the round waits on `WriteBlockedCond` -/
  | blocked
  | wrote (s : TCB) (bytesToWrite : U32)
  /-- a slice bound past the ring's capacity -/
  | panicked

/-- One round of `Write`'s loop on the data not yet written. -/
def TCB.writeRound (s : TCB) (data : List U8) : WriteResult :=
  if s.state ≠ .established ∧ s.state ≠ .closeWait then .closing
  else if s.snd.lbw - s.snd.una = maxBufSize then .blocked
  else
    let remainingBufSize := maxBufSize - (s.snd.lbw - s.snd.una)
    let bytesToWrite := min32 remainingBufSize (BitVec.ofNat 32 data.length)
    let lbwIndex := sequenceToBufferInd s.snd.lbw
    if lbwIndex + bytesToWrite ≥ maxBufSize then
      let copyToEndOfBufferLen := maxBufSize - lbwIndex
      let copyOverflowLen := bytesToWrite - copyToEndOfBufferLen
      if copyOverflowLen > maxBufSize then .panicked
      else
        let buffer := Ring.copyAt
          (Ring.copyAt s.snd.buffer lbwIndex.toNat (slice data 0 copyToEndOfBufferLen)) 0
          (slice data copyToEndOfBufferLen (copyToEndOfBufferLen + copyOverflowLen))
        .wrote { s with snd := { s.snd with buffer, lbw := s.snd.lbw + bytesToWrite } } bytesToWrite
    else
      let buffer := Ring.copyAt s.snd.buffer lbwIndex.toNat (slice data 0 bytesToWrite)
      .wrote { s with snd := { s.snd with buffer, lbw := s.snd.lbw + bytesToWrite } } bytesToWrite

/-- A call of `Read` under way, with the bytes it has copied so far. -/
structure ReadCall where
  amountToRead : U32
  readAll : Bool
  amountReadSoFar : U32 := 0
  data : List U8 := []
  deriving DecidableEq

/-- How `Read` leaves the lock: it returns a count with its bytes, or EOF, or an error, or it
waits on `ReadBlockedCond`. -/
inductive ReadOutcome
  | returned (amountRead : U32) (data : List U8)
  | eof
  | failed
  | waiting (call : ReadCall)
  deriving DecidableEq

namespace TCB

/-- Copy what is available, up to what is still wanted. -/
def readCopy (s : TCB) (c : ReadCall) : TCB × ReadCall :=
  let leftToReadBuf := s.rcv.nxt - s.rcv.lbr
  let bytesToRead :=
    if c.amountToRead - c.amountReadSoFar < leftToReadBuf then c.amountToRead - c.amountReadSoFar
    else leftToReadBuf
  let lbrIndex := sequenceToBufferInd s.rcv.lbr
  let copied :=
    if lbrIndex + bytesToRead ≥ maxBufSize then
      let copyToEndOfBufferLen := maxBufSize - lbrIndex
      let copyOverflowLen := bytesToRead - copyToEndOfBufferLen
      Ring.slots s.rcv.buffer lbrIndex.toNat copyToEndOfBufferLen.toNat ++
        Ring.slots s.rcv.buffer 0 copyOverflowLen.toNat
    else Ring.slots s.rcv.buffer lbrIndex.toNat bytesToRead.toNat
  ({ s with rcv := { s.rcv with lbr := s.rcv.lbr + bytesToRead, wnd := s.rcv.wnd + bytesToRead } },
    { c with amountReadSoFar := c.amountReadSoFar + bytesToRead, data := c.data ++ copied })

/-- `Read`'s loop, run until it returns or waits; every iteration that copies takes a byte. -/
def readLoop : ℕ → TCB → ReadCall → TCB × ReadOutcome
  | 0, s, c => (s, .waiting c)
  | fuel + 1, s, c =>
    if c.amountReadSoFar < c.amountToRead then
      if s.rcv.lbr = s.rcv.nxt then
        if ¬ c.readAll ∧ c.amountReadSoFar > 0 then (s, .returned c.amountReadSoFar c.data)
        else if s.state = .closeWait ∨ s.timeoutCancelled then (s, .eof)
        else (s, .waiting c)
      else
        let r := s.readCopy c
        readLoop fuel r.1 r.2
    else (s, .returned c.amountReadSoFar c.data)

/-- `Read` resumed in its loop. -/
def readRun (s : TCB) (c : ReadCall) : TCB × ReadOutcome := readLoop (c.amountToRead.toNat + 1) s c

/-- A new call of `Read` on a socket that is in the table. -/
def read (s : TCB) (amountToRead : U32) (readAll : Bool) : TCB × ReadOutcome :=
  if s.timeoutCancelled then (s, .failed)
  else if s.state = .closeWait ∧ s.rcv.lbr = s.rcv.nxt then (s, .eof)
  else s.readRun { amountToRead, readAll }

end TCB

end TcpIp
