import Mathlib.Tactic

/-! TCP header fields, their checksum, and what the handler hands to the IP layer. -/
namespace TcpIp

abbrev U8 := BitVec 8
abbrev U16 := BitVec 16
abbrev U32 := BitVec 32

/-- `MAX_BUF_SIZE`, the size of each ring and the largest window. -/
def maxBufSize : U32 := 65535
/-- `MSS_DATA`. -/
def mssData : U32 := 1360

@[simp] theorem toNat_maxBufSize : maxBufSize.toNat = 65535 := rfl
@[simp] theorem toNat_mssData : mssData.toNat = 1360 := rfl

def sequenceToBufferInd (val : U32) : U32 := val % maxBufSize

def min32 (val1 val2 : U32) : U32 := if val1 < val2 then val1 else val2

@[simp] theorem toNat_sequenceToBufferInd (val : U32) :
    (sequenceToBufferInd val).toNat = val.toNat % 65535 := by
  simp [sequenceToBufferInd]

@[simp] theorem toNat_min32 (val1 val2 : U32) :
    (min32 val1 val2).toNat = min val1.toNat val2.toNat := by
  unfold min32
  split <;> rename_i h <;> simp only [BitVec.lt_def] at h <;> omega

structure SocketData where
  localAddr : U32
  localPort : U16
  destAddr : U32
  destPort : U16
  deriving DecidableEq

/-- netstack's `header.TCPFields`. -/
structure TCPFields where
  srcPort : U16
  dstPort : U16
  seqNum : U32
  ackNum : U32
  dataOffset : U8
  flags : U8
  windowSize : U16
  checksum : U16
  urgentPointer : U16
  deriving DecidableEq

def tcpFlagFin : U8 := 1
def tcpFlagSyn : U8 := 2
def tcpFlagAck : U8 := 16

namespace TCPFields

def hasFin (h : TCPFields) : Bool := h.flags &&& tcpFlagFin != 0
def hasSyn (h : TCPFields) : Bool := h.flags &&& tcpFlagSyn != 0
def hasAck (h : TCPFields) : Bool := h.flags &&& tcpFlagAck != 0

end TCPFields

def be16 (v : U16) : List U8 := [(v >>> 8).setWidth 8, v.setWidth 8]

def be32 (v : U32) : List U8 := be16 ((v >>> 16).setWidth 16) ++ be16 (v.setWidth 16)

/-- `header.TCP.Encode`: the 20 bytes of the RFC 793 layout. -/
def TCPFields.encode (h : TCPFields) : List U8 :=
  be16 h.srcPort ++ be16 h.dstPort ++ be32 h.seqNum ++ be32 h.ackNum ++
    [(h.dataOffset / 4) <<< 4, h.flags] ++ be16 h.windowSize ++ be16 h.checksum ++
    be16 h.urgentPointer

/-- Sum of the big-endian 16-bit words, an odd last byte being padded with zero. -/
def wordSum : List U8 → ℕ
  | [] => 0
  | [b] => b.toNat * 256
  | b :: c :: rest => b.toNat * 256 + c.toNat + wordSum rest

/-- `header.Checksum`: one's-complement sum on top of `initial`, carries folded back in. -/
def checksum (buf : List U8) (initial : U16) : U16 :=
  let v := initial.toNat + wordSum buf
  let v := v % 2 ^ 16 + v / 2 ^ 16
  BitVec.ofNat 16 (v + v / 2 ^ 16)

/-- Protocol number 6 and the length of header and payload close the pseudo header. -/
def computeTCPChecksum (tcpHdr : TCPFields) (sourceIP destIP : U32) (payload : List U8) : U16 :=
  let pshBytes := be32 sourceIP ++ be32 destIP ++ [0, 6] ++ be16 (BitVec.ofNat 16 (20 + payload.length))
  let pseudoHeaderChecksum := checksum pshBytes 0
  let headerChecksum := checksum tcpHdr.encode pseudoHeaderChecksum
  checksum payload headerChecksum ^^^ 0xffff

/-- The checksum test of `ReceivePacket`. -/
def TCPFields.checksumValid (hdr : TCPFields) (localAddr destAddr : U32) (payload : List U8) :
    Prop :=
  computeTCPChecksum { hdr with checksum := 0 } localAddr destAddr payload = hdr.checksum

instance (hdr : TCPFields) (localAddr destAddr : U32) (payload : List U8) :
    Decidable (hdr.checksumValid localAddr destAddr payload) :=
  inferInstanceAs (Decidable (_ = _))

def createTCPHeader (srcAddr destAddr : U32) (srcPort dstPort : U16) (seqNum ackNum : U32)
    (flags : U8) (windowSize : U32) (payload : List U8) : TCPFields :=
  let tcpHdr : TCPFields :=
    { srcPort, dstPort, seqNum, ackNum, dataOffset := 20, flags,
      windowSize := windowSize.setWidth 16, checksum := 0, urgentPointer := 0 }
  { tcpHdr with checksum := computeTCPChecksum tcpHdr srcAddr destAddr payload }

/-- Which code built a message; not part of its bytes. -/
inductive Origin
  | control | ack | data | probe | resend
  deriving DecidableEq

/-- A byte string put on `IPLayerChannel`, kept apart into the two leading addresses (absent on
the path that forgets them), the header and the payload. -/
structure Msg where
  origin : Origin
  addrs : Option (U32 × U32)
  hdr : TCPFields
  payload : List U8

/-- A segment handed to the TCP handler; it travelled in one IP packet. -/
structure Segment where
  hdr : TCPFields
  payload : List U8
  payload_le : payload.length ≤ 65535
  deriving DecidableEq

theorem Segment.nil_le : ([] : List U8).length ≤ 65535 := by simp

section Header

variable (srcAddr destAddr : U32) (srcPort dstPort : U16) (seqNum ackNum : U32) (flags : U8)
  (windowSize : U32) (payload : List U8)

@[simp] theorem createTCPHeader_seqNum : (createTCPHeader srcAddr destAddr srcPort dstPort seqNum
    ackNum flags windowSize payload).seqNum = seqNum := rfl

@[simp] theorem createTCPHeader_ackNum : (createTCPHeader srcAddr destAddr srcPort dstPort seqNum
    ackNum flags windowSize payload).ackNum = ackNum := rfl

@[simp] theorem createTCPHeader_flags : (createTCPHeader srcAddr destAddr srcPort dstPort seqNum
    ackNum flags windowSize payload).flags = flags := rfl

@[simp] theorem createTCPHeader_windowSize : (createTCPHeader srcAddr destAddr srcPort dstPort
    seqNum ackNum flags windowSize payload).windowSize = windowSize.setWidth 16 := rfl

theorem createTCPHeader_hasFin : (createTCPHeader srcAddr destAddr srcPort dstPort seqNum ackNum
    tcpFlagAck windowSize payload).hasFin = false := by
  simp [TCPFields.hasFin, tcpFlagAck, tcpFlagFin]

end Header

end TcpIp
