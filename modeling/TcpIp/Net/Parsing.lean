import TcpIp.Net.Framing
import TcpIp.Tcp.Handler

/-! The bytes of a packet on their way through `TCPHandler.ReceivePacket`. -/
namespace TcpIp

/-! The accessors of netstack's `header.TCP`; `none` is an index or a slice out of range. -/
namespace TCPHeader

open Binary (readAt)

variable (b : List U8)

def sourcePort : Option U16 := readAt 16 0 b
def destinationPort : Option U16 := readAt 16 2 b
def sequenceNumber : Option U32 := readAt 32 4 b
def ackNumber : Option U32 := readAt 32 8 b
def dataOffset : Option U8 := (readAt 8 12 b).map fun v : U8 => (v >>> 4) * 4
def flags : Option U8 := readAt 8 13 b
def windowSize : Option U16 := readAt 16 14 b
def checksum : Option U16 := readAt 16 16 b

end TCPHeader

/-- `ParseTCPHeader`, which leaves the urgent pointer at 0. -/
def parseTCPHeader (b : List U8) : Option TCPFields := do
  return {
    srcPort := ← TCPHeader.sourcePort b
    dstPort := ← TCPHeader.destinationPort b
    seqNum := ← TCPHeader.sequenceNumber b
    ackNum := ← TCPHeader.ackNumber b
    dataOffset := ← TCPHeader.dataOffset b
    flags := ← TCPHeader.flags b
    windowSize := ← TCPHeader.windowSize b
    checksum := ← TCPHeader.checksum b
    urgentPointer := 0 }

def marshallTCPHeader (tcpHeader : TCPFields) : List U8 := tcpHeader.encode

/-- The payload is cut off at the data offset before anything else is looked at. -/
def parseSegment (tcpData : List U8) : Option (TCPFields × List U8) :=
  (TCPHeader.dataOffset tcpData).bind fun offset =>
    if offset.toNat ≤ tcpData.length then
      (parseTCPHeader tcpData).map fun fields => (fields, tcpData.drop offset.toNat)
    else none

/-- What `ReceivePacket` comes to. -/
inductive Delivery
  | panicked
  | dropped
  /-- the call of the handler for the state -/
  | handled (st : ConnectionState) (hdr : TCPFields) (payload : List U8)
  deriving DecidableEq

namespace Handler

/-- The key a segment is for: that of its connection, else that of a listener. -/
def keyFor (h : Handler) (localAddr destAddr : U32) (hdr : TCPFields) : SocketData :=
  let key : SocketData := ⟨localAddr, hdr.dstPort, destAddr, hdr.srcPort⟩
  let listenerKey : SocketData := ⟨localAddr, hdr.dstPort, 0, 0⟩
  if (h.socketTable key).isNone ∧ (h.socketTable listenerKey).isSome then listenerKey else key

def entryFor (h : Handler) (localAddr destAddr : U32) (hdr : TCPFields) : Option Entry :=
  (h.socketTable (h.keyFor localAddr destAddr hdr)).bind fun p => h.heap[p]?

/-- `ReceivePacket` after the checksum test. -/
def dispatch (h : Handler) (localAddr destAddr : U32) (hdr : TCPFields) (payload : List U8) :
    Delivery :=
  match h.entryFor localAddr destAddr hdr with
  | none => .dropped
  | some e => if e.state = .closed then .dropped else .handled e.state hdr payload

/-- `ReceivePacket` on the bytes that came in the packet. -/
def receiveIPPacket (h : Handler) (packet : Ip.IPPacket) : Delivery :=
  let localAddr := packet.header.dst
  let destAddr := packet.header.src
  match parseSegment packet.data with
  | none => .panicked
  | some (hdr, payload) =>
    if ¬ hdr.checksumValid localAddr destAddr payload then .dropped
    else h.dispatch localAddr destAddr hdr payload

end Handler

section RoundTrip

theorem be16_eq (v : U16) : be16 v = Binary.toBytes 2 v.toNat := by
  have hhigh : (v >>> 8).setWidth 8 = BitVec.ofNat 8 (v.toNat / 256) := by
    apply BitVec.eq_of_toNat_eq
    simp [Nat.shiftRight_eq_div_pow]
  have hlow : v.setWidth 8 = BitVec.ofNat 8 v.toNat := by
    apply BitVec.eq_of_toNat_eq
    simp
  simp only [be16, Binary.toBytes, hhigh, hlow, List.nil_append, List.cons_append]

theorem be32_eq (v : U32) : be32 v = Binary.toBytes 4 v.toNat := by
  have hv := v.isLt
  have hhigh : ((v >>> 16).setWidth 16).toNat = v.toNat / 65536 := by
    simp only [BitVec.toNat_setWidth, BitVec.toNat_ushiftRight, Nat.shiftRight_eq_div_pow]
    omega
  have hlow : BitVec.ofNat 8 (v.setWidth 16).toNat = BitVec.ofNat 8 v.toNat := by
    apply BitVec.eq_of_toNat_eq
    simp only [BitVec.toNat_setWidth, BitVec.toNat_ofNat]
    omega
  have hmid : BitVec.ofNat 8 ((v.setWidth 16).toNat / 256) = BitVec.ofNat 8 (v.toNat / 256) := by
    apply BitVec.eq_of_toNat_eq
    simp only [BitVec.toNat_setWidth, BitVec.toNat_ofNat]
    omega
  rw [be32, be16_eq, be16_eq, hhigh]
  simp only [Binary.toBytes, hlow, hmid, List.nil_append, List.cons_append, Nat.div_div_eq_div_mul]

variable {b : List U8} {i : ℕ}

theorem readAt_be16 {v : U16} (h : (b.drop i).take 2 = be16 v) : Binary.readAt 16 i b = some v :=
  Binary.readAt_eq_some (n := 2) rfl (by decide) (h.trans (be16_eq v))

theorem readAt_be32 {v : U32} (h : (b.drop i).take 4 = be32 v) : Binary.readAt 32 i b = some v :=
  Binary.readAt_eq_some (n := 4) rfl (by decide) (h.trans (be32_eq v))

theorem readAt_byte {v : U8} (h : (b.drop i).take 1 = [v]) : Binary.readAt 8 i b = some v :=
  Binary.readAt_eq_some (n := 1) rfl (by decide) (by simp [h, Binary.toBytes])

theorem dataOffset_encode {hdr : TCPFields} {payload : List U8} (hoff : hdr.dataOffset = 20) :
    TCPHeader.dataOffset (hdr.encode ++ payload) = some 20 := by
  have hbyte : Binary.readAt 8 12 (hdr.encode ++ payload) = some ((hdr.dataOffset / 4) <<< 4) :=
    readAt_byte rfl
  rw [TCPHeader.dataOffset, hbyte, hoff]
  rfl

/-- Every field but the last is read where it was written. -/
theorem parseTCPHeader_encode (hdr : TCPFields) (payload : List U8) (hoff : hdr.dataOffset = 20) :
    parseTCPHeader (hdr.encode ++ payload) = some { hdr with urgentPointer := 0 } := by
  have hsrc : TCPHeader.sourcePort (hdr.encode ++ payload) = some hdr.srcPort :=
    readAt_be16 rfl
  have hdst : TCPHeader.destinationPort (hdr.encode ++ payload) = some hdr.dstPort :=
    readAt_be16 rfl
  have hseq : TCPHeader.sequenceNumber (hdr.encode ++ payload) = some hdr.seqNum :=
    readAt_be32 rfl
  have hack : TCPHeader.ackNumber (hdr.encode ++ payload) = some hdr.ackNum :=
    readAt_be32 rfl
  have hflags : TCPHeader.flags (hdr.encode ++ payload) = some hdr.flags :=
    readAt_byte rfl
  have hwnd : TCPHeader.windowSize (hdr.encode ++ payload) = some hdr.windowSize :=
    readAt_be16 rfl
  have hsum : TCPHeader.checksum (hdr.encode ++ payload) = some hdr.checksum :=
    readAt_be16 rfl
  rw [parseTCPHeader, hsrc, hdst, hseq, hack, dataOffset_encode hoff, hflags, hwnd, hsum]
  simp [hoff]

theorem parseSegment_encode (hdr : TCPFields) (payload : List U8) (hoff : hdr.dataOffset = 20)
    (hurgent : hdr.urgentPointer = 0) :
    parseSegment (hdr.encode ++ payload) = some (hdr, payload) := by
  have hle : 20 ≤ hdr.encode.length + payload.length := by simp [length_encode]
  have hdrop : (hdr.encode ++ payload).drop 20 = payload := rfl
  have hsame : { hdr with urgentPointer := 0 } = hdr := by
    rw [← hurgent]
  have hparse := parseTCPHeader_encode hdr payload hoff
  rw [hsame] at hparse
  simp [parseSegment, dataOffset_encode hoff, hparse, hdrop, hle]

/-- The two addresses of the pseudo header count alike. -/
theorem computeTCPChecksum_swap (hdr : TCPFields) (addr addr' : U32) (payload : List U8) :
    computeTCPChecksum hdr addr addr' payload = computeTCPChecksum hdr addr' addr payload := by
  have hsum : ∀ rest, wordSum (be32 addr ++ be32 addr' ++ rest) =
      wordSum (be32 addr' ++ be32 addr ++ rest) := by
    intro rest
    simp only [be32, be16, List.cons_append, List.nil_append, wordSum]
    omega
  simp only [computeTCPChecksum, checksum, List.append_assoc] at hsum ⊢
  simp only [hsum]

end RoundTrip

section Accepted

/-- A segment that is built here passes the checksum test of the receiver, whose local address is
the sender's destination, and is parsed to the fields and the payload it was built from. -/
theorem created_segment_accepted (h : Handler) (packet : Ip.IPPacket) (srcPort dstPort : U16)
    (seqNum ackNum : U32) (flags : U8) (windowSize : U32) (payload : List U8)
    (hwnd : windowSize ≤ 65535)
    (hdata : packet.data = marshallTCPHeader (createTCPHeader packet.header.src packet.header.dst
      srcPort dstPort seqNum ackNum flags windowSize payload) ++ payload) :
    ∃ fields, parseSegment packet.data = some (fields, payload) ∧
      fields.checksumValid packet.header.dst packet.header.src payload ∧
      h.receiveIPPacket packet = h.dispatch packet.header.dst packet.header.src fields payload ∧
      fields.srcPort = srcPort ∧ fields.dstPort = dstPort ∧ fields.seqNum = seqNum ∧
      fields.ackNum = ackNum ∧ fields.flags = flags ∧
      fields.windowSize.toNat = windowSize.toNat := by
  set hdr := createTCPHeader packet.header.src packet.header.dst srcPort dstPort seqNum ackNum
    flags windowSize payload with hhdr
  have hparse : parseSegment packet.data = some (hdr, payload) := by
    rw [hdata]
    exact parseSegment_encode hdr payload rfl rfl
  have hvalid : hdr.checksumValid packet.header.dst packet.header.src payload := by
    rw [TCPFields.checksumValid, computeTCPChecksum_swap]
    exact checksumValid_createTCPHeader _ _ _ _ _ _ _ _ _
  refine ⟨hdr, hparse, hvalid, ?_, rfl, rfl, rfl, rfl, rfl, ?_⟩
  · simp only [Handler.receiveIPPacket, hparse]
    rw [if_neg (not_not.mpr hvalid)]
  · rw [hhdr, createTCPHeader_windowSize, BitVec.toNat_setWidth]
    bv_omega

/-- A SYN with an odd payload, for a listener. -/
theorem created_segment_accepted_odd_payload :
    let packet := Ip.createIPPacket 2 1 (marshallTCPHeader
      (createTCPHeader 2 1 2000 5000 4294967295 7 tcpFlagSyn 65535 [1, 2, 3]) ++ [1, 2, 3]) 6 16
    ([1, 2, 3] : List U8).length ≤ mssData.toNat ∧
    ∃ fields, parseSegment packet.data = some (fields, [1, 2, 3]) ∧
      fields.checksumValid 1 2 [1, 2, 3] ∧
      (Handler.init 1 1024).receiveIPPacket packet =
        (Handler.init 1 1024).dispatch 1 2 fields [1, 2, 3] ∧
      fields.srcPort = 2000 ∧ fields.dstPort = 5000 ∧ fields.seqNum = 4294967295 ∧
      fields.ackNum = 7 ∧ fields.flags = tcpFlagSyn ∧
      fields.windowSize.toNat = (65535 : U32).toNat :=
  ⟨by decide, created_segment_accepted (Handler.init 1 1024) (Ip.createIPPacket 2 1
    (marshallTCPHeader (createTCPHeader 2 1 2000 5000 4294967295 7 tcpFlagSyn 65535 [1, 2, 3]) ++
      [1, 2, 3]) 6 16) 2000 5000 4294967295 7 tcpFlagSyn 65535 [1, 2, 3] (by decide) rfl⟩

end Accepted

section Malformed

/-- No index or slice is out of range, and what a handler gets has a whole header. -/
def Handler.DropsMalformed (h : Handler) (packet : Ip.IPPacket) : Prop :=
  h.receiveIPPacket packet ≠ .panicked ∧
    ∀ st hdr payload, h.receiveIPPacket packet = .handled st hdr payload →
      20 ≤ packet.data.length ∧ 20 ≤ hdr.dataOffset.toNat ∧
        hdr.dataOffset.toNat ≤ packet.data.length

/-- Where the payload starts, for data that is long enough to say so. -/
def payloadStart (b : List U8) : ℕ := ((TCPHeader.dataOffset b).getD 0).toNat

variable {b payload : List U8} {hdr : TCPFields}

/-- The checksum is the last field that is read. -/
theorem parseTCPHeader_isSome : (parseTCPHeader b).isSome ↔ 18 ≤ b.length := by
  constructor
  · intro h
    by_contra hshort
    have hnone : TCPHeader.checksum b = none := if_neg (by omega)
    simp [parseTCPHeader, hnone] at h
  · intro hlong
    have hread : ∀ w i, i + w / 8 ≤ 18 → ∃ v, Binary.readAt w i b = some v := fun w i hle =>
      Option.isSome_iff_exists.mp (Binary.readAt_isSome.mpr (hle.trans hlong))
    obtain ⟨srcPort, hsrc⟩ := hread 16 0 (by decide)
    obtain ⟨dstPort, hdst⟩ := hread 16 2 (by decide)
    obtain ⟨seqNum, hseq⟩ := hread 32 4 (by decide)
    obtain ⟨ackNum, hack⟩ := hread 32 8 (by decide)
    obtain ⟨offset, hoff⟩ := hread 8 12 (by decide)
    obtain ⟨flags, hflags⟩ := hread 8 13 (by decide)
    obtain ⟨wnd, hwnd⟩ := hread 16 14 (by decide)
    obtain ⟨sum, hsum⟩ := hread 16 16 (by decide)
    simp [parseTCPHeader, TCPHeader.sourcePort, TCPHeader.destinationPort,
      TCPHeader.sequenceNumber, TCPHeader.ackNumber, TCPHeader.dataOffset, TCPHeader.flags,
      TCPHeader.windowSize, TCPHeader.checksum, hsrc, hdst, hseq, hack, hoff, hflags, hwnd, hsum]

theorem dataOffset_of_parse (h : parseTCPHeader b = some hdr) :
    TCPHeader.dataOffset b = some hdr.dataOffset := by
  simp only [parseTCPHeader, Option.bind_eq_bind, Option.bind_eq_some_iff, Option.pure_def,
    Option.some.injEq] at h
  obtain ⟨-, -, -, -, -, -, -, -, offset, hoff, -, -, -, -, -, -, rfl⟩ := h
  exact hoff

theorem parseSegment_eq_some_iff : parseSegment b = some (hdr, payload) ↔
    parseTCPHeader b = some hdr ∧ payloadStart b ≤ b.length ∧ payload = b.drop (payloadStart b) := by
  constructor
  · intro h
    obtain ⟨offset, hoff, h⟩ := Option.bind_eq_some_iff.mp h
    split at h
    · rename_i hle
      obtain ⟨fields, hparse, heq⟩ := Option.map_eq_some_iff.mp h
      obtain ⟨rfl, rfl⟩ := Prod.mk.inj heq
      simp [payloadStart, hoff, hparse, hle]
    · cases h
  · rintro ⟨hparse, hle, rfl⟩
    have hoff := dataOffset_of_parse hparse
    simp only [payloadStart, hoff, Option.getD_some] at hle
    simp [parseSegment, payloadStart, hoff, hparse, hle]

theorem parseSegment_isSome :
    (parseSegment b).isSome ↔ 18 ≤ b.length ∧ payloadStart b ≤ b.length := by
  rw [Option.isSome_iff_exists, ← parseTCPHeader_isSome, Option.isSome_iff_exists]
  constructor
  · rintro ⟨⟨hdr, payload⟩, h⟩
    obtain ⟨hparse, hle, -⟩ := parseSegment_eq_some_iff.mp h
    exact ⟨⟨hdr, hparse⟩, hle⟩
  · rintro ⟨⟨hdr, hparse⟩, hle⟩
    exact ⟨(hdr, _), parseSegment_eq_some_iff.mpr ⟨hparse, hle, rfl⟩⟩

/-- What a handler gets has passed the checksum test and found a live entry. -/
theorem receiveIPPacket_eq_handled_iff {h : Handler} {packet : Ip.IPPacket}
    {st : ConnectionState} : h.receiveIPPacket packet = .handled st hdr payload ↔
      parseSegment packet.data = some (hdr, payload) ∧
        hdr.checksumValid packet.header.dst packet.header.src payload ∧
        ∃ e, h.entryFor packet.header.dst packet.header.src hdr = some e ∧ e.state ≠ .closed ∧
          e.state = st := by
  unfold Handler.receiveIPPacket
  cases hparse : parseSegment packet.data with
  | none => simp
  | some r =>
    obtain ⟨hdr', payload'⟩ := r
    by_cases hvalid : hdr'.checksumValid packet.header.dst packet.header.src payload'
    · simp only [hvalid, not_true_eq_false, if_false, Handler.dispatch, Option.some.injEq,
        Prod.mk.injEq]
      cases hentry : h.entryFor packet.header.dst packet.header.src hdr' with
      | none =>
        simp only [reduceCtorEq, false_iff, not_and]
        rintro ⟨rfl, rfl⟩ -
        simp [hentry]
      | some e =>
        by_cases hclosed : e.state = .closed
        · simp only [hclosed, if_true, reduceCtorEq, false_iff, not_and]
          rintro ⟨rfl, rfl⟩ -
          simp [hentry, hclosed]
        · simp only [hclosed, if_false, Delivery.handled.injEq]
          constructor
          · rintro ⟨rfl, rfl, rfl⟩
            exact ⟨⟨rfl, rfl⟩, hvalid, e, hentry, hclosed, rfl⟩
          · rintro ⟨⟨rfl, rfl⟩, -, e', he', -, rfl⟩
            obtain rfl := Option.some.inj (hentry.symm.trans he')
            exact ⟨rfl, rfl, rfl⟩
    · simp only [hvalid, not_false_eq_true, if_true, reduceCtorEq, Option.some.injEq,
        Prod.mk.injEq, false_iff, not_and]
      rintro ⟨rfl, rfl⟩ hvalid'
      exact absurd hvalid' hvalid

theorem receiveIPPacket_eq_panicked_iff {h : Handler} {packet : Ip.IPPacket} :
    h.receiveIPPacket packet = .panicked ↔ parseSegment packet.data = none := by
  have hdispatch : ∀ hdr payload,
      h.dispatch packet.header.dst packet.header.src hdr payload ≠ .panicked := by
    intro hdr payload
    unfold Handler.dispatch
    split
    · simp
    · split <;> simp
  unfold Handler.receiveIPPacket
  cases parseSegment packet.data with
  | none => simp
  | some r =>
    by_cases hvalid : r.1.checksumValid packet.header.dst packet.header.src r.2
    · simp [hvalid, hdispatch]
    · simp [hvalid]

theorem Handler.receivePacket_eq {h : Handler} {localAddr destAddr : U32} {seg : Segment}
    (hvalid : seg.hdr.checksumValid localAddr destAddr seg.payload) :
    h.receivePacket localAddr destAddr seg =
      match h.socketTable (h.keyFor localAddr destAddr seg.hdr) with
      | none => (h, { answer := .dropped })
      | some p => (h.spawn [.found p (h.keyFor localAddr destAddr seg.hdr)
          ⟨localAddr, seg.hdr.dstPort, destAddr, seg.hdr.srcPort⟩ seg], {}) := by
  rw [Handler.receivePacket, if_neg (not_not.mpr hvalid)]
  rfl

/-- The handlers run on the segments that the machine of the handler takes as its input. -/
theorem receiveIPPacket_eq_handled_iff_found {h : Handler} {packet : Ip.IPPacket} {seg : Segment}
    {st : ConnectionState} (hparse : parseSegment packet.data = some (seg.hdr, seg.payload)) :
    h.receiveIPPacket packet = .handled st seg.hdr seg.payload ↔
      ∃ p key socketData, h.receivePacket packet.header.dst packet.header.src seg =
          (h.spawn [.found p key socketData seg], {}) ∧
        ∃ e, h.heap[p]? = some e ∧ e.state ≠ .closed ∧ e.state = st := by
  rw [receiveIPPacket_eq_handled_iff, hparse, Handler.entryFor]
  by_cases hvalid : seg.hdr.checksumValid packet.header.dst packet.header.src seg.payload
  · rw [Handler.receivePacket_eq hvalid]
    cases h.socketTable (h.keyFor packet.header.dst packet.header.src seg.hdr) with
    | none => simp
    | some p => simp [Handler.spawn, hvalid]
  · simp [Handler.receivePacket, hvalid]

/-- `ReceivePacket` is safe on a packet exactly if its data reaches to the end of the checksum
field and of the header, and, where the header is cut short, the checksum does not happen to fit a
segment for a live entry. -/
theorem drops_malformed_iff (h : Handler) (packet : Ip.IPPacket) :
    h.DropsMalformed packet ↔
      18 ≤ packet.data.length ∧ payloadStart packet.data ≤ packet.data.length ∧
        (packet.data.length < 20 ∨ payloadStart packet.data < 20 →
          ∀ hdr payload, parseSegment packet.data = some (hdr, payload) →
            hdr.checksumValid packet.header.dst packet.header.src payload →
            ∀ e, h.entryFor packet.header.dst packet.header.src hdr = some e →
              e.state = .closed) := by
  have hstart : ∀ {hdr payload}, parseSegment packet.data = some (hdr, payload) →
      payloadStart packet.data = hdr.dataOffset.toNat := by
    intro hdr payload hparse
    rw [payloadStart, dataOffset_of_parse (parseSegment_eq_some_iff.mp hparse).1]
    rfl
  rw [← and_assoc, ← parseSegment_isSome, Handler.DropsMalformed, Ne,
    receiveIPPacket_eq_panicked_iff, ← Ne, ← Option.isSome_iff_ne_none]
  refine and_congr_right fun hsome => ?_
  constructor
  · intro hsafe hshort hdr payload hparse hvalid e hentry
    by_contra hopen
    obtain ⟨hlen, hoff, -⟩ := hsafe e.state hdr payload
      (receiveIPPacket_eq_handled_iff.mpr ⟨hparse, hvalid, e, hentry, hopen, rfl⟩)
    rw [hstart hparse] at hshort
    omega
  · intro hrefused st hdr payload hhandled
    obtain ⟨hparse, hvalid, e, hentry, hopen, -⟩ := receiveIPPacket_eq_handled_iff.mp hhandled
    have hlong := mt (hrefused · hdr payload hparse hvalid e hentry) hopen
    have hle := (parseSegment_isSome.mp hsome).2
    rw [hstart hparse] at hlong hle
    omega

/-- A listener on port 5000 at address 1. -/
def Handler.listening : Handler := ((Handler.init 1 1024).listen 5000).1

/-- A SYN from port 2000 to port 5000 whose data offset is 0, so that it is its own payload. -/
def synWithoutHeader : List U8 :=
  [7, 208, 19, 136, 0, 0, 0, 0, 0, 0, 0, 0, 0, 2, 0, 0, 100, 141, 0, 0]

/-- An empty packet ends the process, and a SYN with data offset 0 reaches the handler of the
listener. -/
theorem malformed_not_dropped :
    ¬ (∀ (h : Handler) (packet : Ip.IPPacket), h.receiveIPPacket packet ≠ .panicked) ∧
      ¬ ∀ (h : Handler) (packet : Ip.IPPacket) (st : ConnectionState) (hdr : TCPFields)
        (payload : List U8), h.receiveIPPacket packet = .handled st hdr payload →
        20 ≤ hdr.dataOffset.toNat := by
  constructor
  · intro h
    exact h Handler.listening (Ip.createIPPacket 2 1 [] 6 16) rfl
  · intro h
    have hoff := h Handler.listening (Ip.createIPPacket 2 1 synWithoutHeader 6 16) .listen
      ⟨2000, 5000, 0, 0, 0, 2, 0, 25741, 0⟩ synWithoutHeader (by decide)
    exact absurd hoff (by decide)

end Malformed

end TcpIp
