import TcpIp.Ip.Host
import TcpIp.Tcp.Wire

/-! Forwarding: what a host does with a datagram, and how often a packet can be forwarded. -/
namespace TcpIp.Ip

open Runs

/-- `ipv4.Header`. -/
structure Header where
  version : ℤ
  len : ℕ
  tos : ℤ
  totalLen : ℤ
  id : ℤ
  flags : ℤ
  fragOff : ℤ
  ttl : ℤ
  protocol : ℤ
  checksum : ℤ
  src : Addr
  dst : Addr
  options : List U8
  deriving DecidableEq, Repr

structure IPPacket where
  header : Header
  data : List U8
  deriving DecidableEq, Repr

/-- The byte of a datagram that holds the TTL; a missing one is read as 0. -/
def ttlByte (datagram : List U8) : U8 := datagram.getD 8 0

/-- The header functions of the `ipv4` and `header` packages, with what is assumed of them. -/
structure HeaderCodec where
  /-- `ipv4.ParseHeader`, for a buffer that is long enough for any header. -/
  parseHeader : List U8 → Header
  /-- `Header.Marshal`. -/
  marshal : Header → Option (List U8)
  /-- `header.Checksum`. -/
  checksum : List U8 → U16
  parseHeader_ttl : ∀ buffer, (parseHeader buffer).ttl = (ttlByte buffer).toNat
  marshal_ttl : ∀ hdr bytes, marshal hdr = some bytes → bytes[8]? = some (BitVec.ofInt 8 hdr.ttl)
  /-- Whether a header can be written does not depend on its checksum field. -/
  marshal_checksum : ∀ hdr c, (marshal { hdr with checksum := c }).isSome = (marshal hdr).isSome

/-- A header with no options, unfragmented: the ones the program itself fills in. -/
def Header.plain (totalLen ttl protocol checksum : ℤ) (src dst : Addr) : Header where
  version := 4
  len := headerLen
  tos := 0
  totalLen
  id := 0
  flags := 0
  fragOff := 0
  ttl
  protocol
  checksum
  src
  dst
  options := []

/-- A plain header is written to 20 bytes, and whatever comes after them it is read back, each
field cut to its width. -/
structure HeaderCodec.RoundTrips (ip : HeaderCodec) : Prop where
  parseHeader_marshal : ∀ totalLen ttl protocol checksum src dst, ∃ bytes,
    ip.marshal (.plain totalLen ttl protocol checksum src dst) = some bytes ∧
      bytes.length = headerLen ∧
      ∀ rest, ip.parseHeader (bytes ++ rest) = .plain (totalLen % 65536) (ttl % 256)
        (protocol % 256) (checksum % 65536) src dst

variable (ip : HeaderCodec)

def computeChecksum (packet : IPPacket) : Option U16 :=
  (ip.marshal { packet.header with checksum := 0 }).map fun bytes => ip.checksum bytes ^^^ 0xffff

/-- What `ReadFromLinkLayer` does with a packet. -/
inductive Outcome
  | dropped
  | delivered (packet : IPPacket)
  | timeExceeded (packet : IPPacket)
  | forward (destAddr : Addr) (packet : IPPacket)
  deriving DecidableEq, Repr

/-- The protocols that `SetupHandlers` registers. -/
def handlerRegistry : List ℤ := [200, 0, 1, 6]

namespace Host

/-- `ListenOnPort`, for a datagram from a UDP port: none is passed on from an unknown port, and
none when the data would start behind the end of the datagram. -/
def listenOnPort (h : Host) (port : ℕ) (datagram : List U8) : Option IPPacket :=
  let buffer := datagram.take mtu ++ List.replicate (mtu - datagram.length) 0
  let bytesRead := min datagram.length mtu
  if ∃ localIF ∈ h.localIFs, localIF.udpDestPort = port then
    let hdr := ip.parseHeader buffer
    if hdr.len ≤ bytesRead then some ⟨hdr, (buffer.take bytesRead).drop hdr.len⟩ else none
  else none

def readFromLinkLayer (h : Host) (packet : IPPacket) : Outcome :=
  if packet.header.version = 6 then .dropped
  else
    match computeChecksum ip packet with
    | none => .dropped
    | some newCheckSum =>
      if (newCheckSum.toNat : ℤ) ≠ packet.header.checksum then .dropped
      else
        let packet := { packet with header := { packet.header with ttl := packet.header.ttl - 1 } }
        match localIF h.localIFs packet.header.dst with
        | some localInterface =>
          if localInterface.stopped then .dropped
          else if packet.header.protocol ∈ handlerRegistry then .delivered packet
          else .dropped
        | none =>
          if packet.header.ttl = 0 then .timeExceeded packet
          else .forward packet.header.dst packet

end Host

/-- `LinkInterface.Send`: the bytes written to the neighbour's UDP port. -/
def LinkInterface.send (interf : LinkInterface) (packet : IPPacket) : Option (List U8) :=
  if interf.stopped then none else some ((ip.marshal packet.header).getD [] ++ packet.data)

/-- `SendToLinkLayer`: the interface that is used and the bytes that leave through it. -/
def Host.sendToLinkLayer (h : Host) (destAddr : Addr) (packet : IPPacket) :
    Option (LinkInterface × List U8) :=
  match computeChecksum ip packet with
  | none => none
  | some newCheckSum =>
    let packet :=
      { packet with header := { packet.header with checksum := (newCheckSum.toNat : ℤ) } }
    match h.router.table.checkRoute destAddr with
    | none => none
    | some entry =>
      if entry.cost = infinity then none
      else
        match remoteDestination h.localIFs entry.nextHop with
        | none => none
        | some addrOfInterface =>
          match localIF h.localIFs addrOfInterface with
          | none => none
          | some localInterface =>
            (localInterface.send ip packet).map fun bytes => (localInterface, bytes)

section Transit

variable {Node : Type*}

/-- A packet on its way: the datagram, the node it arrives at and the UDP port it comes from. -/
structure Transit (Node : Type*) where
  hosts : Node → Host
  node : Node
  port : ℕ
  datagram : List U8

/-- The packet is forwarded once. `wires` says where the datagrams of an interface arrive; the
tables may change before the packet is sent on, and again before it arrives. -/
inductive Forwards (wires : Node → LinkInterface → Node × ℕ) : Transit Node → Unit → Transit Node →
    Prop
  | hop {t : Transit Node} {packet packet' : IPPacket} {destAddr : Addr} {interf : LinkInterface}
      {bytes : List U8} (later arriving : Node → Host)
      (hlisten : (t.hosts t.node).listenOnPort ip t.port t.datagram = some packet)
      (hread : (t.hosts t.node).readFromLinkLayer ip packet = .forward destAddr packet')
      (hsend : (later t.node).sendToLinkLayer ip destAddr packet' = some (interf, bytes)) :
      Forwards wires t ()
        ⟨arriving, (wires t.node interf).1, (wires t.node interf).2, bytes⟩

variable {ip} {wires : Node → LinkInterface → Node × ℕ} {s t t' : Transit Node}
  {tr : List (Move (Transit Node) Unit)} {h : Host} {packet packet' : IPPacket} {destAddr : Addr}

theorem ttlByte_buffer (datagram : List U8) (n : ℕ) :
    ttlByte (datagram.take mtu ++ List.replicate n 0) = ttlByte datagram := by
  unfold ttlByte
  rw [List.getD_eq_getElem?_getD, List.getD_eq_getElem?_getD, List.getElem?_append]
  by_cases hlen : 8 < datagram.length
  · rw [if_pos (by simp [mtu, hlen]), List.getElem?_take_of_lt (by decide)]
  · -- a short datagram is filled up with zeros
    rw [if_neg (by simp; omega), List.getElem?_replicate, List.getElem?_eq_none (by omega)]
    split <;> rfl

theorem listenOnPort_ttl {port : ℕ} {datagram : List U8}
    (hl : h.listenOnPort ip port datagram = some packet) :
    packet.header.ttl = (ttlByte datagram).toNat := by
  simp only [Host.listenOnPort] at hl
  split at hl
  · split at hl
    · cases hl
      rw [ip.parseHeader_ttl, ttlByte_buffer]
    · cases hl
  · cases hl

theorem readFromLinkLayer_ttl (hr : h.readFromLinkLayer ip packet = .forward destAddr packet') :
    packet'.header.ttl = packet.header.ttl - 1 ∧ packet'.header.ttl ≠ 0 := by
  unfold Host.readFromLinkLayer at hr
  split at hr
  · cases hr
  · split at hr
    · cases hr
    · split at hr
      · cases hr
      · dsimp only at hr
        split at hr
        · split at hr
          · cases hr
          · split at hr <;> cases hr
        · split at hr
          · cases hr
          · rename_i hne
            cases hr
            exact ⟨rfl, hne⟩

theorem computeChecksum_isSome {c : ℤ} {newCheckSum : U16}
    (hc : computeChecksum ip packet = some newCheckSum) :
    ∃ bytes, ip.marshal { packet.header with checksum := c } = some bytes := by
  obtain ⟨bytes, hbytes, -⟩ := Option.map_eq_some_iff.mp hc
  apply Option.isSome_iff_exists.mp
  have h0 := ip.marshal_checksum packet.header 0
  rw [ip.marshal_checksum, ← h0, hbytes]
  rfl

theorem send_ttl {interf : LinkInterface} {bytes hdr : List U8}
    (hs : interf.send ip packet = some bytes) (hm : ip.marshal packet.header = some hdr) :
    ttlByte bytes = BitVec.ofInt 8 packet.header.ttl := by
  have hbyte := ip.marshal_ttl _ _ hm
  unfold LinkInterface.send at hs
  split at hs
  · cases hs
  · cases hs
    rw [hm, Option.getD_some, ttlByte, List.getD_eq_getElem?_getD, List.getElem?_append_left, hbyte]
    · rfl
    · exact (List.getElem?_eq_some_iff.mp hbyte).1

theorem sendToLinkLayer_ttl {interf : LinkInterface} {bytes : List U8}
    (hs : h.sendToLinkLayer ip destAddr packet = some (interf, bytes)) :
    ttlByte bytes = BitVec.ofInt 8 packet.header.ttl := by
  unfold Host.sendToLinkLayer at hs
  split at hs
  · cases hs
  · rename_i newCheckSum hc
    obtain ⟨hdr, hm⟩ := computeChecksum_isSome (c := newCheckSum.toNat) hc
    dsimp only at hs
    split at hs
    · cases hs
    · split at hs
      · cases hs
      · split at hs
        · cases hs
        · split at hs
          · cases hs
          · obtain ⟨bytes', hsend, heq⟩ := Option.map_eq_some_iff.mp hs
            cases heq
            have hbyte := send_ttl hsend hm
            exact hbyte

/-- A forward takes one off the TTL byte, modulo 256; it does not happen at TTL 1. -/
theorem Forwards.ttl (hf : Forwards ip wires t () t') :
    ttlByte t'.datagram = ttlByte t.datagram - 1 ∧ ttlByte t.datagram ≠ 1 := by
  cases hf with
  | hop later arriving hlisten hread hsend =>
    have hin := listenOnPort_ttl hlisten
    obtain ⟨hdec, hne⟩ := readFromLinkLayer_ttl hread
    rw [hdec, hin] at hne
    constructor
    · rw [sendToLinkLayer_ttl hsend, hdec, hin]
      apply BitVec.eq_of_toNat_eq
      have hlt := (ttlByte t.datagram).isLt
      have hone : (1 : U8).toNat = 1 := rfl
      rw [BitVec.toNat_ofInt, BitVec.toNat_sub, hone]
      omega
    · intro hone
      rw [hone] at hne
      exact hne rfl

/-- The TTL byte goes down at a forward exactly when it was not 0 already. -/
theorem Forwards.ttl_lt_iff (hf : Forwards ip wires t () t') :
    ttlByte t'.datagram < ttlByte t.datagram ↔ ttlByte t.datagram ≠ 0 := by
  obtain ⟨hdec, hne⟩ := hf.ttl
  rw [hdec]
  constructor
  · intro hlt hzero
    rw [hzero] at hlt
    exact absurd hlt (by decide)
  · intro hzero
    bv_omega

/-- From a TTL other than 0, what is left of it and the forwards so far add up to it. -/
theorem ttl_add_forwards (hr : Run (Forwards ip wires) s tr t) (hs : ttlByte s.datagram ≠ 0) :
    ttlByte t.datagram ≠ 0 ∧ (ttlByte t.datagram).toNat + tr.length = (ttlByte s.datagram).toNat := by
  induction hr with
  | nil => exact ⟨hs, by simp⟩
  | snoc hr hf ih =>
    obtain ⟨hzero, hsum⟩ := ih
    obtain ⟨hdec, hne⟩ := hf.ttl
    rw [hdec, List.length_append, List.length_singleton]
    constructor
    · bv_omega
    · bv_omega

/-- Every forward lowers the TTL byte and their number is bounded by its first value, exactly when
that value is not 0 or the packet is never forwarded. -/
theorem forwarding_ends_iff (hr : Run (Forwards ip wires) s tr t) :
    ((∀ x ∈ tr, ttlByte x.dst.datagram < ttlByte x.src.datagram) ∧
        tr.length ≤ (ttlByte s.datagram).toNat) ↔
      ttlByte s.datagram ≠ 0 ∨ tr = [] := by
  constructor
  · rintro ⟨hlt, -⟩
    cases htr : tr with
    | nil => exact Or.inr rfl
    | cons x rest =>
      -- the first move starts at `s`
      left
      obtain ⟨hpre, hf⟩ := hr.pre (show tr = [] ++ x :: rest from htr)
      have hlt := hlt x (by simp [htr])
      generalize x.src = u at hpre hf hlt
      generalize hpast : ([] : List (Move (Transit Node) Unit)) = past at hpre
      cases hpre with
      | nil => exact hf.ttl_lt_iff.mp hlt
      | snoc => simp at hpast
  · rintro (hs | rfl)
    · have hsum := (ttl_add_forwards hr hs).2
      refine ⟨?_, by omega⟩
      intro x hx
      obtain ⟨pre, post, rfl⟩ := List.append_of_mem hx
      obtain ⟨hpre, hf⟩ := hr.pre rfl
      exact hf.ttl_lt_iff.mpr (ttl_add_forwards hpre hs).1
    · simp

end Transit

section Loop

open Binary

def headerField (buffer : List U8) (i n : ℕ) : ℕ := ofBytes ((buffer.drop i).take n)

/-- The header layout and checksum that the two packages have. -/
def ipv4Codec : HeaderCodec where
  parseHeader buffer :=
    { version := headerField buffer 0 1 / 16
      len := headerField buffer 0 1 % 16 * 4
      tos := headerField buffer 1 1
      totalLen := headerField buffer 2 2
      id := headerField buffer 4 2
      flags := headerField buffer 6 2 / 8192
      fragOff := headerField buffer 6 2 % 8192
      ttl := (ttlByte buffer).toNat
      protocol := headerField buffer 9 1
      checksum := headerField buffer 10 2
      src := BitVec.ofNat 32 (headerField buffer 12 4)
      dst := BitVec.ofNat 32 (headerField buffer 16 4)
      options := (buffer.drop headerLen).take (headerField buffer 0 1 % 16 * 4 - headerLen) }
  marshal hdr :=
    if hdr.len < headerLen then none
    else
      some ([BitVec.ofNat 8 (64 + (headerLen + hdr.options.length) / 4 % 16), BitVec.ofInt 8 hdr.tos]
        ++ toBytes 2 (BitVec.ofInt 16 hdr.totalLen).toNat ++ toBytes 2 (BitVec.ofInt 16 hdr.id).toNat
        ++ toBytes 2 (BitVec.ofInt 16 (hdr.flags * 8192 + hdr.fragOff % 8192)).toNat
        ++ [BitVec.ofInt 8 hdr.ttl, BitVec.ofInt 8 hdr.protocol]
        ++ toBytes 2 (BitVec.ofInt 16 hdr.checksum).toNat
        ++ toBytes 4 hdr.src.toNat ++ toBytes 4 hdr.dst.toNat ++ hdr.options)
  checksum bytes := TcpIp.checksum bytes 0
  parseHeader_ttl _ := rfl
  marshal_ttl := by
    intro hdr bytes hm
    split at hm
    · cases hm
    · cases hm
      simp [toBytes]
  marshal_checksum := by
    intro hdr c
    split <;> rfl

/-- Two hosts that each hold the other for the next hop to address 9. -/
def loopHosts : Bool → Host
  | false => ⟨[⟨0, 1, 2, 5001, false⟩], ⟨RoutingTable.addRoute ∅ 9 2 2 0, [], 1⟩⟩
  | true => ⟨[⟨0, 2, 1, 5000, false⟩], ⟨RoutingTable.addRoute ∅ 9 2 1 0, [], 1⟩⟩

def loopWires : Bool → LinkInterface → Bool × ℕ
  | false, _ => (true, 5000)
  | true, _ => (false, 5001)

/-- A header for address 9 with the given TTL and its checksum, and eight bytes of data. -/
def loopDatagram (ttl : ℤ) : List U8 :=
  let hdr : Header := ⟨4, 20, 0, 28, 0, 0, 0, ttl, 0, 0, 1, 9, []⟩
  let data := List.replicate 8 0
  let checksum := (computeChecksum ipv4Codec ⟨hdr, data⟩).getD 0
  (ipv4Codec.marshal { hdr with checksum := checksum.toNat }).getD [] ++ data

def loopStart (ttl : ℤ) : Transit Bool := ⟨loopHosts, false, 5001, loopDatagram ttl⟩

/-- One forward with tables that do not change. -/
def Transit.next (t : Transit Bool) : Option (Transit Bool) :=
  match (t.hosts t.node).listenOnPort ipv4Codec t.port t.datagram with
  | none => none
  | some packet =>
    match (t.hosts t.node).readFromLinkLayer ipv4Codec packet with
    | .forward destAddr packet =>
      ((t.hosts t.node).sendToLinkLayer ipv4Codec destAddr packet).map fun out =>
        ⟨t.hosts, (loopWires t.node out.1).1, (loopWires t.node out.1).2, out.2⟩
    | _ => none

theorem forwards_of_next {t t' : Transit Bool} (hn : t.next = some t') :
    Forwards ipv4Codec loopWires t () t' := by
  unfold Transit.next at hn
  split at hn
  · cases hn
  · rename_i packet hlisten
    split at hn
    · rename_i destAddr packet' hread
      obtain ⟨⟨interf, bytes⟩, hsend, rfl⟩ := Option.map_eq_some_iff.mp hn
      exact .hop t.hosts t.hosts hlisten hread hsend
    · cases hn

/-- The moves of a packet in the loop, up to `n` of them. -/
def loopPlay (ttl : ℤ) (n : ℕ) : List (Move (Transit Bool) Unit) × Transit Bool :=
  play (fun t _ => t.next.map fun t' => ((), t')) (loopStart ttl) (List.replicate n ())

theorem loopPlay_run (ttl : ℤ) (n : ℕ) :
    Run (Forwards ipv4Codec loopWires) (loopStart ttl) (loopPlay ttl n).1 (loopPlay ttl n).2 := by
  apply play_run
  intro t _ _ t' hn
  obtain ⟨t₀, hnext, heq⟩ := Option.map_eq_some_iff.mp hn
  cases heq
  exact forwards_of_next hnext

/-- At TTL 3 the packet is forwarded twice. -/
theorem forwarding_ends_iff_loop :
    (loopPlay 3 5).1.length = 2 ∧
      (((∀ x ∈ (loopPlay 3 5).1, ttlByte x.dst.datagram < ttlByte x.src.datagram) ∧
          (loopPlay 3 5).1.length ≤ (ttlByte (loopStart 3).datagram).toNat) ↔
        ttlByte (loopStart 3).datagram ≠ 0 ∨ (loopPlay 3 5).1 = []) :=
  ⟨by decide, forwarding_ends_iff (loopPlay_run 3 5)⟩

/-- A packet that arrives with TTL 0 is forwarded with TTL 255. -/
theorem zero_ttl_forwarded :
    ¬ ∀ (ip : HeaderCodec) (wires : Bool → LinkInterface → Bool × ℕ) (s t : Transit Bool)
      (tr : List (Move (Transit Bool) Unit)), Run (Forwards ip wires) s tr t →
      (∀ x ∈ tr, ttlByte x.dst.datagram < ttlByte x.src.datagram) ∧
        tr.length ≤ (ttlByte s.datagram).toNat := by
  intro hall
  have hends := hall ipv4Codec loopWires _ _ _ (loopPlay_run 0 1)
  exact absurd hends.2 (by decide)

end Loop

end TcpIp.Ip
