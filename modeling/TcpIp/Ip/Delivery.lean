import TcpIp.Ip.OutputPaths

/-! Packets with their checksum on the wire: what the next host reads is what was sent, and how a
packet fares along a route. -/
namespace TcpIp.Ip

open Binary

section Format

variable (ip : HeaderCodec)

/-- The bytes that `Send` writes for a packet. -/
def wire (packet : IPPacket) : List U8 :=
  (ip.marshal packet.header).getD [] ++ packet.data

/-- `CreateIPPacket` with the checksum filled in. -/
def checkedPacket (src dest : Addr) (data : List U8) (protocol ttl : ℤ) : IPPacket :=
  let packet := createIPPacket src dest data protocol ttl
  { packet with
    header := { packet.header with checksum := ((computeChecksum ip packet).getD 0).toNat } }

/-- The packet as a host passes it on: the TTL is one less, the checksum is still the old one. -/
def IPPacket.aged (packet : IPPacket) : IPPacket :=
  { packet with header := { packet.header with ttl := packet.header.ttl - 1 } }

variable {ip} {h : Host} {src dest : Addr} {data : List U8} {protocol ttl : ℤ}

theorem computeChecksum_checkedPacket (hip : ip.RoundTrips) :
    computeChecksum ip (checkedPacket ip src dest data protocol ttl) =
      some ((computeChecksum ip (createIPPacket src dest data protocol ttl)).getD 0) := by
  obtain ⟨bytes, hmarshal, -⟩ :=
    hip.parseHeader_marshal (headerLen + data.length) ttl protocol 0 src dest
  have hsum : computeChecksum ip (createIPPacket src dest data protocol ttl) =
      some (ip.checksum bytes ^^^ 0xffff) := congrArg (Option.map _) hmarshal
  rw [hsum]
  exact hsum

theorem withChecksum_createIPPacket (hip : ip.RoundTrips) :
    withChecksum ip (createIPPacket src dest data protocol ttl) =
      some (checkedPacket ip src dest data protocol ttl) :=
  congrArg (Option.map _) (computeChecksum_checkedPacket hip)

/-- The checksum does not depend on the old one. -/
theorem withChecksum_aged (hip : ip.RoundTrips) :
    withChecksum ip (checkedPacket ip src dest data protocol ttl).aged =
      some (checkedPacket ip src dest data protocol (ttl - 1)) :=
  withChecksum_createIPPacket hip

/-- What a host reads of a packet with a plain header, if it knows the port: the fields cut to
their widths, and as much data as fits a datagram. -/
theorem listenOnPort_plain (hip : ip.RoundTrips) {port : ℕ}
    (hport : ∃ interf ∈ h.localIFs, interf.udpDestPort = port)
    (totalLen ttl protocol checksum : ℤ) (src dest : Addr) (data : List U8) :
    h.listenOnPort ip port (wire ip ⟨.plain totalLen ttl protocol checksum src dest, data⟩) =
      some ⟨.plain (totalLen % 65536) (ttl % 256) (protocol % 256) (checksum % 65536) src dest,
        data.take 1380⟩ := by
  obtain ⟨bytes, hmarshal, hlen, hparse⟩ :=
    hip.parseHeader_marshal totalLen ttl protocol checksum src dest
  have hwire : wire ip ⟨.plain totalLen ttl protocol checksum src dest, data⟩ = bytes ++ data := by
    rw [wire, hmarshal]
    rfl
  have htake : (bytes ++ data).take mtu = bytes ++ data.take 1380 := by
    rw [List.take_append, hlen, List.take_of_length_le (by rw [hlen]; decide)]
    rfl
  have hread : min (bytes ++ data).length mtu = (bytes ++ data.take 1380).length := by
    rw [← htake, List.length_take, min_comm]
  simp only [Host.listenOnPort, if_pos hport, hwire]
  rw [htake, hread, List.take_left, List.append_assoc, hparse, if_pos]
  · rw [Header.plain, List.drop_left' hlen]
  · simp only [Header.plain, List.length_append, hlen]
    omega

/-- A packet that `Send` writes comes out of `ListenOnPort` as it was, if the port is known. -/
theorem listenOnPort_wire (hip : ip.RoundTrips) {port : ℕ}
    (hport : ∃ interf ∈ h.localIFs, interf.udpDestPort = port) (hlen : data.length ≤ 1380)
    (httl : 0 ≤ ttl ∧ ttl < 256) (hprotocol : 0 ≤ protocol ∧ protocol < 256) :
    h.listenOnPort ip port (wire ip (checkedPacket ip src dest data protocol ttl)) =
      some (checkedPacket ip src dest data protocol ttl) := by
  have hread := listenOnPort_plain hip hport (headerLen + data.length) ttl protocol
    ((computeChecksum ip (createIPPacket src dest data protocol ttl)).getD 0).toNat src dest data
  have hsum := ((computeChecksum ip (createIPPacket src dest data protocol ttl)).getD 0).isLt
  have htotal : ((headerLen : ℤ) + data.length) % 65536 = headerLen + data.length := by
    simp only [headerLen]
    omega
  rw [htotal, Int.emod_eq_of_lt httl.1 httl.2, Int.emod_eq_of_lt hprotocol.1 hprotocol.2,
    Int.emod_eq_of_lt (by omega) (by omega), List.take_of_length_le hlen] at hread
  exact hread

/-- What `ReadFromLinkLayer` makes of a packet whose checksum is right. -/
theorem readFromLinkLayer_checkedPacket (hip : ip.RoundTrips) :
    h.readFromLinkLayer ip (checkedPacket ip src dest data protocol ttl) =
      match localIF h.localIFs dest with
      | some localInterface =>
        if localInterface.stopped then .dropped
        else if protocol ∈ handlerRegistry then
          .delivered (checkedPacket ip src dest data protocol ttl).aged
        else .dropped
      | none =>
        if ttl - 1 = 0 then .timeExceeded (checkedPacket ip src dest data protocol ttl).aged
        else .forward dest (checkedPacket ip src dest data protocol ttl).aged := by
  have hversion : (checkedPacket ip src dest data protocol ttl).header.version ≠ 6 := by
    simp [checkedPacket, createIPPacket]
  rw [Host.readFromLinkLayer, if_neg hversion, computeChecksum_checkedPacket hip]
  exact if_neg (not_not.mpr rfl)

end Format

/-- The ICMP handler; `HandleRoute` is set while a traceroute is under way. -/
structure TracerouteHandler where
  handleRoute : Bool := false

/-- What the handler does with a packet. -/
inductive ICMPAction
  | nothing
  /-- on `EchoChan` -/
  | echo (echoMsg : List U8)
  /-- on `RouteChan` -/
  | nextHop (msg : NextHopMsg)
  /-- a slice bound past the end of the data -/
  | outOfBounds
  deriving DecidableEq

namespace TracerouteHandler

def addChanRoutine (tr : TracerouteHandler) : TracerouteHandler := { tr with handleRoute := true }

def removeChanRoutine (tr : TracerouteHandler) : TracerouteHandler :=
  { tr with handleRoute := false }

/-- The reply to an echo: source and destination of the packet, a header, and 64 bytes, which stay
zero when `binary.Read` finds fewer. -/
def echoMessage (packet : IPPacket) : List U8 :=
  let dataBytes :=
    if 64 ≤ (packet.data.drop 8).length then (packet.data.drop 8).take 64 else List.replicate 64 0
  toBytes 4 packet.header.src.toNat ++ toBytes 4 packet.header.dst.toNat ++
    ICMPHeader.bytes { type := 0 } ++ dataBytes

/-- `Data[0:1]` reaches into the zeros behind an empty datagram. -/
def receivePacket (tr : TracerouteHandler) (packet : IPPacket) : ICMPAction :=
  let typeMsg := packet.data.headD 0
  if typeMsg = 8 then
    if packet.data.length < 8 then .outOfBounds else .echo (echoMessage packet)
  else if typeMsg = 0 then .nextHop { found := true, nextHop := packet.header.src }
  else if typeMsg = 11 ∧ tr.handleRoute then
    .nextHop { found := false, nextHop := packet.header.src }
  else .nothing

end TracerouteHandler

/-- Hosts with fixed tables and the header functions they are built with; `wires` says where the
datagrams of an interface arrive and from which UDP port. -/
structure Network (Node : Type*) where
  codec : HeaderCodec
  hosts : Node → Host
  wires : Node → LinkInterface → Node × ℕ

/-- Something under way. -/
inductive Item (Node : Type*)
  /-- on the wire, to a node from a UDP port -/
  | datagram (node : Node) (port : ℕ) (bytes : List U8)
  /-- on `PacketChannel` -/
  | packet (node : Node) (packet : IPPacket)
  /-- `SendToLinkLayer` is about to run -/
  | forwarding (node : Node) (destAddr : Addr) (packet : IPPacket)
  /-- `sendICMPTimeExceeded` is about to run -/
  | exceeded (node : Node) (packet : IPPacket)
  /-- `handler.ReceivePacket` is about to run -/
  | delivered (node : Node) (packet : IPPacket)
  /-- on `EchoChannel` -/
  | echo (node : Node) (echoMsg : List U8)
  /-- on `NextHopChannel` -/
  | nextHop (node : Node) (msg : NextHopMsg)

/-- The answers a node gives. -/
inductive Answer
  | timeExceeded
  | echoReply
  deriving DecidableEq

/-- The node that is about to answer, and how. -/
def Item.answer {Node : Type*} : Item Node → Option (Node × Answer)
  | .exceeded v _ => some (v, .timeExceeded)
  | .echo v _ => some (v, .echoReply)
  | _ => none

namespace Network

variable {Node : Type*} (net : Network Node)

abbrev wire (packet : IPPacket) : List U8 := Ip.wire net.codec packet

abbrev checked (src dest : Addr) (data : List U8) (protocol ttl : ℤ) : IPPacket :=
  checkedPacket net.codec src dest data protocol ttl

/-- What an attempt to send puts under way. -/
def transmit (v : Node) : Attempt → List (Item Node)
  | .looped packet => [.packet v packet]
  | attempt =>
    ((attempt.sent net.codec).map fun out =>
      .datagram (net.wires v out.1).1 (net.wires v out.1).2 out.2).toList

/-- What comes of an item; no packet is lost on a wire. The other handlers are not followed. -/
def advance (handlers : Node → TracerouteHandler) : Item Node → List (Item Node)
  | .datagram v port bytes =>
    (((net.hosts v).listenOnPort net.codec port bytes).map (Item.packet v)).toList
  | .packet v packet =>
    match (net.hosts v).readFromLinkLayer net.codec packet with
    | .dropped => []
    | .delivered packet => [.delivered v packet]
    | .timeExceeded packet => [.exceeded v packet]
    | .forward destAddr packet => [.forwarding v destAddr packet]
  | .forwarding v destAddr packet =>
    net.transmit v ((net.hosts v).forwardPacket net.codec destAddr packet)
  | .exceeded v packet => net.transmit v ((net.hosts v).sendICMPTimeExceeded net.codec packet)
  | .delivered v packet =>
    if packet.header.protocol = 1 then
      match (handlers v).receivePacket packet with
      | .echo echoMsg => [.echo v echoMsg]
      | .nextHop msg => [.nextHop v msg]
      | .nothing | .outOfBounds => []
    else []
  | .echo v echoMsg => net.transmit v ((net.hosts v).readEchoPacket net.codec echoMsg)
  | .nextHop .. => []

/-- A packet for `dest` that leaves `v` goes through the interface with the given address, which is
up, to `w`, which knows the port it comes from. -/
inductive Hop (dest : Addr) (v : Node) : Addr → Node → Prop
  | mk {entry : RoutingTableEntry} {addrOfInterface : Addr} {interf : LinkInterface}
      (hroute : (net.hosts v).router.table.checkRoute dest = some entry)
      (hcost : entry.cost ≠ infinity)
      (hnear : remoteDestination (net.hosts v).localIFs entry.nextHop = some addrOfInterface)
      (hif : localIF (net.hosts v).localIFs addrOfInterface = some interf)
      (hup : interf.stopped = false)
      (hport : ∃ i ∈ (net.hosts (net.wires v interf).1).localIFs,
        i.udpDestPort = (net.wires v interf).2) :
      Hop dest v addrOfInterface (net.wires v interf).1

/-- The forwarding path from a node to the one that has the address, as the list of the nodes
after the first. -/
inductive Route (dest : Addr) : Node → List Node → Prop
  | here {v : Node} {interf : LinkInterface}
      (hif : localIF (net.hosts v).localIFs dest = some interf) (hup : interf.stopped = false) :
      Route dest v []
  | hop {v w : Node} {a : Addr} {vs : List Node}
      (hnot : localIF (net.hosts v).localIFs dest = none) (hh : net.Hop dest v a w)
      (hr : Route dest w vs) : Route dest v (w :: vs)

/-- One item leads to another through the items listed, with nothing else coming of any. -/
inductive Leads (handlers : Node → TracerouteHandler) : Item Node → List (Item Node) →
    Item Node → Prop
  | refl {i : Item Node} : Leads handlers i [] i
  | step {i j k : Item Node} {is : List (Item Node)} (h : net.advance handlers i = [j])
      (hl : Leads handlers j is k) : Leads handlers i (i :: is) k

section Transit

variable {net} {handlers : Node → TracerouteHandler} {src dest : Addr} {data : List U8}
  {protocol ttl : ℤ} {v w : Node} {a : Addr} {vs : List Node} {port : ℕ}

/-- One item leads to another, and no node answers on the way. -/
def Reaches (net : Network Node) (handlers : Node → TracerouteHandler) (i k : Item Node) : Prop :=
  ∃ is, net.Leads handlers i is k ∧ is.filterMap Item.answer = []

theorem Reaches.refl {i : Item Node} : net.Reaches handlers i i := ⟨[], .refl, rfl⟩

theorem Reaches.step {i j k : Item Node} (h : net.advance handlers i = [j])
    (hquiet : i.answer = none) (hr : net.Reaches handlers j k) : net.Reaches handlers i k := by
  obtain ⟨is, hl, his⟩ := hr
  exact ⟨i :: is, .step h hl, by simp [hquiet, his]⟩

theorem Leads.trans {i j k : Item Node} {is js : List (Item Node)} (h : net.Leads handlers i is j)
    (h' : net.Leads handlers j js k) : net.Leads handlers i (is ++ js) k := by
  induction h with
  | refl => exact h'
  | step hstep _ ih => exact .step hstep (ih h')

theorem Reaches.trans {i j k : Item Node} (h : net.Reaches handlers i j)
    (h' : net.Reaches handlers j k) : net.Reaches handlers i k := by
  obtain ⟨is, hl, his⟩ := h
  obtain ⟨js, hl', hjs⟩ := h'
  exact ⟨is ++ js, hl.trans hl', by simp [his, hjs]⟩

theorem transmit_handed {interf : LinkInterface} {packet : IPPacket}
    (hup : interf.stopped = false) :
    net.transmit v (.handed interf packet) =
      [.datagram (net.wires v interf).1 (net.wires v interf).2 (net.wire packet)] := by
  simp [transmit, Attempt.sent, LinkInterface.send, hup, Ip.wire]

theorem byte_of_registered (hp : protocol ∈ handlerRegistry) : 0 ≤ protocol ∧ protocol < 256 := by
  simp only [handlerRegistry, List.mem_cons, List.not_mem_nil, or_false] at hp
  omega

section RoundTrips

variable (hip : net.codec.RoundTrips)
include hip

theorem advance_datagram (hport : ∃ i ∈ (net.hosts v).localIFs, i.udpDestPort = port)
    (hlen : data.length ≤ 1380) (httl : 0 ≤ ttl ∧ ttl < 256) (hp : protocol ∈ handlerRegistry) :
    net.advance handlers (.datagram v port (net.wire (net.checked src dest data protocol ttl))) =
      [.packet v (net.checked src dest data protocol ttl)] := by
  rw [advance, listenOnPort_wire hip hport hlen httl (byte_of_registered hp)]
  rfl

theorem advance_packet_here {interf : LinkInterface}
    (hif : localIF (net.hosts v).localIFs dest = some interf) (hup : interf.stopped = false)
    (hp : protocol ∈ handlerRegistry) :
    net.advance handlers (.packet v (net.checked src dest data protocol ttl)) =
      [.delivered v (net.checked src dest data protocol ttl).aged] := by
  simp [advance, readFromLinkLayer_checkedPacket hip, hif, hup, hp]

theorem advance_packet_expired (hnot : localIF (net.hosts v).localIFs dest = none)
    (httl : ttl = 1) :
    net.advance handlers (.packet v (net.checked src dest data protocol ttl)) =
      [.exceeded v (net.checked src dest data protocol ttl).aged] := by
  simp [advance, readFromLinkLayer_checkedPacket hip, hnot, httl]

theorem advance_packet_forward (hnot : localIF (net.hosts v).localIFs dest = none)
    (httl : ttl ≠ 1) :
    net.advance handlers (.packet v (net.checked src dest data protocol ttl)) =
      [.forwarding v dest (net.checked src dest data protocol ttl).aged] := by
  have hne : ttl - 1 ≠ 0 := by omega
  simp [advance, readFromLinkLayer_checkedPacket hip, hnot, hne]

/-- `SendToLinkLayer` along a hop. -/
theorem Hop.forward (hh : net.Hop dest v a w) (handlers : Node → TracerouteHandler) (src : Addr)
    (data : List U8) (protocol ttl : ℤ) :
    ∃ port, (∃ i ∈ (net.hosts w).localIFs, i.udpDestPort = port) ∧
      net.advance handlers (.forwarding v dest (net.checked src dest data protocol ttl).aged) =
        [.datagram w port (net.wire (net.checked src dest data protocol (ttl - 1)))] := by
  cases hh with
  | mk hroute hcost hnear hif hup hport =>
    refine ⟨_, hport, ?_⟩
    simp only [advance, Host.forwardPacket, withChecksum_aged hip, hroute, if_neg hcost, hnear, hif]
    exact transmit_handed hup

/-- A packet with some TTL left passes a node that does not have its destination. -/
theorem Hop.passes (hh : net.Hop dest v a w) (hnot : localIF (net.hosts v).localIFs dest = none)
    (hport : ∃ i ∈ (net.hosts v).localIFs, i.udpDestPort = port) (hlen : data.length ≤ 1380)
    (hp : protocol ∈ handlerRegistry) (ttl : ℤ) (httl : 1 < ttl ∧ ttl < 256) :
    ∃ port', (∃ i ∈ (net.hosts w).localIFs, i.udpDestPort = port') ∧
      ∀ k, net.Reaches handlers
          (.datagram w port' (net.wire (net.checked src dest data protocol (ttl - 1)))) k →
        net.Reaches handlers
          (.datagram v port (net.wire (net.checked src dest data protocol ttl))) k := by
  obtain ⟨port', hport', hforward⟩ := hh.forward hip handlers src data protocol ttl
  refine ⟨port', hport', fun k hk => ?_⟩
  refine .step (advance_datagram hip hport hlen (by omega) hp) rfl ?_
  refine .step (advance_packet_forward hip hnot (by omega)) rfl ?_
  exact .step hforward rfl hk

/-- With a TTL that is too short for its route, a packet gets to the node where it runs out. -/
theorem Route.expires (hr : net.Route dest v vs) (handlers : Node → TracerouteHandler)
    (src : Addr) {t : ℕ} (hport : ∃ i ∈ (net.hosts v).localIFs, i.udpDestPort = port)
    (hlen : data.length ≤ 1380) (hp : protocol ∈ handlerRegistry) (hlt : t < 255)
    (ht : t < vs.length) :
    ∃ u, (v :: vs)[t]? = some u ∧
      net.Reaches handlers
        (.datagram v port (net.wire (net.checked src dest data protocol (t + 1 : ℕ))))
        (.exceeded u (net.checked src dest data protocol 1).aged) := by
  induction hr generalizing port t with
  | here => simp at ht
  | @hop v w a vs hnot hh hr ih =>
    cases t with
    | zero =>
      refine ⟨v, rfl, .step (advance_datagram hip hport hlen (by omega) hp) rfl ?_⟩
      exact .step (advance_packet_expired hip hnot rfl) rfl .refl
    | succ t =>
      obtain ⟨port', hport', hpass⟩ := hh.passes hip hnot hport hlen hp (t + 1 + 1 : ℕ) (by omega)
      obtain ⟨u, hu, hreach⟩ := ih hport' (t := t) (by omega) (by simpa using ht)
      refine ⟨u, hu, hpass _ ?_⟩
      have httl : ((t + 1 + 1 : ℕ) : ℤ) - 1 = (t + 1 : ℕ) := by omega
      rwa [httl]

/-- With a TTL that is long enough, it is delivered at the end. -/
theorem Route.delivers (hr : net.Route dest v vs) (handlers : Node → TracerouteHandler)
    (src : Addr) {t : ℕ} (hport : ∃ i ∈ (net.hosts v).localIFs, i.udpDestPort = port)
    (hlen : data.length ≤ 1380) (hp : protocol ∈ handlerRegistry) (hlt : t < 256)
    (ht : vs.length < t) :
    ∃ u, (v :: vs).getLast? = some u ∧
      net.Reaches handlers (.datagram v port (net.wire (net.checked src dest data protocol t)))
        (.delivered u (net.checked src dest data protocol (t - vs.length : ℕ)).aged) := by
  induction hr generalizing port t with
  | @here v interf hif hup =>
    refine ⟨v, rfl, .step (advance_datagram hip hport hlen (by omega) hp) rfl ?_⟩
    exact .step (advance_packet_here hip hif hup hp) rfl .refl
  | @hop v w a vs hnot hh hr ih =>
    simp only [List.length_cons] at ht
    obtain ⟨port', hport', hpass⟩ := hh.passes hip hnot hport hlen hp t (by omega)
    obtain ⟨u, hu, hreach⟩ := ih hport' (t := t - 1) (by omega) (by omega)
    refine ⟨u, by simpa using hu, hpass _ ?_⟩
    have httl : (t : ℤ) - 1 = (t - 1 : ℕ) := by omega
    have hleft : t - (w :: vs).length = t - 1 - vs.length := by
      simp only [List.length_cons]
      omega
    rwa [httl, hleft]

end RoundTrips

end Transit

end Network

end TcpIp.Ip
