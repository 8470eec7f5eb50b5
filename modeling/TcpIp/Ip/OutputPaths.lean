import TcpIp.Ip.Output

/-! The functions that look up a route to send a packet of the node itself, and which of them use a
route that cannot be reached. -/
namespace TcpIp.Ip

open Binary

/-- `traceroute.ICMPHeader`. -/
structure ICMPHeader where
  type : U8
  code : U8 := 0
  checksum : U16 := 0
  identifier : U16 := 0
  sequenceNum : U16 := 0
  deriving DecidableEq, Repr

/-- `binary.Write` of the struct. -/
def ICMPHeader.bytes (hdr : ICMPHeader) : List U8 :=
  [hdr.type, hdr.code] ++ toBytes 2 hdr.checksum.toNat ++ toBytes 2 hdr.identifier.toNat ++
    toBytes 2 hdr.sequenceNum.toNat

/-- The text of an echo request, `traceroute echo`. -/
def echoText : List U8 :=
  [0x74, 0x72, 0x61, 0x63, 0x65, 0x72, 0x6f, 0x75, 0x74, 0x65, 0x20, 0x65, 0x63, 0x68, 0x6f]

/-- The bytes of `CreateEchoPacket`. -/
def createEchoPacket : List U8 := ICMPHeader.bytes { type := 8 } ++ echoText

/-- `NextHopMsg`, from the ICMP handler. -/
structure NextHopMsg where
  found : Bool
  nextHop : Addr
  deriving DecidableEq, Repr

/-- How an attempt to send a packet ends. -/
inductive Attempt
  /-- `Send` is called on an interface -/
  | handed (interf : LinkInterface) (packet : IPPacket)
  /-- the packet goes to the node's own `PacketChannel` -/
  | looped (packet : IPPacket)
  | abandoned
  /-- the entry of a route that is not there is dereferenced -/
  | nilEntry
  /-- a slice bound past the end of the data -/
  | outOfBounds
  deriving DecidableEq, Repr

/-- What `SendPacket` returns to the driver. -/
inductive SendError
  | text (err : String)
  /-- the error of `Header.Marshal` -/
  | marshal
  deriving DecidableEq, Repr

variable (ip : HeaderCodec)

/-- The bytes that leave through the interface. -/
def Attempt.sent : Attempt → Option (LinkInterface × List U8)
  | .handed interf packet => (interf.send ip packet).map fun bytes => (interf, bytes)
  | _ => none

/-- The packet with its checksum filled in. -/
def withChecksum (packet : IPPacket) : Option IPPacket :=
  (computeChecksum ip packet).map fun checkSum =>
    { packet with header := { packet.header with checksum := (checkSum.toNat : ℤ) } }

namespace Host

/-- Find the interface to the next hop, make the packet for it, and send. -/
def sendVia (h : Host) (nextHop : Addr) (packet : Addr → IPPacket) : Attempt :=
  match remoteDestination h.localIFs nextHop with
  | none => .abandoned
  | some addrOfInterface =>
    match localIF h.localIFs addrOfInterface with
    | none => .abandoned
    | some localInterface =>
      match withChecksum ip (packet addrOfInterface) with
      | none => .abandoned
      | some packet => .handed localInterface packet

/-- The same with the checksum computed before the interface is looked up. -/
def checkSendVia (h : Host) (nextHop : Addr) (packet : Addr → IPPacket) : Attempt :=
  match remoteDestination h.localIFs nextHop with
  | none => .abandoned
  | some addrOfInterface =>
    match withChecksum ip (packet addrOfInterface) with
    | none => .abandoned
    | some packet =>
      match localIF h.localIFs addrOfInterface with
      | none => .abandoned
      | some localInterface => .handed localInterface packet

/-- `SendPacket`; the protocol it is given is not used. -/
def sendPacket (h : Host) (destAddr : Addr) (_protocol : ℤ) (data : List U8) :
    Attempt × Option SendError :=
  match h.router.table.checkRoute destAddr with
  | none => (.abandoned, some (.text "Entry doesn't exist"))
  | some entry =>
    if entry.cost = infinity then (.abandoned, some (.text "Unable to reach destination"))
    else
      match localIF h.localIFs entry.nextHop with
      | some _ =>
        match withChecksum ip (createIPPacket entry.nextHop destAddr data 0 ttlMax) with
        | none => (.abandoned, some .marshal)
        | some packet => (.looped packet, none)
      | none =>
        match remoteDestination h.localIFs entry.nextHop with
        | none => (.abandoned, some (.text "next hop doesn't exist to forward"))
        | some addrOfInterface =>
          match localIF h.localIFs addrOfInterface with
          | none => (.abandoned, some (.text "interface doesn't exist here to forward"))
          | some localInterface =>
            match withChecksum ip (createIPPacket addrOfInterface destAddr data 0 ttlMax) with
            | none => (.abandoned, some .marshal)
            | some packet => (.handed localInterface packet, none)

/-- The probe of one pass of the loop of `SendTraceroutePacket`; `none` when it cannot be
marshalled. -/
def sendProbe (h : Host) (destAddr : Addr) (entry : RoutingTableEntry) (currTTL : ℕ) :
    Option Attempt :=
  match remoteDestination h.localIFs entry.nextHop with
  | none => some .abandoned
  | some addrOfInterface =>
    match localIF h.localIFs addrOfInterface with
    | none => some .abandoned
    | some localInterface =>
      (withChecksum ip (createIPPacket addrOfInterface destAddr createEchoPacket 1 currTTL)).map
        (.handed localInterface)

/-- The loop of `SendTraceroutePacket`. Each round brings what `entry` points to by then and the
answer to the probe, if one comes; the result is the probes and the path that is returned. -/
def traceroute (h : Host) (destAddr : Addr) :
    ℕ → List Addr → List (RoutingTableEntry × Option NextHopMsg) →
      List Attempt × Option (List Addr)
  | currTTL, path, [] => ([], if currTTL ≤ 16 then none else some path)
  | currTTL, path, (entry, answer) :: rounds =>
    if currTTL ≤ 16 then
      if entry.cost = infinity then ([], some [])
      else
        match h.sendProbe ip destAddr entry currTTL, answer with
        | none, _ => ([], some [])
        | some probe, none => ([probe], none)
        | some probe, some nextLoc =>
          let path := path ++ [nextLoc.nextHop]
          if nextLoc.found then ([probe], some path)
          else
            let rest := traceroute h destAddr (currTTL + 1) path rounds
            (probe :: rest.1, rest.2)
    else ([], some path)

def sendTraceroutePacket (h : Host) (destAddr : Addr)
    (rounds : List (RoutingTableEntry × Option NextHopMsg)) :
    List Attempt × Option (List Addr) :=
  match h.router.table.checkRoute destAddr with
  | none => ([], some [])
  | some entry =>
    if entry.cost = infinity then ([], some []) else h.traceroute ip destAddr 1 [] rounds

/-- The reply that `ReadEchoPacket` makes: destination, source, then the data. -/
def echoReply (echoMsg : List U8) : IPPacket :=
  createIPPacket (leadingAddr (echoMsg.drop addrSize)) (leadingAddr echoMsg)
    (echoMsg.drop (2 * addrSize)) 1 ttlMax

/-- One iteration of `ReadEchoPacket`. The entry is used as it comes out of the table. -/
def readEchoPacket (h : Host) (echoMsg : List U8) : Attempt :=
  if echoMsg.length < 2 * addrSize then .outOfBounds
  else
    match h.router.table.checkRoute (leadingAddr echoMsg) with
    | none => .nilEntry
    | some entry => h.sendVia ip entry.nextHop fun _ => echoReply echoMsg

/-- The TCP branch of `ReadFromHandler`. -/
def sendTCPMessage (h : Host) (data : List U8) : Attempt :=
  if data.length = 0 then .abandoned
  else if data.length < 2 * addrSize then .outOfBounds
  else
    match h.router.table.checkRoute (tcpPacket data).header.dst with
    | none => .abandoned
    | some entry => h.checkSendVia ip entry.nextHop fun _ => tcpPacket data

/-- The answer to a packet whose TTL ran out. `binary.Write` refuses the IP header, which holds
`int`s and slices, and `Data[0:8]` may reach into the zeros behind a short datagram. -/
def timeExceededMessage (packet : IPPacket) : List U8 :=
  ICMPHeader.bytes { type := 11 } ++ (packet.data ++ List.replicate 8 0).take 8

def sendICMPTimeExceeded (h : Host) (packet : IPPacket) : Attempt :=
  let originalSrc := packet.header.src
  match h.router.table.checkRoute originalSrc with
  | none => .abandoned
  | some entry =>
    if entry.cost = infinity then .abandoned
    else
      h.checkSendVia ip entry.nextHop fun addrOfInterface =>
        createIPPacket addrOfInterface originalSrc (timeExceededMessage packet) 1 16

/-- `SendToLinkLayer`, up to its call of `Send`. -/
def forwardPacket (h : Host) (destAddr : Addr) (packet : IPPacket) : Attempt :=
  match withChecksum ip packet with
  | none => .abandoned
  | some packet =>
    match h.router.table.checkRoute destAddr with
    | none => .abandoned
    | some entry =>
      if entry.cost = infinity then .abandoned
      else
        match remoteDestination h.localIFs entry.nextHop with
        | none => .abandoned
        | some addrOfInterface =>
          match localIF h.localIFs addrOfInterface with
          | none => .abandoned
          | some localInterface => .handed localInterface packet

end Host

section Levels

variable {ip} {h : Host}

/-- The bytes on the wire are those of the attempts. -/
theorem sent_forwardPacket (destAddr : Addr) (packet : IPPacket) :
    (h.forwardPacket ip destAddr packet).sent ip = h.sendToLinkLayer ip destAddr packet := by
  simp only [Host.forwardPacket, Host.sendToLinkLayer, withChecksum]
  cases computeChecksum ip packet with
  | none => rfl
  | some newCheckSum =>
    cases h.router.table.checkRoute destAddr with
    | none => rfl
    | some entry =>
      simp only [Option.map_some]
      split
      · rfl
      · cases remoteDestination h.localIFs entry.nextHop with
        | none => rfl
        | some addrOfInterface =>
          cases hif : localIF h.localIFs addrOfInterface <;> simp [hif, Attempt.sent]

theorem sent_sendTCPMessage (data : List U8) :
    (h.sendTCPMessage ip data).sent ip = (h.readFromHandler ip (.tcp data)).2 := by
  simp only [Host.sendTCPMessage, Host.readFromHandler]
  split
  · rfl
  · split
    · rfl
    · cases h.router.table.checkRoute (Host.tcpPacket data).header.dst with
      | none => rfl
      | some entry =>
        simp only [Host.checkSendVia, withChecksum]
        cases remoteDestination h.localIFs entry.nextHop with
        | none => rfl
        | some addrOfInterface =>
          cases computeChecksum ip (Host.tcpPacket data) with
          | none => rfl
          | some checkSum =>
            cases hif : localIF h.localIFs addrOfInterface <;> simp [hif, Attempt.sent]

end Levels

/-- The output paths, with what they are called on. -/
inductive OutputPath
  | sendPacket (destAddr : Addr) (protocol : ℤ) (data : List U8)
  | sendTraceroutePacket (destAddr : Addr) (rounds : List (RoutingTableEntry × Option NextHopMsg))
  | readEchoPacket (echoMsg : List U8)
  | sendTCPMessage (data : List U8)
  | sendToLinkLayer (destAddr : Addr) (packet : IPPacket)
  | sendICMPTimeExceeded (packet : IPPacket)

/-- The destination whose route is looked up. -/
def OutputPath.destination : OutputPath → Addr
  | .sendPacket destAddr _ _ => destAddr
  | .sendTraceroutePacket destAddr _ => destAddr
  | .readEchoPacket echoMsg => (Host.echoReply echoMsg).header.dst
  | .sendTCPMessage data => (Host.tcpPacket data).header.dst
  | .sendToLinkLayer destAddr _ => destAddr
  | .sendICMPTimeExceeded packet => packet.header.src

def Host.attempts (h : Host) : OutputPath → List Attempt
  | .sendPacket destAddr protocol data => [(h.sendPacket ip destAddr protocol data).1]
  | .sendTraceroutePacket destAddr rounds => (h.sendTraceroutePacket ip destAddr rounds).1
  | .readEchoPacket echoMsg => [h.readEchoPacket ip echoMsg]
  | .sendTCPMessage data => [h.sendTCPMessage ip data]
  | .sendToLinkLayer destAddr packet => [h.forwardPacket ip destAddr packet]
  | .sendICMPTimeExceeded packet => [h.sendICMPTimeExceeded ip packet]

/-- A packet is handed to an interface, or a missing entry is dereferenced. -/
def Attempt.usesRoute : Attempt → Bool
  | .handed _ _ => true
  | .nilEntry => true
  | _ => false

/-- The destination has no entry, or one at infinity. -/
def Host.Unreachable (h : Host) (dest : Addr) : Prop :=
  ∀ entry, h.router.table.checkRoute dest = some entry → entry.cost = infinity

/-- There is an interface for the next hop, and the packet can be marshalled. -/
def Host.CanSend (h : Host) (nextHop : Addr) (packet : IPPacket) : Prop :=
  (∃ addrOfInterface interf, remoteDestination h.localIFs nextHop = some addrOfInterface ∧
    localIF h.localIFs addrOfInterface = some interf) ∧ (computeChecksum ip packet).isSome = true

/-- `ReadEchoPacket` uses the entry without a check, and the TCP branch does not look at its
cost. -/
def Host.Unchecked (h : Host) : OutputPath → Prop
  | .readEchoPacket echoMsg =>
    2 * addrSize ≤ echoMsg.length ∧
      ∀ entry, h.router.table.checkRoute (Host.echoReply echoMsg).header.dst = some entry →
        h.CanSend ip entry.nextHop (Host.echoReply echoMsg)
  | .sendTCPMessage data =>
    2 * addrSize ≤ data.length ∧
      ∃ entry, h.router.table.checkRoute (Host.tcpPacket data).header.dst = some entry ∧
        h.CanSend ip entry.nextHop (Host.tcpPacket data)
  | _ => False

section Unreachable

variable {ip} {h : Host} {nextHop destAddr : Addr} {packet : IPPacket}

theorem isSome_withChecksum :
    (withChecksum ip packet).isSome = (computeChecksum ip packet).isSome := by
  simp [withChecksum]

theorem usesRoute_sendVia :
    (h.sendVia ip nextHop fun _ => packet).usesRoute = true ↔ h.CanSend ip nextHop packet := by
  unfold Host.sendVia Host.CanSend
  rw [← isSome_withChecksum]
  cases remoteDestination h.localIFs nextHop with
  | none => simp [Attempt.usesRoute]
  | some addrOfInterface =>
    cases hif : localIF h.localIFs addrOfInterface with
    | none => simp [hif, Attempt.usesRoute]
    | some interf => cases hsum : withChecksum ip packet <;> simp [hif, hsum, Attempt.usesRoute]

/-- The order of the two look-ups makes no difference to what is sent. -/
theorem checkSendVia_eq (packet : Addr → IPPacket) :
    h.checkSendVia ip nextHop packet = h.sendVia ip nextHop packet := by
  unfold Host.checkSendVia Host.sendVia
  cases remoteDestination h.localIFs nextHop with
  | none => rfl
  | some addrOfInterface =>
    cases hif : localIF h.localIFs addrOfInterface <;>
      cases hsum : withChecksum ip (packet addrOfInterface) <;> simp [hif, hsum]

theorem usesRoute_readEchoPacket {echoMsg : List U8} :
    (h.readEchoPacket ip echoMsg).usesRoute = true ↔ h.Unchecked ip (.readEchoPacket echoMsg) := by
  simp only [Host.readEchoPacket, Host.Unchecked]
  split
  · rename_i hshort
    exact iff_of_false (by simp [Attempt.usesRoute]) fun hlong => by omega
  · rename_i hlong
    rw [and_iff_right (Nat.not_lt.mp hlong)]
    change (match h.router.table.checkRoute (leadingAddr echoMsg) with
      | none => Attempt.nilEntry
      | some entry => _).usesRoute = true ↔ ∀ entry,
        h.router.table.checkRoute (leadingAddr echoMsg) = some entry → _
    cases h.router.table.checkRoute (leadingAddr echoMsg) with
    | none => simp [Attempt.usesRoute]
    | some entry => simp [usesRoute_sendVia]

theorem usesRoute_sendTCPMessage {data : List U8} :
    (h.sendTCPMessage ip data).usesRoute = true ↔ h.Unchecked ip (.sendTCPMessage data) := by
  simp only [Host.sendTCPMessage, Host.Unchecked]
  split
  · rename_i hempty
    refine iff_of_false (by simp [Attempt.usesRoute]) fun hlong => ?_
    simp only [addrSize] at hlong
    omega
  · split
    · rename_i hshort
      exact iff_of_false (by simp [Attempt.usesRoute]) fun hlong => by omega
    · rename_i hlong
      rw [and_iff_right (Nat.not_lt.mp hlong)]
      cases h.router.table.checkRoute (Host.tcpPacket data).header.dst with
      | none => simp [Attempt.usesRoute]
      | some entry => simp [checkSendVia_eq, usesRoute_sendVia]

/-- The other paths give up where there is no entry, or one at infinity. -/
theorem not_usesRoute_of_checked {path : OutputPath} (hun : h.Unreachable path.destination)
    (hecho : ∀ echoMsg, path ≠ .readEchoPacket echoMsg)
    (htcp : ∀ data, path ≠ .sendTCPMessage data) :
    ∀ a ∈ h.attempts ip path, a.usesRoute = false := by
  cases path with
  | readEchoPacket echoMsg => exact absurd rfl (hecho echoMsg)
  | sendTCPMessage data => exact absurd rfl (htcp data)
  | sendPacket destAddr protocol data =>
    simp only [Host.attempts, Host.sendPacket, List.forall_mem_singleton]
    cases hroute : h.router.table.checkRoute destAddr with
    | none => rfl
    | some entry => simp [hun entry hroute, Attempt.usesRoute]
  | sendTraceroutePacket destAddr rounds =>
    simp only [Host.attempts, Host.sendTraceroutePacket]
    cases hroute : h.router.table.checkRoute destAddr with
    | none => simp
    | some entry => simp [hun entry hroute]
  | sendToLinkLayer destAddr packet =>
    simp only [Host.attempts, Host.forwardPacket, List.forall_mem_singleton]
    cases withChecksum ip packet with
    | none => rfl
    | some packet =>
      cases hroute : h.router.table.checkRoute destAddr with
      | none => simp [Attempt.usesRoute]
      | some entry => simp [hun entry hroute, Attempt.usesRoute]
  | sendICMPTimeExceeded packet =>
    simp only [Host.attempts, Host.sendICMPTimeExceeded, List.forall_mem_singleton]
    cases hroute : h.router.table.checkRoute packet.header.src with
    | none => rfl
    | some entry => simp [hun entry hroute, Attempt.usesRoute]

end Unreachable

/-- An unreachable destination is left alone by every path exactly where it is not one of the two
that do not check. -/
theorem unreachable_unused_iff (ip : HeaderCodec) (h : Host) (path : OutputPath)
    (hun : h.Unreachable path.destination) :
    (∀ a ∈ h.attempts ip path, a.usesRoute = false) ↔ ¬ h.Unchecked ip path := by
  cases path with
  | readEchoPacket echoMsg =>
    rw [← usesRoute_readEchoPacket, Bool.not_eq_true]
    exact List.forall_mem_singleton
  | sendTCPMessage data =>
    rw [← usesRoute_sendTCPMessage, Bool.not_eq_true]
    exact List.forall_mem_singleton
  | sendPacket | sendTraceroutePacket | sendToLinkLayer | sendICMPTimeExceeded =>
    exact iff_of_true (not_usesRoute_of_checked hun (by simp) (by simp)) id

/-- A host whose route to address 9, through neighbour 2, has expired. -/
def expiredHost : Host :=
  ⟨[⟨0, 1, 2, 5001, false⟩], ⟨RoutingTable.addRoute ∅ 9 infinity 2 0, [], 1⟩⟩

theorem unreachable_expiredHost : expiredHost.Unreachable 9 := by
  intro entry hentry
  cases (show expiredHost.router.table.checkRoute 9 = some ⟨2, infinity, 0⟩ by decide).symm.trans
    hentry
  rfl

theorem unreachable_unused_iff_expiredHost :
    expiredHost.Unreachable 9 ∧
      ∀ a ∈ expiredHost.attempts ipv4Codec (.sendPacket 9 0 [7]), a.usesRoute = false :=
  ⟨unreachable_expiredHost,
    (unreachable_unused_iff ipv4Codec expiredHost (.sendPacket 9 0 [7]) unreachable_expiredHost).mpr
      id⟩

/-- A segment for address 9 is handed to the interface to neighbour 2 although the route has
expired, and an echo reply for address 8, which is not in the table, dereferences a nil entry. -/
theorem unreachable_route_used :
    (expiredHost.sendTCPMessage ipv4Codec [0, 0, 0, 1, 0, 0, 0, 9, 7]).usesRoute = true ∧
      expiredHost.readEchoPacket ipv4Codec [0, 0, 0, 8, 0, 0, 0, 1, 0] = .nilEntry ∧
      ¬ ∀ (ip : HeaderCodec) (h : Host) (path : OutputPath), h.Unreachable path.destination →
        ∀ a ∈ h.attempts ip path, a.usesRoute = false := by
  have hused :
      (expiredHost.sendTCPMessage ipv4Codec [0, 0, 0, 1, 0, 0, 0, 9, 7]).usesRoute = true :=
    by decide
  refine ⟨hused, by decide, ?_⟩
  intro hall
  have hunused := hall ipv4Codec expiredHost (.sendTCPMessage [0, 0, 0, 1, 0, 0, 0, 9, 7])
    unreachable_expiredHost _ (List.mem_singleton_self _)
  rw [hused] at hunused
  cases hunused

end TcpIp.Ip
