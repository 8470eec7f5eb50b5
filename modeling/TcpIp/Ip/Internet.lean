import TcpIp.Ip.Layout
import TcpIp.Ip.Probes

/-! Nodes that build, forward and deliver packets while their tables change, over wires that lose,
duplicate and reorder: where the packets come from that the handlers get. -/
namespace TcpIp.Ip

open Runs Binary

section Sending

variable (ip : HeaderCodec)

/-- The packet that is handed on. -/
def Attempt.packet : Attempt → Option IPPacket
  | .handed _ packet => some packet
  | .looped packet => some packet
  | _ => none

/-- The RIP branch of `ReadFromHandler`, with `SendToNeighbor`. -/
def Host.sendRIPMessage (h : Host) (data : List U8) : Attempt :=
  if data.length = 0 then .abandoned
  else if data.length < addrSize then .outOfBounds
  else
    let destAddr := leadingAddr data
    let srcAddr := (remoteDestination h.localIFs destAddr).getD 0
    match withChecksum ip
      (createIPPacket srcAddr destAddr (data.drop addrSize) 200 ttlMax) with
    | none => .abandoned
    | some packet =>
      match remoteDestination h.localIFs destAddr with
      | none => .abandoned
      | some addrOfInterface =>
        match localIF h.localIFs addrOfInterface with
        | none => .abandoned
        | some localInterface => .handed localInterface packet

/-- What makes a node build a packet of its own accord. -/
inductive Call
  | sendPacket (destAddr : Addr) (protocol : ℤ) (data : List U8)
  /-- one pass of the loop of `SendTraceroutePacket` -/
  | sendProbe (destAddr : Addr) (entry : RoutingTableEntry) (currTTL : ℕ)
  /-- `ReadFromHandler` gets a message -/
  | message (msg : HandlerMessage)

def Host.attempt (h : Host) : Call → Attempt
  | .sendPacket destAddr protocol data => (h.sendPacket ip destAddr protocol data).1
  | .sendProbe destAddr entry currTTL =>
    (h.sendProbe ip destAddr entry currTTL).getD .abandoned
  | .message (.rip data) => h.sendRIPMessage ip data
  | .message (.tcp data) => h.sendTCPMessage ip data

/-- The bytes on the wire are those of `ReadFromHandler`. -/
theorem sent_message (h : Host) (msg : HandlerMessage) :
    (h.attempt ip (.message msg)).sent ip = (h.readFromHandler ip msg).2 := by
  cases msg with
  | tcp data => exact sent_sendTCPMessage data
  | rip data =>
    simp only [Host.attempt, Host.sendRIPMessage, Host.readFromHandler, Host.sendToNeighbor,
      withChecksum]
    split
    · rfl
    · split
      · rfl
      · cases computeChecksum ip (createIPPacket
          ((remoteDestination h.localIFs (leadingAddr data)).getD 0) (leadingAddr data)
          (data.drop addrSize) 200 ttlMax) with
        | none => rfl
        | some checkSum =>
          cases remoteDestination h.localIFs (leadingAddr data) with
          | none => rfl
          | some addrOfInterface =>
            cases hif : localIF h.localIFs addrOfInterface <;> simp [hif, Attempt.sent]

end Sending

variable {Node : Type*}

/-- The hosts with the packets between them. -/
structure Internet (Node : Type*) where
  net : Network Node
  handlers : Node → TracerouteHandler
  /-- everything that was ever under way; any of it may go on at any time, again or never -/
  items : List (Item Node)
  /-- the packets built so far, each with the node that built it -/
  built : List (Node × IPPacket)

inductive InternetEvent (Node : Type*)
  /-- a change of a routing table or of an interface -/
  | host (v : Node) (ev : HostEvent)
  /-- a traceroute begins or ends at a node -/
  | tracing (v : Node) (on : Bool)
  | call (v : Node) (c : Call)
  /-- item `i` goes on -/
  | advance (i : ℕ)

/-- The packet that answers an item. -/
def Item.builds (net : Network Node) : Item Node → List (Node × IPPacket)
  | .exceeded v p =>
    (((net.hosts v).sendICMPTimeExceeded net.codec p).packet.map (Prod.mk v)).toList
  | .echo v echoMsg =>
    (((net.hosts v).readEchoPacket net.codec echoMsg).packet.map (Prod.mk v)).toList
  | _ => []

namespace Internet

def step [DecidableEq Node] (now : ℕ) (s : Internet Node) :
    InternetEvent Node → Option (Internet Node)
  | .host v ev =>
    ((s.net.hosts v).step now ev).map fun h =>
      { s with net := { s.net with hosts := Function.update s.net.hosts v h } }
  | .tracing v on =>
    let tr := if on then (s.handlers v).addChanRoutine else (s.handlers v).removeChanRoutine
    some { s with handlers := Function.update s.handlers v tr }
  | .call v c =>
    let attempt := (s.net.hosts v).attempt s.net.codec c
    some { s with
      items := s.items ++ s.net.transmit v attempt
      built := s.built ++ (attempt.packet.map (Prod.mk v)).toList }
  | .advance i =>
    s.items[i]?.map fun item =>
      { s with
        items := s.items ++ s.net.advance s.handlers item
        built := s.built ++ item.builds s.net }

end Internet

def InternetStep [DecidableEq Node] (s : Internet Node) (ev : InternetEvent Node)
    (s' : Internet Node) : Prop :=
  ∃ now, s.step now ev = some s'

/-- The packet is the one that was built, up to what routers change, and cut to what the read
buffer holds behind a header. -/
structure IPPacket.Copies (packet orig : IPPacket) : Prop where
  header : ∃ ttl checksum : ℤ,
    packet.header = { orig.header with totalLen := packet.header.totalLen, ttl, checksum }
  totalLen : packet.header.totalLen = orig.header.totalLen ∨
    packet.header.totalLen = orig.header.totalLen % 65536
  data : packet.data = orig.data ∨ packet.data = orig.data.take 1380

/-- A packet of a registered protocol as `CreateIPPacket` makes it, with a checksum. -/
def IPPacket.Made (ip : HeaderCodec) (packet : IPPacket) : Prop :=
  ∃ src dest data protocol ttl, protocol ∈ handlerRegistry ∧
    withChecksum ip (createIPPacket src dest data protocol ttl) = some packet

section Copies

variable {ip : HeaderCodec} {packet packet' orig : IPPacket} {h : Host} {port : ℕ}

theorem IPPacket.Copies.refl (packet : IPPacket) : packet.Copies packet :=
  ⟨⟨_, _, rfl⟩, Or.inl rfl, Or.inl rfl⟩

theorem IPPacket.Copies.protocol (h : packet.Copies orig) :
    packet.header.protocol = orig.header.protocol := by
  obtain ⟨_, _, heq⟩ := h.header
  rw [heq]

theorem IPPacket.Copies.src (h : packet.Copies orig) : packet.header.src = orig.header.src := by
  obtain ⟨_, _, heq⟩ := h.header
  rw [heq]

theorem IPPacket.Copies.dst (h : packet.Copies orig) : packet.header.dst = orig.header.dst := by
  obtain ⟨_, _, heq⟩ := h.header
  rw [heq]

/-- A change of the TTL and the checksum alone. -/
theorem IPPacket.Copies.of_header (h : packet.Copies orig) {ttl checksum : ℤ}
    (hheader : packet'.header = { packet.header with ttl, checksum })
    (hdata : packet'.data = packet.data) : packet'.Copies orig := by
  obtain ⟨_, _, heq⟩ := h.header
  have htotal : packet'.header.totalLen = packet.header.totalLen := by rw [hheader]
  exact ⟨⟨ttl, checksum, by rw [htotal, hheader, heq]⟩, htotal ▸ h.totalLen, hdata ▸ h.data⟩

theorem withChecksum_eq (h : withChecksum ip packet = some packet') :
    ∃ checksum : ℤ, packet' = { packet with header := { packet.header with checksum } } := by
  obtain ⟨c, -, rfl⟩ := Option.map_eq_some_iff.mp h
  exact ⟨_, rfl⟩

/-- A packet that was read from a wire is still a copy. -/
theorem IPPacket.Copies.listenOnPort (hip : ip.RoundTrips) (hmade : orig.Made ip)
    (hc : packet.Copies orig) (hl : h.listenOnPort ip port (wire ip packet) = some packet') :
    packet'.Copies orig := by
  obtain ⟨src, dest, data, protocol, ttl, hp, hsum⟩ := hmade
  obtain ⟨checksum, rfl⟩ := withChecksum_eq hsum
  obtain ⟨ttl', checksum', hheader⟩ := hc.header
  have hplain : packet =
      ⟨.plain packet.header.totalLen ttl' protocol checksum' src dest, packet.data⟩ := by
    rw [IPPacket.mk.injEq]
    exact ⟨hheader, rfl⟩
  have hport : ∃ interf ∈ h.localIFs, interf.udpDestPort = port := by
    by_contra hno
    rw [Host.listenOnPort, if_neg hno] at hl
    cases hl
  obtain ⟨hlow, hhigh⟩ := Network.byte_of_registered hp
  rw [hplain, listenOnPort_plain hip hport, Int.emod_eq_of_lt hlow hhigh] at hl
  cases hl
  refine ⟨⟨_, _, rfl⟩, Or.inr ?_, Or.inr ?_⟩
  · rcases hc.totalLen with htotal | htotal
    · exact congrArg (· % 65536) htotal
    · exact (congrArg (· % 65536) htotal).trans (Int.emod_emod_of_dvd _ (dvd_refl _))
  · rcases hc.data with hdata | hdata
    · rw [hdata]
    · rw [hdata, List.take_take, min_self]

end Copies

section Built

variable {ip : HeaderCodec} {h : Host} {packet : IPPacket} {src dest : Addr} {data : List U8}
  {protocol ttl : ℤ}

/-- The host built the packet, and only the TCP handler names a source address. -/
structure Host.Builds (ip : HeaderCodec) (h : Host) (protocol : ℤ) (packet : IPPacket) : Prop where
  made : packet.Made ip
  protocol_eq : packet.header.protocol = protocol
  own : protocol ≠ 6 → packet.header.src ∈ h.own

theorem Host.builds_of_create (hp : protocol ∈ handlerRegistry)
    (hs : withChecksum ip (createIPPacket src dest data protocol ttl) = some packet)
    (hown : protocol ≠ 6 → src ∈ h.own) : h.Builds ip protocol packet := by
  have hmade : packet.Made ip := ⟨src, dest, data, protocol, ttl, hp, hs⟩
  obtain ⟨_, rfl⟩ := withChecksum_eq hs
  exact ⟨hmade, rfl, hown⟩

theorem mem_own_of_remoteDestination {nextHop addr : Addr}
    (hnear : remoteDestination h.localIFs nextHop = some addr) : addr ∈ h.own := by
  obtain ⟨interf, hfind, rfl⟩ := Option.map_eq_some_iff.mp hnear
  exact mem_own (List.mem_of_find?_eq_some hfind)

theorem packet_sendVia {nextHop : Addr} {f : Addr → IPPacket}
    (hs : (h.sendVia ip nextHop f).packet = some packet) :
    ∃ addr ∈ h.own, withChecksum ip (f addr) = some packet := by
  unfold Host.sendVia at hs
  split at hs
  · cases hs
  · rename_i addr hnear
    split at hs
    · cases hs
    · split at hs
      · cases hs
      · rename_i hsum
        cases hs
        exact ⟨addr, mem_own_of_remoteDestination hnear, hsum⟩

theorem packet_checkSendVia {nextHop : Addr} {f : Addr → IPPacket}
    (hs : (h.checkSendVia ip nextHop f).packet = some packet) :
    ∃ addr ∈ h.own, withChecksum ip (f addr) = some packet := by
  unfold Host.checkSendVia at hs
  split at hs
  · cases hs
  · rename_i addr hnear
    split at hs
    · cases hs
    · rename_i hsum
      split at hs
      · cases hs
      · cases hs
        exact ⟨addr, mem_own_of_remoteDestination hnear, hsum⟩

theorem builds_sendPacket {destAddr : Addr}
    (hs : (h.sendPacket ip destAddr protocol data).1.packet = some packet) :
    h.Builds ip 0 packet := by
  unfold Host.sendPacket at hs
  split at hs
  · cases hs
  · split at hs
    · cases hs
    · split at hs
      · rename_i hif
        split at hs
        · cases hs
        · rename_i hsum
          cases hs
          exact Host.builds_of_create (by decide) hsum fun _ => Network.mem_own_of_localIF hif
      · split at hs
        · cases hs
        · rename_i hnear
          split at hs
          · cases hs
          · split at hs
            · cases hs
            · rename_i hsum
              cases hs
              exact Host.builds_of_create (by decide) hsum
                fun _ => mem_own_of_remoteDestination hnear

theorem builds_sendProbe {destAddr : Addr} {entry : RoutingTableEntry} {currTTL : ℕ}
    (hs : ((h.sendProbe ip destAddr entry currTTL).getD .abandoned).packet = some packet) :
    h.Builds ip 1 packet := by
  unfold Host.sendProbe at hs
  split at hs
  · cases hs
  · rename_i addr hnear
    split at hs
    · cases hs
    · cases hsum : withChecksum ip
          (createIPPacket addr destAddr createEchoPacket 1 currTTL) with
      | none => simp [hsum, Attempt.packet] at hs
      | some probe =>
        rw [hsum] at hs
        cases hs
        exact Host.builds_of_create (by decide) hsum fun _ => mem_own_of_remoteDestination hnear

theorem builds_sendRIPMessage (hs : (h.sendRIPMessage ip data).packet = some packet) :
    h.Builds ip 200 packet := by
  unfold Host.sendRIPMessage at hs
  split at hs
  · cases hs
  · split at hs
    · cases hs
    · dsimp only at hs
      split at hs
      · cases hs
      · rename_i hsum
        split at hs
        · cases hs
        · rename_i hnear
          split at hs
          · cases hs
          · cases hs
            rw [hnear] at hsum
            exact Host.builds_of_create (by decide) hsum
              fun _ => mem_own_of_remoteDestination hnear

theorem packet_sendTCPMessage (hs : (h.sendTCPMessage ip data).packet = some packet) :
    withChecksum ip (Host.tcpPacket data) = some packet := by
  unfold Host.sendTCPMessage at hs
  split at hs
  · cases hs
  · split at hs
    · cases hs
    · split at hs
      · cases hs
      · obtain ⟨addr, -, hsum⟩ := packet_checkSendVia hs
        exact hsum

/-- Only a message of the TCP handler becomes a packet of protocol 6. -/
theorem Host.builds_attempt {c : Call} (hs : (h.attempt ip c).packet = some packet) :
    ∃ protocol, h.Builds ip protocol packet ∧ (protocol = 6 →
      ∃ data, c = .message (.tcp data) ∧
        withChecksum ip (Host.tcpPacket data) = some packet) := by
  cases c with
  | sendPacket destAddr protocol data => exact ⟨0, builds_sendPacket hs, by simp⟩
  | sendProbe destAddr entry currTTL => exact ⟨1, builds_sendProbe hs, by simp⟩
  | message msg =>
    cases msg with
    | rip data => exact ⟨200, builds_sendRIPMessage hs, by simp⟩
    | tcp data =>
      have hsum := packet_sendTCPMessage hs
      exact ⟨6, Host.builds_of_create (by decide) hsum fun hne => absurd rfl hne,
        fun _ => ⟨data, rfl, hsum⟩⟩

theorem builds_sendICMPTimeExceeded {expired : IPPacket}
    (hs : (h.sendICMPTimeExceeded ip expired).packet = some packet) :
    h.Builds ip 1 packet := by
  unfold Host.sendICMPTimeExceeded at hs
  dsimp only at hs
  split at hs
  · cases hs
  · split at hs
    · cases hs
    · obtain ⟨addr, haddr, hsum⟩ := packet_checkSendVia hs
      exact Host.builds_of_create (by decide) hsum fun _ => haddr

/-- An echo reply comes from the address that the echo was for. -/
theorem builds_readEchoPacket {echoMsg : List U8}
    (hown : leadingAddr (echoMsg.drop addrSize) ∈ h.own)
    (hs : (h.readEchoPacket ip echoMsg).packet = some packet) : h.Builds ip 1 packet := by
  unfold Host.readEchoPacket at hs
  split at hs
  · cases hs
  · split at hs
    · cases hs
    · obtain ⟨addr, -, hsum⟩ := packet_sendVia hs
      exact Host.builds_of_create (by decide) hsum fun _ => hown

/-- What comes out of `ReadFromLinkLayer` is the packet with its TTL lowered. -/
theorem readFromLinkLayer_cases (ip : HeaderCodec) (h : Host) (packet : IPPacket) :
    h.readFromLinkLayer ip packet = .dropped ∨
      h.readFromLinkLayer ip packet = .delivered packet.aged ∧
        packet.header.dst ∈ h.own ∨
      h.readFromLinkLayer ip packet = .timeExceeded packet.aged ∨
      h.readFromLinkLayer ip packet = .forward packet.header.dst packet.aged := by
  unfold Host.readFromLinkLayer
  split
  · simp
  · split
    · simp
    · split
      · simp
      · dsimp only
        split
        · rename_i hif
          split
          · simp
          · split
            · exact Or.inr (Or.inl ⟨rfl, Network.mem_own_of_localIF hif⟩)
            · simp
        · split
          · exact Or.inr (Or.inr (Or.inl rfl))
          · exact Or.inr (Or.inr (Or.inr rfl))

theorem packet_forwardPacket {destAddr : Addr} {forwarded : IPPacket}
    (hs : (h.forwardPacket ip destAddr forwarded).packet = some packet) :
    withChecksum ip forwarded = some packet := by
  unfold Host.forwardPacket at hs
  split at hs
  · cases hs
  · rename_i hsum
    split at hs
    · cases hs
    · split at hs
      · cases hs
      · split at hs
        · cases hs
        · split at hs
          · cases hs
          · cases hs
            exact hsum

end Built

namespace Internet

variable {s s' : Internet Node} {v : Node} {item : Item Node} {packet : IPPacket}

/-- The packet is a copy of one that some node built. -/
def Genuine (s : Internet Node) (packet : IPPacket) : Prop :=
  ∃ v orig, (v, orig) ∈ s.built ∧ packet.Copies orig

/-- What an item carries was built by some node; what a handler gets is for its node. -/
def Carries (s : Internet Node) : Item Node → Prop
  | .datagram _ _ bytes => ∃ packet, s.Genuine packet ∧ bytes = s.net.wire packet
  | .packet _ packet => s.Genuine packet
  | .forwarding _ _ packet => s.Genuine packet
  | .exceeded _ packet => s.Genuine packet
  | .delivered v packet => s.Genuine packet ∧ packet.header.dst ∈ (s.net.hosts v).own
  | .echo v echoMsg => leadingAddr (echoMsg.drop addrSize) ∈ (s.net.hosts v).own
  | .nextHop _ _ => True

structure Sound (s : Internet Node) : Prop where
  codec : s.net.codec.RoundTrips
  items : ∀ item ∈ s.items, s.Carries item
  built : ∀ v packet, (v, packet) ∈ s.built →
    (s.net.hosts v).Builds s.net.codec packet.header.protocol packet

theorem Genuine.mono (h : s.Genuine packet) (hbuilt : s.built ⊆ s'.built) : s'.Genuine packet := by
  obtain ⟨v, orig, hmem, hc⟩ := h
  exact ⟨v, orig, hbuilt hmem, hc⟩

theorem Carries.mono (h : s.Carries item) (hbuilt : s.built ⊆ s'.built)
    (hcodec : s'.net.codec = s.net.codec)
    (hown : ∀ v, (s'.net.hosts v).own = (s.net.hosts v).own) : s'.Carries item := by
  cases item with
  | datagram _ _ bytes =>
    obtain ⟨packet, hg, hbytes⟩ := h
    exact ⟨packet, hg.mono hbuilt, by rw [hbytes, Network.wire, Network.wire, hcodec]⟩
  | packet _ _ => exact Genuine.mono h hbuilt
  | forwarding _ _ _ => exact Genuine.mono h hbuilt
  | exceeded _ _ => exact Genuine.mono h hbuilt
  | delivered v packet => exact ⟨h.1.mono hbuilt, hown v ▸ h.2⟩
  | echo v echoMsg =>
    show leadingAddr (echoMsg.drop addrSize) ∈ (s'.net.hosts v).own
    rw [hown]
    exact h
  | nextHop _ _ => trivial

/-- What an attempt puts under way carries its packet. -/
theorem carries_transmit {attempt : Attempt}
    (h : ∀ packet, attempt.packet = some packet → s.Genuine packet) :
    ∀ item ∈ s.net.transmit v attempt, s.Carries item := by
  intro item hitem
  cases attempt with
  | looped packet =>
    rw [Network.transmit, List.mem_singleton] at hitem
    subst hitem
    exact h packet rfl
  | handed interf packet =>
    simp only [Network.transmit, Attempt.sent, LinkInterface.send] at hitem
    split at hitem
    · simp at hitem
    · simp only [Option.map_some, Option.toList_some, List.mem_singleton] at hitem
      subst hitem
      exact ⟨packet, h packet rfl, rfl⟩
  | abandoned | nilEntry | outOfBounds => simp [Network.transmit, Attempt.sent] at hitem

theorem leadingAddr_echoMessage (packet : IPPacket) :
    leadingAddr ((TracerouteHandler.echoMessage packet).drop addrSize) = packet.header.dst := by
  rw [TracerouteHandler.echoMessage, List.append_assoc, List.append_assoc,
    List.drop_left' (i := addrSize) (length_toBytes 4 _), Network.leadingAddr_toBytes]

/-- What comes of an item carries what it carried; `built` is taken after the answers. -/
theorem Sound.advance (h : s.Sound) (s' : Internet Node) (hmem : item ∈ s.items)
    (hbuilt : s'.built = s.built ++ item.builds s.net) (hnet : s'.net = s.net) :
    ∀ i ∈ s.net.advance s.handlers item, s'.Carries i := by
  have hsub : s.built ⊆ s'.built := hbuilt ▸ List.subset_append_left _ _
  have hcarries : s'.Carries item :=
    (h.items item hmem).mono hsub (by rw [hnet]) fun v => by rw [hnet]
  -- an answer is genuine because it was just built
  have hanswer : ∀ w attempt, item.builds s.net = (attempt.packet.map (Prod.mk w)).toList →
      ∀ i ∈ s'.net.transmit w attempt, s'.Carries i := by
    intro w attempt hitem
    refine carries_transmit fun packet hp => ⟨w, packet, ?_, .refl packet⟩
    rw [hbuilt, hitem, hp]
    simp
  rw [← hnet] at hanswer ⊢
  intro i hi
  cases item with
  | datagram v port bytes =>
    obtain ⟨packet, ⟨w, orig, hw, hc⟩, rfl⟩ := h.items _ hmem
    simp only [Network.advance, Option.mem_toList, Option.map_eq_some_iff] at hi
    obtain ⟨packet', hl, rfl⟩ := hi
    exact ⟨w, orig, hsub hw, hc.listenOnPort h.codec (h.built w orig hw).made (hnet ▸ hl)⟩
  | packet v packet =>
    obtain ⟨w, orig, hw, hc⟩ := hcarries
    have haged : packet.aged.Copies orig := hc.of_header rfl rfl
    simp only [Network.advance] at hi
    obtain hout | ⟨hout, hown⟩ | hout | hout :=
      readFromLinkLayer_cases s'.net.codec (s'.net.hosts v) packet
    all_goals
      rw [hout] at hi
    · simp at hi
    · rw [List.mem_singleton.mp hi]
      exact ⟨⟨w, orig, hw, haged⟩, hown⟩
    · rw [List.mem_singleton.mp hi]
      exact ⟨w, orig, hw, haged⟩
    · rw [List.mem_singleton.mp hi]
      exact ⟨w, orig, hw, haged⟩
  | forwarding v destAddr packet =>
    obtain ⟨w, orig, hw, hc⟩ := hcarries
    refine carries_transmit (fun packet' hp => ?_) i hi
    obtain ⟨checksum, rfl⟩ := withChecksum_eq (packet_forwardPacket hp)
    exact ⟨w, orig, hw, hc.of_header rfl rfl⟩
  | exceeded v packet => exact hanswer v _ rfl i hi
  | echo v echoMsg => exact hanswer v _ rfl i hi
  | delivered v packet =>
    simp only [Network.advance] at hi
    split at hi
    · split at hi
      · rename_i echoMsg hecho
        rw [List.mem_singleton.mp hi]
        have hmsg : echoMsg = TracerouteHandler.echoMessage packet := by
          unfold TracerouteHandler.receivePacket at hecho
          dsimp only at hecho
          split at hecho
          · split at hecho
            · cases hecho
            · cases hecho
              rfl
          · split at hecho
            · cases hecho
            · split at hecho <;> cases hecho
        have hown := hcarries.2
        simp only [Carries, hmsg, leadingAddr_echoMessage]
        exact hown
      · rw [List.mem_singleton.mp hi]
        trivial
      · simp at hi
      · simp at hi
    · simp at hi
  | nextHop _ _ => simp [Network.advance] at hi

/-- The packets that answer an item are built by the node that has it. -/
theorem Sound.builds (h : s.Sound) (hmem : item ∈ s.items) :
    ∀ v packet, (v, packet) ∈ item.builds s.net → (s.net.hosts v).Builds s.net.codec 1 packet := by
  intro w packet hw
  have hcarries := h.items item hmem
  cases item with
  | exceeded v expired =>
    simp only [Item.builds, Option.mem_toList, Option.map_eq_some_iff,
      Prod.mk.injEq] at hw
    obtain ⟨p, hp, rfl, rfl⟩ := hw
    exact builds_sendICMPTimeExceeded hp
  | echo v echoMsg =>
    simp only [Item.builds, Option.mem_toList, Option.map_eq_some_iff,
      Prod.mk.injEq] at hw
    obtain ⟨p, hp, rfl, rfl⟩ := hw
    exact builds_readEchoPacket hcarries hp
  | datagram | packet | forwarding | delivered | nextHop => simp [Item.builds] at hw

theorem Sound.mono_built (h : s.Sound) (hbuilt : s'.built = s.built) (hitems : s'.items = s.items)
    (hcodec : s'.net.codec = s.net.codec)
    (hown : ∀ v, (s'.net.hosts v).own = (s.net.hosts v).own) : s'.Sound := by
  refine ⟨hcodec ▸ h.codec, fun item hitem => ?_, fun v packet hmem => ?_⟩
  · rw [hitems] at hitem
    exact (h.items item hitem).mono (hbuilt ▸ List.Subset.refl _) hcodec hown
  · rw [hbuilt] at hmem
    obtain ⟨hmade, hprotocol, hsrc⟩ := h.built v packet hmem
    exact ⟨hcodec ▸ hmade, hprotocol, hown v ▸ hsrc⟩

variable [DecidableEq Node] {ev : InternetEvent Node}

theorem Sound.step (h : s.Sound) (hs : InternetStep s ev s') : s'.Sound := by
  obtain ⟨now, hs⟩ := hs
  cases ev with
  | host v ev =>
    obtain ⟨host, hhost, rfl⟩ := Option.map_eq_some_iff.mp hs
    refine h.mono_built rfl rfl rfl fun w => ?_
    by_cases hw : w = v
    · subst hw
      simpa using (HostStep.move ⟨now, hhost⟩).1
    · simp [Function.update_of_ne hw]
  | tracing v on =>
    cases hs
    exact h.mono_built rfl rfl rfl fun _ => rfl
  | call v c =>
    cases hs
    refine ⟨h.codec, fun item hitem => ?_, fun w packet hmem => ?_⟩
    · rcases List.mem_append.mp hitem with hold | hnew
      · exact (h.items item hold).mono (List.subset_append_left _ _) rfl fun _ => rfl
      · refine carries_transmit (fun packet hp => ⟨v, packet, ?_, .refl packet⟩) item hnew
        simp [hp]
    · rcases List.mem_append.mp hmem with hold | hnew
      · exact h.built w packet hold
      · simp only [Option.mem_toList, Option.map_eq_some_iff,
          Prod.mk.injEq] at hnew
        obtain ⟨p, hp, rfl, rfl⟩ := hnew
        obtain ⟨protocol, hbuilds, -⟩ := Host.builds_attempt hp
        exact hbuilds.protocol_eq ▸ hbuilds
  | advance i =>
    obtain ⟨item, hitem, rfl⟩ := Option.map_eq_some_iff.mp hs
    have hmem := List.mem_of_getElem? hitem
    refine ⟨h.codec, fun j hj => ?_, fun w packet hw => ?_⟩
    · rcases List.mem_append.mp hj with hold | hnew
      · exact (h.items j hold).mono (List.subset_append_left _ _) rfl fun _ => rfl
      · exact h.advance
          { s with
            items := s.items ++ s.net.advance s.handlers item
            built := s.built ++ item.builds s.net } hmem rfl rfl j hnew
    · rcases List.mem_append.mp hw with hold | hnew
      · exact h.built w packet hold
      · have hbuilds := h.builds hmem w packet hnew
        exact hbuilds.protocol_eq ▸ hbuilds

/-- A packet of protocol 6 that is new was built for a message of the TCP handler. -/
theorem Sound.built_tcp (h : s.Sound) (hs : InternetStep s ev s')
    (hmem : (v, packet) ∈ s'.built) (hprotocol : packet.header.protocol = 6) :
    (v, packet) ∈ s.built ∨ ∃ data, ev = .call v (.message (.tcp data)) ∧
      withChecksum s.net.codec (Host.tcpPacket data) = some packet := by
  obtain ⟨now, hs⟩ := hs
  cases ev with
  | host w ev =>
    obtain ⟨host, -, rfl⟩ := Option.map_eq_some_iff.mp hs
    exact Or.inl hmem
  | tracing w on =>
    cases hs
    exact Or.inl hmem
  | call w c =>
    cases hs
    refine (List.mem_append.mp hmem).imp_right fun hnew => ?_
    simp only [Option.mem_toList, Option.map_eq_some_iff, Prod.mk.injEq] at hnew
    obtain ⟨p, hp, rfl, rfl⟩ := hnew
    obtain ⟨protocol, hbuilds, htcp⟩ := Host.builds_attempt hp
    obtain ⟨data, rfl, hsum⟩ := htcp (hbuilds.protocol_eq.symm.trans hprotocol)
    exact ⟨data, rfl, hsum⟩
  | advance i =>
    obtain ⟨item, hitem, rfl⟩ := Option.map_eq_some_iff.mp hs
    refine (List.mem_append.mp hmem).imp_right fun hnew => ?_
    have hicmp := (h.builds (List.mem_of_getElem? hitem) v packet hnew).protocol_eq
    rw [hprotocol] at hicmp
    exact absurd hicmp (by decide)

theorem sound_run {s₀ : Internet Node} {tr : List (Move (Internet Node) (InternetEvent Node))}
    (hip : s₀.net.codec.RoundTrips) (h0 : s₀.items = [] ∧ s₀.built = [])
    (h : Run InternetStep s₀ tr s) : s.Sound := by
  refine h.state_inv (P := fun _ => True) ⟨hip, ?_, ?_⟩ (fun _ _ => trivial)
    fun _ _ _ hi hs _ => hi.step hs
  · simp [h0.1]
  · simp [h0.2]

/-- Whatever happens to tables, interfaces and wires: a packet that a handler gets is addressed to
its node and is a copy of one that some node built, and unless it is TCP's, that node has the
address it names as its source. -/
theorem delivered_packets_authentic {s₀ : Internet Node}
    {tr : List (Move (Internet Node) (InternetEvent Node))}
    (hip : s₀.net.codec.RoundTrips) (h0 : s₀.items = [] ∧ s₀.built = [])
    (h : Run InternetStep s₀ tr s) (hmem : Item.delivered v packet ∈ s.items) :
    packet.header.dst ∈ (s.net.hosts v).own ∧
      ∃ u orig, (u, orig) ∈ s.built ∧ packet.Copies orig ∧
        (packet.header.protocol ≠ 6 → packet.header.src ∈ (s.net.hosts u).own) := by
  have hs := sound_run hip h0 h
  obtain ⟨⟨u, orig, hu, hc⟩, hown⟩ := hs.items _ hmem
  refine ⟨hown, u, orig, hu, hc, fun hne => ?_⟩
  rw [hc.src]
  exact (hs.built u orig hu).own (hc.protocol ▸ hne)

end Internet

section Sample

/-- Two neighbours, of which the first knows the second. -/
def neighbours : Internet Bool where
  net :=
    { codec := ipv4Codec
      hosts := fun v =>
        if v then ⟨[⟨0, 2, 1, 5000, false⟩], initRoutingTable [2]⟩
        else ⟨[⟨0, 1, 2, 5001, false⟩], ⟨RoutingTable.addRoute ∅ 2 1 2 0, [], 1⟩⟩
      wires := loopWires }
  handlers := fun _ => {}
  items := []
  built := []

def Internet.play (s : Internet Bool) (events : List (InternetEvent Bool)) :
    List (Move (Internet Bool) (InternetEvent Bool)) × Internet Bool :=
  Runs.play (fun s ev => (s.step 0 ev).map fun t => (ev, t)) s events

theorem Internet.play_run (s : Internet Bool) (events : List (InternetEvent Bool)) :
    Run InternetStep s (s.play events).1 (s.play events).2 :=
  play_events_run (fun _ _ _ h => ⟨0, h⟩) s events

/-- Three bytes for the second neighbour, which arrive twice. -/
def sentTwice : List (InternetEvent Bool) :=
  [.call false (.sendPacket 2 0 [1, 2, 3]), .advance 0, .advance 0, .advance 1, .advance 2]

theorem delivered_packets_authentic_neighbours :
    let s := (neighbours.play sentTwice).2
    let packet := (neighbours.net.checked 1 2 [1, 2, 3] 0 16).aged
    s.items[3]? = some (.delivered true packet) ∧ packet.header.dst ∈ (s.net.hosts true).own ∧
      ∃ u orig, (u, orig) ∈ s.built ∧ packet.Copies orig ∧
        (packet.header.protocol ≠ 6 → packet.header.src ∈ (s.net.hosts u).own) := by
  intro s packet
  have hitem : s.items[3]? = some (.delivered true packet) := rfl
  exact ⟨hitem, Internet.delivered_packets_authentic roundTrips_ipv4Codec ⟨rfl, rfl⟩
    (neighbours.play_run sentTwice) (List.mem_of_getElem? hitem)⟩

end Sample

end TcpIp.Ip
