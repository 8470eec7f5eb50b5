import TcpIp.Ip.Delivery

/-! What comes of the probes of a traceroute: the node that the TTL of a probe reaches answers it,
and the answer gets back to the source. -/
namespace TcpIp.Ip

open Binary

variable {Node : Type*}

namespace Network

section Answers

variable {net : Network Node} {handlers : Node → TracerouteHandler} {src dest a : Addr}
  {data : List U8} {ttl : ℤ} {v w source : Node} {vs : List Node}

theorem mem_own_of_localIF {h : Host} {interf : LinkInterface} {addr : Addr}
    (hif : localIF h.localIFs addr = some interf) : addr ∈ h.own := by
  have haddr := List.find?_some hif
  simp only [decide_eq_true_eq] at haddr
  rw [← haddr]
  exact mem_own (List.mem_of_find?_eq_some hif)

theorem Hop.mem_own (hh : net.Hop dest v a w) : a ∈ (net.hosts v).own := by
  cases hh with
  | mk _ _ _ hif => exact mem_own_of_localIF hif

theorem Hop.unique {a' : Addr} {w' : Node} (hh : net.Hop dest v a w)
    (hh' : net.Hop dest v a' w') : a = a' ∧ w = w' := by
  cases hh with
  | mk hroute _ hnear hif =>
    cases hh' with
    | mk hroute' _ hnear' hif' =>
      rw [hroute] at hroute'
      obtain rfl := Option.some.inj hroute'
      rw [hnear] at hnear'
      obtain rfl := Option.some.inj hnear'
      rw [hif] at hif'
      obtain rfl := Option.some.inj hif'
      exact ⟨rfl, rfl⟩

/-- The last node of a route has its address. -/
theorem Route.mem_own (hr : net.Route dest v vs) {u : Node} (hu : (v :: vs).getLast? = some u) :
    dest ∈ (net.hosts u).own := by
  induction hr with
  | here hif =>
    obtain rfl := Option.some.inj hu
    exact mem_own_of_localIF hif
  | hop _ _ _ ih => exact ih (by simpa using hu)

theorem icmp_registered : (1 : ℤ) ∈ handlerRegistry := by decide

theorem length_timeExceededMessage (packet : IPPacket) :
    (Host.timeExceededMessage packet).length = 16 := by
  simp [Host.timeExceededMessage, ICMPHeader.bytes]

/-- `sendICMPTimeExceeded` along the first hop of the way back. -/
theorem Hop.exceeds (hip : net.codec.RoundTrips) (hh : net.Hop src v a w)
    (handlers : Node → TracerouteHandler) (packet : IPPacket) (hsrc : packet.header.src = src) :
    ∃ port, (∃ i ∈ (net.hosts w).localIFs, i.udpDestPort = port) ∧
      net.advance handlers (.exceeded v packet) =
        [.datagram w port
          (net.wire (net.checked a src (Host.timeExceededMessage packet) 1 16))] := by
  cases hh with
  | mk hroute hcost hnear hif hup hport =>
    refine ⟨_, hport, ?_⟩
    simp only [advance, Host.sendICMPTimeExceeded, hsrc, hroute, if_neg hcost, Host.checkSendVia,
      hnear, hif, withChecksum_createIPPacket hip]
    exact transmit_handed hup

theorem leadingAddr_toBytes (addr : Addr) (rest : List U8) :
    leadingAddr (toBytes 4 addr.toNat ++ rest) = addr := by
  have htake : (toBytes 4 addr.toNat ++ rest).take addrSize = toBytes 4 addr.toNat :=
    List.take_left' (length_toBytes 4 _)
  rw [leadingAddr, htake, ofBytes_toBytes, Nat.mod_eq_of_lt (by have := addr.isLt; omega),
    BitVec.ofNat_toNat, BitVec.setWidth_eq]

/-- The reply to a probe: a header of type 0 and 64 zeros, since the text of the probe is shorter
than what `binary.Read` asks for. -/
def echoReplyData : List U8 := ICMPHeader.bytes { type := 0 } ++ List.replicate 64 0

theorem echoMessage_probe :
    TracerouteHandler.echoMessage (net.checked src dest createEchoPacket 1 ttl).aged =
      toBytes 4 src.toNat ++ (toBytes 4 dest.toNat ++ echoReplyData) := by
  rw [TracerouteHandler.echoMessage, List.append_assoc, List.append_assoc]
  rfl

/-- `ReadEchoPacket` along the first hop of the way back. -/
theorem Hop.echoes (hip : net.codec.RoundTrips) (hh : net.Hop src v a w)
    (handlers : Node → TracerouteHandler) (dest : Addr) :
    ∃ port, (∃ i ∈ (net.hosts w).localIFs, i.udpDestPort = port) ∧
      net.advance handlers
          (.echo v (toBytes 4 src.toNat ++ (toBytes 4 dest.toNat ++ echoReplyData))) =
        [.datagram w port (net.wire (net.checked dest src echoReplyData 1 16))] := by
  have hreply : Host.echoReply (toBytes 4 src.toNat ++ (toBytes 4 dest.toNat ++ echoReplyData)) =
      createIPPacket dest src echoReplyData 1 16 := by
    rw [Host.echoReply, leadingAddr_toBytes,
      List.drop_left' (i := addrSize) (length_toBytes 4 _), leadingAddr_toBytes]
    rfl
  cases hh with
  | mk hroute hcost hnear hif hup hport =>
    refine ⟨_, hport, ?_⟩
    have hlong : ¬ (toBytes 4 src.toNat ++
        (toBytes 4 dest.toNat ++ echoReplyData)).length < 2 * addrSize := by
      simp [addrSize]
      omega
    rw [advance, Host.readEchoPacket, if_neg hlong, leadingAddr_toBytes, hroute]
    simp only [Host.sendVia, hnear, hif, hreply, withChecksum_createIPPacket hip]
    exact transmit_handed hup

theorem advance_delivered_probe :
    net.advance handlers (.delivered v (net.checked src dest createEchoPacket 1 ttl).aged) =
      [.echo v (toBytes 4 src.toNat ++ (toBytes 4 dest.toNat ++ echoReplyData))] := by
  have hecho := @echoMessage_probe _ net src dest ttl
  rw [← hecho]
  rfl

theorem advance_delivered_exceeded {packet : IPPacket}
    (hon : (handlers v).handleRoute = true) :
    net.advance handlers
        (.delivered v (net.checked a src (Host.timeExceededMessage packet) 1 ttl).aged) =
      [.nextHop v ⟨false, a⟩] := by
  have haction : (handlers v).receivePacket
      (net.checked a src (Host.timeExceededMessage packet) 1 ttl).aged =
        if (11 : U8) = 11 ∧ (handlers v).handleRoute = true then .nextHop ⟨false, a⟩
        else .nothing := rfl
  have hprotocol : (net.checked a src (Host.timeExceededMessage packet) 1
      ttl).aged.header.protocol = 1 := rfl
  simp only [advance, hprotocol, haction, hon, and_self, if_true]

theorem advance_delivered_reply :
    net.advance handlers (.delivered v (net.checked a src echoReplyData 1 ttl).aged) =
      [.nextHop v ⟨true, a⟩] := rfl

/-- What is sent back with a TTL of 16 along a route of at most 15 hops gets to its end. -/
theorem Route.returns (hip : net.codec.RoundTrips) {back : List Node} (hr : net.Route src v back)
    (hlast : (v :: back).getLast? = some source) (hne : v ≠ source) (hshort : back.length ≤ 15) :
    ∃ a' w, net.Hop src v a' w ∧ ∀ (handlers : Node → TracerouteHandler) (port : ℕ) (a : Addr)
      (data : List U8), (∃ i ∈ (net.hosts w).localIFs, i.udpDestPort = port) →
      data.length ≤ 1380 →
      ∃ ttl, net.Reaches handlers (.datagram w port (net.wire (net.checked a src data 1 16)))
        (.delivered source (net.checked a src data 1 ttl).aged) := by
  cases hr with
  | here => exact absurd (Option.some.inj hlast) hne
  | @hop _ w a' back hnot hh hr =>
    refine ⟨a', w, hh, fun handlers port a data hport hlen => ?_⟩
    simp only [List.length_cons] at hshort
    obtain ⟨u, hu, hreach⟩ := hr.delivers hip handlers a (t := 16) hport hlen icmp_registered
      (by omega) (by omega)
    rw [List.getLast?_cons_cons, hu] at hlast
    obtain rfl := Option.some.inj hlast
    exact ⟨_, hreach⟩

/-- One node answers on the way. -/
theorem Reaches.answered {i j k l : Item Node} {u : Node} {answer : Answer}
    (h : net.Reaches handlers i j) (hj : j.answer = some (u, answer))
    (hstep : net.advance handlers j = [k]) (h' : net.Reaches handlers k l) :
    ∃ is, net.Leads handlers i is l ∧ is.filterMap Item.answer = [(u, answer)] := by
  obtain ⟨is, hl, his⟩ := h
  obtain ⟨js, hl', hjs⟩ := h'
  refine ⟨is ++ j :: js, hl.trans (.step hstep hl'), ?_⟩
  simp [his, hj, hjs]

end Answers

section Probes

variable (net : Network Node)

/-- The forwarding path to `dest` goes through the nodes `vs` without a loop, and each of them has
a route of at most 15 hops back to the address that the probes come from. -/
structure Traceable (source : Node) (dest : Addr) (vs : List Node) : Prop where
  route : net.Route dest source vs
  loopFree : (source :: vs).Nodup
  hops : 1 ≤ vs.length ∧ vs.length ≤ 16
  back : ∀ a w, net.Hop dest source a w → ∀ v ∈ vs,
    ∃ back, net.Route a v back ∧ (v :: back).getLast? = some source ∧ back.length ≤ 15

/-- What comes of a probe, in order: the node `u` alone answers it, and the answer brings the
source the address `a` of that node. -/
structure Answered (handlers : Node → TracerouteHandler) (source : Node) (dest : Addr)
    (probe : Attempt) (u : Node) (answer : Answer) (a : Addr) (is : List (Item Node)) : Prop where
  leads : ∃ item, net.transmit source probe = [item] ∧
    net.Leads handlers item is (.nextHop source ⟨answer == .echoReply, a⟩)
  alone : is.filterMap Item.answer = [(u, answer)]
  owned : a ∈ (net.hosts u).own
  delivered : answer = .echoReply →
    a = dest ∧ ∃ packet, Item.delivered u packet ∈ is ∧ packet.header.dst = dest

variable {net} {handlers : Node → TracerouteHandler} {source u w : Node} {dest a : Addr}
  {vs : List Node} {entry : RoutingTableEntry}

theorem Traceable.routes (hp : net.Traceable source dest vs) : ∃ entry,
    (net.hosts source).router.table.checkRoute dest = some entry ∧ entry.cost ≠ infinity := by
  have hhops := hp.hops.1
  cases hp.route with
  | here => simp at hhops
  | hop _ hh =>
    cases hh with
    | mk hroute hcost => exact ⟨_, hroute, hcost⟩

/-- `SendTraceroutePacket` sends its probes along the first hop. -/
theorem Hop.probes (hip : net.codec.RoundTrips) (hh : net.Hop dest source a w)
    (hroute : (net.hosts source).router.table.checkRoute dest = some entry) :
    ∃ port, (∃ i ∈ (net.hosts w).localIFs, i.udpDestPort = port) ∧
      ∀ t : ℕ, ∃ probe, (net.hosts source).sendProbe net.codec dest entry t = some probe ∧
        net.transmit source probe =
          [.datagram w port (net.wire (net.checked a dest createEchoPacket 1 t))] := by
  cases hh with
  | mk hroute' _ hnear hif hup hport =>
    rw [hroute] at hroute'
    obtain rfl := Option.some.inj hroute'
    refine ⟨_, hport, fun t => ⟨_, ?_, transmit_handed hup⟩⟩
    simp only [Host.sendProbe, hnear, hif, withChecksum_createIPPacket hip, Option.map_some]

/-- The way from the answer of a node on the path back to the source. -/
theorem Traceable.returns (hip : net.codec.RoundTrips) (hp : net.Traceable source dest vs)
    (hh : net.Hop dest source a w) (hu : u ∈ vs) :
    ∃ a' w', net.Hop a u a' w' ∧ ∀ (handlers : Node → TracerouteHandler) (port : ℕ) (src : Addr)
      (data : List U8), (∃ i ∈ (net.hosts w').localIFs, i.udpDestPort = port) →
      data.length ≤ 1380 →
      ∃ ttl, net.Reaches handlers (.datagram w' port (net.wire (net.checked src a data 1 16)))
        (.delivered source (net.checked src a data 1 ttl).aged) := by
  obtain ⟨back, hr, hlast, hshort⟩ := hp.back a w hh u hu
  have hne : u ≠ source := fun heq => (List.nodup_cons.mp hp.loopFree).1 (heq ▸ hu)
  exact hr.returns hip hlast hne hshort

/-- A probe that runs out at `u`. -/
theorem Traceable.exceeds (hip : net.codec.RoundTrips) (hp : net.Traceable source dest vs)
    (hh : net.Hop dest source a w) (hu : u ∈ vs) (hon : (handlers source).handleRoute = true)
    {probe : Attempt} {item : Item Node} (hitem : net.transmit source probe = [item])
    (hreach : net.Reaches handlers item
      (.exceeded u (net.checked a dest createEchoPacket 1 1).aged)) :
    ∃ a' is, net.Answered handlers source dest probe u .timeExceeded a' is := by
  obtain ⟨a', w', hhop, hback⟩ := hp.returns hip hh hu
  obtain ⟨port, hport, hanswer⟩ := hhop.exceeds hip handlers
    (net.checked a dest createEchoPacket 1 1).aged rfl
  obtain ⟨ttl, hret⟩ := hback handlers port a' _ hport
    ((length_timeExceededMessage (net.checked a dest createEchoPacket 1 1).aged).trans_le
      (by decide))
  have hmsg : net.Reaches handlers _ (.nextHop source ⟨false, a'⟩) :=
    hret.trans (.step (advance_delivered_exceeded hon) rfl .refl)
  obtain ⟨is, hl, his⟩ := hreach.answered rfl hanswer hmsg
  exact ⟨a', is, ⟨item, hitem, hl⟩, his, hhop.mem_own, by simp⟩

/-- A probe that is delivered at `u`. -/
theorem Traceable.echoes (hip : net.codec.RoundTrips) (hp : net.Traceable source dest vs)
    (hh : net.Hop dest source a w) (hu : u ∈ vs) (hown : dest ∈ (net.hosts u).own)
    {probe : Attempt} {item : Item Node} {ttl : ℤ} (hitem : net.transmit source probe = [item])
    (hreach : net.Reaches handlers item
      (.delivered u (net.checked a dest createEchoPacket 1 ttl).aged)) :
    ∃ is, net.Answered handlers source dest probe u .echoReply dest is := by
  obtain ⟨a', w', hhop, hback⟩ := hp.returns hip hh hu
  obtain ⟨port, hport, hanswer⟩ := hhop.echoes hip handlers dest
  obtain ⟨ttl', hret⟩ := hback handlers port dest echoReplyData hport
    (by simp [echoReplyData, ICMPHeader.bytes])
  have hmsg : net.Reaches handlers _ (.nextHop source ⟨true, dest⟩) :=
    hret.trans (.step advance_delivered_reply rfl .refl)
  obtain ⟨is, hl, his⟩ := hreach
  have hecho : net.Reaches handlers
      (.delivered u (net.checked a dest createEchoPacket 1 ttl).aged) _ :=
    .step advance_delivered_probe rfl .refl
  obtain ⟨js, hl', hjs⟩ := hecho.answered rfl hanswer hmsg
  have hdelivered :
      Item.delivered u (net.checked a dest createEchoPacket 1 ttl).aged ∈ is ++ js := by
    cases hl' with
    | step => simp
  refine ⟨is ++ js, ⟨item, hitem, hl.trans hl'⟩, ?_, hown, fun _ => ⟨rfl, _, hdelivered, rfl⟩⟩
  rw [List.filterMap_append, his, hjs, List.nil_append]

/-- Each probe is answered by the node its TTL reaches. -/
theorem Traceable.answered (hip : net.codec.RoundTrips) (hp : net.Traceable source dest vs)
    (hroute : (net.hosts source).router.table.checkRoute dest = some entry)
    (hon : (handlers source).handleRoute = true) {t : ℕ} (hu : vs[t]? = some u) :
    ∃ probe a is, (net.hosts source).sendProbe net.codec dest entry (t + 1) = some probe ∧
      net.Answered handlers source dest probe u
        (if t + 1 = vs.length then .echoReply else .timeExceeded) a is := by
  have hmem := List.mem_of_getElem? hu
  have hlt : t < vs.length := (List.getElem?_eq_some_iff.mp hu).1
  have hhops := hp.hops
  obtain ⟨route⟩ := id hp
  cases route with
  | here => simp at hhops
  | @hop _ w a ws hnot hh hr =>
    obtain ⟨port, hport, hprobes⟩ := hh.probes hip hroute
    obtain ⟨probe, hprobe, hitem⟩ := hprobes (t + 1)
    simp only [List.length_cons] at hlt hhops
    by_cases hlast : t + 1 = (w :: ws).length
    · rw [if_pos hlast]
      simp only [List.length_cons, Nat.add_right_cancel_iff] at hlast
      subst hlast
      obtain ⟨u', hu', hreach⟩ := hr.delivers hip handlers a hport
        (by decide : createEchoPacket.length ≤ 1380) icmp_registered (t := ws.length + 1)
        (by omega) (by omega)
      rw [List.getLast?_eq_getElem?, List.length_cons, Nat.add_sub_cancel, hu] at hu'
      obtain rfl := Option.some.inj hu'
      have hown : dest ∈ (net.hosts u).own := hr.mem_own (by
        rw [List.getLast?_eq_getElem?, List.length_cons, Nat.add_sub_cancel, hu])
      obtain ⟨is, his⟩ := hp.echoes hip hh hmem hown hitem hreach
      exact ⟨probe, dest, is, hprobe, his⟩
    · rw [if_neg hlast]
      simp only [List.length_cons] at hlast
      obtain ⟨u', hu', hreach⟩ := hr.expires hip handlers a hport
        (by decide : createEchoPacket.length ≤ 1380) icmp_registered (t := t) (by omega)
        (by omega)
      rw [hu] at hu'
      obtain rfl := Option.some.inj hu'
      obtain ⟨a', is, his⟩ := hp.exceeds hip hh hmem hon hitem hreach
      exact ⟨probe, a', is, hprobe, his⟩

end Probes

end Network

end TcpIp.Ip
