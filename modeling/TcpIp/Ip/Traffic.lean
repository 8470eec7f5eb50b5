import TcpIp.Ip.OutputPaths

/-! The traffic of a host while its interfaces go down and come up. -/
namespace TcpIp.Ip

open Runs

/-- A goroutine that has a packet in hand, with the UDP port the packet came from, if it came from
one. -/
inductive Work
  /-- `handler.ReceivePacket` is about to run -/
  | delivering (port : Option ℕ) (packet : IPPacket)
  /-- `SendToLinkLayer` is about to run -/
  | forwarding (port : Option ℕ) (destAddr : Addr) (packet : IPPacket)
  /-- `Send` of an interface, about to look at `Stopped` -/
  | sending (hostIPAddress : Addr) (port : Option ℕ) (packet : IPPacket)
  /-- `Send` has let go of the lock and is about to write -/
  | writing (hostIPAddress : Addr) (port : Option ℕ) (packet : IPPacket)
  deriving DecidableEq

structure Traffic where
  host : Host
  packetChannel : List (Option ℕ × IPPacket) := []
  work : List Work := []

inductive TrafficEvent
  | host (ev : HostEvent)
  /-- a datagram from a UDP port -/
  | arrive (port : ℕ) (datagram : List U8)
  /-- `SendPacket` puts a packet for the node itself on the channel -/
  | loop (packet : IPPacket)
  /-- `ReadFromLinkLayer` takes a packet from the channel -/
  | read
  /-- a packet of the node's own goes to an interface -/
  | output (hostIPAddress : Addr) (packet : IPPacket)
  /-- goroutine `k` takes its next step -/
  | run (k : ℕ)
  deriving DecidableEq

/-- The event is a `DownInterface`. -/
def TrafficEvent.downs : TrafficEvent → Bool
  | .host (.down _) => true
  | _ => false

/-- What a step does with a packet. -/
inductive Carried
  | nothing
  /-- a handler gets the packet -/
  | delivered (port : Option ℕ) (packet : IPPacket)
  /-- `SendToLinkLayer` gets the packet -/
  | forwarded (port : Option ℕ) (destAddr : Addr) (packet : IPPacket)
  /-- bytes are written to the neighbour of an interface -/
  | sent (hostIPAddress : Addr) (port : Option ℕ) (bytes : List U8)
  deriving DecidableEq

variable (ip : HeaderCodec)

/-- What `ReadFromLinkLayer` starts for a packet; a time-exceeded message is an output of the
node's own. -/
def Outcome.work (port : Option ℕ) : Outcome → List Work
  | .dropped | .timeExceeded _ => []
  | .delivered packet => [.delivering port packet]
  | .forward destAddr packet => [.forwarding port destAddr packet]

/-- The next step of a goroutine: what it does, and what is left of it. -/
def Work.run (h : Host) : Work → Carried × Option Work
  | .delivering port packet => (.delivered port packet, none)
  | .forwarding port destAddr packet =>
    (.forwarded port destAddr packet,
      match h.forwardPacket ip destAddr packet with
      | .handed interf packet => some (.sending interf.hostIPAddress port packet)
      | _ => none)
  | .sending hostIPAddress port packet =>
    (.nothing,
      (localIF h.localIFs hostIPAddress).bind fun interf =>
        if interf.stopped then none else some (.writing hostIPAddress port packet))
  | .writing hostIPAddress port packet =>
    (.sent hostIPAddress port ((ip.marshal packet.header).getD [] ++ packet.data), none)

def Traffic.step (now : ℕ) (t : Traffic) : TrafficEvent → Option (Traffic × Carried)
  | .host ev => (t.host.step now ev).map fun host => ({ t with host }, .nothing)
  | .arrive port datagram =>
    (t.host.listenOnPort ip port datagram).map fun packet =>
      ({ t with packetChannel := t.packetChannel ++ [(some port, packet)] }, .nothing)
  | .loop packet =>
    some ({ t with packetChannel := t.packetChannel ++ [(none, packet)] }, .nothing)
  | .read =>
    match t.packetChannel with
    | [] => none
    | (port, packet) :: packetChannel =>
      some ({ t with
        packetChannel
        work := t.work ++ (t.host.readFromLinkLayer ip packet).work port }, .nothing)
  | .output hostIPAddress packet =>
    some ({ t with work := t.work ++ [.sending hostIPAddress none packet] }, .nothing)
  | .run k =>
    t.work[k]?.map fun w =>
      ({ t with work := t.work.eraseIdx k ++ (w.run ip t.host).2.toList }, (w.run ip t.host).1)

structure TrafficLabel where
  ev : TrafficEvent
  carried : Carried

def TrafficStep (t : Traffic) (l : TrafficLabel) (t' : Traffic) : Prop :=
  ∃ now, t.step ip now l.ev = some (t', l.carried)

namespace Host

/-- The interface is down. -/
def isDown (h : Host) (hostIPAddress : Addr) : Bool :=
  (localIF h.localIFs hostIPAddress).any LinkInterface.stopped

/-- The packet has come from the neighbour of an interface that is down. -/
def arrivedOverDown (h : Host) (port : Option ℕ) : Bool :=
  h.localIFs.any fun interf => interf.stopped && some interf.udpDestPort = port

/-- `ReadFromLinkLayer` lets the packet pass. -/
def accepts (h : Host) (packet : IPPacket) : Bool :=
  packet.header.version ≠ 6 &&
    (computeChecksum ip packet).any (fun newCheckSum =>
      (newCheckSum.toNat : ℤ) = packet.header.checksum) &&
    match localIF h.localIFs packet.header.dst with
    | some localInterface =>
      !localInterface.stopped && handlerRegistry.contains packet.header.protocol
    | none => packet.header.ttl ≠ 1

end Host

/-- A packet passes an interface that is down: it is sent through one, or it came over one and is
delivered, forwarded or sent on. -/
def Carried.passesDown (h : Host) : Carried → Bool
  | .nothing => false
  | .delivered port _ | .forwarded port _ _ => h.arrivedOverDown port
  | .sent hostIPAddress port _ => h.isDown hostIPAddress || h.arrivedOverDown port

/-- No packet passes an interface that is down. -/
def CarriesNothing (x : Move Traffic TrafficLabel) : Prop :=
  x.ev.carried.passesDown x.src.host = false

instance (x : Move Traffic TrafficLabel) : Decidable (CarriesNothing x) :=
  inferInstanceAs (Decidable (_ = _))

/-- A packet read that came over an interface that is down is not let pass. -/
def RefusesArrivals (x : Move Traffic TrafficLabel) : Prop :=
  x.ev.ev = .read → ∀ e ∈ x.src.packetChannel.head?, x.src.host.arrivedOverDown e.1 = true →
    x.src.host.accepts ip e.2 = false

/-- The goroutine has a packet that came over an interface that is down, or is past the check of
one. -/
def Work.blocked (h : Host) : Work → Bool
  | .delivering port _ | .forwarding port _ _ | .sending _ port _ => h.arrivedOverDown port
  | .writing hostIPAddress port _ => h.isDown hostIPAddress || h.arrivedOverDown port

/-- No interface goes down under a goroutine that has passed its check or its packet. -/
def QuietDown (x : Move Traffic TrafficLabel) : Prop :=
  x.ev.ev.downs = true → ∀ w ∈ x.src.work, w.blocked x.dst.host = false

instance (x : Move Traffic TrafficLabel) : Decidable (RefusesArrivals ip x) :=
  inferInstanceAs (Decidable (x.ev.ev = .read → _))

instance (x : Move Traffic TrafficLabel) : Decidable (QuietDown x) :=
  inferInstanceAs (Decidable (x.ev.ev.downs = true → _))

/-- Everything a step can do. -/
inductive TrafficMove (t : Traffic) : TrafficEvent → Carried → Traffic → Prop
  | host {ev : HostEvent} {host : Host} (hs : HostStep t.host ev host) :
      TrafficMove t (.host ev) .nothing { t with host }
  | queued {ev : TrafficEvent} {packetChannel : List (Option ℕ × IPPacket)} :
      TrafficMove t ev .nothing { t with packetChannel }
  | read {port : Option ℕ} {packet : IPPacket} {packetChannel : List (Option ℕ × IPPacket)}
      (hc : t.packetChannel = (port, packet) :: packetChannel) :
      TrafficMove t .read .nothing
        { t with
          packetChannel
          work := t.work ++ (t.host.readFromLinkLayer ip packet).work port }
  | output {hostIPAddress : Addr} {packet : IPPacket} :
      TrafficMove t (.output hostIPAddress packet) .nothing
        { t with work := t.work ++ [.sending hostIPAddress none packet] }
  | ran {k : ℕ} {w : Work} (hw : t.work[k]? = some w) :
      TrafficMove t (.run k) (w.run ip t.host).1
        { t with work := t.work.eraseIdx k ++ (w.run ip t.host).2.toList }

section Traffic

variable {ip} {h h' : Host} {t t' : Traffic} {l : TrafficLabel} {w : Work} {packet : IPPacket}
  {port : Option ℕ}

/-- What is let pass is delivered or forwarded. -/
theorem work_readFromLinkLayer_eq_nil_iff :
    (h.readFromLinkLayer ip packet).work port = [] ↔ h.accepts ip packet = false := by
  unfold Host.readFromLinkLayer Host.accepts
  split
  · rename_i hv
    simp [Outcome.work, hv]
  rename_i hv
  cases hc : computeChecksum ip packet with
  | none => simp [Outcome.work]
  | some newCheckSum =>
    dsimp only
    split
    · rename_i hne
      simp [Outcome.work, hne]
    · rename_i heq
      cases hl : localIF h.localIFs packet.header.dst with
      | some localInterface =>
        dsimp only
        split
        · rename_i hs
          simp [Outcome.work, hs]
        · split <;> simp_all [Outcome.work]
      | none =>
        dsimp only
        split <;> simp_all [Outcome.work] <;> omega

theorem mem_setStopped_false {b : Addr} {interf : LinkInterface}
    (hi : interf ∈ h.setStopped b false) (hs : interf.stopped = true) :
    interf ∈ h.localIFs := by
  obtain ⟨old, hold, rfl⟩ := List.mem_map.mp hi
  split at hs
  · cases hs
  · rename_i hne
    rw [if_neg hne]
    exact hold

theorem localIF_setStopped {b a : Addr} {stopped : Bool} :
    localIF (h.setStopped b stopped) a = (localIF h.localIFs a).map fun interf =>
      if interf.hostIPAddress = b then { interf with stopped := stopped } else interf := by
  have hfun : (fun interf : LinkInterface => decide (interf.hostIPAddress = a)) ∘
      (fun interf : LinkInterface =>
        if interf.hostIPAddress = b then { interf with stopped := stopped } else interf) =
      fun interf => decide (interf.hostIPAddress = a) := by
    funext interf
    simp only [Function.comp]
    split <;> rfl
  simp only [localIF, Host.setStopped, List.find?_map, hfun]

/-- Only `DownInterface` stops an interface. -/
theorem HostStep.localIFs {ev : HostEvent} (hs : HostStep h ev h') (hdown : ∀ n, ev ≠ .down n) :
    h'.localIFs = h.localIFs ∨ ∃ b, h'.localIFs = h.setStopped b false := by
  obtain ⟨now, hs⟩ := hs
  cases ev with
  | rip src newEntry =>
    cases hs
    exact Or.inl rfl
  | timeout i =>
    obtain ⟨r, -, rfl⟩ := Option.map_eq_some_iff.mp hs
    exact Or.inl rfl
  | down n => exact absurd rfl (hdown n)
  | up n =>
    simp only [Host.step, Host.upInterface] at hs
    split at hs
    · cases hs
    · split at hs
      · cases hs
      · cases hs
        exact Or.inr ⟨_, rfl⟩

theorem arrivedOverDown_of_step {ev : HostEvent} (hs : HostStep h ev h')
    (hdown : ∀ n, ev ≠ .down n) (hup : h.arrivedOverDown port = false) :
    h'.arrivedOverDown port = false := by
  rw [Host.arrivedOverDown, List.any_eq_false] at hup ⊢
  intro interf hi hpass
  simp only [Bool.and_eq_true] at hpass
  rcases hs.localIFs hdown with heq | ⟨b, heq⟩
  · rw [heq] at hi
    exact hup interf hi (by simpa using hpass)
  · rw [heq] at hi
    exact hup interf (mem_setStopped_false hi hpass.1) (by simpa using hpass)

theorem isDown_of_step {ev : HostEvent} {a : Addr} (hs : HostStep h ev h')
    (hdown : ∀ n, ev ≠ .down n) (hup : h.isDown a = false) : h'.isDown a = false := by
  rcases hs.localIFs hdown with heq | ⟨b, heq⟩
  · rwa [Host.isDown, heq]
  · rw [Host.isDown] at hup ⊢
    rw [heq, localIF_setStopped]
    cases hl : localIF h.localIFs a with
    | none => rfl
    | some interf =>
      rw [hl] at hup
      simp only [Option.map_some, Option.any_some] at hup ⊢
      split
      · rfl
      · exact hup

theorem blocked_of_step {ev : HostEvent} (hs : HostStep h ev h') (hdown : ∀ n, ev ≠ .down n)
    (hw : w.blocked h = false) : w.blocked h' = false := by
  cases w with
  | delivering | forwarding | sending => exact arrivedOverDown_of_step hs hdown hw
  | writing hostIPAddress port packet =>
    simp only [Work.blocked, Bool.or_eq_false_iff] at hw ⊢
    exact ⟨isDown_of_step hs hdown hw.1, arrivedOverDown_of_step hs hdown hw.2⟩

/-- What is left of a goroutine after a step is not blocked: `Send` goes on only past the check. -/
theorem blocked_run {w' : Work} (hw : w.blocked h = false) (hr : (w.run ip h).2 = some w') :
    w'.blocked h = false := by
  cases w with
  | delivering | writing => cases hr
  | forwarding port destAddr packet =>
    simp only [Work.run] at hr
    split at hr
    · obtain rfl := Option.some.inj hr
      exact hw
    · cases hr
  | sending hostIPAddress port packet =>
    obtain ⟨interf, hl, hif⟩ := Option.bind_eq_some_iff.mp hr
    split at hif
    · cases hif
    · rename_i hs
      obtain rfl := Option.some.inj hif
      simp only [Work.blocked, Bool.or_eq_false_iff]
      exact ⟨by simp [Host.isDown, hl, hs], hw⟩

/-- The work that reading a packet starts is blocked only if the packet is let pass from an
interface that is down. -/
theorem blocked_read (hread : h.arrivedOverDown port = true → h.accepts ip packet = false)
    (hw : w ∈ (h.readFromLinkLayer ip packet).work port) : w.blocked h = false := by
  by_contra hblocked
  have hport : w.blocked h = h.arrivedOverDown port := by
    cases hout : h.readFromLinkLayer ip packet with
    | dropped | timeExceeded => simp [hout, Outcome.work] at hw
    | delivered | forward =>
      rw [hout] at hw
      rw [List.mem_singleton.mp hw]
      rfl
  have hnone : (h.readFromLinkLayer ip packet).work port = [] :=
    work_readFromLinkLayer_eq_nil_iff.mpr
      (hread (hport ▸ Bool.eq_true_of_not_eq_false hblocked))
  rw [hnone] at hw
  cases hw

theorem TrafficStep.move (hs : TrafficStep ip t l t') : TrafficMove ip t l.ev l.carried t' := by
  obtain ⟨now, hs⟩ := hs
  obtain ⟨ev, carried⟩ := l
  cases ev with
  | host ev =>
    obtain ⟨host, hstep, heq⟩ := Option.map_eq_some_iff.mp hs
    obtain ⟨rfl, rfl⟩ := Prod.mk.inj heq
    exact .host ⟨now, hstep⟩
  | arrive port datagram =>
    obtain ⟨packet, -, heq⟩ := Option.map_eq_some_iff.mp hs
    obtain ⟨rfl, rfl⟩ := Prod.mk.inj heq
    exact .queued
  | loop packet =>
    obtain ⟨rfl, rfl⟩ := Prod.mk.inj (Option.some.inj hs)
    exact .queued
  | read =>
    simp only [Traffic.step] at hs
    split at hs
    · cases hs
    · rename_i port packet packetChannel hc
      obtain ⟨rfl, rfl⟩ := Prod.mk.inj (Option.some.inj hs)
      exact .read hc
  | output hostIPAddress packet =>
    obtain ⟨rfl, rfl⟩ := Prod.mk.inj (Option.some.inj hs)
    exact .output
  | run k =>
    obtain ⟨w, hw, heq⟩ := Option.map_eq_some_iff.mp hs
    obtain ⟨rfl, rfl⟩ := Prod.mk.inj heq
    exact .ran hw

/-- No goroutine is blocked. -/
def Traffic.Unblocked (t : Traffic) : Prop := ∀ w ∈ t.work, w.blocked t.host = false

theorem Traffic.Unblocked.step (ht : t.Unblocked) (hs : TrafficStep ip t l t')
    (hrefuse : RefusesArrivals ip ⟨t, l, t'⟩) (hquiet : QuietDown ⟨t, l, t'⟩) :
    t'.Unblocked := by
  intro w hw
  have hm := hs.move
  generalize hev : l.ev = ev at hm
  generalize l.carried = carried at hm
  cases hm with
  | @host ev host hstep =>
    by_cases hdown : ∃ n, ev = .down n
    · obtain ⟨n, rfl⟩ := hdown
      exact hquiet (by rw [hev]; rfl) w hw
    · exact blocked_of_step hstep (not_exists.mp hdown) (ht w hw)
  | queued => exact ht w hw
  | @read port packet packetChannel hc =>
    rcases List.mem_append.mp hw with hw | hw
    · exact ht w hw
    · exact blocked_read (hrefuse hev (port, packet) (by simp [hc])) hw
  | output =>
    rcases List.mem_append.mp hw with hw | hw
    · exact ht w hw
    · rw [List.mem_singleton.mp hw]
      simp [Work.blocked, Host.arrivedOverDown]
  | ran hu =>
    rcases List.mem_append.mp hw with hw | hw
    · exact ht w (List.mem_of_mem_eraseIdx hw)
    · exact blocked_run (ht _ (List.mem_of_getElem? hu)) (Option.mem_toList.mp hw)

/-- A goroutine that is not blocked carries nothing over an interface that is down. -/
theorem Traffic.Unblocked.carries (ht : t.Unblocked) (hs : TrafficStep ip t l t') :
    CarriesNothing ⟨t, l, t'⟩ := by
  have hm := hs.move
  unfold CarriesNothing
  dsimp only
  generalize l.ev = ev at hm
  generalize l.carried = carried at hm
  cases hm with
  | host | queued | read | output => rfl
  | @ran k w hw =>
    have hup := ht w (List.mem_of_getElem? hw)
    cases w with
    | delivering | forwarding | writing => exact hup
    | sending => rfl

/-- `Send` that nothing interrupts. -/
theorem send_uninterrupted {interf : LinkInterface} {hostIPAddress : Addr}
    (hl : localIF h.localIFs hostIPAddress = some interf) :
    (interf.send ip packet).map (Carried.sent hostIPAddress port) =
      ((Work.sending hostIPAddress port packet).run ip h).2.map fun w => (w.run ip h).1 := by
  simp only [Work.run, hl, LinkInterface.send, Option.bind_some]
  split <;> rfl

/-- A packet that is let pass is delivered or forwarded by the goroutine it gets. -/
theorem work_of_accepts (port : Option ℕ) (h' : h.accepts ip packet = true) :
    ∃ w, (h.readFromLinkLayer ip packet).work port = [w] ∧
      ((∃ packet', (w.run ip h).1 = .delivered port packet') ∨
        ∃ destAddr packet', (w.run ip h).1 = .forwarded port destAddr packet') := by
  have hne : (h.readFromLinkLayer ip packet).work port ≠ [] :=
    mt work_readFromLinkLayer_eq_nil_iff.mp (by simp [h'])
  cases hout : h.readFromLinkLayer ip packet with
  | dropped | timeExceeded => simp [hout, Outcome.work] at hne
  | delivered packet' => exact ⟨_, rfl, Or.inl ⟨packet', rfl⟩⟩
  | forward destAddr packet' => exact ⟨_, rfl, Or.inr ⟨destAddr, packet', rfl⟩⟩

/-- Whatever is let pass from an interface that is down can be carried at once. -/
theorem accepted_carried {packetChannel : List (Option ℕ × IPPacket)}
    (hc : t.packetChannel = (port, packet) :: packetChannel)
    (hdown : t.host.arrivedOverDown port = true) (haccepts : t.host.accepts ip packet = true) :
    ∃ tr t', Run (TrafficStep ip) t tr t' ∧ tr.length = 2 ∧ ¬ ∀ x ∈ tr, CarriesNothing x := by
  obtain ⟨w, hw, hcarried⟩ := work_of_accepts port haccepts
  have hread : TrafficStep ip t ⟨.read, .nothing⟩ { t with packetChannel, work := t.work ++ [w] } :=
    ⟨0, by simp only [Traffic.step, hc, hw]⟩
  have hrun : TrafficStep ip { t with packetChannel, work := t.work ++ [w] }
      ⟨.run t.work.length, (w.run ip t.host).1⟩ _ := ⟨0, by
    simp only [Traffic.step, List.getElem?_concat_length, Option.map_some]
    rfl⟩
  refine ⟨_, _, .snoc (.snoc .nil hread) hrun, rfl, fun hall => ?_⟩
  have hlast := hall ⟨_, ⟨.run t.work.length, (w.run ip t.host).1⟩, _⟩
    (List.mem_append_right _ (List.mem_singleton_self _))
  rcases hcarried with ⟨packet', heq⟩ | ⟨destAddr, packet', heq⟩ <;>
    simp [CarriesNothing, Carried.passesDown, heq, hdown] at hlast

end Traffic

/-- Nothing passes an interface that is down as long as what arrives over it is refused for its
destination, its protocol or its TTL, and no interface goes down under a goroutine. -/
theorem down_interface_carries_nothing {ip : HeaderCodec} {t t' : Traffic}
    {tr : List (Move Traffic TrafficLabel)} (h0 : t.work = []) (h : Run (TrafficStep ip) t tr t')
    (hall : ∀ x ∈ tr, RefusesArrivals ip x ∧ QuietDown x) : ∀ x ∈ tr, CarriesNothing x := by
  intro x hx
  obtain ⟨pre, post, rfl⟩ := List.append_of_mem hx
  obtain ⟨hpre, hstep⟩ := h.pre rfl
  have hstart : t.Unblocked := by simp [Traffic.Unblocked, h0]
  have hunblocked : x.src.Unblocked :=
    hpre.state_inv hstart (fun y hy => hall y (by simp [hy])) fun _ _ _ hu hs hc =>
      hu.step hs hc.1 hc.2
  exact hunblocked.carries hstep

section Sample

/-- The run a list of events makes. -/
def Traffic.play (t : Traffic) (events : List TrafficEvent) :
    List (Move Traffic TrafficLabel) × Traffic :=
  Runs.play (fun t ev => (t.step ipv4Codec 0 ev).map fun r => (⟨ev, r.2⟩, r.1)) t events

theorem Traffic.play_run (t : Traffic) (events : List TrafficEvent) :
    Run (TrafficStep ipv4Codec) t (t.play events).1 (t.play events).2 :=
  play_map_run TrafficLabel.mk (fun _ _ _ _ h => ⟨0, h⟩) t events

/-- A host with a link on each side, and address 9 behind the second. -/
def betweenLinks : Traffic where
  host :=
    { localIFs := [⟨0, 1, 2, 5000, false⟩, ⟨1, 3, 4, 5001, false⟩]
      router := ⟨RoutingTable.addRoute ∅ 9 2 4 0, [], 1⟩ }

/-- A packet from address 7 with its checksum, and the datagram it makes. -/
def packetTo (dst : Addr) : IPPacket :=
  let hdr : Header := ⟨4, 20, 0, 28, 0, 0, 0, 5, 0, 0, 7, dst, []⟩
  (withChecksum ipv4Codec ⟨hdr, List.replicate 8 0⟩).getD ⟨hdr, []⟩

def datagramTo (dst : Addr) : List U8 :=
  (ipv4Codec.marshal (packetTo dst).header).getD [] ++ (packetTo dst).data

/-- A packet is sent through interface 0, which then goes down; one that arrives for its address
is dropped, and one that arrives when it is up again is delivered. -/
theorem down_interface_carries_nothing_between :
    let tr := (betweenLinks.play [.output 1 (packetTo 2), .run 0, .run 0, .host (.down 0),
      .arrive 5000 (datagramTo 1), .read, .host (.up 0), .arrive 5000 (datagramTo 1), .read,
      .run 0]).1
    tr.map (fun x => decide (x.ev.carried = .nothing)) =
        [true, true, false, true, true, true, true, true, true, false] ∧
      ∀ x ∈ tr, CarriesNothing x :=
  ⟨by decide, down_interface_carries_nothing rfl (Traffic.play_run _ _) (by decide)⟩

/-- Interface 0 is down, and a packet that is past the check is written to it. Of the packets that
come from its neighbour, one for the other interface's address is delivered, and one for address 9
is forwarded and leaves through the other interface. -/
theorem down_interface_carries :
    let r := betweenLinks.play [.output 1 (packetTo 2), .run 0, .host (.down 0), .run 0,
      .arrive 5000 (datagramTo 3), .read, .run 0, .arrive 5000 (datagramTo 9), .read, .run 0,
      .run 0, .run 0]
    let passed (packet : IPPacket) : IPPacket :=
      { packet with header := { packet.header with ttl := packet.header.ttl - 1 } }
    Run (TrafficStep ipv4Codec) betweenLinks r.1 r.2 ∧
      (∀ x ∈ r.1.drop 3, x.src.host.isDown 1 = true ∧
        x.src.host.arrivedOverDown (some 5000) = true) ∧
      (r.1[3]?.map fun x => x.ev.carried) = some (.sent 1 none (datagramTo 2)) ∧
      (r.1[6]?.map fun x => x.ev.carried) =
        some (.delivered (some 5000) (passed (packetTo 3))) ∧
      (r.1[9]?.map fun x => x.ev.carried) =
        some (.forwarded (some 5000) 9 (passed (packetTo 9))) ∧
      (∃ bytes, (r.1[11]?.map fun x => x.ev.carried) = some (.sent 3 (some 5000) bytes)) ∧
      ¬ ∀ x ∈ r.1, CarriesNothing x :=
  ⟨Traffic.play_run _ _, by decide, by decide, by decide, by decide, ⟨_, rfl⟩, by decide⟩

end Sample

end TcpIp.Ip
