import TcpIp.Ip.Internet
import TcpIp.Net.Parsing
import TcpIp.Net.StreamIntegrity

/-! TCP over IP: two endpoints at two nodes of a network that forwards their segments hop by hop,
among the packets of everybody else. -/
namespace TcpIp

open Runs

/-- The connection as the other end sees it. -/
def SocketData.reverse (key : SocketData) : SocketData :=
  ⟨key.destAddr, key.destPort, key.localAddr, key.localPort⟩

/-- The TCP message is from the connection's local address and port to its remote ones. -/
def SocketData.Names (key : SocketData) (src dest : U32) (segment : List U8) : Prop :=
  src = key.localAddr ∧ dest = key.destAddr ∧
    TCPHeader.sourcePort segment = some key.localPort ∧
    TCPHeader.destinationPort segment = some key.destPort

instance (key : SocketData) (src dest : U32) (segment : List U8) :
    Decidable (key.Names src dest segment) :=
  inferInstanceAs (Decidable (_ ∧ _ ∧ _ ∧ _))

/-- `ReceivePacket` up to the handler of a connection: the segment in a packet, if its checksum is
right and the connection is the one it names. -/
def SocketData.segment (key : SocketData) (packet : Ip.IPPacket) : Option Segment :=
  match parseSegment packet.data with
  | none => none
  | some (hdr, payload) =>
    if hlen : payload.length ≤ 65535 then
      if hdr.checksumValid packet.header.dst packet.header.src payload ∧
          key = ⟨packet.header.dst, hdr.dstPort, packet.header.src, hdr.srcPort⟩ then
        some ⟨hdr, payload, hlen⟩
      else none
    else none

/-- The network of hosts with the two endpoints of a connection. -/
structure Stack (Node : Type*) where
  internet : Ip.Internet Node
  ends : Net

inductive StackEvent (Node : Type*)
  /-- anything that the hosts do for others -/
  | ip (ev : Ip.InternetEvent Node)
  /-- `ReadFromHandler` takes message `i` of a side from the channel -/
  | output (x : Side) (i : ℕ)
  /-- a call or a timer of a side -/
  | own (x : Side) (ev : Event)
  /-- `ReceivePacket` runs on item `i`, at a side -/
  | receive (x : Side) (i : ℕ)

structure StackLabel (Node : Type*) where
  ev : StackEvent Node
  /-- what an endpoint did -/
  moved : Option (Side × Label)

namespace Stack

variable {Node : Type*}

/-- A side takes an event. -/
def act (env : Env) (s : Stack Node) (x : Side) (ev : Event) :
    Option (Stack Node × Option (Side × Label)) :=
  ((s.ends.conn x).step env ev).map fun r =>
    ({ s with ends := s.ends.advance x ⟨ev, r.2⟩ r.1 }, some (x, ⟨ev, r.2⟩))

/-- `site` says at which node a side lives. -/
def step [DecidableEq Node] (site : Side → Node) (now : ℕ) (env : Env) (s : Stack Node) :
    StackEvent Node → Option (Stack Node × Option (Side × Label))
  | .ip ev => (s.internet.step now ev).map fun internet => ({ s with internet }, none)
  | .output x i =>
    (s.ends.sent x)[i]?.bind fun m =>
      (s.internet.step now (.call (site x) (.message (.tcp m.bytes)))).map fun internet =>
        ({ s with internet }, none)
  | .own x ev =>
    match ev with
    | .segment _ => none
    | ev => s.act env x ev
  | .receive x i =>
    match s.internet.items[i]? with
    | some (.delivered v packet) =>
      if v = site x ∧ packet.header.protocol = 6 then
        ((s.ends.conn x).key.segment packet).bind fun seg => s.act env x (.segment seg)
      else none
    | _ => none

end Stack

def StackStep {Node : Type*} [DecidableEq Node] (site : Side → Node) (s : Stack Node)
    (l : StackLabel Node) (s' : Stack Node) : Prop :=
  ∃ now env, s.step site now env l.ev = some (s', l.moved)

/-- Two endpoints that take any events, the segments among them being copies of the peer's. -/
def PairStep (n : Net) (l : Side × Label) (n' : Net) : Prop :=
  (∀ seg, l.2.ev = .segment seg →
      ∃ m ∈ n.sent l.1.other, seg.hdr = m.hdr ∧ seg.payload = m.payload) ∧
    ∃ c', Step (n.conn l.1) l.2 c' ∧ n' = n.advance l.1 l.2 c'

/-- The TCP message that a host is given by another socket. -/
def StackEvent.foreignMessage {Node : Type*} : StackEvent Node → Option (List U8)
  | .ip (.call _ (.message (.tcp data))) => some data
  | _ => none

/-- Nobody else sends a TCP message in the connection's name. -/
def Foreign {Node : Type*} (key : SocketData) (ev : StackEvent Node) : Prop :=
  ∀ data ∈ ev.foreignMessage, ¬ key.Names (Ip.leadingAddr data)
    (Ip.leadingAddr (data.drop Ip.addrSize)) (data.drop (2 * Ip.addrSize))

instance {Node : Type*} (key : SocketData) (ev : StackEvent Node) : Decidable (Foreign key ev) :=
  inferInstanceAs (Decidable (∀ data ∈ ev.foreignMessage, _))

/-- The message has the addresses and ports of the connection, and a header that is read back as it
was written. -/
structure Msg.Formed (key : SocketData) (m : Msg) : Prop where
  addrs : m.addrs = some (key.localAddr, key.destAddr)
  srcPort : m.hdr.srcPort = key.localPort
  dstPort : m.hdr.dstPort = key.destPort
  dataOffset : m.hdr.dataOffset = 20
  urgentPointer : m.hdr.urgentPointer = 0
  short : m.payload.length ≤ 1360

/-- An endpoint past its handshake, with what it may resend. -/
structure Forming (key : SocketData) (c : Conn) : Prop where
  same : c.key = key
  own : c.localAddr = key.localAddr
  opened : c.tcb.state ≠ .synSent ∧ c.tcb.state ≠ .synReceived
  queue : ∀ e ∈ c.tcb.retransmissionQueue, e.tcpHeader.srcPort = key.localPort ∧
    e.tcpHeader.dstPort = key.destPort ∧ e.tcpHeader.dataOffset = 20 ∧
    e.tcpHeader.urgentPointer = 0 ∧ e.payloadLen.toNat ≤ 1360

section Forming

variable {key : SocketData} {c c' : Conn} {l : Label} {m : Msg}

theorem Forming.step (h : Forming key c) (hs : Step c l c') : Forming key c' := by
  obtain ⟨hkey, hlocal, -⟩ := hs.kept
  refine ⟨hkey.trans h.same, hlocal.trans h.own, hs.not_opening h.opened, fun e he => ?_⟩
  rcases hs.queued he with hold | ⟨m, -, hhdr, ⟨a, b, rfl, hlen⟩ | ⟨rfl, hlen⟩⟩
  · exact h.queue e hold
  · rw [← hhdr, ← h.same, hlen]
    exact ⟨rfl, rfl, rfl, rfl, segmentLength_le a b⟩
  · rw [← hhdr, ← h.same, hlen]
    exact ⟨rfl, rfl, rfl, rfl, by decide⟩

theorem Forming.formed (h : Forming key c) (hs : Step c l c') (hm : m ∈ l.out.msgs) :
    m.Formed key := by
  obtain ⟨rfl, hlocal, hopen, hqueue⟩ := h
  have he := hs.emits hm
  generalize l.ev = ev at he
  cases he with
  | @resent _ p hp =>
    obtain ⟨hsrc, hdst, hoff, hurgent, hlen⟩ := hqueue p hp
    refine ⟨rfl, hsrc, hdst, hoff, hurgent, ?_⟩
    show (c.tcb.retransmitPayload p).length ≤ 1360
    rw [retransmitPayload_eq c.tcb p (hlen.trans (by decide))]
    simpa using hlen
  | handshakeResent _ hm' =>
    rcases hm' with rfl | rfl <;> exact ⟨rfl, rfl, rfl, rfl, rfl, Nat.zero_le _⟩
  | opening hs => exact absurd hs (not_or.mpr hopen)
  | acked | fin | finCounted | finRepeated =>
    exact ⟨rfl, rfl, rfl, rfl, rfl, Nat.zero_le _⟩
  | @data a b =>
    refine ⟨rfl, rfl, rfl, rfl, rfl, ?_⟩
    have hle := segmentLength_le a b
    simpa [TCB.freshMsg, TCB.dataMsg] using hle
  | probe => exact ⟨rfl, rfl, rfl, rfl, rfl, by simp [TCB.dataMsg]⟩
  | closed => exact ⟨by rw [← hlocal]; rfl, rfl, rfl, rfl, rfl, Nat.zero_le _⟩

end Forming

section Bytes

variable {key : SocketData} {m : Msg} {packet orig : Ip.IPPacket} {seg : Segment}

/-- The packet is the one that a message becomes. -/
structure Msg.In (key : SocketData) (m : Msg) (packet : Ip.IPPacket) : Prop where
  src : packet.header.src = key.localAddr
  dst : packet.header.dst = key.destAddr
  data : packet.data = m.hdr.encode ++ m.payload

theorem Msg.Formed.in_packet {ip : Ip.HeaderCodec} (h : m.Formed key)
    (hs : Ip.withChecksum ip (Ip.Host.tcpPacket m.bytes) = some packet) :
    m.In key packet := by
  have hbytes : m.bytes =
      be32 key.localAddr ++ (be32 key.destAddr ++ (m.hdr.encode ++ m.payload)) := by
    rw [Msg.bytes, h.addrs]
    simp only [List.append_assoc]
  rw [hbytes, tcpPacket_framed] at hs
  obtain ⟨_, rfl⟩ := Ip.withChecksum_eq hs
  exact ⟨rfl, rfl, rfl⟩

theorem Ip.IPPacket.Copies.data_eq (h : packet.Copies orig) (hlen : orig.data.length ≤ 1380) :
    packet.data = orig.data := by
  rcases h.data with hdata | hdata
  · exact hdata
  · rw [hdata, List.take_of_length_le hlen]

theorem ports_of_parse {b : List U8} {hdr : TCPFields} (h : parseTCPHeader b = some hdr) :
    TCPHeader.sourcePort b = some hdr.srcPort ∧ TCPHeader.destinationPort b = some hdr.dstPort := by
  simp only [parseTCPHeader, Option.bind_eq_bind, Option.bind_eq_some_iff, Option.pure_def,
    Option.some.injEq] at h
  obtain ⟨srcPort, hsrc, dstPort, hdst, -, -, -, -, -, -, -, -, -, -, -, -, rfl⟩ := h
  exact ⟨hsrc, hdst⟩

/-- What the segment in a packet says of the packet. -/
theorem SocketData.segment_eq_some (h : key.segment packet = some seg) :
    parseSegment packet.data = some (seg.hdr, seg.payload) ∧
      key = ⟨packet.header.dst, seg.hdr.dstPort, packet.header.src, seg.hdr.srcPort⟩ := by
  unfold SocketData.segment at h
  split at h
  · cases h
  · rename_i hdr payload hparse
    split at h
    · split at h
      · rename_i hkey
        cases h
        exact ⟨hparse, hkey.2⟩
      · cases h
    · cases h

/-- What `ReceivePacket` hands to a handler is the segment of the connection that it names. -/
theorem SocketData.segment_of_handled {h : Handler} {st : ConnectionState}
    (hh : h.receiveIPPacket packet = .handled st seg.hdr seg.payload) :
    SocketData.segment ⟨packet.header.dst, seg.hdr.dstPort, packet.header.src, seg.hdr.srcPort⟩
      packet = some seg := by
  obtain ⟨hparse, hvalid, -⟩ := receiveIPPacket_eq_handled_iff.mp hh
  rw [SocketData.segment, hparse]
  simp only [dif_pos seg.payload_le, if_pos (And.intro hvalid trivial)]

/-- The part of a packet that was cut off does not matter to whom it is for. -/
theorem Ip.IPPacket.Copies.names (hc : packet.Copies orig) (h : key.segment packet = some seg) :
    key.reverse.Names orig.header.src orig.header.dst orig.data := by
  obtain ⟨hparse, rfl⟩ := SocketData.segment_eq_some h
  obtain ⟨hheader, -⟩ := parseSegment_eq_some_iff.mp hparse
  obtain ⟨hsrc, hdst⟩ := ports_of_parse hheader
  refine ⟨hc.src.symm, hc.dst.symm, ?_⟩
  rcases hc.data with hdata | hdata <;> rw [hdata] at hsrc hdst
  · exact ⟨hsrc, hdst⟩
  · exact ⟨Binary.readAt_of_take hsrc, Binary.readAt_of_take hdst⟩

end Bytes

section Refinement

variable {Node : Type*} {key : Side → SocketData} {s s' : Stack Node} {x : Side}

/-- Whatever packet of protocol 6 is under way is a message of one of the sides, or it does not
name the connection. -/
structure Stack.Linked (key : Side → SocketData) (s : Stack Node) : Prop where
  sound : s.internet.Sound
  forming : ∀ x, Forming (key x) (s.ends.conn x)
  formed : ∀ x, ∀ m ∈ s.ends.sent x, m.Formed (key x)
  built : ∀ v packet, (v, packet) ∈ s.internet.built → packet.header.protocol = 6 →
    (∃ x, ∃ m ∈ s.ends.sent x, m.In (key x) packet) ∨
      ∀ x, ¬ (key x).Names packet.header.src packet.header.dst packet.data

/-- The two keys are those of one connection, and it does not connect a socket to itself. -/
structure Paired (key : Side → SocketData) : Prop where
  reverse : ∀ x, (key x).reverse = key x.other
  distinct : ∀ x, key x ≠ key x.other

/-- A segment that `ReceivePacket` hands to the connection is a copy of one that the peer sent. -/
theorem Stack.Linked.received (h : s.Linked key) (hkey : Paired key) {v : Node}
    {packet : Ip.IPPacket} {seg : Segment} (hitem : .delivered v packet ∈ s.internet.items)
    (hprotocol : packet.header.protocol = 6) (hseg : (key x).segment packet = some seg) :
    ∃ m ∈ s.ends.sent x.other, seg.hdr = m.hdr ∧ seg.payload = m.payload := by
  obtain ⟨⟨u, orig, hu, hc⟩, -⟩ := h.sound.items _ hitem
  have hnames := hc.names hseg
  rw [hkey.reverse] at hnames
  obtain ⟨hparse, hkeyx⟩ := SocketData.segment_eq_some hseg
  rcases h.built u orig hu (hc.protocol ▸ hprotocol) with ⟨y, m, hm, hin⟩ | halien
  · obtain ⟨-, hsrc, hdst, hoff, hurgent, hshort⟩ := h.formed y m hm
    have hdata : packet.data = m.hdr.encode ++ m.payload := by
      rw [hc.data_eq, hin.data]
      rw [hin.data, List.length_append, length_encode]
      omega
    rw [hdata, parseSegment_encode m.hdr m.payload hoff hurgent] at hparse
    obtain ⟨hhdr, hpayload⟩ := Prod.mk.inj (Option.some.inj hparse)
    have hy : y ≠ x := by
      rintro rfl
      -- the connection would name itself
      apply hkey.distinct y
      rw [← hkey.reverse, SocketData.reverse]
      have hlocal := hin.src
      have hdest := hin.dst
      rw [← hc.src] at hlocal
      rw [← hc.dst] at hdest
      rw [hkeyx] at hlocal hdest hsrc hdst ⊢
      rw [hhdr] at hsrc hdst
      simp only at hlocal hdest hsrc hdst ⊢
      rw [hdst, hlocal]
    obtain rfl : y = x.other := by cases x <;> cases y <;> simp_all [Side.other]
    exact ⟨m, hm, hhdr.symm, hpayload.symm⟩
  · exact absurd hnames (halien x.other)

/-- The packets under way stay what they are when a side moves. -/
theorem Stack.Linked.act (h : s.Linked key) {l : Label} {c' : Conn}
    (hs : Step (s.ends.conn x) l c') :
    ({ s with ends := s.ends.advance x l c' } : Stack Node).Linked key := by
  have hsent : ∀ y, s.ends.sent y ⊆ (s.ends.advance x l c').sent y := by
    intro y
    rcases y.eq_or x with rfl | rfl
    · rw [Net.advance_sent]
      exact List.subset_append_left _ _
    · rw [Net.advance_sent_other]
      exact List.Subset.refl _
  refine ⟨h.sound, fun y => ?_, fun y m hm => ?_, fun v packet hmem hp => ?_⟩
  · rcases y.eq_or x with rfl | rfl
    · simpa using (h.forming y).step hs
    · simpa using h.forming x.other
  · rcases y.eq_or x with rfl | rfl
    · simp only [Net.advance_sent, List.mem_append] at hm
      exact hm.elim (h.formed y m) ((h.forming y).formed hs)
    · simp only [Net.advance_sent_other] at hm
      exact h.formed x.other m hm
  · refine (h.built v packet hmem hp).imp_left ?_
    rintro ⟨y, m, hm, hin⟩
    exact ⟨y, m, hsent y hm, hin⟩

theorem Stack.act_eq_some {env : Env} {ev : Event} {moved : Option (Side × Label)}
    (h : s.act env x ev = some (s', moved)) :
    ∃ o c', Step (s.ends.conn x) ⟨ev, o⟩ c' ∧ moved = some (x, ⟨ev, o⟩) ∧
      s' = { s with ends := s.ends.advance x ⟨ev, o⟩ c' } := by
  obtain ⟨r, hr, heq⟩ := Option.map_eq_some_iff.mp h
  obtain ⟨rfl, rfl⟩ := Prod.mk.inj heq
  exact ⟨r.2, r.1, ⟨env, hr⟩, rfl, rfl⟩

variable [DecidableEq Node] {site : Side → Node} {l : StackLabel Node}

/-- The hosts move, and what the TCP handlers give them is theirs. -/
theorem Stack.Linked.host (h : s.Linked key) {ev : Ip.InternetEvent Node}
    {internet : Ip.Internet Node} (hs : Ip.InternetStep s.internet ev internet)
    (htcp : ∀ v data packet, ev = .call v (.message (.tcp data)) →
      Ip.withChecksum s.internet.net.codec (Ip.Host.tcpPacket data) = some packet →
      (∃ x, ∃ m ∈ s.ends.sent x, m.In (key x) packet) ∨
        ∀ x, ¬ (key x).Names packet.header.src packet.header.dst packet.data) :
    ({ s with internet } : Stack Node).Linked key := by
  refine ⟨h.sound.step hs, h.forming, h.formed, fun v packet hmem hp => ?_⟩
  rcases h.sound.built_tcp hs hmem hp with hold | ⟨data, rfl, hsum⟩
  · exact h.built v packet hold hp
  · exact htcp v data packet rfl hsum

/-- What a step of the stack is, seen from its layers. -/
inductive Stack.Moves (site : Side → Node) (s : Stack Node) : StackLabel Node → Stack Node → Prop
  | ip {ev : Ip.InternetEvent Node} {internet : Ip.Internet Node}
      (hs : Ip.InternetStep s.internet ev internet) :
      Moves site s ⟨.ip ev, none⟩ { s with internet }
  | output {x : Side} {i : ℕ} {m : Msg} {internet : Ip.Internet Node} (hm : m ∈ s.ends.sent x)
      (hs : Ip.InternetStep s.internet (.call (site x) (.message (.tcp m.bytes))) internet) :
      Moves site s ⟨.output x i, none⟩ { s with internet }
  | own {x : Side} {l : Label} {c' : Conn} (hs : Step (s.ends.conn x) l c')
      (hown : ∀ seg, l.ev ≠ .segment seg) :
      Moves site s ⟨.own x l.ev, some (x, l)⟩ { s with ends := s.ends.advance x l c' }
  | receive {x : Side} {i : ℕ} {packet : Ip.IPPacket} {seg : Segment} {o : Output} {c' : Conn}
      (hitem : .delivered (site x) packet ∈ s.internet.items)
      (hprotocol : packet.header.protocol = 6)
      (hseg : (s.ends.conn x).key.segment packet = some seg)
      (hs : Step (s.ends.conn x) ⟨.segment seg, o⟩ c') :
      Moves site s ⟨.receive x i, some (x, ⟨.segment seg, o⟩)⟩
        { s with ends := s.ends.advance x ⟨.segment seg, o⟩ c' }

theorem StackStep.moves (h : StackStep site s l s') : s.Moves site l s' := by
  obtain ⟨now, env, h⟩ := h
  obtain ⟨ev, moved⟩ := l
  simp only at h
  cases ev with
  | ip ev =>
    obtain ⟨internet, hs, heq⟩ := Option.map_eq_some_iff.mp h
    obtain ⟨rfl, rfl⟩ := Prod.mk.inj heq
    exact .ip ⟨now, hs⟩
  | output x i =>
    obtain ⟨m, hm, h⟩ := Option.bind_eq_some_iff.mp h
    obtain ⟨internet, hs, heq⟩ := Option.map_eq_some_iff.mp h
    obtain ⟨rfl, rfl⟩ := Prod.mk.inj heq
    exact .output (List.mem_of_getElem? hm) ⟨now, hs⟩
  | own x ev =>
    have hown : ∀ seg, ev ≠ .segment seg := by
      rintro seg rfl
      cases h
    have hact : s.act env x ev = some (s', moved) := by
      cases ev <;> first | exact h | cases h
    obtain ⟨o, c', hs, rfl, rfl⟩ := Stack.act_eq_some hact
    exact .own hs hown
  | receive x i =>
    simp only [Stack.step] at h
    split at h
    · rename_i v packet hitem
      split at h
      · rename_i hcond
        obtain ⟨rfl, hprotocol⟩ := hcond
        obtain ⟨seg, hseg, h⟩ := Option.bind_eq_some_iff.mp h
        obtain ⟨o, c', hs, rfl, rfl⟩ := Stack.act_eq_some h
        exact .receive (List.mem_of_getElem? hitem) hprotocol hseg hs
      · cases h
    · cases h

theorem Stack.Linked.step (h : s.Linked key) (hs : StackStep site s l s')
    (hforeign : ∀ x, Foreign (key x) l.ev) : s'.Linked key := by
  cases hs.moves with
  | ip hm =>
    refine h.host hm fun v data packet hev hsum => Or.inr fun x hnames => ?_
    subst hev
    obtain ⟨_, rfl⟩ := Ip.withChecksum_eq hsum
    exact hforeign x data rfl hnames
  | @output x i m internet hmem hm =>
    refine h.host hm fun v data packet hev hsum => Or.inl ⟨x, m, hmem, ?_⟩
    cases hev
    exact (h.formed x m hmem).in_packet hsum
  | own hm => exact h.act hm
  | receive _ _ _ hm => exact h.act hm

/-- A step of the stack is a step of the endpoints, or it leaves them alone. -/
theorem Stack.Linked.refines (h : s.Linked key) (hkey : Paired key) (hs : StackStep site s l s') :
    (l.moved = none → s'.ends = s.ends) ∧ ∀ i, l.moved = some i → PairStep s.ends i s'.ends := by
  cases hs.moves with
  | ip | output => exact ⟨fun _ => rfl, by simp⟩
  | own hm hown =>
    refine ⟨by simp, fun i hi => ?_⟩
    cases hi
    exact ⟨fun seg hseg => absurd hseg (hown seg), _, hm, rfl⟩
  | receive hitem hprotocol hseg hm =>
    refine ⟨by simp, fun i hi => ?_⟩
    cases hi
    refine ⟨fun seg' hseg' => ?_, _, hm, rfl⟩
    cases hseg'
    rw [(h.forming _).same] at hseg
    exact h.received hkey hitem hprotocol hseg

variable {tr : List (Move (Stack Node) (StackLabel Node))}

/-- Whatever the hosts between them do, and whatever else they carry, the two endpoints behave as if
a channel joined them that loses, repeats, delays and reorders whole segments, and does nothing
else. -/
theorem stack_refines_pair (h0 : s.Linked key) (hkey : Paired key)
    (hr : Run (StackStep site) s tr s') (hforeign : ∀ y ∈ tr, ∀ x, Foreign (key x) y.ev.ev) :
    ∃ tr', Run PairStep s.ends tr' s'.ends ∧
      tr'.map Move.ev = tr.filterMap fun y => y.ev.moved :=
  hr.refines (I := fun s => s.Linked key) h0 hforeign (fun _ _ _ h hs hf => h.step hs hf)
    (fun _ _ _ h hs _ => (h.refines hkey hs).1) (fun _ _ _ _ h hs _ => (h.refines hkey hs).2 _)

end Refinement

section Stream

variable {Node : Type*} {key : Side → SocketData} {s s' : Stack Node}

/-- The events of the data phase that a side has of its own. -/
def Event.ofData : Event → Bool
  | .write _ | .read _ _ | .readWake | .send | .probe | .timeout => true
  | _ => false

/-- Neither side closes or turns congestion control on. -/
def StackEvent.InDataPhase : StackEvent Node → Bool
  | .own _ ev => ev.ofData
  | _ => true

/-- Nothing is under way, and the endpoints have done their handshake. What the hosts write for a
header they read back. -/
structure Stack.Opened (key : Side → SocketData) (s : Stack Node) : Prop where
  codec : s.internet.net.codec.RoundTrips
  idle : s.internet.items = [] ∧ s.internet.built = []
  ends : s.ends.Opened
  keys : ∀ x, (s.ends.conn x).key = key x ∧ (s.ends.conn x).localAddr = (key x).localAddr
  formed : ∀ x, ∀ m ∈ s.ends.sent x, m.Formed (key x)

theorem Stack.Opened.linked (h : s.Opened key) : s.Linked key where
  sound := ⟨h.codec, by simp [h.idle.1], by simp [h.idle.2]⟩
  forming x :=
    { same := (h.keys x).1
      own := (h.keys x).2
      opened := by simp [(h.ends.established x).state]
      queue := by simp [(h.ends.established x).queue] }
  formed := h.formed
  built := by simp [h.idle.2]

variable [DecidableEq Node] {site : Side → Node} {l : StackLabel Node}
  {tr : List (Move (Stack Node) (StackLabel Node))}

theorem PairStep.net {n n' : Net} {i : Side × Label} (h : PairStep n i n')
    (hev : (∃ seg, i.2.ev = .segment seg) ∨ i.2.ev.ofData = true) : NetStep n i n' := by
  obtain ⟨hcopy, hstep⟩ := h
  refine ⟨?_, hstep⟩
  generalize i.2.ev = ev at hcopy hev
  rcases hev with ⟨seg, rfl⟩ | hdata
  · obtain ⟨m, hm, hhdr, hpayload⟩ := hcopy seg rfl
    exact .segment hm hhdr hpayload
  · cases ev with
    | write | read | readWake | send | probe | timeout => constructor
    | _ => cases hdata

theorem StackStep.netStep (h : s.Linked key) (hkey : Paired key) (hs : StackStep site s l s')
    (hdata : l.ev.InDataPhase = true) : s'.ends = s.ends ∨ ∃ i, NetStep s.ends i s'.ends := by
  obtain ⟨hskip, hpair⟩ := h.refines hkey hs
  cases hs.moves with
  | ip | output => exact Or.inl rfl
  | own => exact Or.inr ⟨_, (hpair _ rfl).net (Or.inr hdata)⟩
  | receive => exact Or.inr ⟨_, (hpair _ rfl).net (Or.inl ⟨_, rfl⟩)⟩

end Stream

section Sample

/-- Two neighbours that know each other. -/
def linkedHosts : Ip.Internet Bool where
  net :=
    { codec := Ip.ipv4Codec
      hosts := fun v =>
        if v then ⟨[⟨0, 2, 1, 5000, false⟩], ⟨Ip.RoutingTable.addRoute ∅ 1 1 1 0, [], 1⟩⟩
        else ⟨[⟨0, 1, 2, 5001, false⟩], ⟨Ip.RoutingTable.addRoute ∅ 2 1 2 0, [], 1⟩⟩
      wires := Ip.loopWires }
  handlers := fun _ => {}
  items := []
  built := []

def Stack.sample : Stack Bool := ⟨linkedHosts, Net.sample⟩

def stackKeys : Side → SocketData := Side.pair ⟨1, 1000, 2, 2000⟩ ⟨2, 2000, 1, 1000⟩

def stackSite : Side → Bool := Side.pair false true

def Stack.play (s : Stack Bool) (events : List (StackEvent Bool)) :
    List (Move (Stack Bool) (StackLabel Bool)) × Stack Bool :=
  Runs.play (fun s ev => (s.step stackSite 0 ⟨0, 0, true⟩ ev).map fun r => (⟨ev, r.2⟩, r.1)) s
    events

theorem Stack.play_run (s : Stack Bool) (events : List (StackEvent Bool)) :
    Run (StackStep stackSite) s (s.play events).1 (s.play events).2 :=
  play_map_run StackLabel.mk (fun _ _ _ _ h => ⟨0, ⟨0, 0, true⟩, h⟩) s events

instance Side.decidableForall {p : Side → Prop} [DecidablePred p] : Decidable (∀ x, p x) :=
  decidable_of_iff _ Side.forall_iff.symm

theorem paired_stackKeys : Paired stackKeys :=
  ⟨Side.forall_iff.mpr ⟨rfl, rfl⟩, Side.forall_iff.mpr ⟨by decide, by decide⟩⟩

theorem opened_stack_sample : Stack.sample.Opened stackKeys where
  codec := Ip.roundTrips_ipv4Codec
  idle := ⟨rfl, rfl⟩
  ends := opened_sample
  keys := Side.forall_iff.mpr ⟨⟨rfl, rfl⟩, ⟨rfl, rfl⟩⟩
  formed := by
    refine Side.forall_iff.mpr ⟨fun m hm => ?_, fun m hm => ?_⟩
    · rcases List.mem_pair.mp hm with rfl | rfl <;> exact ⟨rfl, rfl, rfl, rfl, rfl, by decide⟩
    · rw [List.mem_singleton.mp hm]
      exact ⟨rfl, rfl, rfl, rfl, rfl, by decide⟩

/-- Two bytes go over the wire, the segment is delivered twice, and they are read once. -/
def deliveredTwice : List (StackEvent Bool) :=
  [.own .a (.write [1, 2]), .own .a .send, .own .a .send, .output .a 2, .ip (.advance 0),
    .ip (.advance 1), .ip (.advance 0), .ip (.advance 3), .receive .b 2, .receive .b 4,
    .own .b (.read 2 false)]

theorem stack_refines_pair_delivered_twice :
    let r := Stack.sample.play deliveredTwice
    ∃ tr', Run PairStep Net.sample tr' r.2.ends ∧ (tr'.map Move.ev).length = 6 := by
  obtain ⟨tr', hrun, hev⟩ := stack_refines_pair opened_stack_sample.linked paired_stackKeys
    (Stack.play_run Stack.sample deliveredTwice) (by decide)
  refine ⟨tr', hrun, ?_⟩
  rw [hev]
  decide

end Sample

end TcpIp
