import TcpIp.Tcp.Emissions
import TcpIp.Tcp.Established
import TcpIp.Ip.Output

/-! The byte strings between the TCP handler and the IP layer. -/
namespace TcpIp

open Runs

open RetransmitSegment (lo len)

/-- The byte string on `IPLayerChannel`. -/
def Msg.bytes (m : Msg) : List U8 :=
  (match m.addrs with
    | some (localAddr, destAddr) => be32 localAddr ++ be32 destAddr
    | none => []) ++ m.hdr.encode ++ m.payload

/-- The connection's two addresses, a header with a valid checksum, and the payload; the packet
that the IP layer makes of them takes this segment to the peer. -/
structure Framed (key : SocketData) (bytes : List U8) (hdr : TCPFields) (payload : List U8) :
    Prop where
  layout : bytes = be32 key.localAddr ++ be32 key.destAddr ++ hdr.encode ++ payload
  header : hdr.encode.length = 20
  checksum : hdr.checksumValid key.localAddr key.destAddr payload
  packet : Ip.Host.tcpPacket bytes =
    Ip.createIPPacket key.localAddr key.destAddr (hdr.encode ++ payload) 6 16

/-- Addresses and checksum are as `Framed` wants them. -/
def Msg.Built (key : SocketData) (m : Msg) : Prop :=
  m.addrs = some (key.localAddr, key.destAddr) ∧
    m.hdr.checksumValid key.localAddr key.destAddr m.payload

section Bytes

variable {key : SocketData} {m : Msg}

@[simp] theorem length_be32 (v : U32) : (be32 v).length = 4 := rfl

theorem length_encode (hdr : TCPFields) : hdr.encode.length = 20 := rfl

theorem leadingAddr_be32 (v : U32) (rest : List U8) : Ip.leadingAddr (be32 v ++ rest) = v := by
  have htake : (be32 v ++ rest).take Ip.addrSize = be32 v := by
    rw [show Ip.addrSize = (be32 v).length from rfl, List.take_left]
  rw [Ip.leadingAddr, htake]
  apply BitVec.eq_of_toNat_eq
  have hv := v.isLt
  simp only [be32, be16, Binary.ofBytes, List.cons_append, List.nil_append, List.foldl_cons,
    List.foldl_nil, BitVec.toNat_setWidth, BitVec.toNat_ushiftRight, Nat.shiftRight_eq_div_pow,
    BitVec.toNat_ofNat]
  omega

theorem tcpPacket_framed (segment : List U8) :
    Ip.Host.tcpPacket (be32 key.localAddr ++ (be32 key.destAddr ++ segment)) =
      Ip.createIPPacket key.localAddr key.destAddr segment 6 16 := by
  have hdrop : (be32 key.localAddr ++ (be32 key.destAddr ++ segment)).drop Ip.addrSize =
      be32 key.destAddr ++ segment := by
    rw [show Ip.addrSize = (be32 key.localAddr).length from rfl, List.drop_left]
  have hdrop2 : (be32 key.localAddr ++ (be32 key.destAddr ++ segment)).drop (2 * Ip.addrSize) =
      segment := by
    rw [two_mul, ← List.drop_drop, hdrop, show Ip.addrSize = (be32 key.destAddr).length from rfl,
      List.drop_left]
  rw [Ip.Host.tcpPacket, hdrop, hdrop2, leadingAddr_be32, leadingAddr_be32]

theorem Msg.Built.framed (h : m.Built key) : Framed key m.bytes m.hdr m.payload := by
  have hlayout : m.bytes =
      be32 key.localAddr ++ be32 key.destAddr ++ m.hdr.encode ++ m.payload := by
    rw [Msg.bytes, h.1]
  refine ⟨hlayout, length_encode _, h.2, ?_⟩
  rw [hlayout, List.append_assoc, List.append_assoc]
  exact tcpPacket_framed _

theorem checksumValid_createTCPHeader (srcAddr destAddr : U32) (srcPort dstPort : U16)
    (seqNum ackNum : U32) (flags : U8) (windowSize : U32) (payload : List U8) :
    (createTCPHeader srcAddr destAddr srcPort dstPort seqNum ackNum flags windowSize
      payload).checksumValid srcAddr destAddr payload := rfl

end Bytes

/-- A new entry of the table with the message that announces it. A SYN finds a listener only
under the handler's own address, which the listener's key has. -/
inductive Opens : Conn → Msg → Prop
  | connect (key : SocketData) (iss : U32) :
      Opens (Conn.connect key iss) ((Conn.connect key iss).synMsg .control)
  | listen (key : SocketData) (iss : U32) (hdr : TCPFields) :
      Opens (Conn.handleStateListen key.localAddr key iss hdr)
        ((Conn.handleStateListen key.localAddr key iss hdr).synAckMsg .control)

/-- The segment takes the branch of `HandleStateSynSent` for a simultaneous open. -/
def Conn.opensSimultaneously (c : Conn) : Event → Bool
  | .segment seg =>
    c.tcb.state = .synSent && seg.hdr.hasSyn && !seg.hdr.hasAck &&
      seg.hdr.ackNum ≤ c.tcb.snd.iss
  | _ => false

/-- The round of `Write` stores into a slot of a segment that is still queued. -/
def Conn.overwritesQueued (c : Conn) : Event → Bool
  | .write data =>
    c.tcb.retransmissionQueue.any fun e =>
      (List.range (len e)).any fun j =>
        (List.range (c.tcb.snd.writable data).toNat).any fun i =>
          (lo e + j) % 65535 = (c.tcb.snd.lbw.toNat + i) % 65535
  | _ => false

/-- The addresses agree, and the checksum of every queued segment fits what the ring holds. -/
structure Framing (key : SocketData) (c : Conn) : Prop where
  same : c.key = key
  own : c.localAddr = key.localAddr
  queue : ∀ e ∈ c.tcb.retransmissionQueue, len e ≤ 65535 ∧
    e.tcpHeader.checksumValid key.localAddr key.destAddr
      (Ring.load 65535 c.tcb.snd.buffer (lo e) (len e))

section Framing

variable {key : SocketData} {c c' : Conn} {l : Label} {m : Msg} {seg : Segment}

theorem Opens.framing (h : Opens c m) : Framing c.key c ∧ m.Built c.key := by
  cases h with
  | connect key iss =>
    exact ⟨⟨rfl, rfl, by simp [Conn.connect]⟩, rfl,
      checksumValid_createTCPHeader _ _ _ _ _ _ _ _ _⟩
  | listen key iss hdr =>
    exact ⟨⟨rfl, rfl, by simp [Conn.handleStateListen]⟩, rfl,
      checksumValid_createTCPHeader _ _ _ _ _ _ _ _ _⟩

/-- A copy into the ring leaves every slot alone that it has no byte for. -/
theorem writePart_slot {s t : TCB} {data : List U8} {n : U32} {q : ℕ}
    (h : s.writePart data = some (t, n))
    (hq : ∀ i < n.toNat, q % 65535 ≠ (s.snd.lbw.toNat + i) % 65535) :
    t.snd.buffer (q % 65535) = s.snd.buffer (q % 65535) := by
  have hidx := toNat_sequenceToBufferInd s.snd.lbw
  have hmod := Nat.mod_lt s.snd.lbw.toNat (show 65535 > 0 by decide)
  have hqlt := Nat.mod_lt q (show 65535 > 0 by decide)
  have hmax := toNat_maxBufSize
  -- a slot from the index of LBW on, and one that is reached around the end of the ring
  have hhigh : ∀ k, s.snd.lbw.toNat % 65535 + k = q % 65535 → n.toNat ≤ k := by
    intro k hk
    by_contra hlt
    refine hq k (by omega) ?_
    rw [← Nat.mod_add_mod, hk, Nat.mod_mod]
  have hlow : ∀ k, s.snd.lbw.toNat % 65535 + k = 65535 + q % 65535 → n.toNat ≤ k := by
    intro k hk
    by_contra hlt
    refine hq k (by omega) ?_
    rw [← Nat.mod_add_mod, hk, Nat.add_mod_left, Nat.mod_mod]
  unfold TCB.writePart at h
  simp only at h
  split at h
  · rename_i hwrap
    split at h
    · cases h
    · rename_i hover
      obtain ⟨rfl, hn⟩ := Prod.mk.inj (Option.some.inj h)
      rw [hn] at hwrap hover ⊢
      have hsum : maxBufSize - sequenceToBufferInd s.snd.lbw +
          (n - (maxBufSize - sequenceToBufferInd s.snd.lbw)) = n := by bv_omega
      have hreach : 65535 ≤ s.snd.lbw.toNat % 65535 + n.toNat := by bv_omega
      have hend : (maxBufSize - sequenceToBufferInd s.snd.lbw).toNat =
          65535 - s.snd.lbw.toNat % 65535 := by bv_omega
      have hround := hlow (65535 + q % 65535 - s.snd.lbw.toNat % 65535) (by omega)
      simp only [hsum]
      rw [Ring.copyAt_of_not_mem, Ring.copyAt_of_not_mem]
      · left
        rw [hidx]
        by_contra hge
        have := hhigh (q % 65535 - s.snd.lbw.toNat % 65535) (by omega)
        omega
      · right
        simp only [slice, List.length_drop, List.length_take]
        omega
  · rename_i hwrap
    obtain ⟨rfl, hn⟩ := Prod.mk.inj (Option.some.inj h)
    rw [hn]
    refine Ring.copyAt_of_not_mem ?_
    rw [hidx]
    rcases Nat.lt_or_ge (q % 65535) (s.snd.lbw.toNat % 65535) with hlt | hge
    · exact Or.inl hlt
    · right
      have := hhigh (q % 65535 - s.snd.lbw.toNat % 65535) (by omega)
      simp only [slice, List.length_drop, List.length_take]
      omega

theorem Framing.step (hi : Framing key c) (h : Step c l c')
    (hover : c.overwritesQueued l.ev = false) : Framing key c' := by
  obtain ⟨hkey, hlocal, hring⟩ := h.kept
  -- what is queued keeps its payload
  have hload : ∀ e ∈ c.tcb.retransmissionQueue, Ring.load 65535 c'.tcb.snd.buffer (lo e) (len e) =
      Ring.load 65535 c.tcb.snd.buffer (lo e) (len e) := by
    intro e he
    rcases hring with hsame | ⟨data, n, hev, -, hw⟩
    · rw [hsame]
    · rw [hev] at hover
      have hpart := (writeRound_part hw).2
      have hn := (writePart_wrote hpart).1
      apply List.map_congr_left
      intro j hj
      refine writePart_slot hpart fun i hi heq => ?_
      have hno : c.overwritesQueued (.write data) = true := by
        simp only [Conn.overwritesQueued, List.any_eq_true, List.mem_range, decide_eq_true_eq]
        exact ⟨e, he, j, List.mem_range.mp hj, i, hn ▸ hi, heq⟩
      simp [hno] at hover
  refine ⟨hkey.trans hi.same, hlocal.trans hi.own, fun e he => ?_⟩
  rcases h.queued he with hold | ⟨m, hm, hhdr, ⟨a, b, rfl, hlen⟩ | ⟨rfl, hlen⟩⟩
  · rw [hload e hold]
    exact hi.queue e hold
  · have hsame : c'.tcb.snd.buffer = c.tcb.snd.buffer := by
      rcases hring with hsame | ⟨data, n, -, hnone, -⟩
      · exact hsame
      · simp [hnone] at hm
    have hlo : lo e = c.tcb.snd.nxt.toNat := by
      rw [lo, ← hhdr]
      rfl
    have hbound := segmentLength_le a b
    rw [len, hlen, hlo, hsame, ← hhdr, ← hi.same]
    exact ⟨by omega, checksumValid_createTCPHeader _ _ _ _ _ _ _ _ _⟩
  · have hempty : len e = 0 := by rw [len, hlen]; rfl
    rw [hempty, ← hhdr, ← hi.own]
    refine ⟨by omega, ?_⟩
    rw [← hi.same]
    exact checksumValid_createTCPHeader _ _ _ _ _ _ _ _ _

/-- Outside a simultaneous open the handlers of the handshake build their messages in full. -/
theorem opening_built (h : Step c l c') (hev : l.ev = .segment seg)
    (hs : c.tcb.state = .synSent ∨ c.tcb.state = .synReceived)
    (hopen : c.opensSimultaneously l.ev = false) (hm : m ∈ l.out.msgs) : m.Built c.key := by
  rcases hs with hs | hs
  · obtain ⟨env, henv⟩ := h
    simp only [hev, Conn.step, Conn.receivePacket, hs, Option.map_some] at henv
    split at henv
    · obtain ⟨-, hout⟩ := Prod.mk.inj (Option.some.inj henv)
      rw [← hout] at hm
      simp only [Conn.handleStateSynSent] at hm
      split at hm
      · simp at hm
      rename_i hacked
      split at hm
      · rename_i hsyn
        split at hm
        · rw [List.mem_singleton.mp hm]
          exact ⟨rfl, checksumValid_createTCPHeader _ _ _ _ _ _ _ _ _⟩
        · rename_i hle
          simp only [hev, Conn.opensSimultaneously, hs, hsyn, decide_true, Bool.true_and,
            Bool.and_eq_false_iff, Bool.not_eq_false', decide_eq_false_iff_not] at hopen
          rw [gt_iff_lt, BitVec.not_lt] at hle
          rcases hopen with hack | hgt
          · exact absurd ⟨hack, Or.inl hle⟩ hacked
          · exact absurd hle hgt
      · simp at hm
    · cases henv
  · have hh := h.handled hev
    generalize l.out.msgs = out at hh hm
    cases hh with
    | ignored => simp at hm
    | synRepeated =>
      rw [List.mem_singleton.mp hm]
      exact ⟨rfl, checksumValid_createTCPHeader _ _ _ _ _ _ _ _ _⟩
    | accepted _ _ hout =>
      rw [hout m hm]
      exact ⟨rfl, checksumValid_createTCPHeader _ _ _ _ _ _ _ _ _⟩
    | received hr => cases hr <;> simp_all
    | finRepeated hs' => rcases hs' with hs' | hs' <;> simp [hs] at hs'
    | synSent _ hs' | fin hs' | finWait1Fin hs' | finWait2Fin hs' | closingAcked hs'
    | lastAcked _ hs' => simp [hs] at hs'

/-- Every message of a step is built for the connection. -/
theorem Framing.built (hi : Framing key c) (h : Step c l c')
    (hopen : c.opensSimultaneously l.ev = false) (hm : m ∈ l.out.msgs) : m.Built key := by
  have he := h.emits hm
  obtain ⟨rfl, hlocal, hqueue⟩ := hi
  generalize hev : l.ev = ev at he
  cases he with
  | resent hp =>
    obtain ⟨hlen, hvalid⟩ := hqueue _ hp
    refine ⟨rfl, ?_⟩
    show TCPFields.checksumValid _ _ _ (c.tcb.retransmitPayload _)
    rw [retransmitPayload_eq c.tcb _ hlen]
    exact hvalid
  | handshakeResent _ hm' =>
    rcases hm' with rfl | rfl <;> exact ⟨rfl, checksumValid_createTCPHeader _ _ _ _ _ _ _ _ _⟩
  | opening hs => exact opening_built h hev hs hopen hm
  | acked | fin | finCounted | finRepeated | data | probe =>
    exact ⟨rfl, checksumValid_createTCPHeader _ _ _ _ _ _ _ _ _⟩
  | closed =>
    refine ⟨?_, ?_⟩
    · simp [Conn.finMsg, hlocal]
    · simp only [Conn.finMsg, hlocal]
      exact checksumValid_createTCPHeader _ _ _ _ _ _ _ _ _

end Framing

section Run

variable {c c' : Conn} {m : Msg} {tr : List (Move Conn Label)}

/-- In a run without a simultaneous open, in which no write reuses a slot of a queued segment,
every byte string for the IP layer is framed, from the first SYN or SYN-ACK on. -/
theorem messages_framed (h0 : Opens c m) (h : Run Step c tr c')
    (hopen : ∀ x ∈ tr, x.src.opensSimultaneously x.ev.ev = false)
    (hover : ∀ x ∈ tr, x.src.overwritesQueued x.ev.ev = false) :
    (∃ hdr payload, Framed c.key m.bytes hdr payload) ∧
      ∀ x ∈ tr, ∀ m' ∈ x.ev.out.msgs, ∃ hdr payload, Framed c.key m'.bytes hdr payload := by
  obtain ⟨hinit, hbuilt⟩ := h0.framing
  refine ⟨⟨_, _, hbuilt.framed⟩, ?_⟩
  refine (h.forall_iff (I := Framing c.key) (P := fun _ => True)
    (H := fun x => x.src.opensSimultaneously x.ev.ev = false ∧
      x.src.overwritesQueued x.ev.ev = false) hinit
    (fun x hx => ⟨hopen x hx, hover x hx⟩) ?_ ?_).mpr fun _ _ => trivial
  · rintro t l u hi hs ⟨-, hno⟩ -
    exact hi.step hs hno
  · rintro t l u hi hs ⟨hno, -⟩
    exact iff_of_true (fun m' hm' => ⟨_, _, (hi.built hs hno hm').framed⟩) trivial

/-- An active open that sends two bytes and resends them. -/
theorem messages_framed_active_open :
    let c := Conn.connect ⟨1, 1000, 2, 2000⟩ 99
    let tr := (c.play [.segment (Segment.fromPeer 499 100 18 1000 [] (by simp)), .write [1, 2],
      .send, .send, .timeout]).1
    (tr.length = 5 ∧ ∃ x ∈ tr, ∃ m ∈ x.ev.out.msgs, m.origin = .resend ∧ m.payload = [1, 2]) ∧
      (∃ hdr payload, Framed c.key (c.synMsg .control).bytes hdr payload) ∧
      ∀ x ∈ tr, ∀ m ∈ x.ev.out.msgs, ∃ hdr payload, Framed c.key m.bytes hdr payload :=
  ⟨by decide, messages_framed (.connect _ _) (Conn.play_run _ _) (by decide) (by decide)⟩

/-- In SYN_SENT a SYN without an acknowledgement is answered with the bare 20 bytes of the
header. -/
theorem messages_unframed_simultaneous_open :
    ¬ ∀ (c c' : Conn) (m : Msg) (tr : List (Move Conn Label)), Opens c m → Run Step c tr c' →
      ∀ x ∈ tr, ∀ m' ∈ x.ev.out.msgs, ∃ hdr payload, Framed c.key m'.bytes hdr payload := by
  intro h
  have hrun := Conn.play_run (Conn.connect ⟨1, 1000, 2, 2000⟩ 99)
    [.segment (Segment.fromPeer 499 0 2 1000 [] (by simp))]
  obtain ⟨x, hx, m, hm, hlen⟩ : ∃ x ∈ ((Conn.connect ⟨1, 1000, 2, 2000⟩ 99).play
      [.segment (Segment.fromPeer 499 0 2 1000 [] (by simp))]).1, ∃ m ∈ x.ev.out.msgs,
      m.bytes.length = 20 := by decide
  obtain ⟨hdr, payload, hframed⟩ := h _ _ _ _ (.connect _ _) hrun x hx m hm
  have hlong := congrArg List.length hframed.layout
  rw [hlen] at hlong
  simp [length_encode] at hlong
  omega

end Run

end TcpIp
