import TcpIp.Lib.Slice
import TcpIp.Lib.Spans
import TcpIp.Tcp.Established

/-! A pass of the transmit loop of `Send`, with SND.Buffer as a slice in memory. -/
namespace TcpIp

open Slices

/-- SND.Buffer as `make` leaves it, a slice of MAX_BUF_SIZE bytes without spare capacity, with the
given contents. -/
structure Backs (mem : Store U8) (buffer : Slice) (ring : ℕ → U8) : Prop where
  len : buffer.len = 65535
  cap : buffer.cap = 65535
  live : buffer.array < mem.next
  cells : ∀ i < 65535, mem.cells buffer.array (buffer.offset + i) = ring i

/-- The payload of an iteration. Where it meets the end of the ring, `append` is called on a slice
of the ring itself. -/
def buildPayload (mem : Store U8) (buffer : Slice) (spare : ℕ) (nxt amountToCopy : U32) :
    Option (Store U8 × Slice) :=
  let nxtIndex := sequenceToBufferInd nxt
  if nxtIndex + amountToCopy ≥ maxBufSize then
    let amountLeftover := nxtIndex + amountToCopy - maxBufSize
    (buffer.sub nxtIndex.toNat buffer.len).bind fun payload =>
      (buffer.sub 0 amountLeftover.toNat).map fun leftover =>
        payload.append mem (leftover.read mem) spare
  else (buffer.sub nxtIndex.toNat (nxtIndex + amountToCopy).toNat).map fun payload => (mem, payload)

/-- A pass of the transmit loop, with the clock read and the growth of `append` in each iteration.
It yields the TCB, the memory and the segments emitted. -/
def TCB.transmitLoop (key : SocketData) (clock : U32 → Int64) (spare : U32 → ℕ) (buffer : Slice)
    (amountToSend : U32) : ℕ → TCB → Store U8 → U32 → Option (TCB × Store U8 × List Msg)
  | 0, _, _, _ => none
  | fuel + 1, s, mem, amountSent =>
    if amountSent < amountToSend then
      let amountToCopy := min32 (amountToSend - amountSent) mssData
      (buildPayload mem buffer (spare amountSent) s.snd.nxt amountToCopy).bind fun r =>
        let payload := r.2.read r.1
        let m := s.dataMsg key .data payload
        if s.cancelled then some (s, r.1, [])
        else
          let s1 : TCB := { s with
            retransmissionQueue := s.retransmissionQueue ++
              [⟨m.hdr, BitVec.ofNat 32 payload.length⟩]
            snd := { s.snd with nxt := s.snd.nxt + amountToCopy } }
          (transmitLoop key clock spare buffer amountToSend fuel
            (s1.setTimestamp s1.snd.nxt (clock amountSent)) r.1 (amountSent + amountToCopy)).map
            fun t => (t.1, t.2.1, m :: t.2.2)
    else some (s, mem, [])

/-- The pass from the amount that `Send` has computed; every iteration sends a byte. -/
def TCB.transmitPass (s : TCB) (key : SocketData) (clock : U32 → Int64) (spare : U32 → ℕ)
    (mem : Store U8) (buffer : Slice) : Option (TCB × Store U8 × List Msg) :=
  transmitLoop key clock spare buffer s.amountToSend (s.amountToSend.toNat + 1) s mem 0

theorem Backs.kept {mem mem' : Store U8} {buffer : Slice} {ring : ℕ → U8}
    (h : Backs mem buffer ring) (hk : Kept mem mem') : Backs mem' buffer ring where
  len := h.len
  cap := h.cap
  live := h.live.trans_le hk.next
  cells := fun i hi => by rw [hk.cells _ h.live, h.cells i hi]

section Payload

variable {mem : Store U8} {buffer : Slice} {ring : ℕ → U8}

theorem Backs.slots (h : Backs mem buffer ring) {i n : ℕ} (hle : i + n ≤ 65535) :
    Ring.slots (mem.cells buffer.array) (buffer.offset + i) n = Ring.slots ring i n := by
  apply List.map_congr_left
  intro j hj
  have hlt : j < n := List.mem_range.mp hj
  rw [Nat.add_assoc]
  exact h.cells (i + j) (by omega)

/-- The payload is the one read from the ring, and building it changes nothing. -/
theorem buildPayload_spec {s : TCB} {amountToCopy : U32} (spare : ℕ)
    (h : Backs mem buffer s.snd.buffer) (hle : amountToCopy.toNat ≤ 1360) :
    ∃ mem' payload, buildPayload mem buffer spare s.snd.nxt amountToCopy = some (mem', payload) ∧
      payload.read mem' = s.sendPayload amountToCopy ∧ Kept mem mem' := by
  have hlt := sequenceToBufferInd_lt s.snd.nxt
  have hsum : (sequenceToBufferInd s.snd.nxt + amountToCopy).toNat =
      (sequenceToBufferInd s.snd.nxt).toNat + amountToCopy.toNat := by
    rw [BitVec.toNat_add]
    omega
  simp only [buildPayload, TCB.sendPayload]
  generalize sequenceToBufferInd s.snd.nxt = i at hlt hsum ⊢
  have hi : i.toNat ≤ buffer.len := by
    rw [h.len]
    omega
  by_cases hwrap : i + amountToCopy ≥ maxBufSize
  · have hmax := toNat_maxBufSize
    have hge : 65535 ≤ (i + amountToCopy).toNat := hwrap
    have hleft : (i + amountToCopy - maxBufSize).toNat = i.toNat + amountToCopy.toNat - 65535 := by
      bv_omega
    have htail : (maxBufSize - i).toNat = 65535 - i.toNat := by bv_omega
    have hcap : (i + amountToCopy - maxBufSize).toNat ≤ buffer.cap := by
      rw [h.cap]
      omega
    simp only [if_pos hwrap, Slice.sub_eq hi buffer.len_le, Slice.sub_eq (Nat.zero_le _) hcap,
      Option.bind_some, Option.map_some]
    refine ⟨_, _, congrArg some (Prod.eta _).symm, ?_,
      Slice.kept_append (by simp only [h.len, h.cap])⟩
    rw [Slice.read_append]
    simp only [Slice.read, h.len, htail]
    rw [h.slots (by omega), h.slots (by omega), Nat.sub_zero]
  · have hlt' : (i + amountToCopy).toNat < 65535 := by
      rw [ge_iff_le, BitVec.not_le] at hwrap
      exact hwrap
    have hcap : (i + amountToCopy).toNat ≤ buffer.cap := by
      rw [h.cap]
      omega
    simp only [if_neg hwrap, Slice.sub_eq (by omega : i.toNat ≤ (i + amountToCopy).toNat) hcap,
      Option.map_some]
    refine ⟨_, _, rfl, ?_, .refl mem⟩
    have hn : (i + amountToCopy).toNat - i.toNat = amountToCopy.toNat := by omega
    simp only [Slice.read, hn]
    exact h.slots (by omega)

end Payload

/-- The entry of a segment in the retransmission queue. -/
def Msg.entry (m : Msg) : RetransmitSegment := ⟨m.hdr, BitVec.ofNat 32 m.payload.length⟩

/-- The segments cut the `n` bytes from SND.NXT on into pieces of at most MSS_DATA, carry the bytes
of the ring, and are queued in their order. -/
structure Tiles (s : TCB) (n : ℕ) (t : TCB) (msgs : List Msg) : Prop where
  contiguous : Spans.Contiguous (fun m => m.hdr.seqNum.toNat) (fun m => m.payload.length) msgs
    s.snd.nxt.toNat (s.snd.nxt.toNat + n)
  short : ∀ m ∈ msgs, m.payload.length ≤ mssData.toNat
  bytes : ∀ m ∈ msgs,
    m.payload = Ring.load 65535 s.snd.buffer m.hdr.seqNum.toNat m.payload.length
  queued : t.retransmissionQueue = s.retransmissionQueue ++ msgs.map Msg.entry
  nxt : t.snd.nxt.toNat = s.snd.nxt.toNat + n
  buffer : t.snd.buffer = s.snd.buffer

section Loop

variable {s : TCB} {mem : Store U8} {buffer : Slice} {a b : U32}
  (key : SocketData) (clock : U32 → Int64) (spare : U32 → ℕ)

theorem sendSegment_eq (now : Int64) (hc : s.cancelled = false) :
    s.sendSegment key now a b =
      (.transmit a (b + segmentLength a b),
        (s.transmitted key (segmentLength a b)).setTimestamp (s.snd.nxt + segmentLength a b) now,
        [s.freshMsg key (segmentLength a b)]) := by
  have hpay := sendPayload_eq s a b
  have hlen : BitVec.ofNat 32 (segmentLength a b).toNat = segmentLength a b := by simp
  have hno : ¬ s.cancelled = true := by simp [hc]
  unfold segmentLength at hpay hlen ⊢
  simp only [TCB.sendSegment, if_neg hno, hpay, Ring.load_length, hlen]
  rfl

/-- An iteration on the ring in memory is one on the ring of the TCB. -/
theorem transmitLoop_succ (fuel : ℕ) (hb : Backs mem buffer s.snd.buffer) (hlt : b < a) :
    ∃ mem', Kept mem mem' ∧
      TCB.transmitLoop key clock spare buffer a (fuel + 1) s mem b =
        if s.cancelled then some (s, mem', [])
        else (TCB.transmitLoop key clock spare buffer a fuel
          (s.sendSegment key (clock b) a b).2.1 mem' (b + segmentLength a b)).map
            fun t => (t.1, t.2.1, (s.sendSegment key (clock b) a b).2.2 ++ t.2.2) := by
  obtain ⟨mem', payload, hbuild, hread, hkept⟩ :=
    buildPayload_spec (spare b) hb (segmentLength_le a b)
  refine ⟨mem', hkept, ?_⟩
  unfold segmentLength at hbuild hread
  simp only [TCB.transmitLoop, if_pos hlt, hbuild, Option.bind_some, hread]
  by_cases hc : s.cancelled = true
  · simp only [if_pos hc]
  · simp only [if_neg hc, TCB.sendSegment, segmentLength]
    rfl

theorem freshMsg_entry (k : U32) : (s.freshMsg key k).entry = ⟨(s.freshMsg key k).hdr, k⟩ := by
  simp [Msg.entry, TCB.freshMsg, TCB.dataMsg]

/-- A piece in front of the rest. -/
theorem Tiles.cons {k : U32} {n : ℕ} {now : Int64} {t : TCB} {msgs : List Msg}
    (h : Tiles ((s.transmitted key k).setTimestamp (s.snd.nxt + k) now) n t msgs)
    (hpos : 0 < k.toNat) (hle : k.toNat ≤ 1360) (hnxt : s.snd.nxt.toNat + k.toNat < 2 ^ 32) :
    Tiles s (k.toNat + n) t (s.freshMsg key k :: msgs) := by
  have hlen : (s.freshMsg key k).payload.length = k.toNat := Ring.load_length _ _
  have hadd : (s.snd.nxt + k).toNat = s.snd.nxt.toNat + k.toNat := by
    rw [BitVec.toNat_add]
    exact Nat.mod_eq_of_lt hnxt
  have hcont := h.contiguous
  have hend := h.nxt
  simp only [TCB.setTimestamp, TCB.transmitted, hadd] at hcont hend
  refine ⟨⟨rfl, hpos.trans_eq hlen.symm, ?_⟩, ?_, ?_, ?_, by omega, h.buffer⟩
  · dsimp only
    rw [hlen, ← Nat.add_assoc]
    exact hcont
  · intro m hm
    rcases List.mem_cons.mp hm with rfl | hm
    · rw [hlen]
      exact hle
    · exact h.short m hm
  · intro m hm
    rcases List.mem_cons.mp hm with rfl | hm
    · rw [hlen]
      rfl
    · exact h.bytes m hm
  · rw [h.queued, List.map_cons, freshMsg_entry]
    simp [TCB.setTimestamp, TCB.transmitted]

theorem tiles_zero (s : TCB) : Tiles s 0 s [] where
  contiguous := rfl
  short := by simp
  bytes := by simp
  queued := by simp
  nxt := rfl
  buffer := rfl

/-- The loop from any of its iterations on; every iteration leaves less than there was. -/
theorem transmitLoop_tiles (fuel : ℕ) (hb : Backs mem buffer s.snd.buffer)
    (hc : s.cancelled = false) (hle : b ≤ a) (hfuel : (a - b).toNat < fuel)
    (hnxt : s.snd.nxt.toNat + (a - b).toNat < 2 ^ 32) :
    ∃ t mem' msgs, TCB.transmitLoop key clock spare buffer a fuel s mem b = some (t, mem', msgs) ∧
      Tiles s (a - b).toNat t msgs ∧ Kept mem mem' := by
  induction fuel generalizing s mem b with
  | zero => omega
  | succ fuel ih =>
    by_cases hlt : b < a
    · obtain ⟨mem₁, hkept, heq⟩ := transmitLoop_succ key clock spare fuel hb hlt
      rw [heq, if_neg (by simp [hc]), sendSegment_eq key _ hc]
      have hpos := segmentLength_pos hlt
      have hshort := segmentLength_le a b
      have hsub := segmentLength_le_sub a b
      generalize segmentLength a b = k at hpos hshort hsub ⊢
      have hrest : (a - (b + k)).toNat = (a - b).toNat - k.toNat := by bv_omega
      have hadd : (s.snd.nxt + k).toNat = s.snd.nxt.toNat + k.toNat := by
        rw [BitVec.toNat_add]
        exact Nat.mod_eq_of_lt (by omega)
      have hnxt' : (s.snd.nxt + k).toNat + (a - (b + k)).toNat < 2 ^ 32 := by omega
      obtain ⟨t, mem', msgs, hloop, htiles, hkept'⟩ :=
        ih (s := (s.transmitted key k).setTimestamp (s.snd.nxt + k) (clock b)) (b := b + k)
          (hb.kept hkept) hc (by bv_omega) (by omega) hnxt'
      refine ⟨t, mem', _, by simp only [hloop, Option.map_some]; rfl, ?_, hkept.trans hkept'⟩
      rw [hrest] at htiles
      have hall := htiles.cons key hpos hshort (by omega)
      rwa [Nat.add_sub_cancel' hsub] at hall
    · obtain rfl : b = a := BitVec.le_antisymm hle (BitVec.not_lt.mp hlt)
      refine ⟨s, mem, [], ?_, by simpa using tiles_zero s, .refl mem⟩
      simp [TCB.transmitLoop, hlt]

/-- The amount as a number, where nothing wraps. -/
theorem toNat_amountToSend (huna : s.snd.una ≤ s.snd.nxt) (hlbw : s.snd.nxt < s.snd.lbw)
    (hwin : s.snd.nxt.toNat - s.snd.una.toNat < min s.snd.wnd.toNat s.cwnd.toNat) :
    s.amountToSend.toNat =
      min (s.snd.una.toNat + min s.snd.wnd.toNat s.cwnd.toNat - s.snd.nxt.toNat)
        (s.snd.lbw.toNat - s.snd.nxt.toNat) := by
  have hmin := toNat_min32 s.snd.wnd s.cwnd
  have hroom : (s.snd.una + min32 s.snd.wnd s.cwnd - s.snd.nxt).toNat =
      s.snd.una.toNat + min s.snd.wnd.toNat s.cwnd.toNat - s.snd.nxt.toNat := by
    rw [← hmin] at hwin ⊢
    bv_omega
  have hdata : (s.snd.lbw - s.snd.nxt).toNat = s.snd.lbw.toNat - s.snd.nxt.toNat := by bv_omega
  simp only [TCB.amountToSend]
  rw [toNat_min32, hroom, hdata]

theorem sendHead_eq_transmit (huna : s.snd.una ≤ s.snd.nxt) (hlbw : s.snd.nxt < s.snd.lbw)
    (hwin : s.snd.nxt.toNat - s.snd.una.toNat < min s.snd.wnd.toNat s.cwnd.toNat) :
    s.sendHead = .transmit s.amountToSend 0 := by
  have hmin := toNat_min32 s.snd.wnd s.cwnd
  have hopen : s.snd.nxt - s.snd.una < min32 s.snd.wnd s.cwnd := by
    rw [← hmin] at hwin
    bv_omega
  have hne : s.snd.nxt ≠ s.snd.lbw := by bv_omega
  simp only [TCB.sendHead, if_pos hopen, TCB.sendData1, if_neg hne]

/-- With data to send, an open window and no `Close`, `Send` enters its transmit loop, and the loop
ends: the segments tile what fits, and SND.Buffer is as it was. -/
theorem transmitPass_tiles (huna : s.snd.una ≤ s.snd.nxt) (hlbw : s.snd.nxt < s.snd.lbw)
    (hwin : s.snd.nxt.toNat - s.snd.una.toNat < min s.snd.wnd.toNat s.cwnd.toNat)
    (hc : s.cancelled = false) (hb : Backs mem buffer s.snd.buffer) :
    s.sendHead = .transmit s.amountToSend 0 ∧
      ∃ t mem' msgs, s.transmitPass key clock spare mem buffer = some (t, mem', msgs) ∧
        Tiles s (min (s.snd.una.toNat + min s.snd.wnd.toNat s.cwnd.toNat - s.snd.nxt.toNat)
          (s.snd.lbw.toNat - s.snd.nxt.toNat)) t msgs ∧
        mem'.cells buffer.array = mem.cells buffer.array := by
  refine ⟨sendHead_eq_transmit huna hlbw hwin, ?_⟩
  have hamount := toNat_amountToSend huna hlbw hwin
  have hzero : s.amountToSend - 0 = s.amountToSend := BitVec.sub_zero _
  have hlt : s.snd.nxt.toNat < s.snd.lbw.toNat := hlbw
  have hmax := s.snd.lbw.isLt
  obtain ⟨t, mem', msgs, hloop, htiles, hkept⟩ :=
    transmitLoop_tiles key clock spare (a := s.amountToSend) (b := 0)
      (s.amountToSend.toNat + 1) hb hc (by bv_omega) (by rw [hzero]; omega) (by rw [hzero]; omega)
  rw [hzero, hamount] at htiles
  exact ⟨t, mem', msgs, hloop, htiles, hkept.cells _ hb.live⟩

/-- Three bytes from the last slot of the ring on, in an open window. -/
def lastSlot (cancelled : Bool) : TCB :=
  { (Conn.fresh 65534 65534 500).tcb with
    snd := { (Conn.fresh 65534 65534 500).tcb.snd with
      buffer := fun i => BitVec.ofNat 8 i
      lbw := 65537
      wnd := 1000 }
    cancelled }

/-- A memory with one array, the ring. -/
def oneArray : Store U8 where
  next := 1
  cells := fun _ i => BitVec.ofNat 8 i

def wholeRing : Slice := ⟨0, 0, 65535, 65535, le_rfl⟩

theorem backs_lastSlot (cancelled : Bool) :
    Backs oneArray wholeRing (lastSlot cancelled).snd.buffer where
  len := rfl
  cap := rfl
  live := Nat.zero_lt_one
  cells := fun i _ => congrArg (BitVec.ofNat 8) (Nat.zero_add i)

theorem transmitPass_tiles_lastSlot :
    let s := lastSlot false
    s.amountToSend = 3 ∧ s.sendHead = .transmit s.amountToSend 0 ∧
      ∃ t mem' msgs,
        s.transmitPass ⟨1, 1000, 2, 2000⟩ (fun _ => 0) (fun _ => 0) oneArray wholeRing =
          some (t, mem', msgs) ∧
        Tiles s (min (s.snd.una.toNat + min s.snd.wnd.toNat s.cwnd.toNat - s.snd.nxt.toNat)
          (s.snd.lbw.toNat - s.snd.nxt.toNat)) t msgs ∧
        mem'.cells wholeRing.array = oneArray.cells wholeRing.array :=
  ⟨by decide, transmitPass_tiles _ _ _ (by decide) (by decide) (by decide) rfl
    (backs_lastSlot false)⟩

/-- `Send` gives up in its first iteration once `Cancelled` is set, whatever there is to send. -/
theorem cancelled_pass_sends_nothing :
    ¬ ∀ (s : TCB) (key : SocketData) (clock : U32 → Int64) (spare : U32 → ℕ) (mem : Store U8)
      (buffer : Slice), s.snd.una ≤ s.snd.nxt → s.snd.nxt < s.snd.lbw →
      s.snd.lbw.toNat ≤ s.snd.una.toNat + maxBufSize.toNat →
      s.snd.nxt.toNat - s.snd.una.toNat < min s.snd.wnd.toNat s.cwnd.toNat →
      Backs mem buffer s.snd.buffer →
      ∃ t mem' msgs, s.transmitPass key clock spare mem buffer = some (t, mem', msgs) ∧
        Tiles s (min (s.snd.una.toNat + min s.snd.wnd.toNat s.cwnd.toNat - s.snd.nxt.toNat)
          (s.snd.lbw.toNat - s.snd.nxt.toNat)) t msgs := by
  intro h
  obtain ⟨t, mem', msgs, hpass, htiles⟩ := h (lastSlot true) ⟨1, 1000, 2, 2000⟩ (fun _ => 0)
    (fun _ => 0) oneArray wholeRing (by decide) (by decide) (by decide) (by decide)
    (backs_lastSlot true)
  obtain ⟨mem₁, -, heq⟩ := transmitLoop_succ ⟨1, 1000, 2, 2000⟩ (fun _ => 0) (fun _ => 0)
    (lastSlot true).amountToSend.toNat (backs_lastSlot true)
    (show (0 : U32) < (lastSlot true).amountToSend by decide)
  have hnone := hpass.symm.trans heq
  simp only [lastSlot, if_true, Option.some.injEq, Prod.mk.injEq] at hnone
  have hcont := htiles.contiguous
  rw [hnone.2.2] at hcont
  have hempty : (lastSlot true).snd.nxt.toNat = _ := hcont
  exact absurd hempty (by decide)

end Loop

end TcpIp
