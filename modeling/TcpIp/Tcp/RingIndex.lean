import TcpIp.Tcp.CallEffect

/-! The ring indices of consecutive sequence numbers, and the slots that the copies touch. -/
namespace TcpIp

/-- The slot of the `j`-th sequence number from `q` on, counted modulo 2^32. -/
def slotOf (q : U32) (j : ℕ) : ℕ := (sequenceToBufferInd (q + BitVec.ofNat 32 j)).toNat

/-- The bytes in the slots of `n` sequence numbers from `q` on. -/
def rangeBytes (buffer : ℕ → U8) (q : U32) (n : ℕ) : List U8 :=
  (List.range n).map fun j => buffer (slotOf q j)

/-- The bytes are in the slots of their sequence numbers, and no other slot has changed. -/
structure RangeWritten (buffer : ℕ → U8) (q : U32) (xs : List U8) (buffer' : ℕ → U8) : Prop where
  written : ∀ j b, xs[j]? = some b → buffer' (slotOf q j) = b
  kept : ∀ k < 65535, (∀ j < xs.length, k ≠ slotOf q j) → buffer' k = buffer k

/-- The indices of `n` sequence numbers from `q` on follow them around the ring, no two are the
same, and the copies of `n` bytes at `q` touch the slots of these numbers. -/
structure IndicesFollow (q : U32) (n : ℕ) : Prop where
  index : ∀ k < n, slotOf q k = ((sequenceToBufferInd q).toNat + k) % maxBufSize.toNat
  distinct : ∀ i < n, ∀ j < n, slotOf q i = slotOf q j → i = j
  read : ∀ (s : TCB) (c : ReadCall), s.rcv.lbr = q → (s.available c).toNat = n →
    (s.readCopy c).2.data = c.data ++ rangeBytes s.rcv.buffer q n
  write : ∀ (s t : TCB) (data : List U8) (bytesToWrite : U32), s.snd.lbw = q →
    s.writeRound data = .wrote t bytesToWrite → bytesToWrite.toNat = n →
    RangeWritten s.snd.buffer q (data.take n) t.snd.buffer
  receive : ∀ (s t : TCB) (payload : List U8), s.rcv.nxt ≤ q → 0 < payload.length →
    payload.length = n → s.takeData q payload = some t →
    RangeWritten s.rcv.buffer q payload t.rcv.buffer
  send : ∀ (s : TCB) (amountToCopy : U32), s.snd.nxt = q → amountToCopy.toNat = n →
    s.sendPayload amountToCopy = rangeBytes s.snd.buffer q n

section NoWrap

variable {q : U32} {n : ℕ} {buffer : ℕ → U8}

theorem slotOf_of_lt {j : ℕ} (h : q.toNat + j < 2 ^ 32) : slotOf q j = (q.toNat + j) % 65535 := by
  unfold slotOf
  rw [toNat_sequenceToBufferInd, BitVec.toNat_add, BitVec.toNat_ofNat,
    Nat.mod_eq_of_lt (a := j) (by omega), Nat.mod_eq_of_lt h]

/-- Past the last sequence number the indices fall one behind, for 2^32 is 1 modulo 65535. -/
theorem slotOf_of_le {j : ℕ} (hj : j < 65535) (h : 2 ^ 32 ≤ q.toNat + j) :
    slotOf q j ≠ (q.toNat + j) % 65535 := by
  have hq := q.isLt
  unfold slotOf
  rw [toNat_sequenceToBufferInd, BitVec.toNat_add, BitVec.toNat_ofNat]
  omega

theorem rangeBytes_eq (h : q.toNat + n ≤ 2 ^ 32) :
    rangeBytes buffer q n = Ring.load 65535 buffer q.toNat n := by
  apply List.map_congr_left
  intro j hj
  have hlt : j < n := List.mem_range.mp hj
  rw [slotOf_of_lt (by omega)]

theorem rangeWritten_store {xs : List U8} (hlen : xs.length ≤ 65535)
    (h : q.toNat + xs.length ≤ 2 ^ 32) :
    RangeWritten buffer q xs (Ring.store 65535 buffer q.toNat xs) where
  written := by
    intro j b hb
    have hj := (List.getElem?_eq_some_iff.mp hb).1
    rw [slotOf_of_lt (by omega), Ring.store_apply (by omega) hlen (by omega) (by omega),
      Nat.add_sub_cancel_left, hb, Option.getD_some]
  kept := by
    intro k hk hne
    refine Ring.store_of_ne hlen hk fun j hj => ?_
    rw [← slotOf_of_lt (by omega)]
    exact hne j hj

theorem slotOf_injective (hn : n ≤ 65535) (h : q.toNat + n ≤ 2 ^ 32) :
    ∀ i < n, ∀ j < n, slotOf q i = slotOf q j → i = j := by
  intro i hi j hj heq
  rw [slotOf_of_lt (by omega), slotOf_of_lt (by omega)] at heq
  omega

end NoWrap

section Copies

variable {s t : TCB}

theorem takeData_buffer {q : U32} {payload : List U8} (hq : s.rcv.nxt ≤ q)
    (hpos : 0 < payload.length) (hlen : payload.length ≤ 65535)
    (h : s.takeData q payload = some t) :
    t.rcv.buffer = Ring.store 65535 s.rcv.buffer q.toNat payload := by
  by_cases hearly : q > s.rcv.nxt
  · rw [TCB.takeData_early hearly hpos hlen] at h
    split at h
    · cases h
      rfl
    · cases h
  · obtain rfl : q = s.rcv.nxt := BitVec.le_antisymm (BitVec.not_lt.mp hearly) hq
    rw [TCB.takeData_inOrder hpos hlen] at h
    split at h
    · cases h
      rfl
    · cases h

end Copies

/-- A range of at most MAX_BUF_SIZE sequence numbers has the slots the copies touch exactly if it
does not run over 2^32. -/
theorem ring_indices_follow_iff (q : U32) (n : ℕ) (hn : n ≤ 65535) :
    IndicesFollow q n ↔ q.toNat + n ≤ 2 ^ 32 := by
  constructor
  · intro h
    by_contra hwrap
    have hq := q.isLt
    have hindex := h.index (2 ^ 32 - q.toNat) (by omega)
    rw [toNat_sequenceToBufferInd, toNat_maxBufSize, Nat.mod_add_mod] at hindex
    exact slotOf_of_le (by omega) (by omega) hindex
  · intro h
    refine ⟨fun k hk => ?_, slotOf_injective hn h, ?_, ?_, ?_, ?_⟩
    · rw [slotOf_of_lt (by omega), toNat_sequenceToBufferInd, toNat_maxBufSize, Nat.mod_add_mod]
    · rintro s c rfl rfl
      rw [readCopy_load hn, rangeBytes_eq h]
    · rintro s t data b rfl hw rfl
      obtain ⟨-, -, buffer, rfl, hstore⟩ := writeRound_wrote hw
      rw [(hstore (by omega)).1]
      have hlen : (data.take b.toNat).length ≤ b.toNat := List.length_take_le _ _
      exact rangeWritten_store (by omega) (by omega)
    · rintro s t payload hq hpos rfl htake
      rw [takeData_buffer hq hpos hn htake]
      exact rangeWritten_store hn h
    · rintro s a rfl rfl
      rw [sendPayload_load hn, rangeBytes_eq h]

theorem ring_indices_follow_iff_last : IndicesFollow 0xfffffffe 2 :=
  (ring_indices_follow_iff 0xfffffffe 2 (by decide)).mpr (by decide)

/-- A connection whose next byte has the last sequence number. -/
def lastNumber : TCB where
  state := .established
  snd := ⟨fun _ => 0, 0xffffffff, 0xffffffff, 100, 0, 0xffffffff⟩
  rcv := ⟨fun _ => 0, 1, maxBufSize, 0, 1⟩
  rto := rtoUpper
  srtt := -1
  cwnd := maxBufSize

/-- The last sequence number and the one after it share slot 0. `Write` puts the second of two
bytes into slot 1, and `Send` takes it from slot 0. -/
theorem index_lags_after_wrap :
    slotOf 0xffffffff 0 = 0 ∧ slotOf 0xffffffff 1 = 0 ∧
      (∃ t, lastNumber.writeRound [7, 8] = .wrote t 2 ∧
        ({ t with snd := { t.snd with nxt := 0 } } : TCB).sendPayload 1 = [7]) ∧
      ¬ ∀ (q : U32) (n : ℕ), n ≤ 65535 → IndicesFollow q n := by
  refine ⟨by decide, by decide, ⟨_, rfl, by decide⟩, ?_⟩
  intro hall
  have hindex := (hall 0xffffffff 2 (by decide)).index 1 (by decide)
  exact absurd hindex (by decide)

end TcpIp
