import Mathlib.Tactic

/-! Unsigned integers, structs and slices as big-endian bytes, written and read one value at a time. -/
namespace TcpIp.Binary

/-- The `n` low bytes of `v`, the most significant one first. -/
def toBytes : ℕ → ℕ → List (BitVec 8)
  | 0, _ => []
  | n + 1, v => toBytes n (v / 256) ++ [BitVec.ofNat 8 v]

def ofBytes (bs : List (BitVec 8)) : ℕ := bs.foldl (fun v b => v * 256 + b.toNat) 0

@[simp] theorem length_toBytes (n v : ℕ) : (toBytes n v).length = n := by
  induction n generalizing v with
  | zero => rfl
  | succ n ih => simp [toBytes, ih]

theorem ofBytes_snoc (bs : List (BitVec 8)) (b : BitVec 8) :
    ofBytes (bs ++ [b]) = ofBytes bs * 256 + b.toNat := by
  simp [ofBytes]

theorem ofBytes_toBytes (n v : ℕ) : ofBytes (toBytes n v) = v % 256 ^ n := by
  induction n generalizing v with
  | zero => simp [toBytes, ofBytes, Nat.mod_one]
  | succ n ih =>
    have hmod : v % 256 ^ (n + 1) = v % 256 + 256 * (v / 256 % 256 ^ n) := by
      rw [pow_succ', Nat.mod_mul]
    rw [toBytes, ofBytes_snoc, ih, BitVec.toNat_ofNat, hmod]
    omega

/-- A value that can be handed to the encoder. -/
inductive Value
  | uint16 (v : BitVec 16)
  | uint32 (v : BitVec 32)
  | struct (fields : List Value)
  | slice (elems : List Value)

mutual

/-- The bytes of a value of fixed size; a slice has none. -/
def Value.fixed : Value → Option (List (BitVec 8))
  | .uint16 v => some (toBytes 2 v.toNat)
  | .uint32 v => some (toBytes 4 v.toNat)
  | .struct fields => fixedAll fields
  | .slice _ => none

def fixedAll : List Value → Option (List (BitVec 8))
  | [] => some []
  | v :: vs =>
    match v.fixed, fixedAll vs with
    | some bs, some cs => some (bs ++ cs)
    | _, _ => none

end

/-- A value of fixed size, or a slice of such values, can be encoded. -/
def Value.encode : Value → Option (List (BitVec 8))
  | .slice elems => fixedAll elems
  | v => v.fixed

/-- Append a value to the bytes written so far; one that cannot be encoded adds nothing. -/
def write (buf : List (BitVec 8)) (v : Value) : List (BitVec 8) := buf ++ v.encode.getD []

/-- Read an integer of `w` bits. With too few bytes left they are used up and the value is zero. -/
def readUint (w : ℕ) (bs : List (BitVec 8)) : BitVec w × List (BitVec 8) :=
  if w / 8 ≤ bs.length then (BitVec.ofNat w (ofBytes (bs.take (w / 8))), bs.drop (w / 8))
  else (0, [])

theorem fixedAll_map {α : Type*} {f : α → Value} {g : α → List (BitVec 8)}
    (h : ∀ a, (f a).fixed = some (g a)) (as : List α) :
    fixedAll (as.map f) = some (as.flatMap g) := by
  induction as with
  | nil => rfl
  | cons a as ih => simp [fixedAll, h, ih]

theorem fixedAll_slice (vs ws us : List Value) : fixedAll (vs ++ .slice ws :: us) = none := by
  induction vs with
  | nil => simp [fixedAll, Value.fixed]
  | cons v vs ih =>
    simp only [List.cons_append, fixedAll, ih]
    cases v.fixed <;> rfl

/-- A struct with a slice among its fields cannot be encoded. -/
theorem encode_struct_slice (vs ws us : List Value) :
    (Value.struct (vs ++ .slice ws :: us)).encode = none := by
  simp only [Value.encode, Value.fixed, fixedAll_slice]

theorem toNat_lt_pow {w n : ℕ} (v : BitVec w) (hw : w = 8 * n) : v.toNat < 256 ^ n := by
  have hpow : 2 ^ w = 256 ^ n := by norm_num [hw, pow_mul]
  have hlt := v.isLt
  omega

/-- Reading what was written gives the value back and leaves the bytes behind it. -/
theorem readUint_toBytes {w n : ℕ} (v : BitVec w) (rest : List (BitVec 8)) (hw : w = 8 * n) :
    readUint w (toBytes n v.toNat ++ rest) = (v, rest) := by
  have hn : w / 8 = n := by omega
  have hv := toNat_lt_pow v hw
  unfold readUint
  rw [hn, if_pos (by simp), List.take_left' (by simp), List.drop_left' (by simp), ofBytes_toBytes,
    Nat.mod_eq_of_lt hv, BitVec.ofNat_toNat, BitVec.setWidth_eq]

/-- The integer of `w` bits that starts at byte `i`; `none` where the bytes end before it does. -/
def readAt (w i : ℕ) (bs : List (BitVec 8)) : Option (BitVec w) :=
  if i + w / 8 ≤ bs.length then some (BitVec.ofNat w (ofBytes ((bs.drop i).take (w / 8))))
  else none

theorem readAt_isSome {w i : ℕ} {bs : List (BitVec 8)} :
    (readAt w i bs).isSome ↔ i + w / 8 ≤ bs.length := by
  unfold readAt
  split <;> simp_all

/-- Reading past the first bytes is reading the rest. -/
theorem readAt_add {w : ℕ} (i j : ℕ) (bs : List (BitVec 8)) (hw : 0 < w / 8) :
    readAt w (i + j) bs = readAt w j (bs.drop i) := by
  simp only [readAt, List.length_drop, List.drop_drop]
  congr 1
  exact propext (by omega)

/-- With enough bytes left, reading in sequence is reading at the front. -/
theorem readUint_of_le (w : ℕ) (bs : List (BitVec 8)) (h : w / 8 ≤ bs.length) :
    readAt w 0 bs = some (readUint w bs).1 ∧ (readUint w bs).2 = bs.drop (w / 8) := by
  simp only [readAt, readUint, Nat.zero_add, List.drop_zero, if_pos h, and_self]

theorem readUint_of_lt (w : ℕ) (bs : List (BitVec 8)) (h : bs.length < w / 8) :
    readUint w bs = (0, []) := if_neg (Nat.not_le.mpr h)

/-- Reading a value where its bytes stand. -/
theorem readAt_eq_some {w n i : ℕ} {bs : List (BitVec 8)} {v : BitVec w} (hw : w = 8 * n)
    (hn : 0 < n) (h : (bs.drop i).take n = toBytes n v.toNat) : readAt w i bs = some v := by
  have hwidth : w / 8 = n := by omega
  have hlength := congrArg List.length h
  simp only [List.length_take, List.length_drop, length_toBytes] at hlength
  have hv := toNat_lt_pow v hw
  rw [readAt, hwidth, if_pos (by omega), h, ofBytes_toBytes, Nat.mod_eq_of_lt hv,
    BitVec.ofNat_toNat, BitVec.setWidth_eq]

/-- What is read from the front part of some bytes is there in the whole. -/
theorem readAt_of_take {w i n : ℕ} {bs : List (BitVec 8)} {v : BitVec w}
    (h : readAt w i (bs.take n) = some v) : readAt w i bs = some v := by
  unfold readAt at h ⊢
  split at h
  · rename_i hle
    rw [List.length_take] at hle
    rw [if_pos (by omega), ← h, List.drop_take, List.take_take, min_eq_left (by omega)]
  · cases h

end TcpIp.Binary
