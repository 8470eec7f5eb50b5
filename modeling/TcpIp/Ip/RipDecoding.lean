import TcpIp.Ip.Relaxation

/-! What the handler reads from a payload of any length, against the records that are in it. -/
namespace TcpIp.Ip

open Binary

variable {data body : List U8} {i n : ℕ}

/-- Record `i` of the bytes behind the header, where all its twelve bytes are there. -/
def recordAt (body : List U8) (i : ℕ) : Option RIPEntry := do
  let cost ← readAt 32 (12 * i) body
  let address ← readAt 32 (12 * i + 4) body
  let mask ← readAt 32 (12 * i + 8) body
  return ⟨cost, address, mask⟩

/-- The complete ones among the first `n` records. -/
def completeRecords (n : ℕ) (body : List U8) : List RIPEntry :=
  (List.range n).filterMap (recordAt body)

theorem recordAt_isSome : (recordAt body i).isSome ↔ 12 * i + 12 ≤ body.length := by
  unfold recordAt
  by_cases h : 12 * i + 12 ≤ body.length
  · have hcost : 12 * i + 4 ≤ body.length := by omega
    have haddress : 12 * i + 4 + 4 ≤ body.length := by omega
    have hmask : 12 * i + 8 + 4 ≤ body.length := by omega
    simp [readAt, hcost, haddress, hmask]
  · refine iff_of_false ?_ h
    simp only [readAt, Option.bind_eq_bind]
    simp
    omega

theorem recordAt_succ : recordAt body (i + 1) = recordAt (body.drop 12) i := by
  unfold recordAt
  rw [show 12 * (i + 1) = 12 + 12 * i by omega, Nat.add_assoc, Nat.add_assoc,
    readAt_add 12 _ _ (by decide), readAt_add 12 _ _ (by decide), readAt_add 12 _ _ (by decide)]

/-- With twelve bytes left, the three fields are those of the first record. -/
theorem readEntry_of_le (h : 12 ≤ data.length) :
    recordAt data 0 = some (readEntry data).1 ∧ (readEntry data).2 = data.drop 12 := by
  obtain ⟨hcost, hrest⟩ := readUint_of_le 32 data (by omega)
  obtain ⟨haddress, hrest'⟩ := readUint_of_le 32 (data.drop 4) (by simp; omega)
  obtain ⟨hmask, hrest''⟩ := readUint_of_le 32 (data.drop 8) (by simp; omega)
  simp only [Nat.reduceDiv] at hrest hrest' hrest''
  rw [List.drop_drop] at hrest' hrest''
  rw [← readAt_add 4 0 data (by decide)] at haddress
  rw [← readAt_add 8 0 data (by decide)] at hmask
  simp only [readEntry, hrest, hrest', hrest'']
  refine ⟨?_, trivial⟩
  simp only [recordAt, Nat.mul_zero, Nat.zero_add, hcost, Option.bind_eq_bind, Option.bind_some]
  rw [haddress, hmask]
  rfl

@[simp] theorem length_readEntries : (readEntries n data).length = n := by
  induction n generalizing data with
  | zero => rfl
  | succ n ih => simp [readEntries, ih]

/-- The loop reads the complete records and nothing else exactly when all it counts on are there:
it never reads fewer than its count says. -/
theorem readEntries_eq_iff (n : ℕ) (data : List U8) :
    readEntries n data = completeRecords n data ↔ 12 * n ≤ data.length := by
  constructor
  · intro heq
    have hlength : (completeRecords n data).length = (List.range n).length := by
      rw [← heq, length_readEntries, List.length_range]
    have hall := List.filterMap_length_eq_length.mp hlength
    cases n with
    | zero => omega
    | succ n =>
      have hlast := recordAt_isSome.mp (hall n (List.mem_range.mpr n.lt_succ_self))
      omega
  · intro h
    induction n generalizing data with
    | zero => rfl
    | succ n ih =>
      have hle : 12 ≤ data.length := by omega
      obtain ⟨hfirst, hrest⟩ := readEntry_of_le hle
      have hih := ih (data.drop 12) (by simp; omega)
      rw [readEntries, hrest, hih, completeRecords, completeRecords, List.range_succ_eq_map,
        List.filterMap_cons, hfirst, List.filterMap_map]
      simp only [Function.comp_def, recordAt_succ]

theorem numEntries_decode_of_lt (h : data.length < 4) : (decode data).numEntries = 0 := by
  have hrest : (readUint 16 data).2.length < 2 := by
    by_cases hcommand : 2 ≤ data.length
    · rw [(readUint_of_le 16 data hcommand).2, List.length_drop]
      omega
    · rw [readUint_of_lt 16 data (Nat.lt_of_not_le hcommand)]
      decide
  change (readUint 16 (readUint 16 data).2).1 = 0
  rw [readUint_of_lt 16 _ hrest]

/-- The header is four bytes; a shorter payload is read as one without entries. -/
theorem entries_decode :
    (decode data).entries = readEntries (decode data).numEntries.toNat (data.drop 4) := by
  change readEntries (decode data).numEntries.toNat (readUint 16 (readUint 16 data).2).2 = _
  by_cases h : 4 ≤ data.length
  · rw [(readUint_of_le 16 data (by omega)).2, (readUint_of_le 16 _ (by simp; omega)).2,
      List.drop_drop]
  · rw [numEntries_decode_of_lt (Nat.lt_of_not_le h)]
    rfl

/-- The entries that are handled are the complete records of the payload, and no destination that
is not in one of them has its route changed. -/
def InventsNothing (data : List U8) : Prop :=
  let records := completeRecords (decode data).numEntries.toNat (data.drop 4)
  (decode data).entries = records ∧
    ∀ own now (r : Router) src dest, (∀ entry ∈ records, entry.address ≠ dest) →
      (r.receivePacket own now src data).router.table.checkRoute dest = r.table.checkRoute dest

theorem entries_decode_eq_iff :
    (decode data).entries = completeRecords (decode data).numEntries.toNat (data.drop 4) ↔
      12 * (decode data).numEntries.toNat ≤ data.length - 4 := by
  rw [entries_decode, readEntries_eq_iff, List.length_drop]

/-- The decoder invents nothing exactly when the payload has all the entries its header counts. -/
theorem inventsNothing_iff (data : List U8) :
    InventsNothing data ↔ 12 * (decode data).numEntries.toNat ≤ data.length - 4 := by
  constructor
  · intro h
    exact entries_decode_eq_iff.mp h.1
  · intro h
    have hentries := entries_decode_eq_iff.mpr h
    refine ⟨hentries, ?_⟩
    intro own now r src dest hdest
    apply checkRoute_receiveEntries_of_notMem
    rw [hentries]
    exact hdest

/-- A header that counts one entry, with none behind it: a route to address 0 appears. -/
theorem empty_record_invented :
    ((initRoutingTable [1]).receivePacket [1] 0 2 [0, 2, 0, 1]).router.table.checkRoute 0 =
        some ⟨2, 1, 1⟩ ∧
      ¬ ∀ data, InventsNothing data := by
  refine ⟨by decide, ?_⟩
  intro hall
  exact absurd (entries_decode_eq_iff.mp (hall [0, 2, 0, 1]).1) (by decide)

theorem numEntries_decode (command num : U16) (rest : List U8) :
    (decode (toBytes 2 command.toNat ++ (toBytes 2 num.toNat ++ rest))).numEntries = num := by
  simp only [decode]
  rw [readUint_toBytes (n := 2) _ _ rfl, readUint_toBytes (n := 2) _ _ rfl]

/-- An update with more than 114 entries does not fit the receiver's buffer: the count in its header
stays, and the entries that were cut off are invented. -/
theorem not_inventsNothing_cut {command : U16} {neighbor : Addr} {entries : List RIPEntry}
    (h : 114 < entries.length) (hlen : entries.length < 2 ^ 16) :
    ¬ InventsNothing (bufferData (stripAddress (fieldByField command neighbor entries))) := by
  have hbytes : (entries.flatMap RIPEntry.bytes).length = 12 * entries.length := by
    simp [List.length_flatMap, Nat.mul_comm]
  have hcut : bufferData (stripAddress (fieldByField command neighbor entries)) =
      toBytes 2 command.toNat ++ (toBytes 2 (BitVec.ofNat 16 entries.length).toNat ++
        (entries.flatMap RIPEntry.bytes).take 1376) := by
    rw [stripAddress_fieldByField, bufferData, List.take_append, List.take_append]
    simp [mtu, headerLen, List.take_of_length_le]
  have hnum : (BitVec.ofNat 16 entries.length).toNat = entries.length := by
    rw [BitVec.toNat_ofNat, Nat.mod_eq_of_lt hlen]
  intro hnothing
  have hfits := entries_decode_eq_iff.mp hnothing.1
  rw [hcut, numEntries_decode, hnum] at hfits
  simp only [List.length_append, length_toBytes, List.length_take, hbytes] at hfits
  omega

section Cut

variable {e : RIPEntry} {entries : List RIPEntry} {n k : ℕ}

/-- What the decoder makes of a list of entries that may be cut anywhere: behind the cut it reads
zeros. -/
def ReadFrom (entries : List RIPEntry) (e : RIPEntry) : Prop :=
  e.cost = 0 ∧ e.address = 0 ∨
    ∃ e' ∈ entries, e.cost = e'.cost ∧ (e.address = e'.address ∨ e.address = 0)

theorem readEntries_nil (h : e ∈ readEntries n []) : e.cost = 0 ∧ e.address = 0 := by
  induction n with
  | zero => cases h
  | succ n ih =>
    rcases List.mem_cons.mp h with rfl | h
    · exact ⟨rfl, rfl⟩
    · exact ih h

/-- The entry that the cut goes through. -/
theorem readEntry_cut (e : RIPEntry) (rest : List U8) (h : k < 12) :
    (readEntry ((e.bytes ++ rest).take k)).2 = [] ∧
      ReadFrom [e] (readEntry ((e.bytes ++ rest).take k)).1 := by
  have hcut : (e.bytes ++ rest).take k = e.bytes.take k := by
    rw [List.take_append_of_le_length]
    rw [length_entryBytes]
    omega
  have hshort : ∀ (bs : List U8) (i : ℕ), bs.length ≤ i → i < 4 → readUint 32 bs = (0, []) :=
    fun bs i hbs hi => readUint_of_lt 32 bs (by omega)
  rw [hcut, RIPEntry.bytes, List.append_assoc, List.take_append, length_toBytes]
  rcases Nat.lt_or_ge k 4 with hcost | hcost
  · have hnil : k - 4 = 0 := by omega
    rw [hnil, List.take_zero, List.append_nil, readEntry, hshort _ k (by simp) hcost]
    exact ⟨rfl, Or.inl ⟨rfl, rfl⟩⟩
  · rw [List.take_of_length_le (by simpa using hcost), List.take_append, length_toBytes]
    rcases Nat.lt_or_ge k 8 with haddress | haddress
    · have hnil : k - 4 - 4 = 0 := by omega
      rw [hnil, List.take_zero, List.append_nil, readEntry, readUint_toBytes (n := 4) _ _ rfl]
      rw [hshort _ (k - 4) (by simp) (by omega)]
      exact ⟨rfl, Or.inr ⟨e, by simp, rfl, Or.inr rfl⟩⟩
    · rw [List.take_of_length_le (i := k - 4) (by simp; omega), readEntry,
        readUint_toBytes (n := 4) _ _ rfl, readUint_toBytes (n := 4) _ _ rfl]
      rw [hshort _ (k - 8) (by simp; omega) (by omega)]
      exact ⟨rfl, Or.inr ⟨e, by simp, rfl, Or.inl rfl⟩⟩

theorem mem_readEntries_cut (h : e ∈ readEntries n ((entries.flatMap RIPEntry.bytes).take k)) :
    ReadFrom entries e := by
  induction entries generalizing n k with
  | nil =>
    rw [List.flatMap_nil, List.take_nil] at h
    exact Or.inl (readEntries_nil h)
  | cons first entries ih =>
    cases n with
    | zero => cases h
    | succ n =>
      rw [List.flatMap_cons] at h
      rcases Nat.lt_or_ge k 12 with hk | hk
      · obtain ⟨hrest, hfirst⟩ := readEntry_cut first (entries.flatMap RIPEntry.bytes) hk
        rcases List.mem_cons.mp h with rfl | h
        · rcases hfirst with hzero | ⟨e', he', hread⟩
          · exact Or.inl hzero
          · exact Or.inr ⟨e', by simp [List.mem_singleton.mp he'], hread⟩
        · rw [hrest] at h
          exact Or.inl (readEntries_nil h)
      · rw [List.take_append, length_entryBytes,
          List.take_of_length_le (by simpa using hk)] at h
        rw [readEntries, readEntry_bytes] at h
        rcases List.mem_cons.mp h with rfl | h
        · exact Or.inr ⟨e, by simp, rfl, Or.inl rfl⟩
        · rcases ih h with hzero | ⟨e', he', hread⟩
          · exact Or.inl hzero
          · exact Or.inr ⟨e', List.mem_cons_of_mem first he', hread⟩

/-- An update that is too long for the receiver's buffer is read up to the cut. -/
theorem mem_decode_arriving {command : U16} {neighbor : Addr}
    (h : e ∈ (decode (bufferData (stripAddress (fieldByField command neighbor entries)))).entries) :
    ReadFrom entries e := by
  have hcut : bufferData (stripAddress (fieldByField command neighbor entries)) =
      toBytes 2 command.toNat ++ (toBytes 2 (BitVec.ofNat 16 entries.length).toNat ++
        (entries.flatMap RIPEntry.bytes).take 1376) := by
    rw [stripAddress_fieldByField, bufferData, List.take_append, List.take_append]
    simp [mtu, headerLen, List.take_of_length_le]
  rw [hcut, decode] at h
  rw [readUint_toBytes (n := 2) _ _ rfl, readUint_toBytes (n := 2) _ _ rfl] at h
  exact mem_readEntries_cut h

end Cut

end TcpIp.Ip
