import TcpIp.Ip.Forward

/-! The layout that the `ipv4` package gives a header: what is written is read back. -/
namespace TcpIp.Ip

open Binary

variable {src dest : Addr} {c : U16} {t p : U8} {totalLen : ℕ} {rest : List U8}

theorem headerField_skip {pre rest : List U8} {i k n : ℕ} (h : pre.length = k) :
    headerField (pre ++ rest) (k + i) n = headerField rest i n := by
  subst h
  simp [headerField, ← List.drop_drop]

theorem headerField_read {mid rest : List U8} {n : ℕ} (h : mid.length = n) :
    headerField (mid ++ rest) 0 n = ofBytes mid := by
  subst h
  simp [headerField]

/-- The header of 20 bytes in front of its data. -/
def layout (totalLen : ℕ) (ttl protocol : U8) (checksum : U16) (src dest : Addr)
    (data : List U8) : List U8 :=
  [69, 0] ++ (toBytes 2 totalLen ++ (toBytes 2 0 ++ (toBytes 2 0 ++ ([ttl, protocol] ++
    (toBytes 2 checksum.toNat ++ (toBytes 4 src.toNat ++ (toBytes 4 dest.toNat ++ data)))))))

theorem length_layout {data : List U8} :
    (layout totalLen t p c src dest data).length = 20 + data.length := by
  simp [layout]
  omega

theorem layout_append {data : List U8} (rest : List U8) :
    layout totalLen t p c src dest data ++ rest =
      layout totalLen t p c src dest (data ++ rest) := by
  simp [layout]

theorem marshal_plain (totalLen ttl protocol checksum : ℤ) (src dest : Addr) :
    ipv4Codec.marshal (.plain totalLen ttl protocol checksum src dest) =
      some (layout (BitVec.ofInt 16 totalLen).toNat (BitVec.ofInt 8 ttl) (BitVec.ofInt 8 protocol)
        (BitVec.ofInt 16 checksum) src dest []) := by
  simp only [Header.plain, ipv4Codec, layout]
  rw [if_neg (by decide)]
  simp only [List.append_assoc]
  rfl

/-- The fields behind the TTL and the protocol. -/
theorem headerField_layout_skip {i n : ℕ} : headerField (layout totalLen t p c src dest rest)
    (10 + i) n = headerField (toBytes 2 c.toNat ++ (toBytes 4 src.toNat ++
      (toBytes 4 dest.toNat ++ rest))) i n := by
  have hsplit : layout totalLen t p c src dest rest =
      ([69, 0] ++ toBytes 2 totalLen ++ toBytes 2 0 ++ toBytes 2 0 ++ [t, p]) ++
        (toBytes 2 c.toNat ++ (toBytes 4 src.toNat ++ (toBytes 4 dest.toNat ++ rest))) := by
    simp only [layout, List.append_assoc]
  rw [hsplit]
  exact headerField_skip (by simp)

theorem headerField_totalLen (h : totalLen < 65536) :
    headerField (layout totalLen t p c src dest rest) 2 2 = totalLen := by
  rw [layout, headerField_skip (i := 0) (k := 2) rfl, headerField_read (length_toBytes 2 _),
    ofBytes_toBytes]
  exact Nat.mod_eq_of_lt h

/-- Identification, flags and fragment offset are zero. -/
theorem headerField_fragment {i : ℕ} (hi : i = 0 ∨ i = 2) :
    headerField (layout totalLen t p c src dest rest) (4 + i) 2 = 0 := by
  have hsplit : layout totalLen t p c src dest rest = ([69, 0] ++ toBytes 2 totalLen) ++
      (toBytes 2 0 ++ (toBytes 2 0 ++ ([t, p] ++ (toBytes 2 c.toNat ++
        (toBytes 4 src.toNat ++ (toBytes 4 dest.toNat ++ rest)))))) := by
    simp only [layout, List.append_assoc]
  rw [hsplit, headerField_skip (by simp)]
  rcases hi with rfl | rfl <;> rfl

theorem headerField_protocol :
    headerField (layout totalLen t p c src dest rest) 9 1 = p.toNat := by
  have hsplit : layout totalLen t p c src dest rest =
      ([69, 0] ++ toBytes 2 totalLen ++ toBytes 2 0 ++ toBytes 2 0 ++ [t]) ++ ([p] ++
        (toBytes 2 c.toNat ++ (toBytes 4 src.toNat ++ (toBytes 4 dest.toNat ++ rest)))) := by
    simp only [layout, List.append_assoc, List.cons_append, List.nil_append]
  rw [hsplit, headerField_skip (i := 0) (k := 9) (by simp),
    headerField_read (List.length_singleton)]
  simp [ofBytes]

theorem ttlByte_layout : ttlByte (layout totalLen t p c src dest rest) = t := by
  simp [ttlByte, layout, toBytes]

theorem headerField_checksum :
    headerField (layout totalLen t p c src dest rest) 10 2 = c.toNat := by
  rw [headerField_layout_skip (i := 0), headerField_read (length_toBytes 2 _), ofBytes_toBytes]
  exact Nat.mod_eq_of_lt c.isLt

theorem headerField_src :
    headerField (layout totalLen t p c src dest rest) 12 4 = src.toNat := by
  rw [headerField_layout_skip (i := 2), headerField_skip (i := 0) (k := 2) (length_toBytes 2 _),
    headerField_read (length_toBytes 4 _), ofBytes_toBytes]
  exact Nat.mod_eq_of_lt src.isLt

theorem headerField_dest :
    headerField (layout totalLen t p c src dest rest) 16 4 = dest.toNat := by
  rw [headerField_layout_skip (i := 6), headerField_skip (i := 4) (k := 2) (length_toBytes 2 _),
    headerField_skip (i := 0) (k := 4) (length_toBytes 4 _), headerField_read (length_toBytes 4 _),
    ofBytes_toBytes]
  exact Nat.mod_eq_of_lt dest.isLt

theorem parseHeader_layout (htotal : totalLen < 65536) (rest : List U8) :
    ipv4Codec.parseHeader (layout totalLen t p c src dest rest) =
      .plain totalLen t.toNat p.toNat c.toNat src dest := by
  have hfirst : headerField (layout totalLen t p c src dest rest) 0 1 = 69 := rfl
  have htos : headerField (layout totalLen t p c src dest rest) 1 1 = 0 := rfl
  simp only [ipv4Codec, Header.plain, hfirst, htos, headerField_totalLen htotal,
    headerField_fragment (i := 0) (Or.inl rfl), headerField_fragment (i := 2) (Or.inr rfl),
    ttlByte_layout, headerField_protocol, headerField_checksum, headerField_src,
    headerField_dest, BitVec.ofNat_toNat, BitVec.setWidth_eq]
  simp [headerLen]

theorem toNat_ofInt_emod (w : ℕ) (v : ℤ) : ((BitVec.ofInt w v).toNat : ℤ) = v % 2 ^ w := by
  have hpos : (0 : ℤ) < (2 ^ w : ℕ) := by positivity
  rw [BitVec.toNat_ofInt, Int.toNat_of_nonneg (Int.emod_nonneg _ hpos.ne')]
  norm_cast

theorem roundTrips_ipv4Codec : ipv4Codec.RoundTrips where
  parseHeader_marshal := by
    intro totalLen ttl protocol checksum src dst
    refine ⟨_, marshal_plain .., length_layout, fun rest => ?_⟩
    rw [layout_append, parseHeader_layout (BitVec.isLt _), toNat_ofInt_emod, toNat_ofInt_emod,
      toNat_ofInt_emod, toNat_ofInt_emod]
    rfl

end TcpIp.Ip
