import OsdCore.Iconv.Gb2312
import OsdCore.Iconv.Pieces

/-!
# Where `iconv_gb2312_to_ucs2_endian` reads its table

Any byte from 0x80 on is taken as the first of two, and any byte as the second.

* `gb2312Indices` : the indices that a call computes, in their order.
* `gb2312ToUcs2Loop_congr` : it reads the table at these.
* `gb2312Offset_lt_iff` : the bytes whose index is inside the table.
* `gb2312Indices_lt_iff` : the strings for which all indices are.
-/

namespace OsdCore

/-- The number of entries of `gb2312_to_ucs2_table` : 88 rows, from 0xA0 on. -/
def GB2312_TO_UCS2_TABLE_SIZE : ℕ := 8272

/-- The indices that the loop computes, from where it has put out `ucs2len` bytes. -/
def gb2312Indices (outlen : ℕ) : Bytes → ℕ → List UInt16
  | [], _ => []
  | lead :: rest, ucs2len =>
    if (ucs2len + 2) % 2 ^ 32 > outlen then []
    else if charToU16 lead < 0x80 then gb2312Indices outlen rest (ucs2len + 2)
    else match rest with
      | trail :: rest => gb2312Offset lead trail :: gb2312Indices outlen rest (ucs2len + 2)
      | [] => []

/-- The characters of two bytes that the loop converts before the output is full. -/
def gb2312Pairs (outlen : ℕ) : Bytes → ℕ → List (UInt8 × UInt8)
  | [], _ => []
  | lead :: rest, ucs2len =>
    if (ucs2len + 2) % 2 ^ 32 > outlen then []
    else if lead < 0x80 then gb2312Pairs outlen rest (ucs2len + 2)
    else match rest with
      | trail :: rest => (lead, trail) :: gb2312Pairs outlen rest (ucs2len + 2)
      | [] => []

/-- The two bytes are a character of the table, or lie in the gaps between its rows. -/
def InTable (lead trail : UInt8) : Prop :=
  (lead = 0x9F ∧ trail = 0xFF) ∨ (lead = 0xA0 ∧ 0xA1 ≤ trail) ∨ (lead = 0xA1 ∧ 0x43 ≤ trail) ∨
    (0xA2 ≤ lead ∧ lead ≤ 0xF6) ∨ (lead = 0xF7 ∧ trail ≤ 0xFE) ∨ (lead = 0xF8 ∧ trail ≤ 0xA0) ∨
    (lead = 0xF9 ∧ trail ≤ 0x42)

/-! ### One index -/

theorem charToU16_and (b : UInt8) : charToU16 b &&& 0x00FF = b.toUInt16 := by
  revert b
  apply forall_byte
  decide +kernel

theorem charToU16_shiftLeft (b : UInt8) : charToU16 b <<< 8 = b.toUInt16 * 256 := by
  revert b
  apply forall_byte
  decide +kernel

/-- The index, row after row; 50335 is what is left of `2 ^ 16` without `0xA0 * 94` and `0xA1`. -/
theorem gb2312Offset_toNat (lead trail : UInt8) :
    (gb2312Offset lead trail).toNat =
      (lead.toNat * 94 + trail.toNat + 50335) % 65536 := by
  have hlead := lead.toNat_lt
  have htrail := trail.toNat_lt
  have hword : (lead.toUInt16 * 256 + trail.toUInt16).toNat = lead.toNat * 256 + trail.toNat := by
    simp
    omega
  have hhigh : ((lead.toUInt16 * 256 + trail.toUInt16) >>> 8).toNat = lead.toNat := by
    rw [UInt16.toNat_shiftRight, hword]
    simp [Nat.shiftRight_eq_div_pow]
    omega
  have hlow : ((lead.toUInt16 * 256 + trail.toUInt16) &&& 0x00FF).toNat = trail.toNat := by
    rw [UInt16.toNat_and, hword]
    have hand := Nat.and_two_pow_sub_one_eq_mod (lead.toNat * 256 + trail.toNat) 8
    simp at hand ⊢
    omega
  unfold gb2312Offset
  rw [charToU16_shiftLeft, charToU16_and]
  simp only [UInt16.toNat_add, UInt16.toNat_mul, UInt16.toNat_sub, hhigh, hlow]
  simp
  omega

/-- **The bytes whose index is inside the table**, of those that the loop takes for a character. -/
theorem gb2312Offset_lt_iff {lead trail : UInt8} (h : ¬ lead < 0x80) :
    (gb2312Offset lead trail).toNat < GB2312_TO_UCS2_TABLE_SIZE ↔ InTable lead trail := by
  have hlead := lead.toNat_lt
  have htrail := trail.toNat_lt
  rw [UInt8.lt_iff_toNat_lt] at h
  unfold GB2312_TO_UCS2_TABLE_SIZE InTable
  rw [gb2312Offset_toNat]
  simp only [UInt8.le_iff_toNat_le, ← UInt8.toNat_inj, UInt8.reduceToNat] at h ⊢
  -- before the first entry of the table, and from there on
  rcases Nat.lt_or_ge (lead.toNat * 94 + trail.toNat) 15201 with hbefore | hfrom
  · rw [Nat.mod_eq_of_lt (by omega)]
    omega
  · rw [show lead.toNat * 94 + trail.toNat + 50335 = lead.toNat * 94 + trail.toNat - 15201 + 65536 by omega,
      Nat.add_mod_right, Nat.mod_eq_of_lt (by omega)]
    omega

/-! ### One call -/

/-- The rule of induction that both lists follow: a byte, or two of them. -/
theorem gb2312_induction {P : Bytes → ℕ → Prop} (nil : ∀ n, P [] n)
    (one : ∀ lead rest n, P rest (n + 2) → (∀ trail rest', rest = trail :: rest' → P rest' (n + 2)) →
      P (lead :: rest) n) : ∀ s n, P s n
  | [], n => nil n
  | lead :: rest, n => by
    refine one lead rest n (gb2312_induction nil one rest (n + 2)) ?_
    rintro trail rest' rfl
    exact gb2312_induction nil one rest' (n + 2)

/-- The indices are those of the characters. -/
theorem gb2312Indices_eq (outlen : ℕ) (s : Bytes) (n : ℕ) :
    gb2312Indices outlen s n = (gb2312Pairs outlen s n).map fun p => gb2312Offset p.1 p.2 := by
  induction s, n using gb2312_induction with
  | nil n => simp only [gb2312Indices, gb2312Pairs, List.map_nil]
  | one lead rest n ih ih' =>
    rw [gb2312Indices.eq_def, gb2312Pairs.eq_def]
    simp only [charToU16_lt_iff]
    split_ifs with hfull hascii
    · rfl
    · exact ih
    · cases rest with
      | nil => rfl
      | cons trail rest => simp [ih' trail rest rfl]

theorem not_lt_of_mem_pairs {outlen : ℕ} {s : Bytes} {n : ℕ} :
    ∀ p ∈ gb2312Pairs outlen s n, ¬ p.1 < 0x80 := by
  induction s, n using gb2312_induction with
  | nil n =>
    intro p hp
    simp [gb2312Pairs] at hp
  | one lead rest n ih ih' =>
    intro p hp
    rw [gb2312Pairs.eq_def] at hp
    simp only at hp
    split_ifs at hp with hfull hascii
    · cases hp
    · exact ih p hp
    · cases rest with
      | nil => cases hp
      | cons trail rest =>
        rcases List.mem_cons.1 hp with rfl | hp
        · exact hascii
        · exact ih' trail rest rfl p hp

/-- **The loop reads the table at the indices**: it does not see the rest of it. -/
theorem gb2312ToUcs2Loop_congr {T T' : Gb2312Tables} {src : Bytes} {outlen : ℕ} {endian : Endian}
    {inlen gbbuf : ℕ} {dst : Bytes} (hlen : gbbuf + inlen = src.length)
    (h : ∀ i ∈ gb2312Indices outlen (src.drop gbbuf) dst.length,
      T.gb2312ToUcs2Table i = T'.gb2312ToUcs2Table i) :
    gb2312ToUcs2Loop T src outlen endian inlen gbbuf dst =
      gb2312ToUcs2Loop T' src outlen endian inlen gbbuf dst := by
  induction inlen using Nat.strong_induction_on generalizing gbbuf dst with
  | _ inlen ih =>
    cases inlen with
    | zero => rfl
    | succ inlen =>
      obtain ⟨lead, hlead⟩ := drop_cons_of_lt (show gbbuf < src.length by omega)
      have hunit : ∀ unit : UInt16, (dst ++ endian.storeUnit unit).length = dst.length + 2 := by
        intro unit
        cases endian <;> simp [Endian.storeUnit, Endian.store]
      rw [hlead, gb2312Indices.eq_def] at h
      simp only at h
      rw [gb2312ToUcs2Loop, gb2312ToUcs2Loop, rd_of_drop hlead]
      split_ifs with hfull
      · rfl
      rw [if_neg hfull] at h
      simp only [bind, Except.bind]
      split_ifs with hascii
      · rw [if_pos hascii] at h
        refine ih inlen (by omega) (by omega) ?_
        rw [hunit]
        exact h
      · rw [if_neg hascii] at h
        cases inlen with
        | zero => rfl
        | succ inlen =>
          obtain ⟨trail, htrail⟩ := drop_cons_of_lt (show gbbuf + 1 < src.length by omega)
          rw [htrail] at h
          simp only [List.mem_cons, forall_eq_or_imp] at h
          simp only [rd_of_drop htrail, h.1]
          refine ih inlen (by omega) (by omega) ?_
          rw [hunit]
          exact h.2

/-- **GB2312 table access.**  All indices that a call computes are inside the table exactly if each
character of two bytes that it converts has its bytes in the ranges of `InTable`. -/
theorem gb2312Indices_lt_iff (inbuf : Bytes) (outbytesleft : ℕ) :
    (∀ i ∈ gb2312Indices outbytesleft inbuf 0, i.toNat < GB2312_TO_UCS2_TABLE_SIZE) ↔
      ∀ p ∈ gb2312Pairs outbytesleft inbuf 0, InTable p.1 p.2 := by
  rw [gb2312Indices_eq, List.forall_mem_map]
  exact forall₂_congr fun p hp => gb2312Offset_lt_iff (not_lt_of_mem_pairs p hp)

/-- The first byte that is taken for a character, and a NUL. -/
theorem gb2312Indices_80 : gb2312Indices 2 [0x80, 0x00] 0 = [62367] ∧
    ¬ ∀ i ∈ gb2312Indices 2 [0x80, 0x00] 0, i.toNat < GB2312_TO_UCS2_TABLE_SIZE := by
  have hindices : gb2312Indices 2 [0x80, 0x00] 0 = [62367] := by
    have hoffset : gb2312Offset 0x80 0x00 = 62367 := by decide
    rw [gb2312Indices, if_neg (by decide), if_neg (by decide), hoffset, gb2312Indices]
  refine ⟨hindices, fun h => ?_⟩
  rw [hindices] at h
  exact absurd (h _ List.mem_cons_self) (by decide)

end OsdCore
