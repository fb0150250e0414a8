import OsdCore.Iconv.Basic

/-!
# From UCS-2 to UTF-8 and back

* `encUnicodeToUtf8_units` : the encoder writes the UTF-8 form of every code unit, one after the other.
* `roundTrips_iff` : the decoder gives back what was encoded exactly when no code unit is a `LostUnit`:
  for the characters of two bytes it rejects half of the second bytes.
-/

namespace OsdCore

/-! ### The bytes of a code unit -/

theorem trail_byte (v : ℕ) : ((v &&& 0xFF) ||| 0xC0) &&& 0xBF = 128 + v % 64 := by
  have hall : ∀ w < 256, (w ||| 0xC0) &&& 0xBF = 128 + w % 64 := by decide +kernel
  rw [Nat.and_two_pow_sub_one_eq_mod v 8, hall _ (Nat.mod_lt v (by decide))]
  omega

theorem utf8Bytes_one {u : ℕ} (h : u < 0x80) : utf8Bytes u = [UInt8.ofNat u] := by
  rw [utf8Bytes, if_pos (by omega)]

theorem utf8Bytes_two {u : ℕ} (h : 0x80 ≤ u) (h' : u < 0x800) :
    utf8Bytes u = [UInt8.ofNat (192 + u / 64), UInt8.ofNat (128 + u % 64)] := by
  have hlead : ∀ v < 32, (v ||| 0xE0) &&& 0xDF = 192 + v := by decide
  rw [utf8Bytes, if_neg (by omega), if_pos (by omega), Nat.shiftRight_eq_div_pow, hlead _ (by omega),
    trail_byte]

theorem utf8Bytes_three {u : ℕ} (h : 0x800 ≤ u) (h' : u < 0x10000) :
    utf8Bytes u =
      [UInt8.ofNat (224 + u / 4096), UInt8.ofNat (128 + u / 64 % 64), UInt8.ofNat (128 + u % 64)] := by
  have hlead : ∀ v < 16, ((v &&& 0xFF) ||| 0xF0) &&& 0xEF = 224 + v := by decide
  rw [utf8Bytes, if_neg (by omega), if_neg (by omega), Nat.shiftRight_eq_div_pow,
    Nat.shiftRight_eq_div_pow, hlead _ (by omega), trail_byte, trail_byte]

theorem encGetUtf8Size_one {n : ℕ} (h : n < 128) : encGetUtf8Size (UInt8.ofNat n) = 1 := by
  have hall : ∀ n < 128, encGetUtf8Size (UInt8.ofNat n) = 1 := by decide +kernel
  exact hall n h

theorem encGetUtf8Size_two {n : ℕ} (h : n < 32) : encGetUtf8Size (UInt8.ofNat (192 + n)) = 2 := by
  have hall : ∀ n < 32, encGetUtf8Size (UInt8.ofNat (192 + n)) = 2 := by decide +kernel
  exact hall n h

theorem encGetUtf8Size_three {n : ℕ} (h : n < 16) : encGetUtf8Size (UInt8.ofNat (224 + n)) = 3 := by
  have hall : ∀ n < 16, encGetUtf8Size (UInt8.ofNat (224 + n)) = 3 := by decide +kernel
  exact hall n h

/-- The second byte of two, as the decoder checks it. -/
theorem second_of_two {w : ℕ} (h : w < 64) : (UInt8.ofNat (128 + w) &&& 0xE0 ≠ 0x80) ↔ 32 ≤ w := by
  have hall : ∀ w < 64, (UInt8.ofNat (128 + w) &&& 0xE0 ≠ 0x80) ↔ 32 ≤ w := by decide +kernel
  exact hall w h

theorem trail_of_three {w : ℕ} (h : w < 64) : UInt8.ofNat (128 + w) &&& 0xC0 = 0x80 := by
  have hall : ∀ w < 64, UInt8.ofNat (128 + w) &&& 0xC0 = 0x80 := by decide +kernel
  exact hall w h

theorem toNat_and_low (a : UInt8) : (a &&& 0x3F).toNat = a.toNat % 64 := by
  rw [UInt8.toNat_and]
  exact Nat.and_two_pow_sub_one_eq_mod _ 6

/-- The bytes of a code unit are put together again, in the form of two bytes. -/
theorem join_two {u : ℕ} (h : u < 0x800) :
    ((UInt8.ofNat (192 + u / 64) >>> 2) &&& 0x07 = UInt8.ofNat (u / 256)) ∧
      (UInt8.ofNat (192 + u / 64) <<< 6) + (UInt8.ofNat (128 + u % 64) &&& 0x3F) = UInt8.ofNat u := by
  have hand : ∀ v : ℕ, v &&& 7 = v % 8 := fun v => Nat.and_two_pow_sub_one_eq_mod v 3
  constructor <;> apply UInt8.toNat.inj
  · simp only [UInt8.toNat_and, UInt8.toNat_shiftRight, UInt8.toNat_ofNat', UInt8.reduceToNat,
      Nat.shiftRight_eq_div_pow, hand, Nat.reduceMod, Nat.reducePow]
    omega
  · simp only [UInt8.toNat_add, toNat_and_low, UInt8.toNat_shiftLeft, UInt8.toNat_ofNat',
      UInt8.reduceToNat, Nat.shiftLeft_eq, Nat.reduceMod, Nat.reducePow]
    omega

/-- And in the form of three. -/
theorem join_three {u : ℕ} (h : u < 0x10000) :
    ((UInt8.ofNat (224 + u / 4096) <<< 4) + ((UInt8.ofNat (128 + u / 64 % 64) >>> 2) &&& 0x0F) =
        UInt8.ofNat (u / 256)) ∧
      (UInt8.ofNat (128 + u / 64 % 64) <<< 6) + (UInt8.ofNat (128 + u % 64) &&& 0x3F) =
        UInt8.ofNat u := by
  have hand : ∀ v : ℕ, v &&& 15 = v % 16 := fun v => Nat.and_two_pow_sub_one_eq_mod v 4
  constructor <;> apply UInt8.toNat.inj
  · simp only [UInt8.toNat_add, UInt8.toNat_and, UInt8.toNat_shiftRight, UInt8.toNat_shiftLeft,
      UInt8.toNat_ofNat', UInt8.reduceToNat, Nat.shiftRight_eq_div_pow, Nat.shiftLeft_eq, hand,
      Nat.reduceMod, Nat.reducePow]
    omega
  · simp only [UInt8.toNat_add, toNat_and_low, UInt8.toNat_shiftLeft, UInt8.toNat_ofNat',
      UInt8.reduceToNat, Nat.shiftLeft_eq, Nat.reduceMod, Nat.reducePow]
    omega

/-! ### One character -/

/-- The decoder does not accept the two bytes of this code unit: bit 5 ends up where it wants a 0. -/
def LostUnit (u : UInt16) : Prop := 0x80 ≤ u.toNat ∧ u.toNat ≤ 0x7FF ∧ u.toNat.testBit 5 = true

instance (u : UInt16) : Decidable (LostUnit u) := inferInstanceAs (Decidable (_ ∧ _ ∧ _))

/-- The bytes of a code unit in memory. -/
def Endian.unit (endian : Endian) (u : UInt16) : Bytes :=
  endian.store (UInt8.ofNat (u.toNat / 256)) (UInt8.ofNat u.toNat)

variable {endian : Endian} {src dst rest : Bytes} {i maxOLen : ℕ} {u : UInt16} {units : List UInt16}

@[simp] theorem Endian.length_unit : (endian.unit u).length = 2 := Endian.length_store _ _

/-- The bit that is lost, as a digit. -/
theorem testBit_five (n : ℕ) : n.testBit 5 = true ↔ 32 ≤ n % 64 := by
  rw [Nat.testBit_eq_decide_div_mod_eq, decide_eq_true_eq]
  omega

theorem utf8Bytes_ne_nil (n : ℕ) : utf8Bytes n ≠ [] := by
  unfold utf8Bytes
  split_ifs <;> simp

/-- **One character is decoded** as the code unit it was encoded from, or not at all. -/
theorem encUtf8ToUnicodeOne_unit (hd : src.drop i = utf8Bytes u.toNat ++ rest) :
    encUtf8ToUnicodeOne src i endian = .ok (if LostUnit u then none else some (endian.unit u)) := by
  have hu : u.toNat < 0x10000 := u.toNat_lt
  rcases lt_or_ge u.toNat 0x80 with h1 | h1
  · -- one byte
    rw [utf8Bytes_one h1] at hd
    have hhi : UInt8.ofNat (u.toNat / 256) = 0 := by
      rw [Nat.div_eq_of_lt (by omega)]
      rfl
    rw [encUtf8ToUnicodeOne, rd_of_drop hd, if_neg (fun h => by unfold LostUnit at h; omega)]
    simp only [bind, Except.bind, encGetUtf8Size_one h1, ↓reduceIte, Endian.unit, hhi]
    rfl
  rcases lt_or_ge u.toNat 0x800 with h2 | h2
  · -- two bytes
    rw [utf8Bytes_two h1 h2] at hd
    obtain ⟨hhi, hlo⟩ := join_two h2
    have hlost : LostUnit u ↔ 32 ≤ u.toNat % 64 := by
      unfold LostUnit
      rw [testBit_five]
      omega
    rw [encUtf8ToUnicodeOne, rd_of_drop hd, rd_of_drop (drop_succ_of_drop hd)]
    simp only [bind, Except.bind, encGetUtf8Size_two (show u.toNat / 64 < 32 by omega), ↓reduceIte,
      second_of_two (Nat.mod_lt _ (by decide)), hlost, Nat.reduceEqDiff, hhi, hlo]
    split_ifs <;> rfl
  · -- three bytes
    rw [utf8Bytes_three h2 hu] at hd
    obtain ⟨hhi, hlo⟩ := join_three hu
    have hd1 := drop_succ_of_drop hd
    rw [encUtf8ToUnicodeOne, rd_of_drop hd, rd_of_drop hd1, rd_of_drop (drop_succ_of_drop hd1),
      if_neg (fun h => by unfold LostUnit at h; omega)]
    simp only [bind, Except.bind, encGetUtf8Size_three (show u.toNat / 4096 < 16 by omega),
      trail_of_three (Nat.mod_lt _ (show 0 < 64 by decide)), ne_eq, not_true_eq_false, or_self,
      ↓reduceIte, Nat.reduceEqDiff, hhi, hlo]
    rfl

/-- The decoder moves on by the length of the character. -/
theorem encGetUtf8Size_unit (hd : src.drop i = utf8Bytes u.toNat ++ rest) :
    ∃ b, rd src i = .ok b ∧ encGetUtf8Size b = (utf8Bytes u.toNat).length := by
  have hu : u.toNat < 0x10000 := u.toNat_lt
  rcases lt_or_ge u.toNat 0x80 with h1 | h1
  · rw [utf8Bytes_one h1] at hd ⊢
    exact ⟨_, rd_of_drop hd, encGetUtf8Size_one h1⟩
  rcases lt_or_ge u.toNat 0x800 with h2 | h2
  · rw [utf8Bytes_two h1 h2] at hd ⊢
    exact ⟨_, rd_of_drop hd, encGetUtf8Size_two (by omega)⟩
  · rw [utf8Bytes_three h2 hu] at hd ⊢
    exact ⟨_, rd_of_drop hd, encGetUtf8Size_three (by omega)⟩

/-! ### Whole buffers -/

/-- The UCS-2 text of the code units. -/
def ucs2Text (endian : Endian) (units : List UInt16) : Bytes := units.flatMap endian.unit

/-- The UTF-8 text of the code units. -/
def utf8Text (units : List UInt16) : Bytes := units.flatMap fun u => utf8Bytes u.toNat

@[simp] theorem ucs2Text_cons : ucs2Text endian (u :: units) = endian.unit u ++ ucs2Text endian units :=
  rfl

@[simp] theorem utf8Text_cons : utf8Text (u :: units) = utf8Bytes u.toNat ++ utf8Text units := rfl

theorem length_ucs2Text : (ucs2Text endian units).length = 2 * units.length := by
  induction units with
  | nil => rfl
  | cons u units ih =>
    rw [ucs2Text_cons, List.length_append, ih, Endian.length_unit, List.length_cons]
    omega

theorem length_le_utf8Text : units.length ≤ (utf8Text units).length := by
  induction units with
  | nil => exact Nat.zero_le _
  | cons u units ih =>
    have hpos := List.length_pos_iff.2 (utf8Bytes_ne_nil u.toNat)
    rw [utf8Text_cons, List.length_append, List.length_cons]
    omega

/-- The code unit that is read. -/
theorem load_unit (hd : src.drop i = endian.unit u ++ rest) :
    ∃ a b, rd src i = .ok a ∧ rd src (i + 1) = .ok b ∧ endian.load a b = u.toNat := by
  have hu : u.toNat < 0x10000 := u.toNat_lt
  cases endian <;> refine ⟨_, _, rd_of_drop hd, rd_of_drop (drop_succ_of_drop hd), ?_⟩ <;>
    simp only [Endian.load, UInt8.toNat_ofNat'] <;> omega

/-- **The encoder** writes the UTF-8 form of the code units. -/
theorem unicodeToUtf8Loop_units {fuel : ℕ} (hd : src.drop i = ucs2Text endian units)
    (hi : i ≤ src.length) (hfuel : units.length < fuel) (hmax : maxOLen < 2 ^ 32)
    (hspace : (dst ++ utf8Text units).length ≤ maxOLen) :
    unicodeToUtf8Loop src maxOLen endian fuel i dst =
      .ok (.exit src maxOLen none src.length (dst ++ utf8Text units)) := by
  have hlen : src.length - i = 2 * units.length := by
    rw [← List.length_drop, hd, length_ucs2Text]
  induction units generalizing i dst fuel with
  | nil =>
    obtain ⟨fuel, rfl⟩ := Nat.exists_eq_succ_of_ne_zero (show fuel ≠ 0 by omega)
    rw [List.length_nil] at hlen
    rw [unicodeToUtf8Loop, if_neg (by omega), show i = src.length by omega]
    simp [utf8Text]
  | cons u units ih =>
    obtain ⟨fuel, rfl⟩ := Nat.exists_eq_succ_of_ne_zero (show fuel ≠ 0 by omega)
    rw [ucs2Text_cons] at hd
    rw [List.length_cons] at hlen hfuel
    obtain ⟨a, b, ha, hb, hload⟩ := load_unit hd
    have hrest := drop_add_of_drop hd
    rw [Endian.length_unit] at hrest
    simp only [utf8Text_cons, ← List.append_assoc] at hspace ⊢
    have hroom : ¬ (dst.length + (utf8Bytes u.toNat).length) % 2 ^ 32 > maxOLen := by
      rw [List.length_append, List.length_append] at hspace
      rw [Nat.mod_eq_of_lt (by omega)]
      omega
    rw [unicodeToUtf8Loop, if_pos (by omega), ha, hb]
    simp only [bind, Except.bind, hload, hroom, ↓reduceIte]
    exact ih hrest (by omega) (by omega) hspace (by omega)

theorem encUnicodeToUtf8_units (hlen : (ucs2Text endian units).length < 2 ^ 32)
    (hmax : maxOLen < 2 ^ 32) (hspace : (utf8Text units).length ≤ maxOLen) :
    encUnicodeToUtf8 (ucs2Text endian units) maxOLen endian =
      .ok ⟨0, none, (ucs2Text endian units).length, 0, maxOLen - (utf8Text units).length,
        utf8Text units⟩ := by
  have hfuel : units.length < (ucs2Text endian units).length + 1 := by
    rw [length_ucs2Text]
    omega
  have hd : (ucs2Text endian units).drop 0 = ucs2Text endian units := List.drop_zero
  rw [encUnicodeToUtf8, unicodeToUtf8Loop_units hd (Nat.zero_le _) hfuel hmax hspace]
  simp [Conversion.exit, subSize_eq le_rfl hlen, subSize_eq hspace hmax]

/-- **The decoder** gives the code units back, until it comes to a `LostUnit`. -/
theorem utf8ToUnicodeLoop_units {fuel : ℕ} (hd : src.drop i = utf8Text units) (hi : i ≤ src.length)
    (hfuel : units.length < fuel) (hmax : maxOLen < 2 ^ 32)
    (hspace : (dst ++ ucs2Text endian units).length ≤ maxOLen) :
    ∃ c, utf8ToUnicodeLoop src maxOLen endian fuel i dst = .ok c ∧
      ((∀ u ∈ units, ¬ LostUnit u) →
        c = .exit src maxOLen none src.length (dst ++ ucs2Text endian units)) ∧
      ((∃ u ∈ units, LostUnit u) → c.result = -1) := by
  have hlen : src.length - i = (utf8Text units).length := by rw [← List.length_drop, hd]
  induction units generalizing i dst fuel with
  | nil =>
    obtain ⟨fuel, rfl⟩ := Nat.exists_eq_succ_of_ne_zero (show fuel ≠ 0 by omega)
    have hend : i = src.length := by
      simp only [utf8Text, List.flatMap_nil, List.length_nil] at hlen
      omega
    rw [utf8ToUnicodeLoop, if_neg (by omega), hend]
    exact ⟨_, rfl, fun _ => by simp [ucs2Text], by simp⟩
  | cons u units ih =>
    obtain ⟨fuel, rfl⟩ := Nat.exists_eq_succ_of_ne_zero (show fuel ≠ 0 by omega)
    have hpos := List.length_pos_iff.2 (utf8Bytes_ne_nil u.toNat)
    rw [utf8Text_cons] at hd
    rw [utf8Text_cons, List.length_append] at hlen
    rw [List.length_cons] at hfuel
    obtain ⟨b, hb, hsize⟩ := encGetUtf8Size_unit hd
    have hrest := drop_add_of_drop hd
    simp only [ucs2Text_cons, ← List.append_assoc] at hspace ⊢
    have hroom : ¬ (dst.length + 2) % 2 ^ 32 > maxOLen := by
      rw [List.length_append, List.length_append, Endian.length_unit] at hspace
      rw [Nat.mod_eq_of_lt (by omega)]
      omega
    rw [utf8ToUnicodeLoop, if_pos (by omega), if_neg hroom, hb, encUtf8ToUnicodeOne_unit hd]
    by_cases hu : LostUnit u
    · -- the decoder stops here
      rw [if_pos hu]
      exact ⟨_, rfl, fun h => absurd hu (h u List.mem_cons_self), fun _ => rfl⟩
    · have hfuel' : units.length < fuel := by omega
      obtain ⟨c, hloop, hok, hlost⟩ := ih hrest (by omega) hfuel' hspace (by omega)
      simp only [bind, Except.bind, hu, ↓reduceIte, hsize]
      refine ⟨c, hloop, fun h => hok fun v hv => h v (List.mem_cons_of_mem u hv), ?_⟩
      rintro ⟨v, hv, hlv⟩
      rcases List.mem_cons.1 hv with rfl | hv
      · exact absurd hlv hu
      · exact hlost ⟨v, hv, hlv⟩

/-- The round trip, with these sizes of the two output buffers: both conversions succeed and use up their
input, and the second one stores what the first one was given. -/
def RoundTrips (endian : Endian) (units : List UInt16) (space₁ space₂ : ℕ) : Prop :=
  ∃ utf8 left₁ left₂,
    encUnicodeToUtf8 (ucs2Text endian units) space₁ endian =
      .ok ⟨0, none, (ucs2Text endian units).length, 0, left₁, utf8⟩ ∧
    encUtf8ToUnicode utf8 space₂ endian =
      .ok ⟨0, none, utf8.length, 0, left₂, ucs2Text endian units⟩

/-- **The round trip succeeds exactly when** there is no `LostUnit`. -/
theorem roundTrips_iff {endian : Endian} {units : List UInt16} {space₁ space₂ : ℕ}
    (h₁ : (utf8Text units).length ≤ space₁) (h₁' : space₁ < 2 ^ 32) (h₂ : 2 * units.length ≤ space₂)
    (h₂' : space₂ < 2 ^ 32) :
    RoundTrips endian units space₁ space₂ ↔ ∀ u ∈ units, ¬ LostUnit u := by
  have hspace : (ucs2Text endian units).length ≤ space₂ := length_ucs2Text.trans_le h₂
  have hlen : (ucs2Text endian units).length < 2 ^ 32 := by omega
  have hencode := encUnicodeToUtf8_units hlen h₁' h₁
  have hd : (utf8Text units).drop 0 = utf8Text units := List.drop_zero
  have hfuel : units.length < (utf8Text units).length + 1 := Nat.lt_succ_of_le length_le_utf8Text
  obtain ⟨c, hdecode, hok, hlost⟩ :=
    @utf8ToUnicodeLoop_units endian _ [] 0 _ units _ hd (Nat.zero_le _) hfuel h₂' hspace
  constructor
  · rintro ⟨utf8, left₁, left₂, henc, hdec⟩ u hu hl
    rw [hencode] at henc
    cases henc
    rw [encUtf8ToUnicode, hdecode] at hdec
    cases hdec
    cases hlost ⟨u, hu, hl⟩
  · intro h
    refine ⟨_, _, space₂ - (ucs2Text endian units).length, hencode, ?_⟩
    rw [encUtf8ToUnicode, hdecode, hok h]
    simp [Conversion.exit, subSize_eq le_rfl (show (utf8Text units).length < 2 ^ 32 by omega),
      subSize_eq hspace h₂']

/-- The letters of two scripts, in big-endian order. -/
theorem roundTrips_letters : RoundTrips .big [0x41, 0x4E2D] 4 4 := by
  refine (roundTrips_iff (by decide) (by decide) (by decide) (by decide)).2 fun u hu => ?_
  rcases List.mem_pair.1 hu with rfl | rfl <;> decide

/-- The letter U+00E9 does not come back. -/
theorem not_roundTrips_letter : ¬ ∀ (endian : Endian) (units : List UInt16) (space₁ space₂ : ℕ),
    (utf8Text units).length ≤ space₁ → space₁ < 2 ^ 32 → 2 * units.length ≤ space₂ → space₂ < 2 ^ 32 →
      RoundTrips endian units space₁ space₂ := by
  intro h
  obtain ⟨utf8, left₁, left₂, henc, hdec⟩ :=
    h .little [0xE9] 2 2 (by decide) (by decide) (by decide) (by decide)
  have hbytes : encUnicodeToUtf8 (ucs2Text .little [0xE9]) 2 .little =
      .ok ⟨0, none, 2, 0, 0, [0xC3, 0xA9]⟩ := by decide +kernel
  rw [hbytes] at henc
  cases henc
  have hfail : encUtf8ToUnicode [0xC3, 0xA9] 2 .little = .ok ⟨-1, some .EINVAL, 0, 2, 2, []⟩ := by
    decide +kernel
  rw [hfail] at hdec
  cases hdec

end OsdCore
