import OsdCore.Bitarray.Basic

/-!
# What a bit array stores

* `bitarrayGetval_narrow`, `storedValues_narrow` : elements of less than a byte are fields of a byte.
* `narrow_others_iff` : the others of the byte stay exactly where the bits that spill over are set.
* `bitarrayGetval_congr`, `storedValues_frame` : only the bytes of an element are read and written.
* `bitarrayStore_iff` : the element reads back and the others stay, exactly where `StoreRight` holds.
-/

namespace OsdCore

/-! ### The element sizes -/

/-- The sizes that pass the check. -/
theorem validElsize_iff (e : UInt8) :
    validElsize e = true ↔ e = 1 ∨ e = 2 ∨ e = 4 ∨ e = 8 ∨ e = 16 ∨ e = 32 :=
  forall_byte (P := fun e => validElsize e = true ↔ e = 1 ∨ e = 2 ∨ e = 4 ∨ e = 8 ∨ e = 16 ∨ e = 32)
    (by decide +kernel) e

/-- The sizes of less than a byte. -/
theorem narrow_cases {e : UInt8} (h : validElsize e = true) (hlt : e < 8) : e = 1 ∨ e = 2 ∨ e = 4 := by
  rcases (validElsize_iff e).1 h with h | h | h | rfl | rfl | rfl
  · exact Or.inl h
  · exact Or.inr (Or.inl h)
  · exact Or.inr (Or.inr h)
  · exact absurd hlt (by decide)
  · exact absurd hlt (by decide)
  · exact absurd hlt (by decide)

/-! ### Where the small elements are -/

section

variable {e : UInt8} (i : UInt32)

/-- How many elements there are in a byte. -/
def perByte (e : UInt8) : ℕ := 8 / e.toNat

/-- The number of an element in its byte, from the lowest bits on. -/
def slot (e : UInt8) (i : ℕ) : ℕ := perByte e - 1 - i % perByte e

theorem perByte_mul (h : e = 1 ∨ e = 2 ∨ e = 4) : 8 = perByte e * e.toNat := by
  rcases h with rfl | rfl | rfl <;> rfl

theorem perByte_pos (h : e = 1 ∨ e = 2 ∨ e = 4) : 0 < perByte e := by
  rcases h with rfl | rfl | rfl <;> decide

theorem byteIdx_toNat (h : e = 1 ∨ e = 2 ∨ e = 4) : (byteIdx e i).toNat = i.toNat / perByte e := by
  rcases h with rfl | rfl | rfl
  · exact Nat.shiftRight_eq_div_pow i.toNat 3
  · exact Nat.shiftRight_eq_div_pow i.toNat 2
  · exact Nat.shiftRight_eq_div_pow i.toNat 1

/-- What is left of an index, in a byte. -/
theorem rest_toNat (h : e = 1 ∨ e = 2 ∨ e = 4) :
    (i &&& UInt32.ofNat (perByte e - 1)).toUInt8.toNat = i.toNat % perByte e := by
  rw [UInt32.toNat_toUInt8, UInt32.toNat_and]
  rcases h with rfl | rfl | rfl
  · have hmod : i.toNat &&& 7 = i.toNat % 8 := Nat.and_two_pow_sub_one_eq_mod i.toNat 3
    change (i.toNat &&& 7) % 2 ^ 8 = i.toNat % 8
    omega
  · have hmod : i.toNat &&& 3 = i.toNat % 4 := Nat.and_two_pow_sub_one_eq_mod i.toNat 2
    change (i.toNat &&& 3) % 2 ^ 8 = i.toNat % 4
    omega
  · have hmod : i.toNat &&& 1 = i.toNat % 2 := Nat.and_two_pow_sub_one_eq_mod i.toNat 1
    change (i.toNat &&& 1) % 2 ^ 8 = i.toNat % 2
    omega

theorem fieldShift_toNat (h : e = 1 ∨ e = 2 ∨ e = 4) :
    (fieldShift e i).toNat = slot e i.toNat * e.toNat := by
  have heq : fieldShift e i =
      (UInt8.ofNat (perByte e - 1) - (i &&& UInt32.ofNat (perByte e - 1)).toUInt8) * e := by
    rcases h with rfl | rfl | rfl <;> rfl
  have hrest := rest_toNat i h
  have hlt := Nat.mod_lt i.toNat (perByte_pos h)
  rw [heq, UInt8.toNat_mul, UInt8.toNat_sub, UInt8.toNat_ofNat', hrest, slot]
  generalize i.toNat % perByte e = r at hlt ⊢
  rcases h with rfl | rfl | rfl
  · change r < 8 at hlt
    change (2 ^ 8 - r + 7 % 2 ^ 8) % 2 ^ 8 * 1 % 2 ^ 8 = (7 - r) * 1
    omega
  · change r < 4 at hlt
    change (2 ^ 8 - r + 3 % 2 ^ 8) % 2 ^ 8 * 2 % 2 ^ 8 = (3 - r) * 2
    omega
  · change r < 2 at hlt
    change (2 ^ 8 - r + 1 % 2 ^ 8) % 2 ^ 8 * 4 % 2 ^ 8 = (1 - r) * 4
    omega

theorem slot_lt (h : e = 1 ∨ e = 2 ∨ e = 4) (i : ℕ) : slot e i < perByte e := by
  have hpos := perByte_pos h
  rw [slot]
  omega

/-- Two elements of a byte are in different fields. -/
theorem slot_inj (h : e = 1 ∨ e = 2 ∨ e = 4) {i j : ℕ} (hbyte : j / perByte e = i / perByte e)
    (hslot : slot e j = slot e i) : j = i := by
  have hdm := Nat.div_add_mod i (perByte e)
  have hdm' := Nat.div_add_mod j (perByte e)
  have hmod := Nat.mod_lt i (perByte_pos h)
  have hmod' := Nat.mod_lt j (perByte_pos h)
  rw [hbyte] at hdm'
  unfold slot at hslot
  omega

/-- A field above an element is that of an element before it. -/
theorem exists_slot {i n : ℕ} (hn : slot e i < n) (hk : n < perByte e) :
    ∃ j < i, j / perByte e = i / perByte e ∧ slot e j = n := by
  have hpos : 0 < perByte e := by omega
  have hdm := Nat.div_add_mod i (perByte e)
  have hmod := Nat.mod_lt i hpos
  have hrest : perByte e - 1 - n < perByte e := by omega
  unfold slot at hn
  refine ⟨perByte e * (i / perByte e) + (perByte e - 1 - n), by omega, ?_, ?_⟩
  · rw [Nat.mul_add_div hpos, Nat.div_eq_of_lt hrest, Nat.add_zero]
  · rw [slot, Nat.mul_add_mod, Nat.mod_eq_of_lt hrest]
    omega

/-- An element of less than a byte is within its byte. -/
theorem slot_fits (h : e = 1 ∨ e = 2 ∨ e = 4) (i : ℕ) : slot e i * e.toNat + e.toNat ≤ 8 := by
  have hmul := Nat.mul_le_mul_right e.toNat (slot_lt h i)
  have hk := perByte_mul h
  rw [Nat.succ_mul] at hmul
  omega

theorem bitarrayIndexMask_eq (h : e = 1 ∨ e = 2 ∨ e = 4) :
    (bitarrayIndexMask e).toUInt32.toBitVec = lowBits 32 e.toNat := by
  rcases h with rfl | rfl | rfl <;> rfl

end

/-! ### Fields of a byte -/

/-- A `u32` that is shifted by less than a byte. -/
theorem shiftRight_toBitVec (x : UInt32) {s : UInt8} (h : s.toNat < 8) :
    (x >>> s.toUInt32).toBitVec = x.toBitVec >>> s.toNat := by
  have hs : (s.toUInt32.toBitVec % 32).toNat = s.toNat := by
    change s.toUInt32.toNat % 32 = s.toNat
    rw [UInt8.toNat_toUInt32]
    omega
  change x.toBitVec >>> (s.toUInt32.toBitVec % 32).toNat = _
  rw [hs]

theorem shiftLeft_toBitVec (x : UInt32) {s : UInt8} (h : s.toNat < 8) :
    (x <<< s.toUInt32).toBitVec = x.toBitVec <<< s.toNat := by
  have hs : (s.toUInt32.toBitVec % 32).toNat = s.toNat := by
    change s.toUInt32.toNat % 32 = s.toNat
    rw [UInt8.toNat_toUInt32]
    omega
  change x.toBitVec <<< (s.toUInt32.toBitVec % 32).toNat = _
  rw [hs]

/-- What is read of a byte is a field of it. -/
theorem readField_eq {e s : UInt8} (h : e = 1 ∨ e = 2 ∨ e = 4) (hs : s.toNat < 8) (b : UInt8) :
    b.toUInt32 >>> s.toUInt32 &&& (bitarrayIndexMask e).toUInt32 =
      ⟨(getField b.toBitVec s.toNat e.toNat).setWidth 32⟩ := by
  have he : e.toNat ≤ 8 := by rcases h with rfl | rfl | rfl <;> decide
  apply UInt32.toBitVec_inj.1
  apply BitVec.eq_of_getLsbD_eq
  intro u hu
  rw [UInt32.toBitVec_and, shiftRight_toBitVec _ hs, bitarrayIndexMask_eq h, BitVec.getLsbD_and,
    BitVec.getLsbD_ushiftRight, getLsbD_lowBits, BitVec.getLsbD_setWidth, getLsbD_getField]
  change ((b.toBitVec.setWidth 32).getLsbD (s.toNat + u) && _) = _
  rw [BitVec.getLsbD_setWidth]
  by_cases hlow : u < e.toNat
  · simp [hlow, hu, show s.toNat + u < 32 by omega]
  · simp [hlow]

/-- What is stored in a byte is put over a field of it. -/
theorem writeField_eq {e s : UInt8} (h : e = 1 ∨ e = 2 ∨ e = 4) (hs : s.toNat < 8) (b : UInt8)
    (v : UInt32) :
    (b.toUInt32 &&& ~~~((bitarrayIndexMask e).toUInt32 <<< s.toUInt32) |||
        v <<< s.toUInt32).toUInt8.toBitVec =
      orField b.toBitVec s.toNat e.toNat v.toUInt8.toBitVec := by
  apply BitVec.eq_of_getLsbD_eq
  intro t ht
  change (BitVec.setWidth 8 (b.toUInt32 &&& ~~~((bitarrayIndexMask e).toUInt32 <<< s.toUInt32) |||
    v <<< s.toUInt32).toBitVec).getLsbD t = _
  rw [UInt32.toBitVec_or, UInt32.toBitVec_and, UInt32.toBitVec_not, shiftLeft_toBitVec _ hs,
    shiftLeft_toBitVec _ hs, bitarrayIndexMask_eq h, orField]
  change BitVec.getLsbD (BitVec.setWidth 8 (b.toBitVec.setWidth 32 &&& _ ||| _)) t =
    BitVec.getLsbD (_ ||| v.toBitVec.setWidth 8 <<< _) t
  simp only [BitVec.getLsbD_setWidth, BitVec.getLsbD_or, BitVec.getLsbD_and, BitVec.getLsbD_not,
    BitVec.getLsbD_shiftLeft, getLsbD_lowBits]
  simp [ht, show t < 32 by omega, show t - s.toNat < 32 by omega, show t - s.toNat < 8 by omega]

/-! ### The calls -/

section

variable {pa : Bitarray} {idx newval : UInt32}

theorem not_invalid (h : pa.InRange idx) : ¬ (idx ≤ 0 ∨ pa.capacity < idx) := by
  have h1 := UInt32.le_iff_toNat_le.1 h.1
  rintro (h0 | hcap)
  · have h0 := UInt32.le_iff_toNat_le.1 h0
    change 1 ≤ idx.toNat at h1
    change idx.toNat ≤ 0 at h0
    omega
  · exact absurd h.2 (UInt32.not_le.2 hcap)

theorem bitarraySet_inRange (h : pa.InRange idx) :
    bitarraySet pa idx newval = .ok (pa.store idx newval) :=
  if_neg (not_invalid h)

theorem bitarrayGet_inRange (h : pa.InRange idx) : bitarrayGet pa idx = .ok (bitarrayGetval pa idx) :=
  if_neg (not_invalid h)

/-- The law, by what is read at the indices of the array. -/
theorem storeLaw_iff (h : pa.InRange idx) :
    StoreLaw pa idx newval ↔
      bitarrayGetval (pa.store idx newval) idx =
          UInt32.ofNat (newval.toNat % 2 ^ pa.elsize.toNat) ∧
        ∀ idx', pa.InRange idx' → idx' ≠ idx →
          bitarrayGetval (pa.store idx newval) idx' =
            bitarrayGetval pa idx' := by
  have hget : ∀ {idx'}, pa.InRange idx' →
      bitarrayGet (pa.store idx newval) idx' =
        .ok (bitarrayGetval (pa.store idx newval) idx') :=
    fun h' => if_neg (not_invalid h')
  rw [StoreLaw, bitarraySet_inRange h]
  constructor
  · rintro ⟨pa', hset, hself, hother⟩
    obtain rfl := Except.ok.inj hset
    refine ⟨Except.ok.inj ((hget h).symm.trans hself), fun idx' h' hne => ?_⟩
    exact Except.ok.inj ((hget h').symm.trans ((hother idx' hne).trans (bitarrayGet_inRange h')))
  · rintro ⟨hself, hother⟩
    refine ⟨_, rfl, (hget h).trans (congrArg _ hself), fun idx' hne => ?_⟩
    by_cases h' : idx' ≤ 0 ∨ pa.capacity < idx'
    · exact (if_pos h').trans (if_pos h').symm
    · have hin : pa.InRange idx' := by
        push Not at h'
        have hpos := UInt32.lt_iff_toNat_lt.1 (UInt32.not_le.1 h'.1)
        exact ⟨UInt32.le_iff_toNat_le.2 hpos, UInt32.not_lt.1 h'.2⟩
      rw [hget hin, bitarrayGet_inRange hin, hother idx' hin hne]

theorem pred_toNat (h : pa.InRange idx) : (idx - 1).toNat + 1 = idx.toNat := by
  rw [UInt32.toNat_sub_of_le _ _ h.1]
  exact Nat.succ_pred_eq_of_pos (UInt32.le_iff_toNat_le.1 h.1)

/-! ### Elements of less than a byte -/

/-- An element of less than a byte, as a field. -/
def narrowField (pa : Bitarray) (i : ℕ) : BitVec 8 :=
  getField (pa.values (i / perByte pa.elsize)).toBitVec (slot pa.elsize i * pa.elsize.toNat) pa.elsize.toNat

theorem bitarrayGetval_narrow (pa : Bitarray) (hlt : pa.elsize < 8) (idx : UInt32) :
    bitarrayGetval pa idx = ⟨(narrowField pa (idx - 1).toNat).setWidth 32⟩ := by
  have hcases := narrow_cases pa.valid hlt
  have hshift := fieldShift_toNat (idx - 1) hcases
  have hfits := slot_fits hcases (idx - 1).toNat
  have hpos : 0 < pa.elsize.toNat := by
    rcases hcases with h | h | h <;> rw [h] <;> decide
  unfold bitarrayGetval
  simp only [if_pos hlt]
  rw [readField_eq hcases (by omega), hshift, byteIdx_toNat _ hcases]
  rfl

theorem storedValues_narrow (hlt : pa.elsize < 8) (i newval : UInt32) (addr : ℕ) :
    (storedValues pa i newval addr).toBitVec =
      if addr = i.toNat / perByte pa.elsize then
        orField (pa.values addr).toBitVec (slot pa.elsize i.toNat * pa.elsize.toNat) pa.elsize.toNat
          newval.toUInt8.toBitVec
      else (pa.values addr).toBitVec := by
  have hcases := narrow_cases pa.valid hlt
  have hshift := fieldShift_toNat i hcases
  have hfits := slot_fits hcases i.toNat
  have hpos : 0 < pa.elsize.toNat := by
    rcases hcases with h | h | h <;> rw [h] <;> decide
  unfold storedValues
  simp only [if_pos hlt]
  rw [byteIdx_toNat _ hcases, putBytes]
  by_cases haddr : addr = i.toNat / perByte pa.elsize
  · subst haddr
    rw [if_pos (by omega), if_pos rfl, Nat.sub_self]
    have hzero : ∀ x : UInt32, x >>> (8 * UInt32.ofNat 0) = x := fun x => by
      apply UInt32.toNat_inj.1
      exact UInt32.toNat_shiftRight x 0
    rw [hzero, writeField_eq hcases (by omega), hshift]
  · rw [if_neg (by omega), if_neg haddr]

/-- A byte is as wide as it is. -/
theorem setWidth_inj {x y : BitVec 8} : (⟨x.setWidth 32⟩ : UInt32) = ⟨y.setWidth 32⟩ ↔ x = y := by
  constructor
  · intro h
    have hnat : (x.setWidth 32).toNat = (y.setWidth 32).toNat := congrArg UInt32.toNat h
    rw [BitVec.toNat_setWidth_of_le (by decide), BitVec.toNat_setWidth_of_le (by decide)] at hnat
    exact BitVec.eq_of_toNat_eq hnat
  · rintro rfl
    rfl

/-- The low part of a number that is stored. -/
theorem lowPart_eq {e : UInt8} (h : e = 1 ∨ e = 2 ∨ e = 4) (v : UInt32) :
    (⟨(v.toUInt8.toBitVec &&& lowBits 8 e.toNat).setWidth 32⟩ : UInt32) =
      UInt32.ofNat (v.toNat % 2 ^ e.toNat) := by
  apply UInt32.toNat_inj.1
  change ((v.toUInt8.toBitVec &&& lowBits 8 e.toNat).setWidth 32).toNat = _
  have he : e.toNat ≤ 8 := by rcases h with rfl | rfl | rfl <;> decide
  rw [BitVec.toNat_setWidth_of_le (by decide), toNat_and_lowBits _ he, UInt32.toNat_ofNat']
  change v.toUInt8.toNat % 2 ^ e.toNat = _
  rw [UInt32.toNat_toUInt8]
  rcases h with rfl | rfl | rfl
  · change v.toNat % 2 ^ 8 % 2 ^ 1 = v.toNat % 2 ^ 1 % 2 ^ 32
    omega
  · change v.toNat % 2 ^ 8 % 2 ^ 2 = v.toNat % 2 ^ 2 % 2 ^ 32
    omega
  · change v.toNat % 2 ^ 8 % 2 ^ 4 = v.toNat % 2 ^ 4 % 2 ^ 32
    omega

/-- What a store leaves at the other elements. -/
theorem narrowField_stored (hlt : pa.elsize < 8) (idx newval : UInt32) (j : ℕ) :
    narrowField (pa.store idx newval) j =
      if j / perByte pa.elsize = (idx - 1).toNat / perByte pa.elsize then
        getField (orField (pa.values ((idx - 1).toNat / perByte pa.elsize)).toBitVec
            (slot pa.elsize (idx - 1).toNat * pa.elsize.toNat) pa.elsize.toNat newval.toUInt8.toBitVec)
          (slot pa.elsize j * pa.elsize.toNat) pa.elsize.toNat
      else narrowField pa j := by
  change getField (storedValues pa (idx - 1) newval (j / perByte pa.elsize)).toBitVec _ _ = _
  rw [storedValues_narrow hlt]
  by_cases hbyte : j / perByte pa.elsize = (idx - 1).toNat / perByte pa.elsize
  · rw [if_pos hbyte, if_pos hbyte, hbyte]
    rfl
  · rw [if_neg hbyte, if_neg hbyte]
    rfl

/-- An index before one of the array. -/
theorem exists_index (h : pa.InRange idx) {j : ℕ} (hj : j < (idx - 1).toNat) :
    ∃ idx', pa.InRange idx' ∧ idx' ≠ idx ∧ (idx' - 1).toNat = j := by
  have hidx := pred_toNat h
  have hcap := UInt32.le_iff_toNat_le.1 h.2
  have hsize := pa.capacity.toNat_lt
  have hjsize : j + 1 < 2 ^ 32 := by omega
  have hj1 : (UInt32.ofNat (j + 1)).toNat = j + 1 := UInt32.toNat_ofNat_of_lt' hjsize
  have hin : pa.InRange (UInt32.ofNat (j + 1)) :=
    ⟨UInt32.le_iff_toNat_le.2 (by rw [hj1]; exact Nat.succ_le_succ (Nat.zero_le j)),
      UInt32.le_iff_toNat_le.2 (by omega)⟩
  have hpred := pred_toNat hin
  refine ⟨UInt32.ofNat (j + 1), hin, fun heq => ?_, by omega⟩
  have hnat := congrArg UInt32.toNat heq
  omega

/-- The other elements of the byte stay if and only if the spilling bits are set: those after it stay
anyway. -/
theorem narrow_others_iff (hlt : pa.elsize < 8) (h : pa.InRange idx) :
    (∀ idx', pa.InRange idx' → idx' ≠ idx →
        narrowField (pa.store idx newval) (idx' - 1).toNat = narrowField pa (idx' - 1).toNat) ↔
      SpillSet (pa.values ((idx - 1).toNat / perByte pa.elsize)).toBitVec
        (slot pa.elsize (idx - 1).toNat * pa.elsize.toNat) pa.elsize.toNat newval.toUInt8.toBitVec := by
  have hcases := narrow_cases pa.valid hlt
  rw [← getField_orField_above_iff _ _ (perByte_mul hcases)]
  constructor
  · intro hkeep n hn hk
    -- the element of this byte with the field, which has a smaller index
    obtain ⟨j, hj, hbyte, hslot⟩ := exists_slot hn hk
    obtain ⟨idx', h', hne, hpred⟩ := exists_index h hj
    have hfield := hkeep idx' h' hne
    rw [hpred, narrowField_stored hlt, if_pos hbyte, hslot] at hfield
    rw [hfield, narrowField, hbyte, hslot]
  · intro hkeep idx' h' hne
    rw [narrowField_stored hlt]
    split_ifs with hbyte
    · have hidx := pred_toNat h
      have hidx' := pred_toNat h'
      have hslot : slot pa.elsize (idx' - 1).toNat ≠ slot pa.elsize (idx - 1).toNat := fun heq =>
        hne (UInt32.toNat_inj.1 (by rw [← hidx, ← hidx', slot_inj hcases hbyte heq]))
      rw [narrowField, hbyte]
      rcases lt_or_gt_of_ne hslot with hlow | hhigh
      · have hmul := Nat.mul_le_mul_right pa.elsize.toNat hlow
        have hfits := slot_fits hcases (idx - 1).toNat
        rw [Nat.succ_mul] at hmul
        exact getField_orField_below _ _ (by omega) hmul
      · exact hkeep _ hhigh (slot_lt hcases _)
    · rfl

/-! ### The bytes of an element -/

theorem putBytes_outside (values : ℕ → UInt8) {start n addr : ℕ} (val : UInt32)
    (h : ¬ (start ≤ addr ∧ addr < start + n)) : putBytes values start n val addr = values addr := if_neg h

/-- The bytes that are read are those of the element. -/
theorem bitarrayGetval_congr {values : ℕ → UInt8}
    (h : ∀ k ∈ elemBytes pa.elsize idx, values k = pa.values k) :
    bitarrayGetval { pa with values := values } idx = bitarrayGetval pa idx := by
  unfold elemBytes at h
  unfold bitarrayGetval getU16 getU32
  simp only at h ⊢
  split_ifs at h ⊢
  · rw [h _ (List.mem_singleton_self _)]
  · rw [h _ (List.mem_singleton_self _)]
  · simp only [List.mem_cons, List.not_mem_nil, or_false, forall_eq_or_imp, forall_eq] at h
    rw [h.1, h.2]
  · simp only [List.mem_cons, List.not_mem_nil, or_false, forall_eq_or_imp, forall_eq] at h
    obtain ⟨h0, h1, h2, h3⟩ := h
    rw [h0, h1, h2, h3]
  · rfl

/-- The bytes that are written are those of the element. -/
theorem storedValues_frame {k : ℕ} (h : k ∉ elemBytes pa.elsize idx) :
    storedValues pa (idx - 1) newval k = pa.values k := by
  unfold elemBytes at h
  unfold storedValues
  simp only at h ⊢
  split_ifs at h ⊢
  · exact putBytes_outside _ _ fun hk => h (List.mem_singleton.2 (by omega))
  · exact putBytes_outside _ _ fun hk => h (List.mem_singleton.2 (by omega))
  · simp only [List.mem_cons, List.not_mem_nil, or_false] at h
    exact putBytes_outside _ _ (by omega)
  · simp only [List.mem_cons, List.not_mem_nil, or_false] at h
    exact putBytes_outside _ _ (by omega)
  · rfl

/-! ### Wider elements -/

theorem putBytes_zero_inside (values : ℕ → UInt8) {start n addr : ℕ} (h : start ≤ addr ∧ addr < start + n) :
    putBytes values start n 0 addr = 0 := by
  have hzero : ((0 : UInt32) >>> (8 * UInt32.ofNat (addr - start))).toUInt8 = 0 := by
    rw [UInt32.zero_shiftRight]
    rfl
  exact (if_pos h).trans hzero

/-- A wide element is stored as zeros. -/
theorem storedValues_wide (hle : ¬ pa.elsize < 8) {k : ℕ} (hk : k ∈ elemBytes pa.elsize idx) :
    storedValues pa (idx - 1) newval k = 0 := by
  unfold elemBytes at hk
  unfold storedValues
  simp only [if_neg hle] at hk ⊢
  split_ifs at hk ⊢
  · rw [List.mem_singleton] at hk
    exact putBytes_zero_inside _ (by omega)
  · simp only [List.mem_cons, List.not_mem_nil, or_false] at hk
    exact putBytes_zero_inside _ (by omega)
  · simp only [List.mem_cons, List.not_mem_nil, or_false] at hk
    exact putBytes_zero_inside _ (by omega)
  · cases hk

/-- Two wide elements share no byte. -/
theorem elemBytes_disjoint {e : UInt8} (hle : ¬ e < 8) {idx' : UInt32} (hne : idx' - 1 ≠ idx - 1) {k : ℕ}
    (hk : k ∈ elemBytes e idx') : k ∉ elemBytes e idx := by
  have hnat : (idx' - 1).toNat ≠ (idx - 1).toNat := fun heq => hne (UInt32.toNat_inj.1 heq)
  unfold elemBytes at hk ⊢
  simp only [if_neg hle] at hk ⊢
  split_ifs at hk ⊢
  · rw [List.mem_singleton] at hk ⊢
    omega
  · simp only [List.mem_cons, List.not_mem_nil, or_false] at hk ⊢
    omega
  · simp only [List.mem_cons, List.not_mem_nil, or_false] at hk ⊢
    omega
  · exact List.not_mem_nil

/-- Zeros are read as 0. -/
theorem bitarrayGetval_zero (hle : ¬ pa.elsize < 8) :
    bitarrayGetval { pa with values := fun _ => 0 } idx = 0 := by
  unfold bitarrayGetval getU16 getU32
  simp only [if_neg hle]
  split_ifs <;> decide

/-- A store in a wide element clears it. -/
theorem wide_self (hle : ¬ pa.elsize < 8) :
    bitarrayGetval (pa.store idx newval) idx = 0 := by
  let zeros : Bitarray := { pa with values := fun _ => 0 }
  have hcongr : bitarrayGetval { zeros with values := storedValues pa (idx - 1) newval } idx =
      bitarrayGetval zeros idx :=
    bitarrayGetval_congr fun _ hk => storedValues_wide hle hk
  exact hcongr.trans (bitarrayGetval_zero hle)

/-- A store in a wide element leaves the others. -/
theorem wide_other (hle : ¬ pa.elsize < 8) {idx' : UInt32} (hne : idx' - 1 ≠ idx - 1) :
    bitarrayGetval (pa.store idx newval) idx' = bitarrayGetval pa idx' :=
  bitarrayGetval_congr fun _ hk => storedValues_frame (elemBytes_disjoint hle hne hk)

/-! ### The law -/

theorem pred_ne (h : pa.InRange idx) {idx' : UInt32} (h' : pa.InRange idx') (hne : idx' ≠ idx) :
    idx' - 1 ≠ idx - 1 := fun heq => by
  have hidx := pred_toNat h
  have hidx' := pred_toNat h'
  rw [heq] at hidx'
  exact hne (UInt32.toNat_inj.1 (hidx'.symm.trans hidx))

/-- A store in a small element reads back. -/
theorem narrow_self (hlt : pa.elsize < 8) :
    bitarrayGetval (pa.store idx newval) idx = UInt32.ofNat (newval.toNat % 2 ^ pa.elsize.toNat) := by
  have hcases := narrow_cases pa.valid hlt
  rw [bitarrayGetval_narrow (pa.store idx newval) hlt, narrowField_stored hlt, if_pos rfl,
    getField_orField _ _ (slot_fits hcases _), lowPart_eq hcases]

theorem storeLaw_narrow_iff (h : pa.InRange idx) (hlt : pa.elsize < 8) :
    StoreLaw pa idx newval ↔ StoreRight pa idx newval := by
  have hcases := narrow_cases pa.valid hlt
  have hread : ∀ idx', bitarrayGetval (pa.store idx newval) idx' = bitarrayGetval pa idx' ↔
      narrowField (pa.store idx newval) (idx' - 1).toNat = narrowField pa (idx' - 1).toNat := fun idx' => by
    rw [bitarrayGetval_narrow pa hlt, bitarrayGetval_narrow (pa.store idx newval) hlt, setWidth_inj]
  rw [storeLaw_iff h, StoreRight, if_pos hlt, byteIdx_toNat _ hcases, fieldShift_toNat _ hcases,
    ← narrow_others_iff hlt h]
  simp only [hread]
  exact and_iff_right (narrow_self hlt)

theorem storeLaw_wide_iff (h : pa.InRange idx) (hle : ¬ pa.elsize < 8) :
    StoreLaw pa idx newval ↔ StoreRight pa idx newval := by
  rw [storeLaw_iff h, StoreRight, if_neg hle, wide_self hle]
  constructor
  · rintro ⟨hself, -⟩
    have hlt : newval.toNat % 2 ^ pa.elsize.toNat < 2 ^ 32 :=
      (Nat.mod_le ..).trans_lt newval.toNat_lt
    have hnat := congrArg UInt32.toNat hself
    rw [UInt32.toNat_ofNat', Nat.mod_eq_of_lt hlt] at hnat
    exact hnat.symm
  · intro hzero
    rw [hzero]
    exact ⟨rfl, fun idx' h' hne => wide_other hle (pred_ne h h' hne)⟩

/-- **The store law** holds of a store if and only if the value is 0 in a wide element, and what spills over a
small one falls on bits that are set. -/
theorem bitarrayStore_iff (h : pa.InRange idx) (newval : UInt32) :
    StoreLaw pa idx newval ↔ StoreRight pa idx newval := by
  by_cases hlt : pa.elsize < 8
  · exact storeLaw_narrow_iff h hlt
  · exact storeLaw_wide_iff h hlt

end

/-- An empty array of four elements. -/
def fourElements (elsize : UInt8) (h : validElsize elsize = true) : Bitarray := ⟨4, elsize, fun _ => 0, h⟩

theorem bitarrayStore_iff_nibble : StoreLaw (fourElements 4 rfl) 2 5 := by
  refine (bitarrayStore_iff ⟨by decide, by decide⟩ 5).2 ?_
  rw [StoreRight, if_pos (by decide)]
  decide

/-- A byte that is stored as 5 is read as 0. -/
theorem not_bitarrayStore :
    ¬ ∀ (pa : Bitarray) (idx newval : UInt32), pa.InRange idx → StoreLaw pa idx newval := by
  intro h
  have hlaw := h (fourElements 8 rfl) 1 5 ⟨by decide, by decide⟩
  obtain ⟨pa', hset, hself, -⟩ := hlaw
  obtain rfl := Except.ok.inj hset
  exact absurd hself (by decide)

end OsdCore
