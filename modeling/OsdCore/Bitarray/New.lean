import OsdCore.Bitarray.Store

/-!
# What `bitarray.new` allocates

* `mem_elemBytes_iff` : the bytes of an element, by its bits.
* `elements_inside_iff` : all elements are inside an area if and only if all bits are.
* `bitarrayNew_iff` : a call ends with an error or with all elements inside, exactly where `NewRight` holds.
-/

namespace OsdCore

/-! ### The elements of an area -/

theorem elemBytes_narrow {e : UInt8} (h : e = 1 ∨ e = 2 ∨ e = 4) (idx : UInt32) :
    elemBytes e idx = [(idx - 1).toNat / perByte e] := by
  have hlt : e < 8 := by rcases h with rfl | rfl | rfl <;> decide
  rw [← byteIdx_toNat _ h]
  exact if_pos hlt

/-- The bytes of an element are those that its bits are in. -/
theorem mem_elemBytes_iff {e : UInt8} (he : validElsize e = true) {idx : UInt32} (h : 1 ≤ idx) (k : ℕ) :
    k ∈ elemBytes e idx ↔ 8 * k < idx.toNat * e.toNat ∧ idx.toNat * e.toNat < 8 * k + 8 + e.toNat := by
  have hidx : idx.toNat = (idx - 1).toNat + 1 := by
    have h1 := UInt32.le_iff_toNat_le.1 h
    change 1 ≤ idx.toNat at h1
    rw [UInt32.toNat_sub_of_le _ _ h]
    change idx.toNat = idx.toNat - 1 + 1
    omega
  rw [hidx]
  rcases (validElsize_iff e).1 he with rfl | rfl | rfl | rfl | rfl | rfl
  · rw [elemBytes_narrow (by decide), List.mem_singleton]
    change k = _ / 8 ↔ 8 * k < (_ + 1) * 1 ∧ (_ + 1) * 1 < 8 * k + 8 + 1
    omega
  · rw [elemBytes_narrow (by decide), List.mem_singleton]
    change k = _ / 4 ↔ 8 * k < (_ + 1) * 2 ∧ (_ + 1) * 2 < 8 * k + 8 + 2
    omega
  · rw [elemBytes_narrow (by decide), List.mem_singleton]
    change k = _ / 2 ↔ 8 * k < (_ + 1) * 4 ∧ (_ + 1) * 4 < 8 * k + 8 + 4
    omega
  · change k ∈ [(idx - 1).toNat] ↔ 8 * k < (_ + 1) * 8 ∧ (_ + 1) * 8 < 8 * k + 8 + 8
    rw [List.mem_singleton]
    omega
  · change k ∈ [2 * (idx - 1).toNat, 2 * (idx - 1).toNat + 1] ↔
      8 * k < (_ + 1) * 16 ∧ (_ + 1) * 16 < 8 * k + 8 + 16
    simp only [List.mem_cons, List.not_mem_nil, or_false]
    omega
  · change k ∈ [4 * (idx - 1).toNat, 4 * (idx - 1).toNat + 1, 4 * (idx - 1).toNat + 2,
      4 * (idx - 1).toNat + 3] ↔ 8 * k < (_ + 1) * 32 ∧ (_ + 1) * 32 < 8 * k + 8 + 32
    simp only [List.mem_cons, List.not_mem_nil, or_false]
    omega

/-- **All elements are inside** an area if and only if the area has as many bits as they have. -/
theorem elements_inside_iff (pa : Bitarray) (total : ℕ) :
    (∀ idx, pa.InRange idx → ∀ k ∈ elemBytes pa.elsize idx, k < total) ↔
      pa.capacity.toNat * pa.elsize.toNat ≤ 8 * total := by
  constructor
  · intro hin
    rcases Nat.eq_zero_or_pos (pa.capacity.toNat * pa.elsize.toNat) with hzero | hpos
    · omega
    · have hcap : 1 ≤ pa.capacity := UInt32.le_iff_toNat_le.2 (Nat.pos_of_mul_pos_right hpos)
      have hsize : 0 < pa.elsize.toNat := Nat.pos_of_mul_pos_left hpos
      have hlast := hin pa.capacity ⟨hcap, UInt32.le_refl _⟩
      simp only [mem_elemBytes_iff pa.valid hcap] at hlast
      generalize pa.capacity.toNat * pa.elsize.toNat = bits at hpos hlast ⊢
      -- the last byte of the last element
      have hbyte := hlast ((bits - 1) / 8) ⟨by omega, by omega⟩
      omega
  · intro hbits idx hidx k hk
    have hlast := ((mem_elemBytes_iff pa.valid hidx.1 k).1 hk).1
    have hmul := Nat.mul_le_mul_right pa.elsize.toNat (UInt32.le_iff_toNat_le.1 hidx.2)
    omega

/-! ### The allocation -/

theorem roundSize_toNat (s : UInt32) : (roundSize s).toNat = (s.toNat + 7) / 8 := by
  have hlt := s.toNat_lt
  have hrest : (s &&& 7).toNat = s.toNat % 8 := by
    rw [UInt32.toNat_and]
    exact Nat.and_two_pow_sub_one_eq_mod s.toNat 3
  have hbytes : (s >>> 3).toNat = s.toNat / 8 := Nat.shiftRight_eq_div_pow s.toNat 3
  have hne : s &&& 7 ≠ 0 ↔ s.toNat % 8 ≠ 0 := by
    rw [← hrest]
    exact not_congr UInt32.toNat_inj.symm
  rw [roundSize, UInt32.toNat_add, hbytes]
  split_ifs with h
  · have := hne.1 h
    change (s.toNat / 8 + 1) % 2 ^ 32 = _
    omega
  · have := mt hne.2 h
    change (s.toNat / 8 + 0) % 2 ^ 32 = _
    omega

/-- What is allocated is safe where the area is large enough for what is written and for the elements. -/
theorem allocate_safe_iff (userdata : Option (ℕ → UInt8)) (capacity : UInt32) (elsize : UInt8)
    (count : UInt32 → UInt32) (bytes : ℕ → UInt8) {total : UInt32}
    (htotal : roundSize (capacity * elsize.toUInt32) = total) :
    NewSafe (allocate userdata capacity elsize count bytes) ↔
      validElsize elsize = false ∨ userdata = none ∨ total.toNat = 0 ∨
        (count total).toNat ≤ total.toNat ∧ capacity.toNat * elsize.toNat ≤ 8 * total.toNat := by
  rw [allocate]
  split_ifs with hvalid
  · simp only [htotal, hvalid, Bool.true_eq_false, false_or]
    have hzero : total ≤ 0 ↔ total.toNat = 0 := by
      rw [UInt32.le_iff_toNat_le]
      exact Nat.le_zero
    rw [← hzero]
    by_cases h0 : total ≤ 0
    · rw [if_pos h0]
      exact iff_of_true trivial (Or.inr (Or.inl h0))
    · rw [if_neg h0]
      cases userdata with
      | none => exact iff_of_true trivial (Or.inl rfl)
      | some old =>
        simp only [reduceCtorEq, h0, false_or]
        rw [← UInt32.le_iff_toNat_le]
        split_ifs with hover
        · exact iff_of_false id fun h => absurd h.1 (UInt32.not_le.2 hover)
        · exact (elements_inside_iff _ _).trans (and_iff_right (UInt32.not_lt.1 hover)).symm
  · exact iff_of_true trivial (Or.inl (Bool.eq_false_iff.2 hvalid))

/-! ### The call -/

/-- A number, as the capacity. -/
theorem number_safe_iff (userdata : Option (ℕ → UInt8)) (capacity : UInt32) (elsize : UInt8)
    (bytes : ℕ → UInt8) :
    NewSafe (allocate userdata capacity elsize id bytes) ↔
      validElsize elsize = false ∨ userdata = none ∨ capacity.toNat * elsize.toNat < 2 ^ 32 ∨
        2 ^ 32 ∣ capacity.toNat * elsize.toNat := by
  have htotal := roundSize_toNat (capacity * elsize.toUInt32)
  rw [UInt32.toNat_mul, UInt8.toNat_toUInt32] at htotal
  rw [allocate_safe_iff userdata capacity elsize id bytes rfl, id_eq, htotal]
  generalize capacity.toNat * elsize.toNat = bits
  refine or_congr_right (or_congr_right ?_)
  omega

/-- Eight times a length, in 32 bits. -/
theorem shift_toNat (temp : UInt32) : (temp <<< 3).toNat = 8 * temp.toNat % 2 ^ 32 := by
  rw [UInt32.toNat_shiftLeft, Nat.shiftLeft_eq, Nat.mul_comm]
  rfl

/-- An element size divides 32 bits. -/
theorem dvd_shift_iff {elsize : UInt8} (h : validElsize elsize = true) (temp : UInt32) :
    elsize.toNat ∣ (temp <<< 3).toNat ↔ elsize.toNat ∣ 8 * temp.toNat := by
  have hdvd : elsize.toNat ∣ 2 ^ 32 := by
    rcases (validElsize_iff elsize).1 h with rfl | rfl | rfl | rfl | rfl | rfl <;> decide
  rw [shift_toNat]
  exact Nat.dvd_mod_iff hdvd

theorem mod_elsize_iff (temp : UInt32) (elsize : UInt8) :
    temp <<< 3 % elsize.toUInt32 = 0 ↔ elsize.toNat ∣ (temp <<< 3).toNat := by
  rw [← UInt32.toNat_inj, UInt32.toNat_mod, UInt8.toNat_toUInt32]
  exact Nat.dvd_iff_mod_eq_zero.symm

/-- The bits of the capacity that is computed from a length. -/
theorem capacity_bits {temp : UInt32} {elsize : UInt8} (h : elsize.toNat ∣ (temp <<< 3).toNat) :
    (temp <<< 3 / elsize.toUInt32).toNat * elsize.toNat = 8 * temp.toNat % 2 ^ 32 ∧
      (roundSize (temp <<< 3 / elsize.toUInt32 * elsize.toUInt32)).toNat =
        (8 * temp.toNat % 2 ^ 32 + 7) / 8 := by
  have hmul : (temp <<< 3 / elsize.toUInt32).toNat * elsize.toNat = 8 * temp.toNat % 2 ^ 32 := by
    rw [UInt32.toNat_div, UInt8.toNat_toUInt32, Nat.div_mul_cancel h, shift_toNat]
  refine ⟨hmul, ?_⟩
  rw [roundSize_toNat, UInt32.toNat_mul, UInt8.toNat_toUInt32, hmul, Nat.mod_mod]

/-- A length, from which the capacity is computed. -/
theorem length_safe_iff (userdata : Option (ℕ → UInt8)) (temp : UInt32) (elsize : UInt8) (bytes : ℕ → UInt8) :
    NewSafe ((lengthCapacity temp elsize).bind fun capacity =>
        allocate userdata capacity elsize (fun _ => temp) bytes) ↔
      elsize ≠ 0 ∧ (validElsize elsize = false ∨ userdata = none ∨ temp.toNat < 2 ^ 29 ∨
        2 ^ 29 ∣ temp.toNat ∨ ¬ elsize.toNat ∣ 8 * temp.toNat) := by
  rw [lengthCapacity]
  by_cases hsize : elsize = 0
  · rw [if_pos hsize]
    exact iff_of_false id fun h => h.1 hsize
  rw [if_neg hsize, and_iff_right hsize]
  by_cases hmul : temp <<< 3 % elsize.toUInt32 = 0
  · rw [if_neg (not_not_intro hmul)]
    have hdvd := (mod_elsize_iff temp elsize).1 hmul
    obtain ⟨hbits, htotal⟩ := capacity_bits hdvd
    change NewSafe (allocate userdata (temp <<< 3 / elsize.toUInt32) elsize (fun _ => temp) bytes) ↔ _
    rw [allocate_safe_iff _ _ _ _ _ rfl, hbits, htotal]
    cases hvalid : validElsize elsize with
    | false => exact iff_of_true (Or.inl rfl) (Or.inl rfl)
    | true =>
      have hdvd := (dvd_shift_iff hvalid temp).1 hdvd
      have hlt := temp.toNat_lt
      refine or_congr_right (or_congr_right ?_)
      rw [or_iff_left (not_not_intro hdvd)]
      omega
  · rw [if_pos hmul]
    refine iff_of_true trivial ?_
    cases hvalid : validElsize elsize with
    | false => exact Or.inl rfl
    | true =>
      have hndvd := (not_congr ((mod_elsize_iff temp elsize).trans (dvd_shift_iff hvalid temp))).1 hmul
      exact Or.inr (Or.inr (Or.inr (Or.inr hndvd)))

/-- **A call ends** with an error, or with an array whose elements are all within the values area, if and only
if `NewRight` holds of its arguments. -/
theorem bitarrayNew_iff (userdata : Option (ℕ → UInt8)) (a1 a2 a3 : LuaArg) :
    NewSafe (bitarrayNew userdata a1 a2 a3) ↔ NewRight userdata (elsizeArg a2) a1 := by
  cases a1 with
  | number n => exact number_safe_iff userdata ⟨n⟩ (elsizeArg a2) _
  | string temp bytes => exact length_safe_iff userdata temp (elsizeArg a2) bytes
  | table temp elems => exact length_safe_iff userdata temp (elsizeArg a2) _
  | other => exact iff_of_true trivial trivial

/-- A string, and elements of 0 bits. -/
theorem not_bitarrayNew_safe :
    ¬ ∀ (userdata : Option (ℕ → UInt8)) (a1 a2 a3 : LuaArg), NewSafe (bitarrayNew userdata a1 a2 a3) := by
  intro h
  exact h (some fun _ => 0) (.string 3 fun _ => 0x61) (.number 0) .other

end OsdCore
