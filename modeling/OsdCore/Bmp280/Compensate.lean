import Mathlib.Tactic.Linarith
import Mathlib.Tactic.Ring
import Mathlib.Tactic.NormNum
import OsdCore.Bmp280.Basic

/-!
# Where the sensor's readings are right

The driver keeps all calibration words as unsigned ones, and hands the temperature over as an `int`.

* `truncate_div` : the integer part of a quotient by an integer.
* `handedOver_iff` : the temperature that is handed over is the fine temperature if and only if this is a
  multiple of 5120.
* `temperature_right_iff` : every temperature that is reported is right if and only if the two signed words
  are not negative.
* `pressure_right` : which pressures are right.
-/

namespace OsdCore

/-! ### Integer parts -/

theorem truncate_of_nonneg {q : ℚ} (h : 0 ≤ q) : truncate q = ⌊q⌋ := if_pos h

theorem truncate_of_neg {q : ℚ} (h : q < 0) : truncate q = -⌊-q⌋ := by
  rw [truncate, if_neg (not_le.2 h), Int.floor_neg, neg_neg]

@[simp] theorem truncate_intCast (n : ℤ) : truncate n = n := by
  rw [truncate, Int.floor_intCast, Int.ceil_intCast, ite_self]

/-- An integer part is less than 1 away. -/
theorem abs_sub_truncate (q : ℚ) : |q - truncate q| < 1 := by
  rw [abs_lt]
  rcases le_or_gt 0 q with h | h
  · rw [truncate_of_nonneg h]
    have hle := Int.floor_le q
    have hlt := Int.lt_floor_add_one q
    constructor <;> linarith
  · rw [truncate_of_neg h]
    push_cast
    have hle := Int.floor_le (-q)
    have hlt := Int.lt_floor_add_one (-q)
    constructor <;> linarith

/-- Numbers with the same integer part are less than 2 apart. -/
theorem abs_sub_of_truncate_eq {x y : ℚ} (h : truncate x = truncate y) : |x - y| < 2 := by
  have hx := abs_lt.1 (abs_sub_truncate x)
  have hy := abs_lt.1 (abs_sub_truncate y)
  rw [h] at hx
  rw [abs_lt]
  constructor <;> linarith [hx.1, hx.2, hy.1, hy.2]

theorem truncate_neg (q : ℚ) : truncate (-q) = -truncate q := by
  rcases lt_trichotomy q 0 with h | rfl | h
  · rw [truncate_of_neg h, truncate_of_nonneg (neg_nonneg.2 h.le), neg_neg]
  · rfl
  · rw [truncate_of_nonneg h.le, truncate_of_neg (neg_neg_iff_pos.2 h), neg_neg]

/-- **The integer part of a quotient** is the quotient of the integer part. -/
theorem truncate_div (q : ℚ) (n : ℕ) : truncate (q / n) = (truncate q).tdiv n := by
  have hpos : ∀ q : ℚ, 0 ≤ q → truncate (q / n) = (truncate q).tdiv n := by
    intro q h
    rw [truncate_of_nonneg h, truncate_of_nonneg (div_nonneg h (Nat.cast_nonneg n)), Int.floor_div_natCast,
      Int.tdiv_eq_ediv_of_nonneg (Int.floor_nonneg.2 h)]
  rcases le_total 0 q with h | h
  · exact hpos q h
  · have hneg := hpos (-q) (neg_nonneg.2 h)
    rwa [neg_div, truncate_neg, truncate_neg, Int.neg_tdiv, neg_inj] at hneg

/-- What is not too large fits in an `int`. -/
theorem doubleToInt_of_abs {q : ℚ} (h : |q| < 2 ^ 30) : doubleToInt q = some (truncate q) := by
  have hq := abs_lt.1 h
  have ht := abs_lt.1 (abs_sub_truncate q)
  have hlow : (-2 ^ 31 : ℚ) ≤ truncate q := by linarith [hq.1, ht.2]
  have hhigh : (truncate q : ℚ) < 2 ^ 31 := by linarith [hq.2, ht.1]
  rw [doubleToInt, if_pos ⟨by exact_mod_cast hlow, by exact_mod_cast hhigh⟩]

/-- **The temperature that is handed over**, times 5120, is the fine temperature if and only if this is a
multiple of 5120. -/
theorem handedOver_iff (fine : ℚ) :
    truncate (fine / 5120) * 5120 = truncate fine ↔ (5120 : ℤ) ∣ truncate fine := by
  have hdiv := truncate_div fine 5120
  push_cast at hdiv
  rw [hdiv]
  constructor
  · exact fun h => ⟨_, (Int.mul_comm .. ▸ h).symm⟩
  · exact fun h => Int.tdiv_mul_cancel h

/-! ### Words and readings -/

/-- A word that is signed. -/
theorem toNat_eq_toInt_add (w : UInt16) :
    (w.toNat : ℤ) = w.toBitVec.toInt + 2 ^ 16 * if w.toBitVec.toInt < 0 then 1 else 0 := by
  have hw := w.toNat_lt
  have hint : w.toBitVec.toInt = if 2 * w.toNat < 2 ^ 16 then (w.toNat : ℤ) else w.toNat - 2 ^ 16 := by
    rw [BitVec.toInt_eq_toNat_cond]
    rfl
  split_ifs at hint ⊢ <;> omega

theorem toNat_eq_toInt {w : UInt16} (h : 0 ≤ w.toBitVec.toInt) : (w.toNat : ℤ) = w.toBitVec.toInt := by
  rw [toNat_eq_toInt_add, if_neg (by omega)]
  omega

/-- The bytes of a reading, one above the other. -/
theorem raw_eq (regs : Registers) (addr : UInt8) :
    regs.raw addr =
      (regs addr).toNat * 2 ^ 12 + (regs (addr + 1)).toNat * 2 ^ 4 + (regs (addr + 2)).toNat / 2 ^ 4 := by
  have h1 := (regs (addr + 1)).toNat_lt
  have h2 := (regs (addr + 2)).toNat_lt
  have hlow : (regs (addr + 2)).toNat >>> 4 < 2 ^ 4 := by
    rw [Nat.shiftRight_eq_div_pow]
    omega
  have hmid : (regs (addr + 1)).toNat <<< 4 ||| (regs (addr + 2)).toNat >>> 4 =
      (regs (addr + 1)).toNat * 2 ^ 4 + (regs (addr + 2)).toNat / 2 ^ 4 := by
    rw [← Nat.shiftLeft_add_eq_or_of_lt hlow, Nat.shiftLeft_eq, Nat.shiftRight_eq_div_pow]
  rw [Registers.raw, Nat.or_assoc, hmid, ← Nat.shiftLeft_add_eq_or_of_lt (by omega), Nat.shiftLeft_eq]
  omega

theorem raw_lt (regs : Registers) (addr : UInt8) : regs.raw addr < 2 ^ 20 := by
  have h0 := (regs addr).toNat_lt
  have h1 := (regs (addr + 1)).toNat_lt
  have h2 := (regs (addr + 2)).toNat_lt
  rw [raw_eq]
  omega

/-- Every number of 20 bits is a temperature reading. -/
theorem exists_raw {n : ℕ} (h : n < 2 ^ 20) : ∃ regs : Registers, regs.raw 0xfa = n := by
  refine ⟨fun addr => if addr = 0xfa then UInt8.ofNat (n / 2 ^ 12)
    else if addr = 0xfb then UInt8.ofNat (n / 2 ^ 4) else UInt8.ofNat (n * 2 ^ 4), ?_⟩
  rw [raw_eq]
  change (UInt8.ofNat (n / 2 ^ 12)).toNat * 2 ^ 12 + (UInt8.ofNat (n / 2 ^ 4)).toNat * 2 ^ 4 +
    (UInt8.ofNat (n * 2 ^ 4)).toNat / 2 ^ 4 = n
  rw [UInt8.toNat_ofNat', UInt8.toNat_ofNat', UInt8.toNat_ofNat']
  omega

/-! ### The fine temperature -/

/-- How far a reading is from the zero of the sensor. -/
def excess (t1 adcT : ℚ) : ℚ := adcT / 16384 - t1 / 1024

/-- The fine temperature, by the three words. -/
def fineOf (t1 t2 t3 adcT : ℚ) : ℚ := excess t1 adcT * t2 + (excess t1 adcT) ^ 2 / 64 * t3

section

variable {calRegs regs : Registers}

theorem fineReal_eq (c : Calibration) (adcT : ℕ) :
    c.fineReal adcT = fineOf c.digT1 c.digT2 c.digT3 adcT := by
  unfold Calibration.fineReal fineOf excess
  ring

theorem bmp280Temperature_eq (calRegs regs : Registers) :
    bmp280Temperature (.init calRegs) regs =
      fineOf (calRegs.word 0x88).toNat (calRegs.word 0x8a).toNat (calRegs.word 0x8c).toNat (regs.raw 0xfa) /
        5120 := by
  have hwords : bmp280Temperature (.init calRegs) regs =
      (((regs.raw 0xfa : ℚ) / 16384 - (calRegs.word 0x88).toNat / 1024) * (calRegs.word 0x8a).toNat +
        (((regs.raw 0xfa : ℚ) / 131072 - (calRegs.word 0x88).toNat / 8192) *
          ((regs.raw 0xfa : ℚ) / 131072 - (calRegs.word 0x88).toNat / 8192)) *
          (calRegs.word 0x8c).toNat) / 5120 := rfl
  rw [hwords]
  unfold fineOf excess
  ring

/-- A reading is less than 64 away from the zero. -/
theorem abs_excess_lt (w : UInt16) (regs : Registers) : |excess w.toNat (regs.raw 0xfa)| < 64 := by
  have hw : (w.toNat : ℚ) < 2 ^ 16 := by exact_mod_cast w.toNat_lt
  have hw₀ : (0 : ℚ) ≤ w.toNat := Nat.cast_nonneg _
  have hraw : (regs.raw 0xfa : ℚ) < 2 ^ 20 := by exact_mod_cast raw_lt regs 0xfa
  have hraw₀ : (0 : ℚ) ≤ regs.raw 0xfa := Nat.cast_nonneg _
  rw [abs_lt, excess]
  constructor <;> linarith

/-- **The temperature fits** in an `int`. -/
theorem temperature_fits (calRegs regs : Registers) :
    doubleToInt (bmp280Temperature (.init calRegs) regs) =
      some (truncate (bmp280Temperature (.init calRegs) regs)) := by
  apply doubleToInt_of_abs
  obtain ⟨ha, ha'⟩ := abs_lt.1 (abs_excess_lt (calRegs.word 0x88) regs)
  have h2 : ((calRegs.word 0x8a).toNat : ℚ) < 2 ^ 16 := by exact_mod_cast (calRegs.word 0x8a).toNat_lt
  have h2₀ : (0 : ℚ) ≤ (calRegs.word 0x8a).toNat := Nat.cast_nonneg _
  have h3 : ((calRegs.word 0x8c).toNat : ℚ) < 2 ^ 16 := by exact_mod_cast (calRegs.word 0x8c).toNat_lt
  have h3₀ : (0 : ℚ) ≤ (calRegs.word 0x8c).toNat := Nat.cast_nonneg _
  rw [bmp280Temperature_eq, fineOf, abs_div]
  generalize excess _ _ = a at ha ha' ⊢
  generalize ((calRegs.word 0x8a).toNat : ℚ) = t2 at h2 h2₀ ⊢
  generalize ((calRegs.word 0x8c).toNat : ℚ) = t3 at h3 h3₀ ⊢
  have habs : |a| ≤ 64 := abs_le.2 ⟨ha.le, ha'.le⟩
  have hlinear : |a * t2| ≤ 64 * 2 ^ 16 := by
    rw [abs_mul, abs_of_nonneg h2₀]
    exact mul_le_mul habs h2.le h2₀ (by norm_num)
  have hsquare : |a ^ 2 / 64 * t3| ≤ 64 * 2 ^ 16 := by
    rw [abs_mul, abs_of_nonneg h3₀, abs_div, abs_pow, abs_of_pos (by norm_num : (0 : ℚ) < 64)]
    have hpow : |a| ^ 2 / 64 ≤ 64 := by
      have := pow_le_pow_left₀ (abs_nonneg a) habs 2
      linarith
    exact mul_le_mul hpow h3.le h3₀ (by norm_num)
  have hsum := abs_add_le (a * t2) (a ^ 2 / 64 * t3)
  rw [abs_of_pos (by norm_num : (0 : ℚ) < 5120), div_lt_iff₀ (by norm_num)]
  linarith

/-- The signed words are taken as unsigned ones. -/
theorem fineOf_words (calRegs : Registers) (adcT : ℚ) :
    fineOf (calRegs.word 0x88).toNat (calRegs.word 0x8a).toNat (calRegs.word 0x8c).toNat adcT =
      fineOf (calRegs.word 0x88).toNat (calRegs.word 0x8a).toBitVec.toInt (calRegs.word 0x8c).toBitVec.toInt
          adcT +
        2 ^ 16 * (excess (calRegs.word 0x88).toNat adcT *
            (if (calRegs.word 0x8a).toBitVec.toInt < 0 then 1 else 0) +
          excess (calRegs.word 0x88).toNat adcT ^ 2 / 64 *
            (if (calRegs.word 0x8c).toBitVec.toInt < 0 then 1 else 0)) := by
  have h2 := congrArg (Int.cast : ℤ → ℚ) (toNat_eq_toInt_add (calRegs.word 0x8a))
  have h3 := congrArg (Int.cast : ℤ → ℚ) (toNat_eq_toInt_add (calRegs.word 0x8c))
  push_cast at h2 h3
  unfold fineOf
  rw [h2, h3]
  ring

/-! ### The temperature -/

/-- With no negative word, the temperature is that of the datasheet. -/
theorem bmp280Temperature_of_unsigned (h : (Calibration.ofRegisters calRegs).TUnsigned) (regs : Registers) :
    bmp280Temperature (.init calRegs) regs =
      (Calibration.ofRegisters calRegs).temperature (regs.raw 0xfa) := by
  have h2 : ¬ (calRegs.word 0x8a).toBitVec.toInt < 0 := not_lt.2 h.1
  have h3 : ¬ (calRegs.word 0x8c).toBitVec.toInt < 0 := not_lt.2 h.2
  rw [bmp280Temperature_eq, fineOf_words, if_neg h2, if_neg h3, mul_zero, mul_zero, add_zero, mul_zero,
    add_zero, Calibration.temperature, fineReal_eq]
  rfl

/-- A reading that is half the range away from the zero, on the side that there is. -/
theorem exists_far (w : UInt16) : ∃ regs : Registers,
    excess w.toNat (regs.raw 0xfa) = 32 ∨ excess w.toNat (regs.raw 0xfa) = -32 := by
  have hw := w.toNat_lt
  by_cases hside : w.toNat < 2 ^ 15
  · obtain ⟨regs, hraw⟩ := exists_raw (show 16 * w.toNat + 2 ^ 19 < 2 ^ 20 by omega)
    refine ⟨regs, Or.inl ?_⟩
    rw [hraw, excess]
    push_cast
    ring
  · obtain ⟨n, hn⟩ := Nat.exists_eq_add_of_le (not_lt.1 hside)
    obtain ⟨regs, hraw⟩ := exists_raw (show 16 * n < 2 ^ 20 by omega)
    refine ⟨regs, Or.inr ?_⟩
    rw [hraw, hn, excess]
    push_cast
    ring

/-- **Every temperature is right** if and only if the two signed words are not negative. -/
theorem temperature_right_iff (calRegs : Registers) :
    (∀ regs, luaBmp280Temperature (.init calRegs) regs =
        some (truncate ((Calibration.ofRegisters calRegs).temperature (regs.raw 0xfa)))) ↔
      (Calibration.ofRegisters calRegs).TUnsigned := by
  constructor
  · intro h
    obtain ⟨regs, hfar⟩ := exists_far (calRegs.word 0x88)
    -- the two temperatures of this reading are close to each other
    have hclose := h regs
    rw [luaBmp280Temperature, temperature_fits, Option.some.injEq] at hclose
    have hlt := abs_lt.1 (abs_sub_of_truncate_eq hclose)
    have hds : (Calibration.ofRegisters calRegs).temperature (regs.raw 0xfa) =
        fineOf (calRegs.word 0x88).toNat (calRegs.word 0x8a).toBitVec.toInt
          (calRegs.word 0x8c).toBitVec.toInt (regs.raw 0xfa) / 5120 := by
      rw [Calibration.temperature, fineReal_eq]
      rfl
    rw [bmp280Temperature_eq, fineOf_words, hds, ← sub_div, add_sub_cancel_left] at hlt
    -- while a negative word moves one of them by 200 degrees or more
    by_contra hneg
    have hword : (calRegs.word 0x8a).toBitVec.toInt < 0 ∨ (calRegs.word 0x8c).toBitVec.toInt < 0 := by
      by_contra hall
      push Not at hall
      exact hneg hall
    split_ifs at hlt with h2 h3 h3
    · rcases hfar with hfar | hfar <;> rw [hfar] at hlt <;> norm_num at hlt
    · rcases hfar with hfar | hfar <;> rw [hfar] at hlt <;> norm_num at hlt
    · rcases hfar with hfar | hfar <;> rw [hfar] at hlt <;> norm_num at hlt
    · exact hword.elim h2 h3
  · intro h regs
    rw [luaBmp280Temperature, temperature_fits, bmp280Temperature_of_unsigned h]

/-! ### The pressure -/

/-- Without `P1` there is no pressure. -/
theorem bmp280Pressure_of_zero (h : (Calibration.ofRegisters calRegs).digP1 = 0) (regs : Registers) (t : ℚ) :
    bmp280Pressure (.init calRegs) regs t = 0 := by
  have hword : double ((Bmp280.init calRegs).pdata 0) = 0 := by
    have h1 : ((calRegs.word 0x8e).toNat : ℤ) = 0 := h
    change ((calRegs.word 0x8e).toNat : ℚ) = 0
    exact_mod_cast h1
  simp only [bmp280Pressure, hword, mul_zero, if_true]

theorem pressure_of_zero {c : Calibration} (h : c.digP1 = 0) (adcT adcP : ℕ) : c.pressure adcT adcP = 0 := by
  simp only [Calibration.pressure, h, Int.cast_zero, mul_zero, if_true]

theorem double_eq {w : UInt16} (h : 0 ≤ w.toBitVec.toInt) : double w = w.toBitVec.toInt := by
  rw [← toNat_eq_toInt h]
  rfl

/-- With no negative word, and the fine temperature handed over, the pressure is that of the datasheet. -/
theorem bmp280Pressure_of_unsigned (h : (Calibration.ofRegisters calRegs).PUnsigned) (regs : Registers)
    {t : ℚ} {adcT : ℕ} (ht : t * 5120 = (Calibration.ofRegisters calRegs).tFine adcT) :
    bmp280Pressure (.init calRegs) regs t =
      (Calibration.ofRegisters calRegs).pressure adcT (regs.raw 0xf7) := by
  obtain ⟨h2, h3, h4, h5, h6, h7, h8, h9⟩ := h
  have hp1 : double ((Bmp280.init calRegs).pdata 0) = (Calibration.ofRegisters calRegs).digP1 := by
    change ((calRegs.word 0x8e).toNat : ℚ) = ((calRegs.word 0x8e).toNat : ℤ)
    norm_cast
  have hp2 : double ((Bmp280.init calRegs).pdata 1) = (Calibration.ofRegisters calRegs).digP2 := double_eq h2
  have hp3 : double ((Bmp280.init calRegs).pdata 2) = (Calibration.ofRegisters calRegs).digP3 := double_eq h3
  have hp4 : double ((Bmp280.init calRegs).pdata 3) = (Calibration.ofRegisters calRegs).digP4 := double_eq h4
  have hp5 : double ((Bmp280.init calRegs).pdata 4) = (Calibration.ofRegisters calRegs).digP5 := double_eq h5
  have hp6 : double ((Bmp280.init calRegs).pdata 5) = (Calibration.ofRegisters calRegs).digP6 := double_eq h6
  have hp7 : double ((Bmp280.init calRegs).pdata 6) = (Calibration.ofRegisters calRegs).digP7 := double_eq h7
  have hp8 : double ((Bmp280.init calRegs).pdata 7) = (Calibration.ofRegisters calRegs).digP8 := double_eq h8
  have hp9 : double ((Bmp280.init calRegs).pdata 8) = (Calibration.ofRegisters calRegs).digP9 := double_eq h9
  simp only [bmp280Pressure, Calibration.pressure, ht, hp1, hp2, hp3, hp4, hp5, hp6, hp7, hp8, hp9]

/-- Where a pressure is right: a condition on the calibration and the two readings. -/
theorem pressure_right (h : (Calibration.ofRegisters calRegs).PressureRight (regs.raw 0xfa) (regs.raw 0xf7)) :
    luaBmp280Pressure (.init calRegs) regs =
      some (truncate ((Calibration.ofRegisters calRegs).pressure (regs.raw 0xfa) (regs.raw 0xf7))) := by
  rw [luaBmp280Pressure, temperature_fits, Option.bind_some]
  rcases h with hzero | ⟨ht, hp, hdvd, hlow, hhigh⟩
  · rw [bmp280Pressure_of_zero hzero, pressure_of_zero hzero]
    rfl
  · have hfine : (truncate ((Calibration.ofRegisters calRegs).temperature (regs.raw 0xfa)) : ℚ) * 5120 =
        (Calibration.ofRegisters calRegs).tFine (regs.raw 0xfa) := by
      exact_mod_cast (handedOver_iff _).2 hdvd
    rw [bmp280Temperature_of_unsigned ht, bmp280Pressure_of_unsigned hp regs hfine, doubleToInt,
      if_pos ⟨hlow, hhigh⟩]

/-- **The two readings**: every temperature is right if and only if the two signed words of the temperature
are not negative, and a pressure is right if no signed word is negative and the fine temperature is handed
over as it is. -/
theorem bmp280_iff (calRegs : Registers) :
    ((∀ regs, luaBmp280Temperature (.init calRegs) regs =
        some (truncate ((Calibration.ofRegisters calRegs).temperature (regs.raw 0xfa)))) ↔
      (Calibration.ofRegisters calRegs).TUnsigned) ∧
    ∀ regs : Registers,
      (Calibration.ofRegisters calRegs).PressureRight (regs.raw 0xfa) (regs.raw 0xf7) →
        luaBmp280Pressure (.init calRegs) regs =
          some (truncate ((Calibration.ofRegisters calRegs).pressure (regs.raw 0xfa) (regs.raw 0xf7))) :=
  ⟨temperature_right_iff calRegs, fun _ => pressure_right⟩

end

/-- A sensor: its calibration words, from `T1` on, and its two readings. -/
def sensorRegs (words : List UInt16) (adcT adcP : ℕ) : Registers := fun addr =>
  if addr.toNat < 0xf7 then
    UInt8.ofNat ((words.getD ((addr.toNat - 0x88) / 2) 0).toNat / 256 ^ (addr.toNat % 2))
  else
    [UInt8.ofNat (adcP / 2 ^ 12), UInt8.ofNat (adcP / 2 ^ 4), UInt8.ofNat (adcP * 2 ^ 4),
      UInt8.ofNat (adcT / 2 ^ 12), UInt8.ofNat (adcT / 2 ^ 4), UInt8.ofNat (adcT * 2 ^ 4)].getD
        (addr.toNat - 0xf7) 0

/-- The sensor of the datasheet's example. -/
def exampleRegs : Registers :=
  sensorRegs [27504, 26435, 0xfc18, 36477, 0xd643, 3024, 2855, 140, 0xfff9, 15500, 0xc6f8, 6000] 519888 415148

/-- A sensor without negative words, at the zero of the temperature. -/
def zeroRegs : Registers :=
  sensorRegs [27504, 26435, 1000, 36477, 10685, 3024, 2855, 140, 7, 15500, 14600, 6000] 440064 415148

theorem bmp280_iff_zeroRegs : luaBmp280Pressure (.init zeroRegs) zeroRegs = some 110727 := by
  have hright : (Calibration.ofRegisters zeroRegs).PressureRight (zeroRegs.raw 0xfa) (zeroRegs.raw 0xf7) := by
    unfold Calibration.PressureRight Calibration.TUnsigned Calibration.PUnsigned
    decide +kernel
  rw [(bmp280_iff zeroRegs).2 zeroRegs hright]
  decide +kernel

/-- The example of the datasheet: 25 degrees and 100653 Pa, of which neither is reported. -/
theorem not_bmp280_right :
    ¬ ∀ calRegs regs : Registers,
      luaBmp280Temperature (.init calRegs) regs =
          some (truncate ((Calibration.ofRegisters calRegs).temperature (regs.raw 0xfa))) ∧
        luaBmp280Pressure (.init calRegs) regs =
          some (truncate ((Calibration.ofRegisters calRegs).pressure (regs.raw 0xfa) (regs.raw 0xf7))) := by
  intro h
  have hmiss : ¬ luaBmp280Temperature (.init exampleRegs) exampleRegs =
      some (truncate ((Calibration.ofRegisters exampleRegs).temperature (exampleRegs.raw 0xfa))) := by
    decide +kernel
  exact hmiss (h exampleRegs exampleRegs).1

end OsdCore
