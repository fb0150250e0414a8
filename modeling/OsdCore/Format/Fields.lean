import Mathlib.Tactic.Ring
import Mathlib.Tactic.SplitIfs

/-!
# The fields of a word

A field of a word is some of its bits, side by side.

* `getField`, `orField` : a field is read, and cleared and then written over; what is written is as wide as
  the word.
* `getLsbD_getField`, `getLsbD_orField` : their bits.
* `getField_orField` : what is read back.
* `getField_orField_above_iff` : the fields above one keep what they hold if and only if what spills over it
  falls on bits that are set.
-/

namespace OsdCore

variable {w : ℕ}

/-- The `e` lowest bits. -/
def lowBits (w e : ℕ) : BitVec w := BitVec.ofNat w (2 ^ e - 1)

/-- The field of `e` bits from bit `s` on. -/
def getField (b : BitVec w) (s e : ℕ) : BitVec w := b >>> s &&& lowBits w e

/-- The field is cleared, and a value is put at its place. -/
def orField (b : BitVec w) (s e : ℕ) (v : BitVec w) : BitVec w := b &&& ~~~(lowBits w e <<< s) ||| v <<< s

theorem getLsbD_lowBits (e t : ℕ) : (lowBits w e).getLsbD t = decide (t < w ∧ t < e) := by
  rw [lowBits, BitVec.getLsbD_ofNat, Nat.testBit_two_pow_sub_one, Bool.decide_and]

/-- The low part of a word, as a number. -/
theorem toNat_and_lowBits (b : BitVec w) {e : ℕ} (h : e ≤ w) :
    (b &&& lowBits w e).toNat = b.toNat % 2 ^ e := by
  have hpow : 2 ^ e - 1 < 2 ^ w :=
    Nat.lt_of_lt_of_le (Nat.sub_lt (Nat.two_pow_pos e) Nat.one_pos) (Nat.pow_le_pow_right (by decide) h)
  rw [BitVec.toNat_and, lowBits, BitVec.toNat_ofNat, Nat.mod_eq_of_lt hpow, Nat.and_two_pow_sub_one_eq_mod]

theorem getLsbD_getField (b : BitVec w) (s e u : ℕ) :
    (getField b s e).getLsbD u = (decide (u < e) && b.getLsbD (s + u)) := by
  rw [getField, BitVec.getLsbD_and, BitVec.getLsbD_ushiftRight, getLsbD_lowBits]
  by_cases hu : u < w
  · simp [hu, Bool.and_comm]
  · rw [BitVec.getLsbD_of_ge _ _ (by omega : w ≤ s + u)]
    simp

theorem getLsbD_orField (b : BitVec w) {s e t : ℕ} (v : BitVec w) (ht : t < w) :
    (orField b s e v).getLsbD t =
      if t < s then b.getLsbD t
      else if t < s + e then v.getLsbD (t - s) else b.getLsbD t || v.getLsbD (t - s) := by
  rw [orField, BitVec.getLsbD_or, BitVec.getLsbD_and, BitVec.getLsbD_not, BitVec.getLsbD_shiftLeft,
    BitVec.getLsbD_shiftLeft, getLsbD_lowBits]
  split_ifs with hs he
  · simp [ht, hs]
  · simp [ht, hs, show t - s < w ∧ t - s < e by omega]
  · simp [ht, hs, show ¬ (t - s < w ∧ t - s < e) by omega]

/-- **What is read back** is the low part of what was written. -/
theorem getField_orField (b : BitVec w) {s e : ℕ} (v : BitVec w) (h : s + e ≤ w) :
    getField (orField b s e v) s e = v &&& lowBits w e := by
  apply BitVec.eq_of_getLsbD_eq
  intro u hu
  rw [getLsbD_getField, BitVec.getLsbD_and, getLsbD_lowBits]
  by_cases hlow : u < e
  · rw [getLsbD_orField b v (by omega), if_neg (by omega), if_pos (by omega), Nat.add_sub_cancel_left]
    simp [hlow, hu]
  · simp [hlow]

/-- A field below keeps what it holds. -/
theorem getField_orField_below (b : BitVec w) {s s' e : ℕ} (v : BitVec w) (h : s ≤ w) (hs : s' + e ≤ s) :
    getField (orField b s e v) s' e = getField b s' e := by
  apply BitVec.eq_of_getLsbD_eq
  intro u _
  rw [getLsbD_getField, getLsbD_getField]
  by_cases hlow : u < e
  · rw [getLsbD_orField b v (by omega), if_pos (by omega)]
  · simp [hlow]

/-- The bits above a field that are written over are set. -/
def SpillSet (b : BitVec w) (s e : ℕ) (v : BitVec w) : Prop :=
  ∀ t, t < w → s + e ≤ t → v.getLsbD (t - s) = true → b.getLsbD t = true

instance decidableSpillSet (b : BitVec w) (s e : ℕ) (v : BitVec w) : Decidable (SpillSet b s e v) :=
  inferInstanceAs (Decidable (∀ t, t < w → _))

/-- **The fields above** one, of those of the same width, keep what they hold if and only if what spills over
falls on bits that are set. -/
theorem getField_orField_above_iff (b : BitVec w) {n e k : ℕ} (v : BitVec w) (hw : w = k * e) :
    (∀ n', n < n' → n' < k → getField (orField b (n * e) e v) (n' * e) e = getField b (n' * e) e) ↔
      SpillSet b (n * e) e v := by
  have hfits : ∀ m, m < k → m * e + e ≤ w := fun m hm => by
    rw [hw, ← Nat.succ_mul]
    exact Nat.mul_le_mul_right e hm
  have habove : ∀ m, n < m → n * e + e ≤ m * e := fun m hm => by
    rw [← Nat.succ_mul]
    exact Nat.mul_le_mul_right e hm
  constructor
  · intro hkeep t ht hst hv
    -- the field that the bit is in
    have he : 0 < e := by
      rcases Nat.eq_zero_or_pos e with rfl | he
      · omega
      · exact he
    have hdm := Nat.div_add_mod' t e
    have hmod := Nat.mod_lt t he
    have hlow : n < t / e := (Nat.le_div_iff_mul_le he).2 (by rw [Nat.succ_mul]; exact hst)
    have hhigh : t / e < k := Nat.div_lt_of_lt_mul (by rw [Nat.mul_comm, ← hw]; exact ht)
    have hbit := congrArg (·.getLsbD (t % e)) (hkeep (t / e) hlow hhigh)
    simp only [getLsbD_getField, hmod, decide_true, Bool.true_and, hdm] at hbit
    rw [← hbit, getLsbD_orField b v ht, if_neg (by omega), if_neg (by omega), hv, Bool.or_true]
  · intro hset n' hn' hk
    have hlow := habove n' hn'
    have hhigh := hfits n' hk
    apply BitVec.eq_of_getLsbD_eq
    intro u _
    rw [getLsbD_getField, getLsbD_getField]
    by_cases hu : u < e
    · rw [getLsbD_orField b v (by omega), if_neg (by omega), if_neg (by omega)]
      cases hv : v.getLsbD (n' * e + u - n * e) with
      | false => simp
      | true => simp [hset (n' * e + u) (by omega) (by omega) hv]
    · simp [hu]

end OsdCore
