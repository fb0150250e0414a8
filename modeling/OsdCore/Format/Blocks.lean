import Mathlib.Data.List.GetD
import Mathlib.Data.Nat.Init

/-!
# Lists in blocks

A list is cut into blocks of `n` elements; the last one is filled up.

* `firstBlock`, `blocks` : the first block of a list, and all of them.
* `padded` : the list, filled up.
* `blocks_of_ne_nil` : the blocks after the first one are those of the rest.
* `flatMap_blocks` : the blocks one after the other are the list, filled up.
* `blocks_flatMap` : the blocks of whole blocks are these blocks.
-/

namespace OsdCore

variable {α : Type} {pad : α} {n : ℕ} {x : List α}

/-- The first `n` elements, filled up with `pad`. -/
def firstBlock (pad : α) (n : ℕ) (x : List α) : Vector α n := Vector.ofFn fun i => x.getD i pad

/-- The first `k` blocks. -/
def blocksUpTo (pad : α) (n : ℕ) : ℕ → List α → List (Vector α n)
  | 0, _ => []
  | k + 1, x => firstBlock pad n x :: blocksUpTo pad n k (x.drop n)

/-- All blocks, the last one filled up. -/
def blocks (pad : α) (n : ℕ) (x : List α) : List (Vector α n) := blocksUpTo pad n ((x.length + n - 1) / n) x

/-- The list, filled up to whole blocks. -/
def padded (pad : α) (n : ℕ) (x : List α) : List α :=
  x ++ List.replicate ((n - x.length % n) % n) pad

theorem toList_firstBlock (pad : α) (n : ℕ) (x : List α) :
    (firstBlock pad n x).toList = x.take n ++ List.replicate (n - x.length) pad := by
  apply List.ext_getElem
  · rw [Vector.length_toList, List.length_append, List.length_take, List.length_replicate]
    omega
  · intro i hi _
    rw [Vector.length_toList] at hi
    have hget : (firstBlock pad n x).toList[i] = x.getD i pad :=
      (Vector.getElem_toList ..).trans (Vector.getElem_ofFn ..)
    rw [hget]
    by_cases h : i < x.length
    · rw [List.getD_eq_getElem _ _ h, List.getElem_append_left (by rw [List.length_take]; omega),
        List.getElem_take]
    · rw [List.getD_eq_default _ _ (by omega),
        List.getElem_append_right (by rw [List.length_take]; omega), List.getElem_replicate]

/-- Only the first `n` elements count. -/
theorem firstBlock_take (pad : α) (n : ℕ) (x : List α) : firstBlock pad n (x.take n) = firstBlock pad n x := by
  apply Vector.toList_inj.1
  rw [toList_firstBlock, toList_firstBlock, List.take_take, Nat.min_self, List.length_take]
  congr 2
  omega

/-- A block in front. -/
theorem firstBlock_append (b : Vector α n) (x : List α) : firstBlock pad n (b.toList ++ x) = b := by
  apply Vector.toList_inj.1
  have hlen : b.toList.length = n := Vector.length_toList
  rw [toList_firstBlock, List.take_left' hlen, List.length_append, hlen, Nat.sub_add_eq, Nat.sub_self,
    Nat.zero_sub, List.replicate_zero, List.append_nil]

theorem blocks_nil (hn : 0 < n) : blocks pad n [] = [] := by
  rw [blocks, List.length_nil, Nat.zero_add, Nat.div_eq_of_lt (by omega), blocksUpTo]

/-- **The blocks after the first one** are those of the rest. -/
theorem blocks_of_ne_nil (hn : 0 < n) (hx : x ≠ []) :
    blocks pad n x = firstBlock pad n x :: blocks pad n (x.drop n) := by
  have hpos : 0 < x.length := List.length_pos_iff.2 hx
  have hcount : (x.length + n - 1) / n = ((x.drop n).length + n - 1) / n + 1 := by
    rw [List.length_drop]
    by_cases h : n ≤ x.length
    · rw [← Nat.add_div_right _ hn]
      congr 1
      omega
    · rw [Nat.div_eq_of_lt (show x.length - n + n - 1 < n by omega), Nat.div_eq_iff hn]
      omega
  rw [blocks, hcount, blocksUpTo, blocks]

/-- **The blocks one after the other.** -/
theorem flatMap_blocks (hn : 0 < n) (x : List α) :
    (blocks pad n x).flatMap Vector.toList = padded pad n x := by
  induction hlen : x.length using Nat.strong_induction_on generalizing x with
  | _ len ih =>
    subst hlen
    by_cases hx : x = []
    · rw [hx, blocks_nil hn, padded, List.length_nil, Nat.zero_mod, Nat.sub_zero, Nat.mod_self]
      rfl
    · have hpos : 0 < x.length := List.length_pos_iff.2 hx
      rw [blocks_of_ne_nil hn hx, List.flatMap_cons, toList_firstBlock,
        ih (x.drop n).length (by rw [List.length_drop]; omega) _ rfl, padded, padded, List.length_drop]
      by_cases h : n ≤ x.length
      · rw [Nat.sub_eq_zero_of_le h, List.replicate_zero, List.append_nil, ← List.append_assoc,
          List.take_append_drop, Nat.mod_eq_sub_mod h]
      · -- the last block is filled up, and nothing is left
        have hfill : (n - (x.length - n) % n) % n = 0 := by
          rw [Nat.sub_eq_zero_of_le (show x.length ≤ n by omega), Nat.zero_mod, Nat.sub_zero, Nat.mod_self]
        rw [hfill, List.drop_of_length_le (by omega), List.take_of_length_le (by omega),
          Nat.mod_eq_of_lt (show x.length < n by omega), Nat.mod_eq_of_lt (by omega)]
        simp

/-- **The blocks of whole blocks.** -/
theorem blocks_flatMap (hn : 0 < n) (bs : List (Vector α n)) :
    blocks pad n (bs.flatMap Vector.toList) = bs := by
  induction bs with
  | nil => exact blocks_nil hn
  | cons b bs ih =>
    have hlen : b.toList.length = n := Vector.length_toList
    have hne : b.toList ++ bs.flatMap Vector.toList ≠ [] := by
      apply List.ne_nil_of_length_pos
      rw [List.length_append]
      omega
    rw [List.flatMap_cons, blocks_of_ne_nil hn hne, firstBlock_append, List.drop_left' hlen, ih]

theorem length_flatMap_blocks (bs : List (Vector α n)) :
    (bs.flatMap Vector.toList).length = n * bs.length := by
  induction bs with
  | nil => rfl
  | cons b bs ih =>
    rw [List.flatMap_cons, List.length_append, ih, Vector.length_toList, List.length_cons, Nat.mul_succ,
      Nat.add_comm]

end OsdCore
