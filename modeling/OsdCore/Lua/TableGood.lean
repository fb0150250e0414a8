import Mathlib.Data.Nat.Bitwise
import OsdCore.Lua.Table
import OsdCore.Scatter.Insert

/-!
# What holds of a table of the interpreter

* `Lua.Table.Core` : the hash part is a good scatter table, and has no key of the array part.
* `Lua.Table.Has` : the entries of a table; `luaH_get` finds them.
* `Lua.Table.Core.store_spec` : a value written through a slot changes the entry of its key only.
-/

namespace OsdCore

namespace Scatter

variable {K V : Type} {mp : K → ℕ} {t : Scatter K V} {i : ℕ} {k : K} {v : Option V}

theorem setVal_key (t : Scatter K V) (i : ℕ) (v : Option V) (j : ℕ) :
    ((t.put i { t.node i with val := v }).node j).key = (t.node j).key := by
  rw [put_node]
  split_ifs with h
  · rw [h]
  · rfl

theorem setVal_Next (t : Scatter K V) (i : ℕ) (v : Option V) :
    (t.put i { t.node i with val := v }).Next = t.Next := by
  funext a b
  rw [Next, Next, put_node]
  split_ifs with h
  · rw [h]
  · rfl

/-- **A value written** to a place that has a key. -/
theorem Good.setVal (hg : Good mp t) (hk : (t.node i).key = some k) :
    Good mp (t.put i { t.node i with val := v }) where
  mp_lt := hg.mp_lt
  outside j hj := by
    have hne : j ≠ i := fun h => (h ▸ hj).not_gt (hg.lt_of_key (by rw [hk]; exact nofun))
    rw [put_node, if_neg hne]
    exact hg.outside j hj
  blank j hj := by
    rw [setVal_key] at hj
    have hne : j ≠ i := fun h => by rw [h, hk] at hj; exact nomatch hj
    rw [put_node, if_neg hne]
    exact hg.blank j hj
  next_key a b hab := by
    rw [setVal_key]
    rw [setVal_Next] at hab
    exact hg.next_key a b hab
  next_inj := by
    rw [setVal_Next]
    exact hg.next_inj
  ends := by
    rw [setVal_Next]
    exact hg.ends
  home j k' hj := by
    rw [setVal_key] at hj
    obtain ⟨k₂, hk₂, h⟩ := hg.home j k' hj
    exact ⟨k₂, by rw [setVal_key, hk₂], h⟩
  reach j k' hj := by
    rw [setVal_key] at hj
    rw [setVal_Next]
    exact hg.reach j k' hj
  distinct a b k' ha hb := by
    rw [setVal_key] at ha hb
    exact hg.distinct a b k' ha hb

theorem FreeBelow.setVal (hf : t.FreeBelow) : (t.put i { t.node i with val := v }).FreeBelow := by
  refine ⟨hf.le, fun j hle hlt => ?_⟩
  rw [setVal_key]
  exact hf.keyed j hle hlt

theorem used_setVal (t : Scatter K V) (i : ℕ) (v : Option V) :
    (t.put i { t.node i with val := v }).used = t.used := by
  ext j
  rw [mem_used, mem_used, setVal_key, put_size]

/-- The key of the place has the new value, every other key the one it had. -/
theorem Good.holds_setVal (hg : Good mp t) (hk : (t.node i).key = some k) {k' : K} {w : V} :
    (t.put i { t.node i with val := v }).Holds k' w ↔
      k' = k ∧ v = some w ∨ k' ≠ k ∧ t.Holds k' w := by
  have hval : ∀ j, ((t.put i { t.node i with val := v }).node j).val =
      if j = i then v else (t.node j).val := by
    intro j
    rw [put_node]
    split_ifs <;> rfl
  constructor
  · rintro ⟨j, hj, hw⟩
    rw [setVal_key] at hj
    rw [hval] at hw
    split_ifs at hw with h
    · rw [h, hk] at hj
      exact Or.inl ⟨(Option.some.inj hj).symm, hw⟩
    · refine Or.inr ⟨?_, j, hj, hw⟩
      rintro rfl
      exact h (hg.distinct j i k' hj hk)
  · rintro (⟨rfl, rfl⟩ | ⟨hne, j, hj, hw⟩)
    · exact ⟨i, by rw [setVal_key, hk], by rw [hval, if_pos rfl]⟩
    · refine ⟨j, by rw [setVal_key, hj], ?_⟩
      rw [hval, if_neg, hw]
      rintro rfl
      rw [hk] at hj
      exact hne (Option.some.inj hj).symm

end Scatter

namespace Lua

/-! ### Main positions -/

theorem hashmod_lt {size : ℕ} (hsize : 0 < size) (n : ℕ) : hashmod size n < size := by
  have hle : (size - 1) ||| 1 ≤ size := by
    obtain hbit | hbit := Nat.mod_two_eq_zero_or_one (size - 1)
    · have h := Nat.two_pow_add_eq_or_of_lt (show (1 : ℕ) < 2 ^ 1 by omega) ((size - 1) / 2)
      have hdiv : 2 ^ 1 * ((size - 1) / 2) = size - 1 := by omega
      rw [hdiv] at h
      omega
    · have h : (size - 1) ||| 1 = size - 1 := by
        apply Nat.eq_of_testBit_eq
        intro j
        rw [Nat.testBit_or]
        cases j with
        | zero => simp [hbit]
        | succ j => simp [Nat.testBit_succ]
      omega
  have hpos : 0 < (size - 1) ||| 1 := Nat.pos_of_ne_zero fun h => by
    have h1 : ((size - 1) ||| 1).testBit 0 = true := by simp
    rw [h] at h1
    exact nomatch h1
  exact (Nat.mod_lt _ hpos).trans_le hle

theorem hashpow2_lt {size : ℕ} (hsize : 0 < size) (n : ℕ) : hashpow2 size n < size := by
  have h : n &&& (size - 1) ≤ size - 1 := Nat.and_le_right
  rw [hashpow2]
  omega

theorem mainposition_lt (hash : BitVec 32 → BitVec 32) {size : ℕ} (hsize : 0 < size) (k : Key) :
    mainposition hash size k < size := by
  cases k with
  | number n =>
    rw [mainposition, hashnum]
    split_ifs
    · exact hsize
    · exact hashmod_lt hsize _
  | string s => exact hashpow2_lt hsize _
  | boolean b => exact hashpow2_lt hsize _
  | lightuserdata p => exact hashmod_lt hsize _
  | object tt p => exact hashmod_lt hsize _

theorem intKey_injOn {i j : ℕ} (hi : i < 2 ^ 32) (hj : j < 2 ^ 32) (h : intKey i = intKey j) : i = j := by
  have hb : BitVec.ofNat 32 i = BitVec.ofNat 32 j := Key.number.inj h
  have ht := congrArg BitVec.toNat hb
  rw [BitVec.toNat_ofNat, BitVec.toNat_ofNat, Nat.mod_eq_of_lt hi, Nat.mod_eq_of_lt hj] at ht
  exact ht

theorem ofNat_sub_one (n : BitVec 32) : BitVec.ofNat 32 ((n - 1).toNat + 1) = n := by
  rw [BitVec.ofNat_add, BitVec.ofNat_toNat, BitVec.setWidth_eq]
  exact BitVec.sub_add_cancel n 1

theorem ofNat_succ_sub_one {i : ℕ} (hi : i < 2 ^ 32) : (BitVec.ofNat 32 (i + 1) - 1).toNat = i := by
  rw [BitVec.ofNat_add, show BitVec.ofNat 32 i + BitVec.ofNat 32 1 - 1 = BitVec.ofNat 32 i from
    BitVec.add_sub_cancel _ _, BitVec.toNat_ofNat, Nat.mod_eq_of_lt hi]

namespace Table

variable {V : Type} {hash : BitVec 32 → BitVec 32} {t : Table V} {k : Key}

/-- **What holds of a table** also while it is rebuilt: then the array may be longer than it is said to be. -/
structure Core (hash : BitVec 32 → BitVec 32) (t : Table V) : Prop where
  le_length : t.sizearray ≤ t.array.length
  sizearray_le : t.sizearray ≤ MAXASIZE
  size_le : t.node.size ≤ 2 ^ MAXBITS
  node_good : t.node.Good (mainposition hash t.node.size)
  dummy_eq : t.dummy = true → ∀ i, t.node.node i = {}
  free : t.dummy = false → t.node.FreeBelow
  split : ∀ i n, (t.node.node i).key = some (.number n) → t.sizearray ≤ (n - 1).toNat

/-- The key has a place in an array part of the given size. -/
def InArray (size : ℕ) (k : Key) : Prop := ∃ i, i < size ∧ k = intKey (i + 1)

/-- `k` has the value `v`. -/
def Has (t : Table V) (k : Key) (v : V) : Prop :=
  (∃ i, i < t.sizearray ∧ k = intKey (i + 1) ∧ t.array.getD i none = some v) ∨ t.node.Holds k v

/-- The slot is the one of the key. -/
def SlotOf (t : Table V) (k : Key) : Slot → Prop
  | .array i => i < t.sizearray ∧ k = intKey (i + 1)
  | .node i => (t.node.node i).key = some k

/-- No slot is. -/
structure Absent (t : Table V) (k : Key) : Prop where
  not_inArray : ¬ InArray t.sizearray k
  no_key : ∀ i, (t.node.node i).key ≠ some k

/-- There is room for one key more in the hash part. -/
structure Room (t : Table V) : Prop where
  not_dummy : t.dummy = false
  used_lt : t.node.used.card < t.node.size

theorem Core.lt_of_lt_sizearray (hc : Core hash t) {i : ℕ} (h : i < t.sizearray) : i + 1 < 2 ^ 32 := by
  have hle := hc.sizearray_le
  have hmax : MAXASIZE = 2 ^ 26 := rfl
  omega

/-- The hash part has no key of the array part. -/
theorem Core.not_key_of_inArray (hc : Core hash t) (h : InArray t.sizearray k) (i : ℕ) :
    (t.node.node i).key ≠ some k := by
  obtain ⟨j, hj, rfl⟩ := h
  intro hk
  have hle := hc.split i _ hk
  rw [ofNat_succ_sub_one (by have := hc.lt_of_lt_sizearray hj; omega)] at hle
  omega

theorem Core.search_spec (hc : Core hash t) (k : Key) :
    (∃ i, t.search hash k = .ok (some (.node i)) ∧ (t.node.node i).key = some k) ∨
      t.search hash k = .ok none ∧ ∀ i, (t.node.node i).key ≠ some k := by
  obtain ⟨i, hfind, hk⟩ | ⟨hfind, hk⟩ := hc.node_good.find_spec k
  · exact Or.inl ⟨i, by rw [search, hfind]; rfl, hk⟩
  · exact Or.inr ⟨by rw [search, hfind]; rfl, hk⟩

theorem not_inArray_of_search {t : Table V} (hk : ∀ n, k ≠ .number n) : ¬ InArray t.sizearray k := by
  rintro ⟨i, -, h⟩
  exact hk _ h

theorem Core.getnum_spec (hc : Core hash t) (n : BitVec 32) :
    (∃ s, luaHGetnum hash t n = .ok (some s) ∧ t.SlotOf (.number n) s) ∨
      luaHGetnum hash t n = .ok none ∧ t.Absent (.number n) := by
  rw [luaHGetnum]
  split_ifs with h
  · exact Or.inl ⟨_, rfl, h, by rw [intKey, ofNat_sub_one]⟩
  · obtain ⟨i, hs, hk⟩ | ⟨hs, hk⟩ := hc.search_spec (.number n)
    · exact Or.inl ⟨_, hs, hk⟩
    · refine Or.inr ⟨hs, ⟨?_, hk⟩⟩
      rintro ⟨i, hi, he⟩
      have hn : n = BitVec.ofNat 32 (i + 1) := Key.number.inj he
      rw [hn, ofNat_succ_sub_one (by have := hc.lt_of_lt_sizearray hi; omega)] at h
      exact h hi

/-- **The search** of a key comes to its slot, or to no slot when it has none. -/
theorem Core.get_spec (hc : Core hash t) (k : Key) :
    (∃ s, luaHGet hash t (some k) = .ok (some s) ∧ t.SlotOf k s) ∨
      luaHGet hash t (some k) = .ok none ∧ t.Absent k := by
  have hsearch : (∀ n, k ≠ .number n) →
      (∃ s, t.search hash k = .ok (some s) ∧ t.SlotOf k s) ∨
        t.search hash k = .ok none ∧ t.Absent k := by
    intro hne
    obtain ⟨i, hs, hk⟩ | ⟨hs, hk⟩ := hc.search_spec k
    · exact Or.inl ⟨_, hs, hk⟩
    · exact Or.inr ⟨hs, ⟨not_inArray_of_search hne, hk⟩⟩
  cases k with
  | number n => exact hc.getnum_spec n
  | string s => exact hsearch fun n => nofun
  | boolean b => exact hsearch fun n => nofun
  | lightuserdata p => exact hsearch fun n => nofun
  | object tt p => exact hsearch fun n => nofun

/-- What is read through the slot of a key is its value. -/
theorem Core.val_eq_some_iff (hc : Core hash t) {s : Slot} (hs : t.SlotOf k s) {v : V} :
    t.val s = some v ↔ t.Has k v := by
  cases s with
  | array i =>
    obtain ⟨hi, rfl⟩ := hs
    constructor
    · exact fun h => Or.inl ⟨i, hi, rfl, h⟩
    · rintro (⟨j, hj, he, hv⟩ | ⟨j, hj, -⟩)
      · obtain rfl : i = j := by
          have := intKey_injOn (hc.lt_of_lt_sizearray hi) (hc.lt_of_lt_sizearray hj) he
          omega
        exact hv
      · exact absurd hj (hc.not_key_of_inArray ⟨i, hi, rfl⟩ j)
  | node i =>
    constructor
    · exact fun h => Or.inr ⟨i, hs, h⟩
    · rintro (⟨j, hj, he, -⟩ | ⟨j, hj, hv⟩)
      · exact absurd hs (hc.not_key_of_inArray ⟨j, hj, he⟩ i)
      · obtain rfl := hc.node_good.distinct i j k hs hj
        exact hv

theorem Absent.not_has (h : t.Absent k) (v : V) : ¬ t.Has k v := by
  rintro (⟨i, hi, he, -⟩ | ⟨i, hi, -⟩)
  · exact h.not_inArray ⟨i, hi, he⟩
  · exact h.no_key i hi

/-- **`luaH_get` reads** the entry of a key, and nil when there is none. -/
theorem Core.read_get (hc : Core hash t) (k : Key) :
    ∃ s, luaHGet hash t (some k) = .ok s ∧ ∀ v, t.read s = some v ↔ t.Has k v := by
  obtain ⟨s, hs, hslot⟩ | ⟨hs, habsent⟩ := hc.get_spec k
  · exact ⟨some s, hs, fun v => hc.val_eq_some_iff hslot⟩
  · exact ⟨none, hs, fun v => ⟨(nomatch ·), fun h => absurd h (habsent.not_has v)⟩⟩

/-- **A value written** through the slot of a key changes the entry of this key only. -/
theorem Core.store_spec (hc : Core hash t) {s : Slot} (hs : t.SlotOf k s) (v : Option V) :
    Core hash (t.store s v) ∧
      ∀ k' w, (t.store s v).Has k' w ↔ k' = k ∧ v = some w ∨ k' ≠ k ∧ t.Has k' w := by
  cases s with
  | array i =>
    obtain ⟨hi, rfl⟩ := hs
    refine ⟨⟨?_, hc.sizearray_le, hc.size_le, hc.node_good, hc.dummy_eq, hc.free, hc.split⟩, fun k' w => ?_⟩
    · show t.sizearray ≤ (t.array.set i v).length
      rw [List.length_set]
      exact hc.le_length
    have hget : ∀ j, (t.array.set i v).getD j none = if j = i then v else t.array.getD j none := by
      intro j
      rw [List.getD_eq_getElem?_getD, List.getD_eq_getElem?_getD, List.getElem?_set]
      by_cases hj : i = j
      · have hlt : i < t.array.length := hi.trans_le hc.le_length
        rw [if_pos hj, if_pos hlt, if_pos hj.symm]
        rfl
      · rw [if_neg hj, if_neg fun h => hj h.symm]
    show (∃ j, j < t.sizearray ∧ k' = intKey (j + 1) ∧ (t.array.set i v).getD j none = some w) ∨
      t.node.Holds k' w ↔ _
    constructor
    · rintro (⟨j, hj, rfl, hw⟩ | h)
      · rw [hget] at hw
        split_ifs at hw with hji
        · exact Or.inl ⟨by rw [hji], hw⟩
        · refine Or.inr ⟨fun he => hji ?_, Or.inl ⟨j, hj, rfl, hw⟩⟩
          have := intKey_injOn (hc.lt_of_lt_sizearray hj) (hc.lt_of_lt_sizearray hi) he
          omega
      · refine Or.inr ⟨?_, Or.inr h⟩
        rintro rfl
        obtain ⟨j, hj, -⟩ := h
        exact hc.not_key_of_inArray ⟨i, hi, rfl⟩ j hj
    · rintro (⟨rfl, hw⟩ | ⟨hne, ⟨j, hj, rfl, hw⟩ | h⟩)
      · exact Or.inl ⟨i, hi, rfl, by rw [hget, if_pos rfl, hw]⟩
      · refine Or.inl ⟨j, hj, rfl, ?_⟩
        rw [hget, if_neg fun h => hne (by rw [h]), hw]
      · exact Or.inr h
  | node i =>
    have hs' : (t.node.node i).key = some k := hs
    refine ⟨⟨hc.le_length, hc.sizearray_le, hc.size_le, hc.node_good.setVal hs', ?_, fun h => (hc.free h).setVal, ?_⟩,
      fun k' w => ?_⟩
    · intro h
      rw [hc.dummy_eq h i] at hs'
      exact nomatch hs'
    · intro j n hj
      rw [show (t.store (.node i) v).node = t.node.put i { t.node.node i with val := v } from rfl,
        Scatter.setVal_key] at hj
      exact hc.split j n hj
    show (∃ j, j < t.sizearray ∧ k' = intKey (j + 1) ∧ t.array.getD j none = some w) ∨
      (t.node.put i { t.node.node i with val := v }).Holds k' w ↔ _
    rw [hc.node_good.holds_setVal hs']
    constructor
    · rintro (⟨j, hj, rfl, hw⟩ | h | ⟨hne, h⟩)
      · refine Or.inr ⟨?_, Or.inl ⟨j, hj, rfl, hw⟩⟩
        rintro rfl
        exact hc.not_key_of_inArray ⟨j, hj, rfl⟩ i hs'
      · exact Or.inl h
      · exact Or.inr ⟨hne, Or.inr h⟩
    · rintro (h | ⟨hne, h | h⟩)
      · exact Or.inr (Or.inl h)
      · exact Or.inl h
      · exact Or.inr (Or.inr ⟨hne, h⟩)

end Table

end Lua

end OsdCore
