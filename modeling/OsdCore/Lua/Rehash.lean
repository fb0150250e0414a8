import Mathlib.Data.List.Nodup
import OsdCore.Lua.Resize

/-!
# The sizes that a table grows to

* `Lua.computesizes_spec` : the greatest power of two of which more than half is in use.
* `Lua.numusearray_spec`, `Lua.numusehash_spec` : the keys are counted by the slice that they are in.
* `Lua.rehash_spec` : a table that has been rehashed has its entries, an array part of that size, and room
  for the key that is to come.
* `Lua.luaHSet_spec` : every key gets a slot.
-/

namespace OsdCore

namespace Lua

open Table

variable {V : Type} {hash : BitVec 32 → BitVec 32} {t t' : Table V} {k : Key}

/-! ### The optimal size -/

/-- How many keys are in the slices up to `i`. -/
def cum (nums : ℕ → ℕ) (i : ℕ) : ℕ := ((List.range (i + 1)).map nums).sum

theorem cum_succ (nums : ℕ → ℕ) (i : ℕ) : cum nums (i + 1) = cum nums i + nums (i + 1) := by
  rw [cum, cum, List.range_succ, List.map_append, List.sum_append]
  exact congrArg _ (Nat.add_zero _)

theorem cum_mono (nums : ℕ → ℕ) {i j : ℕ} (h : i ≤ j) : cum nums i ≤ cum nums j := by
  induction j, h using Nat.le_induction with
  | base => exact le_rfl
  | succ j _ ih => exact ih.trans (by rw [cum_succ]; omega)

/-- More than half of the first `2 ^ i` places would be used. -/
def MoreThanHalf (nums : ℕ → ℕ) (i : ℕ) : Prop := 2 ^ i / 2 < cum nums i

instance instDecidableMoreThanHalf (nums : ℕ → ℕ) (i : ℕ) : Decidable (MoreThanHalf nums i) :=
  inferInstanceAs (Decidable (2 ^ i / 2 < cum nums i))

/-- The best of the sizes below `2 ^ i`: how many keys it takes, and how many places it has. -/
def Best (nums : ℕ → ℕ) (i na n : ℕ) : Prop :=
  (n = 0 ∧ na = 0 ∧ ∀ j < i, ¬ MoreThanHalf nums j) ∨
    ∃ b < i, n = 2 ^ b ∧ na = cum nums b ∧ MoreThanHalf nums b ∧
      ∀ j, b < j → j < i → ¬ MoreThanHalf nums j

theorem Best.extend {nums : ℕ → ℕ} {i i' na n : ℕ} (h : Best nums i na n) (hle : i ≤ i')
    (hnot : ∀ j, i ≤ j → j < i' → ¬ MoreThanHalf nums j) : Best nums i' na n := by
  obtain ⟨hn, hna, hno⟩ | ⟨b, hb, hn, hna, hmore, hno⟩ := h
  · refine Or.inl ⟨hn, hna, fun j hj => ?_⟩
    obtain hlt | hge := lt_or_ge j i
    · exact hno j hlt
    · exact hnot j hge hj
  · refine Or.inr ⟨b, hb.trans_le hle, hn, hna, hmore, fun j hbj hj => ?_⟩
    obtain hlt | hge := lt_or_ge j i
    · exact hno j hbj hlt
    · exact hnot j hge hj

theorem half_mono {i j : ℕ} (h : i ≤ j) : 2 ^ i / 2 ≤ 2 ^ j / 2 :=
  Nat.div_le_div_right (Nat.pow_le_pow_right (by decide) h)

section Sizes

variable {nums : ℕ → ℕ} {narray : ℕ}

/-- The loop of `computesizes` from its turn `i` on. -/
theorem computesizesLoop_spec (hcap : ∀ i ≤ MAXBITS, cum nums i ≤ 2 ^ i)
    (htotal : cum nums MAXBITS = narray) (hnums : ∀ i, MAXBITS < i → nums i = 0) :
    ∀ rest i a na n, rest + i = MAXBITS + 1 → a + nums i = cum nums i → Best nums i na n →
      ∃ na' n', computesizesLoop nums narray rest i (2 ^ i) a na n = .ok (na', n') ∧
        Best nums (MAXBITS + 1) na' n' := by
  have hle : ∀ j, cum nums j ≤ narray := by
    intro j
    obtain hj | hj := le_or_gt j MAXBITS
    · exact (cum_mono nums hj).trans htotal.le
    · have heq : cum nums j = cum nums MAXBITS := by
        induction j, hj.le using Nat.le_induction with
        | base => rfl
        | succ j hle ih =>
          rw [cum_succ, hnums _ (by omega), Nat.add_zero]
          obtain rfl | hlt := hle.eq_or_lt
          · rfl
          · exact ih hlt
      exact (heq.trans htotal).le
  intro rest
  induction rest with
  | zero =>
    intro i a na n hi ha hbest
    have hcond : ¬ 2 ^ i / 2 < narray := by
      obtain rfl : i = MAXBITS + 1 := by omega
      rw [← htotal, pow_succ, Nat.mul_div_cancel _ (by decide)]
      exact (hcap MAXBITS le_rfl).not_gt
    refine ⟨na, n, by rw [computesizesLoop, if_neg hcond], ?_⟩
    obtain rfl : i = MAXBITS + 1 := by omega
    exact hbest
  | succ rest ih =>
    intro i a na n hi ha hbest
    rw [computesizesLoop]
    split_ifs with hcond
    · have hgrow : (0 < nums i ∧ 2 ^ i / 2 < a + nums i) ↔ MoreThanHalf nums i := by
        rw [ha, MoreThanHalf]
        refine ⟨And.right, fun h => ⟨Nat.pos_of_ne_zero fun h0 => ?_, h⟩⟩
        cases i with
        | zero =>
          have h1 : cum nums 0 = 0 := by
            rw [cum, List.range_one, List.map_singleton, List.sum_singleton, h0]
          omega
        | succ i =>
          rw [cum_succ, h0, Nat.add_zero, pow_succ, Nat.mul_div_cancel _ (by decide)] at h
          exact absurd (hcap i (by omega)) h.not_ge
      have hstep : Best nums (i + 1) (if MoreThanHalf nums i then a + nums i else na)
          (if MoreThanHalf nums i then 2 ^ i else n) := by
        split_ifs with hmore
        · exact Or.inr ⟨i, Nat.lt_succ_self i, rfl, ha, hmore, fun j hij hj => by omega⟩
        · refine hbest.extend (Nat.le_succ i) fun j hij hj => ?_
          obtain rfl : j = i := by omega
          exact hmore
      simp only [hgrow, decide_eq_true_eq]
      by_cases hall : a + nums i = narray
      · rw [if_pos hall]
        refine ⟨_, _, rfl, hstep.extend (by omega) fun j hij hj => ?_⟩
        have h1 : 2 ^ i ≤ 2 ^ j / 2 := by
          have := half_mono hij
          rw [pow_succ, Nat.mul_div_cancel _ (by decide)] at this
          exact this
        have h2 := hle j
        have h3 := hcap i (by omega)
        rw [MoreThanHalf]
        omega
      · rw [if_neg hall]
        have hmul : 2 * 2 ^ i = 2 ^ (i + 1) := by rw [pow_succ, Nat.mul_comm]
        rw [hmul]
        exact ih (i + 1) (a + nums i) _ _ (by omega) (by rw [ha, cum_succ]) hstep
    · refine ⟨na, n, rfl, hbest.extend (by omega) fun j hij _ => ?_⟩
      have h1 := half_mono hij
      have h2 := hle j
      rw [MoreThanHalf]
      omega

/-- **`computesizes`**: the greatest power of two of which more than half would be in use, or 0. -/
theorem computesizes_spec (hcap : ∀ i ≤ MAXBITS, cum nums i ≤ 2 ^ i)
    (htotal : cum nums MAXBITS = narray) (hnums : ∀ i, MAXBITS < i → nums i = 0) :
    ∃ na n, computesizes nums narray = .ok (na, n) ∧ Best nums (MAXBITS + 1) na n :=
  computesizesLoop_spec hcap htotal hnums (MAXBITS + 1) 0 0 0 0 rfl
    (by rw [cum, List.range_one, List.map_singleton, List.sum_singleton, Nat.zero_add])
    (Or.inl ⟨rfl, rfl, fun _ h => absurd h (Nat.not_lt_zero _)⟩)

end Sizes

/-! ### The keys are counted -/

/-- The key is counted as one that could go to the array part. -/
def counted (k : Key) : Bool := !outside MAXASIZE k

/-- The key is counted in the slice `j`. -/
def inSlice (j : ℕ) (k : Key) : Bool := counted k && decide (ceillog2 (arrayindex k).toNat = j)

theorem counted_iff : counted k = true ↔ 0 < arrayindex k ∧ arrayindex k ≤ MAXASIZE := by
  rw [counted, outside, Bool.not_not, decide_eq_true_eq]

theorem countint_eq (k : Key) (nums : ℕ → ℕ) :
    (countint k nums).1 = (if counted k then 1 else 0) ∧
      ∀ j, (countint k nums).2 j = nums j + (if inSlice j k then 1 else 0) := by
  rw [countint]
  by_cases h : counted k = true
  · simp only [if_pos (counted_iff.1 h), h, if_true, true_and]
    intro j
    rw [Function.update_apply, inSlice, h, Bool.true_and]
    by_cases hj : j = ceillog2 (arrayindex k).toNat
    · rw [if_pos hj, if_pos (decide_eq_true hj.symm), hj]
    · rw [if_neg hj, if_neg (by rw [decide_eq_true_eq]; exact fun he => hj he.symm), Nat.add_zero]
  · have h' : counted k = false := Bool.eq_false_iff.2 h
    simp only [if_neg (fun hc => h (counted_iff.2 hc)), if_neg h, true_and]
    intro j
    rw [inSlice, h', Bool.false_and]
    rfl

theorem sliceEntries_append (array : List (Option V)) (lo m m' : ℕ) :
    sliceEntries array lo (m + m') = sliceEntries array lo m ++ sliceEntries array (lo + m) m' := by
  rw [sliceEntries, ← List.range'_append_1, List.filterMap_append]
  rfl

theorem ceillog2_slice {lg i : ℕ} (hlo : 2 ^ lg / 2 ≤ i) (hlt : i < 2 ^ lg) : ceillog2 (i + 1) = lg := by
  rw [ceillog2_eq, Nat.add_sub_cancel]
  apply le_antisymm (Nat.size_le.2 hlt)
  cases lg with
  | zero => exact Nat.zero_le _
  | succ lg =>
    rw [pow_succ, Nat.mul_div_cancel _ (by decide)] at hlo
    exact Nat.lt_size.2 hlo

/-- The keys of one slice are counted in this slice. -/
theorem inSlice_of_mem {array : List (Option V)} {lo m lg : ℕ} (hlo : 2 ^ lg / 2 ≤ lo)
    (hm : lo + m ≤ 2 ^ lg) (hlg : lg ≤ MAXBITS) {e : Key × V} (he : e ∈ sliceEntries array lo m) (j : ℕ) :
    inSlice j e.1 = decide (lg = j) := by
  obtain ⟨k, v⟩ := e
  obtain ⟨i, hi, hlt, rfl, -⟩ := mem_sliceEntries.1 he
  have hmax : 2 ^ lg ≤ MAXASIZE := Nat.pow_le_pow_right (by decide) hlg
  have hsmall : MAXASIZE < 2 ^ 31 := by decide
  have hidx : arrayindex (intKey (i + 1)) = ((i + 1 : ℕ) : ℤ) := arrayindex_intKey (by omega)
  have hc : counted (intKey (i + 1)) = true := by
    rw [counted_iff, hidx]
    omega
  have hlog : ceillog2 (i + 1) = lg := ceillog2_slice (hlo.trans hi) (hlt.trans_le hm)
  show inSlice j (intKey (i + 1)) = _
  rw [inSlice, hc, Bool.true_and, hidx, Int.toNat_natCast, hlog]

theorem countP_inSlice {array : List (Option V)} {lo m lg : ℕ} (hlo : 2 ^ lg / 2 ≤ lo)
    (hm : lo + m ≤ 2 ^ lg) (hlg : lg ≤ MAXBITS) (j : ℕ) :
    (sliceEntries array lo m).countP (fun e => inSlice j e.1) =
      if j = lg then (sliceEntries array lo m).length else 0 := by
  split_ifs with hj
  · rw [List.countP_eq_length]
    intro e he
    rw [inSlice_of_mem hlo hm hlg he, decide_eq_true hj.symm]
  · rw [List.countP_eq_zero]
    intro e he
    rw [inSlice_of_mem hlo hm hlg he, decide_eq_true_eq]
    exact fun h => hj h.symm

/-- How many elements one turn of the loop sees. -/
theorem countP_slice (array : List (Option V)) (lo m : ℕ) :
    (List.range' (lo + 1) m).countP (fun i => (array.getD (i - 1) none).isSome) =
      (sliceEntries array lo m).length := by
  have hshift : List.range' (lo + 1) m = (List.range' lo m).map (1 + ·) := by
    rw [List.map_add_range', Nat.add_comm]
  rw [hshift, List.countP_map, sliceEntries, List.length_filterMap_eq_countP]
  refine List.countP_congr fun i _ => ?_
  rw [Function.comp_apply, Nat.add_sub_cancel_left, Option.isSome_map]

/-- The loop of `numusearray` from the slice `lg` on, which begins with the key `lo + 1`. -/
theorem numusearrayLoop_spec (t : Table V) (hle : t.sizearray ≤ MAXASIZE) :
    ∀ rest lg lo ause nums, rest + lg = MAXBITS + 1 → (t.sizearray ≤ lo ∨ lo = 2 ^ lg / 2) →
      ∃ nums', numusearrayLoop t rest lg (2 ^ lg) (lo + 1) ause nums =
          (ause + (sliceEntries t.array lo (t.sizearray - lo)).length, nums') ∧
        ∀ j, nums' j = nums j +
          (sliceEntries t.array lo (t.sizearray - lo)).countP (fun e => inSlice j e.1) := by
  have hnil : ∀ lo, t.sizearray ≤ lo → sliceEntries t.array lo (t.sizearray - lo) = [] := by
    intro lo h
    rw [Nat.sub_eq_zero_of_le h]
    rfl
  intro rest
  induction rest with
  | zero =>
    intro lg lo ause nums hlg hlo
    have hend : t.sizearray ≤ lo := by
      obtain h | h := hlo
      · exact h
      · obtain rfl : lg = MAXBITS + 1 := by omega
        rw [pow_succ, Nat.mul_div_cancel _ (by decide)] at h
        exact hle.trans h.ge
    rw [hnil lo hend]
    exact ⟨nums, rfl, fun _ => rfl⟩
  | succ rest ih =>
    intro lg lo ause nums hlg hlo
    rw [numusearrayLoop]
    set lim := if t.sizearray < 2 ^ lg then t.sizearray else 2 ^ lg with hlim
    have hlim' : lim = min t.sizearray (2 ^ lg) := by
      rw [hlim]
      split_ifs with h
      · exact (min_eq_left h.le).symm
      · exact (min_eq_right (not_lt.1 h)).symm
    split_ifs with hbreak
    · rw [hnil lo (by omega)]
      exact ⟨nums, rfl, fun _ => rfl⟩
    · -- the slice goes to the place `max lo lim`
      have hnext : max (lo + 1) (lim + 1) = max lo lim + 1 := by omega
      have hcount : lim + 1 - (lo + 1) = max lo lim - lo := by omega
      have hpow : 2 ^ lg / 2 ≤ 2 ^ lg := Nat.div_le_self _ _
      have hnext' : t.sizearray ≤ max lo lim ∨ max lo lim = 2 ^ (lg + 1) / 2 := by
        rw [pow_succ, Nat.mul_div_cancel _ (by decide)]
        omega
      have hmul : 2 * 2 ^ lg = 2 ^ (lg + 1) := by rw [pow_succ, Nat.mul_comm]
      rw [hnext, hcount, countP_slice, hmul]
      obtain ⟨nums', hrun, hnums'⟩ := ih (lg + 1) (max lo lim)
        (ause + (sliceEntries t.array lo (max lo lim - lo)).length)
        (Function.update nums lg (nums lg + (sliceEntries t.array lo (max lo lim - lo)).length))
        (by omega) hnext'
      have hsplit : sliceEntries t.array lo (t.sizearray - lo) =
          sliceEntries t.array lo (max lo lim - lo) ++
            sliceEntries t.array (max lo lim) (t.sizearray - max lo lim) := by
        obtain hend | hin := le_or_gt t.sizearray lo
        · rw [hnil lo hend, hnil (max lo lim) (by omega), show max lo lim - lo = 0 by omega]
          rfl
        · have h := sliceEntries_append t.array lo (max lo lim - lo) (t.sizearray - max lo lim)
          rw [show lo + (max lo lim - lo) = max lo lim by omega,
            show max lo lim - lo + (t.sizearray - max lo lim) = t.sizearray - lo by omega] at h
          exact h
      have hslice : ∀ j, (sliceEntries t.array lo (max lo lim - lo)).countP (fun e => inSlice j e.1) =
          if j = lg then (sliceEntries t.array lo (max lo lim - lo)).length else 0 := by
        intro j
        obtain hend | hstart := hlo
        · rw [show max lo lim - lo = 0 by omega]
          split_ifs <;> rfl
        · exact countP_inSlice hstart.ge (by omega) (by omega) j
      refine ⟨nums', ?_, fun j => ?_⟩
      · rw [hrun, hsplit, List.length_append, Nat.add_assoc]
      · rw [hnums', hsplit, List.countP_append, hslice, Function.update_apply]
        split_ifs with hj
        · rw [hj, Nat.add_assoc]
        · omega

/-- **`numusearray`** counts the keys of the array part, each in its slice. -/
theorem numusearray_spec (t : Table V) (hle : t.sizearray ≤ MAXASIZE) (nums : ℕ → ℕ) :
    ∃ nums', numusearray t nums = ((sliceEntries t.array 0 t.sizearray).length, nums') ∧
      ∀ j, nums' j = nums j +
        (sliceEntries t.array 0 t.sizearray).countP (fun e => inSlice j e.1) := by
  obtain ⟨nums', hrun, h⟩ := numusearrayLoop_spec t hle (MAXBITS + 1) 0 0 0 nums rfl (Or.inr rfl)
  rw [Nat.zero_add, Nat.zero_add, Nat.sub_zero] at hrun
  exact ⟨nums', hrun, h⟩

/-- **`numusehash`** counts the keys of the hash part, and those that could go to the array part. -/
theorem numusehash_spec (hc : Core hash t) (nums : ℕ → ℕ) :
    ∃ nums', numusehash t nums = (nums', (nodeEntries t.node).countP (fun e => counted e.1),
        (nodeEntries t.node).length) ∧
      ∀ j, nums' j = nums j + (nodeEntries t.node).countP (fun e => inSlice j e.1) := by
  have hfold : ∀ (L : List ℕ) (nums : ℕ → ℕ) (ause use : ℕ),
      ∃ nums', L.foldl (fun c i => numusehashStep (t.node.node i) c) (nums, ause, use) =
          (nums', ause + (L.filterMap fun i =>
            (t.node.node i).val.bind fun v => (t.node.node i).key.map (·, v)).countP (fun e => counted e.1),
            use + (L.filterMap fun i =>
              (t.node.node i).val.bind fun v => (t.node.node i).key.map (·, v)).length) ∧
        ∀ j, nums' j = nums j + (L.filterMap fun i =>
          (t.node.node i).val.bind fun v => (t.node.node i).key.map (·, v)).countP
            (fun e => inSlice j e.1) := by
    intro L
    induction L with
    | nil => exact fun nums ause use => ⟨nums, rfl, fun _ => rfl⟩
    | cons i L ih =>
      intro nums ause use
      rw [List.foldl_cons, numusehashStep, List.filterMap_cons]
      cases hv : (t.node.node i).val with
      | none => exact ih nums ause use
      | some v =>
        have hkey : (t.node.node i).key ≠ none := fun h => by
          rw [hc.node_good.blank i h] at hv
          exact nomatch hv
        obtain ⟨k, hk⟩ := Option.ne_none_iff_exists'.1 hkey
        rw [hk]
        obtain ⟨hone, hslice⟩ := countint_eq k nums
        obtain ⟨nums', hrun, hnums'⟩ := ih (countint k nums).2 (ause + (countint k nums).1) (use + 1)
        refine ⟨nums', ?_, fun j => ?_⟩
        · simp only [Option.bind_some, Option.map_some, List.countP_cons, List.length_cons]
          rw [hrun, hone, Nat.add_right_comm use, Nat.add_assoc use,
            Nat.add_right_comm ause, Nat.add_assoc ause]
        · simp only [Option.bind_some, Option.map_some, List.countP_cons]
          rw [hnums', hslice]
          omega
  obtain ⟨nums', hrun, h⟩ := hfold (List.range t.node.size).reverse nums 0 0
  rw [Nat.zero_add, Nat.zero_add] at hrun
  exact ⟨nums', hrun, h⟩

/-! ### The sizes are right -/

/-- How many of the keys have a place in an array part of the given size. -/
def inUse (keys : List Key) (size : ℕ) : ℕ := keys.countP fun k => !outside size k

/-- **The size of the array part** for these keys: 0, or a power of two of which more than half is in use;
and no greater power of two is used so much. -/
structure OptimalSize (keys : List Key) (n : ℕ) : Prop where
  pow : n = 0 ∨ ∃ b ≤ MAXBITS, n = 2 ^ b ∧ n / 2 < inUse keys n
  greatest : ∀ b ≤ MAXBITS, 2 ^ b / 2 < inUse keys (2 ^ b) → 2 ^ b ≤ n

/-- Keys that differ have places that differ. -/
theorem inUse_le {keys : List Key} (hkeys : keys.Nodup) {size : ℕ} (hsize : size ≤ MAXASIZE) :
    inUse keys size ≤ size := by
  rw [inUse, List.countP_eq_length_filter]
  have hsub : keys.filter (fun k => !outside size k) ⊆ (List.range size).map fun i => intKey (i + 1) := by
    intro k hk
    have hin : InArray size k := by
      by_contra h
      have hout := (outside_iff hsize).2 h
      have := (List.mem_filter.1 hk).2
      rw [hout] at this
      exact nomatch this
    obtain ⟨i, hi, rfl⟩ := hin
    exact List.mem_map.2 ⟨i, List.mem_range.2 hi, rfl⟩
  have hle := ((hkeys.filter _).subperm hsub).length_le
  rwa [List.length_map, List.length_range] at hle

theorem countP_le_succ (keys : List Key) (i : ℕ) :
    keys.countP (fun k => counted k && decide (ceillog2 (arrayindex k).toNat ≤ i + 1)) =
      keys.countP (fun k => counted k && decide (ceillog2 (arrayindex k).toNat ≤ i)) +
        keys.countP (inSlice (i + 1)) := by
  induction keys with
  | nil => rfl
  | cons k keys ih =>
    rw [List.countP_cons, List.countP_cons, List.countP_cons, ih]
    have hk : (if counted k && decide (ceillog2 (arrayindex k).toNat ≤ i + 1) then 1 else 0) =
        (if counted k && decide (ceillog2 (arrayindex k).toNat ≤ i) then 1 else 0) +
          (if inSlice (i + 1) k then 1 else 0) := by
      rw [inSlice]
      cases counted k with
      | false => rfl
      | true =>
        simp only [Bool.true_and, decide_eq_true_eq]
        split_ifs <;> omega
    omega

/-- The slices up to `i` are the first `2 ^ i` places. -/
theorem cum_inSlice (keys : List Key) {i : ℕ} (hi : i ≤ MAXBITS) :
    cum (fun j => keys.countP (inSlice j)) i = inUse keys (2 ^ i) := by
  have hcum : cum (fun j => keys.countP (inSlice j)) i =
      keys.countP fun k => counted k && decide (ceillog2 (arrayindex k).toNat ≤ i) := by
    clear hi
    induction i with
    | zero =>
      rw [cum, List.range_one, List.map_singleton, List.sum_singleton]
      exact List.countP_congr fun k _ => by simp only [inSlice, Nat.le_zero]
    | succ i ih => rw [cum_succ, ih, countP_le_succ]
  rw [hcum, inUse]
  refine List.countP_congr fun k _ => ?_
  have hmax : 2 ^ i ≤ MAXASIZE := Nat.pow_le_pow_right (by decide) hi
  rw [Bool.and_eq_true, counted_iff, decide_eq_true_eq, outside, Bool.not_not, decide_eq_true_eq, ceillog2_eq,
    Nat.size_le]
  have hpos : 0 < 2 ^ i := Nat.two_pow_pos i
  omega

theorem nodup_sliceEntries (array : List (Option V)) {lo m : ℕ} (h : lo + m < 2 ^ 32) :
    ((sliceEntries array lo m).map Prod.fst).Nodup := by
  rw [List.Nodup, List.pairwise_map]
  refine (List.Pairwise.and_mem.1 List.pairwise_lt_range').filterMap _ ?_
  rintro i j ⟨hi, hj, hlt⟩ e he e' he' hk
  obtain ⟨v, -, rfl⟩ := Option.map_eq_some_iff.1 he
  obtain ⟨v', -, rfl⟩ := Option.map_eq_some_iff.1 he'
  rw [List.mem_range'_1] at hi hj
  have := intKey_injOn (by omega) (by omega) hk
  omega

theorem nodup_nodeEntries {mp : Key → ℕ} {n : Scatter Key V} (hn : n.Good mp) :
    ((nodeEntries n).map Prod.fst).Nodup := by
  rw [List.Nodup, List.pairwise_map]
  refine List.Pairwise.filterMap _ ?_ (List.nodup_reverse.2 List.nodup_range)
  intro i j hij e he e' he' hk
  obtain ⟨v, -, he⟩ := Option.bind_eq_some_iff.1 he
  obtain ⟨k, hkey, rfl⟩ := Option.map_eq_some_iff.1 he
  obtain ⟨v', -, he'⟩ := Option.bind_eq_some_iff.1 he'
  obtain ⟨k', hkey', rfl⟩ := Option.map_eq_some_iff.1 he'
  have hkk : k = k' := hk
  exact hij (hn.distinct i j k hkey (hkk ▸ hkey'))

/-- **No key is there twice.** -/
theorem Table.Core.nodup_entries (hc : Core hash t) : (t.entries.map Prod.fst).Nodup := by
  have hle := hc.sizearray_le
  have hmax : MAXASIZE < 2 ^ 32 := by decide
  rw [entries, List.map_append]
  refine List.Nodup.append (nodup_sliceEntries _ (by omega)) (nodup_nodeEntries hc.node_good) ?_
  intro k hk hk'
  obtain ⟨e, hmem, rfl⟩ := List.mem_map.1 hk
  obtain ⟨e', hmem', hk'⟩ := List.mem_map.1 hk'
  obtain ⟨i, -, hi, he, -⟩ := mem_sliceEntries.1 hmem
  obtain ⟨j, hj, -⟩ := (mem_nodeEntries hc.node_good).1 hmem'
  exact hc.not_key_of_inArray ⟨i, by omega, hk'.trans he⟩ j hj

/-! ### The table after a rehash -/

/-- **The size that `rehash` chooses**, and how many keys it leaves for the hash part. -/
theorem rehash_sizes (hc : Core hash t) (habsent : t.Absent k) :
    ∃ na n, computesizes (fun j => (k :: t.entries.map Prod.fst).countP (inSlice j))
        ((k :: t.entries.map Prod.fst).countP counted) = .ok (na, n) ∧
      OptimalSize (k :: t.entries.map Prod.fst) n ∧ n ≤ MAXASIZE ∧
      na = inUse (k :: t.entries.map Prod.fst) n := by
  set keys := k :: t.entries.map Prod.fst with hkeys
  have hnodup : keys.Nodup := by
    refine List.nodup_cons.2 ⟨fun h => ?_, hc.nodup_entries⟩
    obtain ⟨e, he, rfl⟩ := List.mem_map.1 h
    exact habsent.not_has e.2 (hc.mem_entries.1 he)
  have hcum : ∀ i ≤ MAXBITS, cum (fun j => keys.countP (inSlice j)) i = inUse keys (2 ^ i) :=
    fun i hi => cum_inSlice keys hi
  have hpow : ∀ i ≤ MAXBITS, 2 ^ i ≤ MAXASIZE := fun i hi => Nat.pow_le_pow_right (by decide) hi
  have hout : ∀ i, MAXBITS < i → keys.countP (inSlice i) = 0 := by
    intro i hi
    rw [List.countP_eq_zero]
    intro k' _ h
    rw [inSlice, Bool.and_eq_true, counted_iff, decide_eq_true_eq] at h
    have hle : ceillog2 (arrayindex k').toNat ≤ MAXBITS := ceillog2_le (show _ ≤ MAXASIZE by omega)
    omega
  obtain ⟨na, n, hrun, hbest⟩ := computesizes_spec
    (fun i hi => (hcum i hi).le.trans (inUse_le hnodup (hpow i hi))) (hcum MAXBITS le_rfl) hout
  refine ⟨na, n, hrun, ?_⟩
  obtain ⟨rfl, rfl, hno⟩ | ⟨b, hb, rfl, rfl, hmore, hno⟩ := hbest
  · refine ⟨⟨Or.inl rfl, fun b hb hlt => absurd ?_ (hno b (Nat.lt_succ_of_le hb))⟩, Nat.zero_le _, ?_⟩
    · rw [MoreThanHalf, hcum b hb]
      exact hlt
    · exact (Nat.le_zero.1 (inUse_le hnodup (Nat.zero_le _))).symm
  · have hb' : b ≤ MAXBITS := Nat.le_of_lt_succ hb
    rw [MoreThanHalf, hcum b hb'] at hmore
    refine ⟨⟨Or.inr ⟨b, hb', rfl, hmore⟩, fun j hj hlt => ?_⟩, hpow b hb', hcum b hb'⟩
    by_contra hgt
    have hbj : b < j := by
      by_contra h
      exact hgt (Nat.pow_le_pow_right (by decide) (not_lt.1 h))
    refine hno j hbj (Nat.lt_succ_of_le hj) ?_
    rw [MoreThanHalf, hcum j hj]
    exact hlt

/-- **A table that has been rehashed** for a new key has the entries that it had, the size that is best
for them and the key, and room for it. -/
theorem rehash_spec (d : ℕ) (hg : Good hash t) (habsent : t.Absent k)
    (hlen : t.entries.length < 2 ^ MAXBITS) :
    ∃ t', rehash hash (newkey hash (d + 1)) t k = .ok t' ∧ Good hash t' ∧
      (∀ k' v, t'.Has k' v ↔ t.Has k' v) ∧ OptimalSize (k :: t.entries.map Prod.fst) t'.sizearray ∧
      (t'.Absent k → t'.Room) := by
  set keys := k :: t.entries.map Prod.fst with hkeys
  obtain ⟨na, n, hrun, hopt, hn, hna⟩ := rehash_sizes hg.toCore habsent
  rw [← hkeys] at hrun hopt hna
  obtain ⟨nums₁, harr, hnums₁⟩ := numusearray_spec t hg.sizearray_le fun _ => 0
  obtain ⟨nums₂, hhash, hnums₂⟩ := numusehash_spec hg.toCore nums₁
  obtain ⟨hextra, hnums₃⟩ := countint_eq k nums₂
  have hcountP : ∀ p : Key → Bool, keys.countP p =
      (sliceEntries t.array 0 t.sizearray).countP (fun e => p e.1) +
        (nodeEntries t.node).countP (fun e => p e.1) + (if p k then 1 else 0) := by
    intro p
    rw [hkeys, List.countP_cons, List.countP_map, entries, List.countP_append]
    rfl
  have hslices : (countint k nums₂).2 = fun j => keys.countP (inSlice j) := by
    funext j
    rw [hnums₃, hnums₂, hnums₁, hcountP, Nat.zero_add]
  have hall : (sliceEntries t.array 0 t.sizearray).countP (fun e => counted e.1) =
      (sliceEntries t.array 0 t.sizearray).length := by
    rw [List.countP_eq_length]
    rintro ⟨k', v⟩ he
    obtain ⟨i, -, hi, rfl, -⟩ := mem_sliceEntries.1 he
    have hle := hg.sizearray_le
    have hmax : MAXASIZE < 2 ^ 31 := by decide
    show counted (intKey (i + 1)) = true
    rw [counted_iff, arrayindex_intKey (by omega)]
    omega
  have htotal : (sliceEntries t.array 0 t.sizearray).length +
      (nodeEntries t.node).countP (fun e => counted e.1) + (countint k nums₂).1 = keys.countP counted := by
    rw [hcountP, hall, hextra]
  have hlength : (sliceEntries t.array 0 t.sizearray).length + (nodeEntries t.node).length + 1 =
      keys.length := by
    rw [hkeys, List.length_cons, List.length_map, entries, List.length_append]
  have houtside : keys.length - na = keys.countP (outside n) := by
    have h := List.length_eq_countP_add_countP (outside n) (l := keys)
    rw [hna, inUse]
    have hnot : keys.countP (fun k => !outside n k) = keys.countP fun k => ¬ outside n k = true :=
      List.countP_congr fun k _ => by simp
    omega
  have hcount : keys.countP (outside n) =
      t.entries.countP (fun e => outside n e.1) + (if outside n k then 1 else 0) := by
    rw [hkeys, List.countP_cons, List.countP_map]
    rfl
  have hle : keys.countP (outside n) ≤ 2 ^ MAXBITS := by
    refine List.countP_le_length.trans ?_
    rw [hkeys, List.length_cons, List.length_map]
    exact hlen
  obtain ⟨t', hresize, hg', hsize, hhas, hdummy, hroom, hused⟩ :=
    resize_spec d hg hn hle (hcount ▸ Nat.le_add_right _ _)
  refine ⟨t', ?_, hg', hhas, hsize.symm ▸ hopt, fun habsent' => ?_⟩
  · rw [rehash]
    simp only [harr, hhash, htotal, hslices, hrun]
    show resize hash (newkey hash (d + 1)) t n _ = _
    rw [hlength, houtside]
    exact hresize
  · have hout : outside n k = true := by
      rw [outside_iff hn, ← hsize]
      exact habsent'.not_inArray
    rw [if_pos hout] at hcount
    exact ⟨hdummy (by omega), by omega⟩

/-- **`luaH_set`** comes to a slot of the key, and keeps the entries. -/
theorem luaHSet_spec (d : ℕ) (hg : Good hash t) (hlen : t.entries.length < 2 ^ MAXBITS) (k : Key) :
    ∃ t' s, luaHSet hash (d + 2) t (some k) = .ok (t', s) ∧ Good hash t' ∧ t'.SlotOf k s ∧
      ∀ k' v, t'.Has k' v ↔ t.Has k' v := by
  have hgrow : ∀ u : Table V, Good hash u → u.Absent k → u.entries.length < 2 ^ MAXBITS →
      (∀ k' v, u.Has k' v ↔ t.Has k' v) →
      ∃ t' s, (do
          let u ← rehash hash (newkey hash (d + 1)) u k
          setWith hash (newkey hash (d + 1)) u (some k)) = .ok (t', s) ∧ Good hash t' ∧ t'.SlotOf k s ∧
        ∀ k' v, t'.Has k' v ↔ t.Has k' v := by
    intro u hu habsent hlen' hhas
    obtain ⟨u', hrehash, hg', hhas', -, hroom⟩ := rehash_spec d hu habsent hlen'
    obtain ⟨t', s, hset, hc, hs, hhas'', hkept, -⟩ := setWith_of_room d hg'.toCore hroom
    refine ⟨t', s, ?_, ⟨hc, ?_⟩, hs, fun k' v => ?_⟩
    · rw [hrehash]
      exact hset
    · rw [hkept.length_eq, hkept.sizearray_eq]
      exact hg'.length_eq
    · rw [hhas'', hhas', hhas]
  obtain ⟨s, hget, hs⟩ | ⟨hget, habsent⟩ := hg.get_spec k
  · refine ⟨t, s, ?_, hg, hs, fun _ _ => Iff.rfl⟩
    rw [luaHSet, setWith, hget]
    rfl
  · rw [luaHSet, setWith, hget]
    show ∃ t' s, newkey hash (d + 2) t k = .ok (t', s) ∧ _
    rw [newkey]
    by_cases hd : t.dummy = true
    · simp only [if_pos hd]
      exact hgrow t hg habsent hlen fun _ _ => Iff.rfl
    · have hdummy : t.dummy = false := Bool.eq_false_iff.2 hd
      simp only [if_neg hd]
      obtain ⟨n, i, hins, hp⟩ | ⟨hins, hfull⟩ :=
        Scatter.insert_spec hg.node_good (hg.free hdummy) habsent.no_key
      · rw [hins]
        exact ⟨_, _, rfl, ⟨hg.placed habsent hdummy hp, hg.length_eq⟩, hp.key_eq,
          fun k' v => or_congr Iff.rfl (hp.holds_iff k' v)⟩
      · rw [hins]
        -- every place has a key: the table grows
        refine hgrow _ ⟨⟨hg.le_length, hg.sizearray_le, hg.size_le, ?_, hg.dummy_eq, fun _ => ?_, hg.split⟩, hg.length_eq⟩
          ⟨habsent.not_inArray, habsent.no_key⟩ hlen fun _ _ => Iff.rfl
        · have h := hg.node_good
          exact ⟨h.mp_lt, h.outside, h.blank, h.next_key, h.next_inj, h.ends, h.home, h.reach, h.distinct⟩
        · exact ⟨Nat.zero_le _, fun i _ hi => hfull i hi⟩

end Lua

end OsdCore
