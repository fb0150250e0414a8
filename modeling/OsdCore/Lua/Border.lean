import OsdCore.Lua.TableRuns

/-!
# The length of a table

* `Lua.getn_border` : `luaH_getn` comes to an end, and to an index with a value before an index without.
-/

namespace OsdCore

namespace Lua

open Table

variable {V : Type} {hash : BitVec 32 → BitVec 32} {t : Table V} {f : Key → Option V}

/-- An index with a value, or 0, before one without. -/
structure Border (f : Key → Option V) (b : ℕ) : Prop where
  le : b ≤ MAX_INT
  present : b = 0 ∨ f (intKey b) ≠ none
  absent : f (intKey (b + 1)) = none

theorem Represents.getnumVal (h : Represents hash t f) (j : ℕ) : getnumVal hash t j = .ok (f (intKey j)) :=
  h.rawget (intKey j)

/-- The array part has the values of its keys. -/
theorem Represents.array (h : Represents hash t f) {i : ℕ} (hi : i < t.sizearray) :
    t.array.getD i none = f (intKey (i + 1)) := by
  apply Option.ext
  intro v
  rw [← h.has_iff, ← h.good.val_eq_some_iff (s := .array i) ⟨hi, rfl⟩]
  rfl

/-- The binary search in the array part. -/
theorem arraySearch_border (h : Represents hash t f) (i j : ℕ) (hij : i < j) (hj : j ≤ t.sizearray)
    (hpresent : i = 0 ∨ f (intKey i) ≠ none) (habsent : f (intKey j) = none) :
    Border f (arraySearch t i j) := by
  have hle := h.good.sizearray_le
  have hmax : MAXASIZE ≤ MAX_INT := by decide
  induction i, j using arraySearch.induct t with
  | case1 i j hlt hnil ih =>
    rw [arraySearch, if_pos hlt, if_pos hnil]
    rw [h.array (by omega), Nat.sub_add_cancel (by omega), Option.isNone_iff_eq_none] at hnil
    exact ih (by omega) (by omega) hpresent hnil
  | case2 i j hlt hnil ih =>
    rw [arraySearch, if_pos hlt, if_neg hnil]
    rw [h.array (by omega), Nat.sub_add_cancel (by omega), Option.isNone_iff_eq_none] at hnil
    exact ih (by omega) hj (Or.inr hnil) habsent
  | case3 i j hlt =>
    rw [arraySearch, if_neg hlt]
    obtain rfl : j = i + 1 := by omega
    exact ⟨by omega, hpresent, habsent⟩

/-- The binary search between a key that is there and one that is not. -/
theorem numSearch_border (h : Represents hash t f) (n i j : ℕ) (hn : j - i ≤ n) (hij : i < j)
    (hj : j ≤ MAX_INT) (hpresent : i = 0 ∨ f (intKey i) ≠ none) (habsent : f (intKey j) = none) :
    ∃ b, numSearch hash t i j = .ok b ∧ Border f b := by
  induction n generalizing i j with
  | zero => omega
  | succ n ih =>
    rw [numSearch]
    split_ifs with hlt
    · rw [h.getnumVal]
      cases hm : f (intKey ((i + j) / 2)) with
      | none => exact ih i ((i + j) / 2) (by omega) (by omega) (by omega) hpresent hm
      | some v =>
        exact ih ((i + j) / 2) j (by omega) (by omega) hj (Or.inr (by rw [hm]; exact nofun)) habsent
    · obtain rfl : j = i + 1 := by omega
      exact ⟨i, rfl, by omega, hpresent, habsent⟩

/-- A table has no more integer keys than places. -/
theorem exists_absent (h : Represents hash t f) :
    ∃ i, 0 < i ∧ i ≤ t.sizearray + t.node.size + 1 ∧ f (intKey i) = none := by
  have hle := h.good.sizearray_le
  have hsize := h.good.size_le
  have hmax : MAXASIZE = 2 ^ 26 := rfl
  have hbits : 2 ^ MAXBITS = 2 ^ 26 := rfl
  by_contra hno
  push Not at hno
  have hsub : (List.range (t.sizearray + t.node.size + 1)).map (fun i => intKey (i + 1)) ⊆
      t.entries.map Prod.fst := by
    intro k hk
    obtain ⟨i, hi, rfl⟩ := List.mem_map.1 hk
    rw [List.mem_range] at hi
    obtain ⟨v, hv⟩ := Option.ne_none_iff_exists'.1 (hno (i + 1) (Nat.succ_pos i) (by omega))
    exact List.mem_map.2 ⟨_, h.good.mem_entries.2 ((h.has_iff _ v).2 hv), rfl⟩
  have hnodup : ((List.range (t.sizearray + t.node.size + 1)).map fun i => intKey (i + 1)).Nodup := by
    refine List.Nodup.map_on (fun i hi j hj he => ?_) List.nodup_range
    rw [List.mem_range] at hi hj
    have := intKey_injOn (by omega) (by omega) he
    omega
  have hlen := (hnodup.subperm hsub).length_le
  have hslice : (sliceEntries t.array 0 t.sizearray).length ≤ t.sizearray := by
    have := List.length_filterMap_le (fun i => (t.array.getD i none).map (intKey (i + 1), ·))
      (List.range' 0 t.sizearray)
    rwa [List.length_range'] at this
  have hnode := length_nodeEntries_le t.node
  rw [List.length_map, List.length_range, List.length_map, entries, List.length_append] at hlen
  omega

/-- The linear search comes to the first key that is absent. -/
theorem linearSearch_border (h : Represents hash t f) (rest i : ℕ) (hi : 0 < i)
    (hrest : t.sizearray + t.node.size + 2 ≤ i + rest) (hpresent : ∀ j, 0 < j → j < i → f (intKey j) ≠ none) :
    ∃ b, linearSearch hash t rest i = .ok b ∧ Border f b := by
  have hle := h.good.sizearray_le
  have hsize := h.good.size_le
  have hmax : MAXASIZE + 2 ^ MAXBITS + 1 ≤ MAX_INT := by decide
  obtain ⟨a, ha, hale, hnone⟩ := exists_absent h
  have hia : i ≤ a := by
    by_contra hlt
    exact hpresent a ha (not_le.1 hlt) hnone
  induction rest generalizing i with
  | zero => omega
  | succ rest ih =>
    rw [linearSearch, h.getnumVal]
    cases hv : f (intKey i) with
    | none =>
      refine ⟨i - 1, rfl, by omega, ?_, by rw [Nat.sub_add_cancel hi, hv]⟩
      obtain h1 | h1 : i - 1 = 0 ∨ 0 < i - 1 := by omega
      · exact Or.inl h1
      · exact Or.inr (hpresent _ h1 (by omega))
    | some v =>
      have hne : i ≠ a := fun he => by rw [he, hnone] at hv; exact nomatch hv
      refine ih (i + 1) (Nat.succ_pos i) (by omega) (fun j hj hlt => ?_) (by omega)
      obtain hlt | rfl := Nat.lt_succ_iff_lt_or_eq.1 hlt
      · exact hpresent j hj hlt
      · rw [hv]
        exact nofun

/-- The search that doubles comes to a key that is absent before it runs out of integers. -/
theorem doubleSearch_border (h : Represents hash t f) (rest i j : ℕ) (hij : i < j) (hj : j ≤ MAX_INT)
    (hrest : 2 ^ 31 ≤ j * 2 ^ rest) (hpresent : i = 0 ∨ f (intKey i) ≠ none) :
    ∃ b, doubleSearch hash t rest i j = .ok b ∧ Border f b := by
  have hmax : MAX_INT < 2 ^ 31 := by decide
  induction rest generalizing i j with
  | zero => omega
  | succ rest ih =>
    rw [doubleSearch, h.getnumVal]
    cases hv : f (intKey j) with
    | none => exact numSearch_border h (j - i) i j le_rfl hij hj hpresent hv
    | some v =>
      by_cases hbig : MAX_INT < 2 * j
      · obtain ⟨b, hb, hborder⟩ := linearSearch_border h (t.sizearray + t.node.size + 1) 1 Nat.one_pos
          (by omega) (fun j hj hlt => by omega)
        exact ⟨b, by rw [← hb]; exact if_pos hbig, hborder⟩
      · have hdouble : 2 ^ 31 ≤ 2 * j * 2 ^ rest := by
          rw [pow_succ] at hrest
          rw [Nat.mul_comm 2 j, Nat.mul_assoc, Nat.mul_comm 2]
          exact hrest
        obtain ⟨b, hb, hborder⟩ := ih j (2 * j) (by omega) (by omega) hdouble
          (Or.inr (by rw [hv]; exact nofun))
        exact ⟨b, by rw [← hb]; exact if_neg hbig, hborder⟩

theorem Represents.getn (h : Represents hash t f) : ∃ b, luaHGetn hash t = .ok b ∧ Border f b := by
  have hle := h.good.sizearray_le
  have hmax : MAXASIZE + 1 ≤ MAX_INT := by decide
  rw [luaHGetn]
  have hlast : 0 < t.sizearray → t.array.getD (t.sizearray - 1) none = f (intKey t.sizearray) := by
    intro hpos
    rw [h.array (by omega), Nat.sub_add_cancel hpos]
  by_cases hnil : 0 < t.sizearray ∧ (t.array.getD (t.sizearray - 1) none).isNone
  · simp only [if_pos hnil]
    obtain ⟨hpos, hnil⟩ := hnil
    rw [hlast hpos, Option.isNone_iff_eq_none] at hnil
    exact ⟨_, rfl, arraySearch_border h 0 t.sizearray hpos le_rfl (Or.inl rfl) hnil⟩
  · have hpresent : t.sizearray = 0 ∨ f (intKey t.sizearray) ≠ none := by
      refine or_iff_not_imp_left.2 fun h0 hnone => hnil ⟨Nat.pos_of_ne_zero h0, ?_⟩
      rw [hlast (Nat.pos_of_ne_zero h0), hnone]
      rfl
    simp only [if_neg hnil]
    split_ifs with hdummy
    · refine ⟨_, rfl, by omega, hpresent, ?_⟩
      -- there is no hash part that could have the next key
      by_contra hne
      obtain ⟨v, hv⟩ := Option.ne_none_iff_exists'.1 hne
      obtain ⟨i, hi, he, -⟩ | ⟨i, hi, -⟩ := (h.has_iff _ v).2 hv
      · have hmax' : MAX_INT < 2 ^ 32 := by decide
        have := intKey_injOn (by omega) (by omega) he
        omega
      · rw [h.good.dummy_eq hdummy i] at hi
        exact nomatch hi
    · exact doubleSearch_border h 32 _ _ (Nat.lt_succ_self _) (by omega) (by omega) hpresent

/-- **The length of a table** that has been made by any run is a border of it. -/
theorem getn_border (hash : BitVec 32 → BitVec 32) (d : ℕ) {narray nhash : ℕ} (hna : narray ≤ MAXASIZE)
    (hnh : nhash ≤ 2 ^ MAXBITS) (ops : List (TableOp V)) (hfits : ∀ op ∈ ops, op.Fits)
    (hlen : ops.length ≤ 2 ^ MAXBITS) :
    ∃ t b, runTable hash (d + 2) narray nhash ops = .ok t ∧ luaHGetn hash t = .ok b ∧ b ≤ MAX_INT ∧
      (b = 0 ∨ mapOf ops (intKey b) ≠ none) ∧ mapOf ops (intKey (b + 1)) = none := by
  obtain ⟨t, hrun, h, -⟩ := runTable_spec hash d hna hnh ops hfits hlen
  obtain ⟨b, hb, hborder⟩ := h.getn
  exact ⟨t, b, hrun, hb, hborder.le, hborder.present, hborder.absent⟩

theorem getn_border_hole :
    ∃ t b, runTable id 2 4 0 [.rawseti 1 (some 10), .rawseti 2 (some 20), .rawseti 4 (some 40)] = .ok t ∧
      luaHGetn id t = .ok b ∧ b ≤ MAX_INT ∧
      (b = 0 ∨ mapOf [.rawseti 1 (some 10), .rawseti 2 (some 20), .rawseti 4 (some 40)] (intKey b) ≠ none) ∧
      mapOf [.rawseti 1 (some 10), .rawseti 2 (some 20), .rawseti 4 (some 40)] (intKey (b + 1)) = none :=
  getn_border id 0 (show 4 ≤ MAXASIZE by decide) (Nat.zero_le _) _
    (by
      intro op hop
      simp only [List.mem_cons, List.not_mem_nil, or_false] at hop
      obtain rfl | rfl | rfl := hop <;> exact trivial)
    (by decide)

end Lua

end OsdCore
