import OsdCore.Lua.TableGood

/-!
# A table is rebuilt

* `Lua.newkey_of_room` : a table with room gets a slot for a new key, and keeps its entries.
* `Lua.assignAll_spec` : entries that are put in one after the other, while there is room for them.
* `Lua.resize_spec` : a table that is rebuilt with room enough has the entries that it had before.
-/

namespace OsdCore

namespace Lua

open Table

variable {V : Type} {hash : BitVec 32 → BitVec 32} {t t' : Table V} {k : Key}

/-! ### Logarithms -/

theorem log2_getD {x : ℕ} (hx : x < 256) : log2.getD x 0 = Nat.size x := by
  have h : ∀ x < 256, log2.getD x 0 = Nat.size x := by decide +kernel
  exact h x hx

theorem log2Loop_eq (l : ℤ) (x : ℕ) : log2Loop l x = l + Nat.size x := by
  induction x using Nat.strong_induction_on generalizing l with
  | _ x ih =>
    rw [log2Loop]
    split_ifs with h
    · have hlt : x >>> 8 < x := by
        rw [Nat.shiftRight_eq_div_pow]
        exact Nat.div_lt_self (by omega) (by decide)
      have hsize : Nat.size x = Nat.size (x >>> 8) + 8 := by
        have hne : x >>> 8 ≠ 0 := by
          rw [Nat.shiftRight_eq_div_pow]
          omega
        apply le_antisymm
        · rw [Nat.size_le, pow_add]
          have := Nat.lt_size_self (x >>> 8)
          rw [Nat.shiftRight_eq_div_pow] at this ⊢
          omega
        · have hpos : 0 < Nat.size (x >>> 8) := Nat.size_pos.2 (Nat.pos_of_ne_zero hne)
          have hle : 2 ^ (Nat.size (x >>> 8) - 1) ≤ x >>> 8 := Nat.lt_size.1 (by omega)
          have hx : 2 ^ (Nat.size (x >>> 8) - 1 + 8) ≤ x := by
            rw [pow_add]
            rw [Nat.shiftRight_eq_div_pow] at hle ⊢
            omega
          have := Nat.lt_size.2 hx
          omega
      rw [ih _ hlt, hsize]
      omega
    · rw [log2_getD (by omega)]

/-- `ceillog2` is the number of bits of what is before it. -/
theorem ceillog2_eq (x : ℕ) : ceillog2 x = Nat.size (x - 1) := by
  rw [ceillog2, luaOLog2, log2Loop_eq]
  omega

theorem le_two_pow_ceillog2 (x : ℕ) : x ≤ 2 ^ ceillog2 x := by
  have := Nat.lt_size_self (x - 1)
  rw [ceillog2_eq]
  omega

theorem ceillog2_le {x e : ℕ} (h : x ≤ 2 ^ e) : ceillog2 x ≤ e := by
  have hpos : 0 < 2 ^ e := Nat.two_pow_pos e
  rw [ceillog2_eq, Nat.size_le]
  omega

/-! ### Keys of the array part -/

/-- The key has no place in an array part of the given size. -/
def outside (size : ℕ) (k : Key) : Bool := !(decide (0 < arrayindex k ∧ arrayindex k ≤ size))

theorem arrayindex_intKey {i : ℕ} (hi : i < 2 ^ 31) : arrayindex (intKey i) = i := by
  rw [intKey, arrayindex, BitVec.toInt_ofNat']
  exact Int.bmod_eq_of_le (by omega) (by omega)

theorem inArray_iff {size : ℕ} (hsize : size ≤ MAXASIZE) :
    InArray size k ↔ 0 < arrayindex k ∧ arrayindex k ≤ size := by
  have hmax : MAXASIZE = 2 ^ 26 := rfl
  constructor
  · rintro ⟨i, hi, rfl⟩
    rw [arrayindex_intKey (by omega)]
    omega
  · cases k with
    | number n =>
      rintro ⟨hpos, hle⟩
      have hnat : n.toInt = n.toNat := by
        rw [BitVec.toInt_eq_toNat_cond]
        split_ifs with h
        · rfl
        · rw [arrayindex, BitVec.toInt_eq_toNat_cond, if_neg h] at hpos
          have := n.isLt
          omega
      rw [arrayindex, hnat] at hpos hle
      refine ⟨n.toNat - 1, by omega, ?_⟩
      rw [Nat.sub_add_cancel (by omega), intKey, BitVec.ofNat_toNat, BitVec.setWidth_eq]
    | string s => exact fun h => absurd h.1 (show ¬ (0 : ℤ) < -1 by decide)
    | boolean b => exact fun h => absurd h.1 (show ¬ (0 : ℤ) < -1 by decide)
    | lightuserdata p => exact fun h => absurd h.1 (show ¬ (0 : ℤ) < -1 by decide)
    | object tt p => exact fun h => absurd h.1 (show ¬ (0 : ℤ) < -1 by decide)

theorem outside_iff {size : ℕ} (hsize : size ≤ MAXASIZE) : outside size k = true ↔ ¬ InArray size k := by
  rw [inArray_iff hsize, outside, Bool.not_eq_true', decide_eq_false_iff_not]

/-! ### A slot for a new key -/

/-- What stays as it is while keys are put in. -/
structure Kept (t t' : Table V) : Prop where
  sizearray_eq : t'.sizearray = t.sizearray
  length_eq : t'.array.length = t.array.length
  beyond : ∀ i, t.sizearray ≤ i → t'.array.getD i none = t.array.getD i none
  size_eq : t'.node.size = t.node.size
  dummy_eq : t'.dummy = t.dummy

theorem Kept.refl (t : Table V) : Kept t t := ⟨rfl, rfl, fun _ _ => rfl, rfl, rfl⟩

theorem Kept.trans {t'' : Table V} (h : Kept t t') (h' : Kept t' t'') : Kept t t'' where
  sizearray_eq := h'.sizearray_eq.trans h.sizearray_eq
  length_eq := h'.length_eq.trans h.length_eq
  beyond i hi := (h'.beyond i (h.sizearray_eq ▸ hi)).trans (h.beyond i hi)
  size_eq := h'.size_eq.trans h.size_eq
  dummy_eq := h'.dummy_eq.trans h.dummy_eq

/-- **A table with a new key**, in the place that the insertion found. -/
theorem Table.Core.placed (hc : Core hash t) (habsent : t.Absent k) (hdummy : t.dummy = false)
    {n : Scatter Key V} {i : ℕ}
    (hp : Scatter.Placed (mainposition hash t.node.size) t.node k n i) :
    Core hash { t with node := n } where
  le_length := hc.le_length
  sizearray_le := hc.sizearray_le
  size_le := hp.size_eq.trans_le hc.size_le
  node_good := by
    rw [show ({ t with node := n } : Table V).node.size = t.node.size from hp.size_eq]
    exact hp.good
  dummy_eq h := by
    rw [show ({ t with node := n } : Table V).dummy = t.dummy from rfl, hdummy] at h
    exact nomatch h
  free _ := hp.free
  split j m hj := by
    obtain he | ⟨j', hj'⟩ := hp.old_key j _ hj
    · by_contra hlt
      exact habsent.not_inArray ⟨(m - 1).toNat, not_le.1 hlt, by rw [← he, intKey, ofNat_sub_one]⟩
    · exact hc.split j' m hj'

/-- **With room for it** a new key gets a slot. -/
theorem newkey_of_room (d : ℕ) (hc : Core hash t) (habsent : t.Absent k) (hroom : t.Room) :
    ∃ n i, newkey hash (d + 1) t k = .ok ({ t with node := n }, .node i) ∧
      Scatter.Placed (mainposition hash t.node.size) t.node k n i := by
  obtain ⟨n, i, hins, hp⟩ | ⟨-, hfull⟩ :=
    Scatter.insert_spec hc.node_good (hc.free hroom.not_dummy) habsent.no_key
  · refine ⟨n, i, ?_, hp⟩
    rw [newkey, hins]
    exact if_neg (by rw [hroom.not_dummy]; exact nofun)
  · -- a table in which every place has a key has no room
    have hused : t.node.used = Finset.range t.node.size := by
      ext j
      rw [Scatter.mem_used, Finset.mem_range]
      exact ⟨And.left, fun h => ⟨h, hfull j h⟩⟩
    have hlt := hroom.used_lt
    rw [hused, Finset.card_range] at hlt
    exact absurd hlt (lt_irrefl _)

theorem used_store (t : Table V) (s : Slot) (v : Option V) : (t.store s v).node.used = t.node.used := by
  cases s with
  | array i => rfl
  | node i => exact Scatter.used_setVal _ _ _

theorem kept_store {s : Slot} (hs : t.SlotOf k s) (v : Option V) :
    Kept t (t.store s v) := by
  cases s with
  | array i =>
    refine ⟨rfl, List.length_set, fun j hj => ?_, rfl, rfl⟩
    have hne : i ≠ j := fun h => (h ▸ hj).not_gt hs.1
    show (t.array.set i v).getD j none = _
    rw [List.getD_eq_getElem?_getD, List.getElem?_set_ne hne, ← List.getD_eq_getElem?_getD]
  | node i => exact ⟨rfl, rfl, fun _ _ => rfl, rfl, rfl⟩

/-- An assignment: `luaH_set`, and the value stored. -/
def assign (hash : BitVec 32 → BitVec 32) (new : Table V → Key → Except Error (Table V × Slot))
    (t : Table V) (e : Key × V) : Except Error (Table V) := do
  let (t, p) ← setWith hash new t (some e.1)
  .ok (t.store p (some e.2))

/-- **`luaH_set`, when there is room**: a slot of the key, and the entries that there were. -/
theorem setWith_of_room (d : ℕ) (hc : Core hash t) (hroom : t.Absent k → t.Room) :
    ∃ t' s, setWith hash (newkey hash (d + 1)) t (some k) = .ok (t', s) ∧ Core hash t' ∧
      t'.SlotOf k s ∧ (∀ k' w, t'.Has k' w ↔ t.Has k' w) ∧ Kept t t' ∧
      t'.node.used.card ≤ t.node.used.card + (if outside t.sizearray k then 1 else 0) := by
  obtain ⟨s, hget, hs⟩ | ⟨hget, habsent⟩ := hc.get_spec k
  · refine ⟨t, s, ?_, hc, hs, fun _ _ => Iff.rfl, Kept.refl t, Nat.le_add_right _ _⟩
    rw [setWith, hget]
    rfl
  · have hr := hroom habsent
    obtain ⟨n, i, hnew, hp⟩ := newkey_of_room d hc habsent hr
    refine ⟨{ t with node := n }, .node i, ?_, hc.placed habsent hr.not_dummy hp, hp.key_eq, ?_,
      ⟨rfl, rfl, fun _ _ => rfl, hp.size_eq, rfl⟩, ?_⟩
    · rw [setWith, hget]
      exact hnew
    · intro k' w
      exact or_congr Iff.rfl (hp.holds_iff k' w)
    · rw [if_pos ((outside_iff hc.sizearray_le).2 habsent.not_inArray)]
      exact hp.used_le

/-- **An assignment, when there is room**, changes the entry of its key only. -/
theorem assign_of_room (d : ℕ) (hc : Core hash t) (v : V) (hroom : t.Absent k → t.Room) :
    ∃ t', assign hash (newkey hash (d + 1)) t (k, v) = .ok t' ∧ Core hash t' ∧ Kept t t' ∧
      (∀ k' w, t'.Has k' w ↔ k' = k ∧ v = w ∨ k' ≠ k ∧ t.Has k' w) ∧
      t'.node.used.card ≤ t.node.used.card + (if outside t.sizearray k then 1 else 0) := by
  obtain ⟨u, s, hset, hcore, hs, hhas, hkept, hused⟩ := setWith_of_room d hc hroom
  obtain ⟨hcore', hhas'⟩ := hcore.store_spec hs (some v)
  refine ⟨u.store s (some v), ?_, hcore', hkept.trans (kept_store hs _), fun k' w => ?_, ?_⟩
  · rw [assign, hset]
    rfl
  · rw [hhas', Option.some_inj, hhas]
  · rw [used_store]
    exact hused

/-! ### Entries that are put in one after the other -/

/-- **Entries put in** one after the other, of which those outside the array part have room. -/
theorem assignAll_spec (d : ℕ) (E : List (Key × V)) (hc : Core hash t)
    (hE : ∀ e ∈ E, ∀ e' ∈ E, e.1 = e'.1 → e.2 = e'.2)
    (hroom : E.countP (fun e => outside t.sizearray e.1) ≠ 0 → t.dummy = false)
    (hcount : t.node.used.card + E.countP (fun e => outside t.sizearray e.1) ≤ t.node.size) :
    ∃ t', E.foldlM (assign hash (newkey hash (d + 1))) t = .ok t' ∧ Core hash t' ∧ Kept t t' ∧
      (∀ k w, t'.Has k w ↔ (k, w) ∈ E ∨ (∀ e ∈ E, e.1 ≠ k) ∧ t.Has k w) ∧
      t'.node.used.card ≤ t.node.used.card + E.countP (fun e => outside t.sizearray e.1) := by
  induction E generalizing t with
  | nil =>
    refine ⟨t, rfl, hc, Kept.refl t, fun k w => ?_, Nat.le_add_right _ _⟩
    simp
  | cons e E ih =>
    obtain ⟨key, v⟩ := e
    rw [List.countP_cons] at hroom hcount
    have hr : t.Absent key → t.Room := by
      intro habsent
      have hout := (outside_iff hc.sizearray_le).2 habsent.not_inArray
      rw [if_pos hout] at hroom hcount
      exact ⟨hroom (by omega), by omega⟩
    obtain ⟨t₁, hassign, hc₁, hkept, hhas, hused⟩ := assign_of_room d hc v hr
    have hsz := hkept.sizearray_eq
    obtain ⟨t', hfold, hc', hkept', hhas', hused'⟩ := ih hc₁
      (fun e he e' he' => hE e (List.mem_cons_of_mem _ he) e' (List.mem_cons_of_mem _ he'))
      (by rw [hsz, hkept.dummy_eq]; exact fun h => hroom (by omega))
      (by rw [hsz, hkept.size_eq]; split_ifs at hused hcount <;> omega)
    refine ⟨t', ?_, hc', hkept.trans hkept', fun k w => ?_, ?_⟩
    · rw [List.foldlM_cons, hassign]
      exact hfold
    · rw [hhas', hhas, List.mem_cons, Prod.mk.injEq]
      constructor
      · rintro (h | ⟨h, ⟨rfl, rfl⟩ | ⟨hne, h'⟩⟩)
        · exact Or.inl (Or.inr h)
        · exact Or.inl (Or.inl ⟨rfl, rfl⟩)
        · refine Or.inr ⟨fun e he => ?_, h'⟩
          obtain rfl | he := List.mem_cons.1 he
          · exact fun h => hne h.symm
          · exact h e he
      · rintro ((⟨rfl, rfl⟩ | h) | ⟨h, h'⟩)
        · by_cases hin : ∃ e ∈ E, e.1 = k
          · obtain ⟨e, he, rfl⟩ := hin
            have hv : e.2 = w := hE e (List.mem_cons_of_mem _ he) _ List.mem_cons_self rfl
            exact Or.inl (hv ▸ he)
          · exact Or.inr ⟨fun e he hek => hin ⟨e, he, hek⟩, Or.inl ⟨rfl, rfl⟩⟩
        · exact Or.inl h
        · exact Or.inr ⟨fun e he => h e (List.mem_cons_of_mem _ he),
            Or.inr ⟨fun he => h _ List.mem_cons_self he.symm, h'⟩⟩
    · rw [List.countP_cons]
      rw [hsz] at hused'
      split_ifs at hused ⊢ <;> omega

/-! ### The entries of a table -/

/-- The entries of `m` places of an array, from `lo` on. -/
def sliceEntries (array : List (Option V)) (lo m : ℕ) : List (Key × V) :=
  (List.range' lo m).filterMap fun i => (array.getD i none).map (intKey (i + 1), ·)

/-- The entries of a node vector, from its end on. -/
def nodeEntries (n : Scatter Key V) : List (Key × V) :=
  (List.range n.size).reverse.filterMap fun i =>
    (n.node i).val.bind fun v => (n.node i).key.map (·, v)

/-- The entries of a table. -/
def Table.entries (t : Table V) : List (Key × V) :=
  sliceEntries t.array 0 t.sizearray ++ nodeEntries t.node

/-- **What holds of a table** between two calls. -/
structure Table.Good (hash : BitVec 32 → BitVec 32) (t : Table V) : Prop extends Core hash t where
  length_eq : t.array.length = t.sizearray

theorem mem_sliceEntries {array : List (Option V)} {lo m : ℕ} {v : V} :
    (k, v) ∈ sliceEntries array lo m ↔
      ∃ i, lo ≤ i ∧ i < lo + m ∧ k = intKey (i + 1) ∧ array.getD i none = some v := by
  rw [sliceEntries, List.mem_filterMap]
  constructor
  · rintro ⟨i, hi, h⟩
    obtain ⟨w, hw, he⟩ := Option.map_eq_some_iff.1 h
    obtain ⟨hlo, hlt⟩ := List.mem_range'_1.1 hi
    obtain ⟨rfl, rfl⟩ := Prod.mk.inj he
    exact ⟨i, hlo, hlt, rfl, hw⟩
  · rintro ⟨i, hlo, hlt, rfl, hv⟩
    exact ⟨i, List.mem_range'_1.2 ⟨hlo, hlt⟩, by rw [hv]; rfl⟩

theorem mem_nodeEntries {mp : Key → ℕ} {n : Scatter Key V} (hn : n.Good mp) {v : V} :
    (k, v) ∈ nodeEntries n ↔ n.Holds k v := by
  rw [nodeEntries, List.mem_filterMap]
  constructor
  · rintro ⟨i, -, h⟩
    obtain ⟨w, hw, h⟩ := Option.bind_eq_some_iff.1 h
    obtain ⟨k', hk', he⟩ := Option.map_eq_some_iff.1 h
    obtain ⟨rfl, rfl⟩ := Prod.mk.inj he
    exact ⟨i, hk', hw⟩
  · rintro ⟨i, hk, hv⟩
    have hlt : i < n.size := hn.lt_of_key (by rw [hk]; exact nofun)
    exact ⟨i, List.mem_reverse.2 (List.mem_range.2 hlt), by rw [hv, hk]; rfl⟩

theorem Table.Core.mem_entries (hc : Core hash t) {v : V} : (k, v) ∈ t.entries ↔ t.Has k v := by
  rw [entries, List.mem_append, mem_sliceEntries, mem_nodeEntries hc.node_good, Has]
  refine or_congr ⟨?_, ?_⟩ Iff.rfl
  · rintro ⟨i, -, hlt, h⟩
    exact ⟨i, by omega, h⟩
  · rintro ⟨i, hlt, h⟩
    exact ⟨i, Nat.zero_le i, by omega, h⟩

/-- A key has one value at most. -/
theorem Table.Core.has_unique (hc : Core hash t) {v w : V} (h : t.Has k v) (h' : t.Has k w) : v = w := by
  obtain ⟨s, -, hs⟩ := hc.read_get k
  have := (hs v).2 h
  rw [(hs w).2 h'] at this
  exact (Option.some.inj this).symm

/-- The loop over the slice that vanishes puts its entries in. -/
theorem reinsertArray_fold (d : ℕ) (array : List (Option V)) (L : List ℕ) (hc : Core hash t)
    (hL : ∀ i ∈ L, t.sizearray ≤ i) (harray : ∀ i ∈ L, t.array.getD i none = array.getD i none)
    (hroom : (L.filterMap fun i => (array.getD i none).map (intKey (i + 1), ·)).countP
      (fun e => outside t.sizearray e.1) ≠ 0 → t.dummy = false)
    (hcount : t.node.used.card + (L.filterMap fun i => (array.getD i none).map (intKey (i + 1), ·)).countP
      (fun e => outside t.sizearray e.1) ≤ t.node.size) :
    L.foldlM (reinsertArray hash (newkey hash (d + 1))) t =
      (L.filterMap fun i => (array.getD i none).map (intKey (i + 1), ·)).foldlM
        (assign hash (newkey hash (d + 1))) t := by
  induction L generalizing t with
  | nil => rfl
  | cons i L ih =>
    have hi := harray i List.mem_cons_self
    rw [List.foldlM_cons, List.filterMap_cons, reinsertArray, hi]
    rw [List.filterMap_cons] at hroom hcount
    cases hv : array.getD i none with
    | none =>
      rw [hv] at hroom hcount
      exact ih hc (fun j hj => hL j (List.mem_cons_of_mem _ hj))
        (fun j hj => harray j (List.mem_cons_of_mem _ hj)) hroom hcount
    | some v =>
      rw [hv] at hroom hcount
      simp only [Option.map_some, List.countP_cons] at hroom hcount ⊢
      rw [List.foldlM_cons]
      have hr : t.Absent (intKey (i + 1)) → t.Room := by
        intro habsent
        have hout := (outside_iff hc.sizearray_le).2 habsent.not_inArray
        rw [if_pos hout] at hroom hcount
        exact ⟨hroom (by omega), by omega⟩
      obtain ⟨t₁, hassign, hc₁, hkept, -, hused⟩ := assign_of_room d hc v hr
      have hsz := hkept.sizearray_eq
      have hsame : (do
          let (t, p) ← setnumWith hash (newkey hash (d + 1)) t (BitVec.ofNat 32 (i + 1))
          Except.ok (t.store p (some v)) : Except Error (Table V)) =
            assign hash (newkey hash (d + 1)) t (intKey (i + 1), v) := rfl
      rw [hsame, hassign]
      refine ih hc₁ (fun j hj => ?_) (fun j hj => ?_) ?_ ?_
      · rw [hsz]
        exact hL j (List.mem_cons_of_mem _ hj)
      · rw [hkept.beyond j (hL j (List.mem_cons_of_mem _ hj))]
        exact harray j (List.mem_cons_of_mem _ hj)
      · rw [hsz, hkept.dummy_eq]
        exact fun h => hroom (by omega)
      · rw [hsz, hkept.size_eq]
        split_ifs at hused hcount <;> omega

/-- The loop over the old node vector puts its entries in. -/
theorem reinsertNode_fold (new : Table V → Key → Except Error (Table V × Slot)) {nold : Scatter Key V}
    (hn : ∀ i, (nold.node i).val ≠ none → (nold.node i).key ≠ none) (L : List ℕ) (t : Table V) :
    L.foldlM (fun t i => reinsertNode hash new t (nold.node i)) t =
      (L.filterMap fun i => (nold.node i).val.bind fun v => (nold.node i).key.map (·, v)).foldlM
        (assign hash new) t := by
  induction L generalizing t with
  | nil => rfl
  | cons i L ih =>
    rw [List.foldlM_cons, List.filterMap_cons, reinsertNode]
    cases hv : (nold.node i).val with
    | none => exact ih t
    | some v =>
      obtain ⟨k, hk⟩ := Option.ne_none_iff_exists'.1 (hn i (by rw [hv]; exact nofun))
      rw [hk]
      simp only [Option.bind_some, Option.map_some, List.foldlM_cons]
      exact bind_congr fun t' => ih t'

/-! ### The new vectors -/

theorem good_dummynode : (dummynode : Scatter Key V).Good (mainposition hash 1) where
  mp_lt := fun k => mainposition_lt hash Nat.one_pos k
  outside _ _ := rfl
  blank _ _ := rfl
  next_key _ _ h := nomatch h
  next_inj _ _ _ h := nomatch h
  ends := ⟨fun _ => 0, fun _ _ h => nomatch h⟩
  home _ _ h := nomatch h
  reach _ _ h := nomatch h
  distinct _ _ _ h := nomatch h

/-- **A new node vector** is empty, and has room for as many keys as it was asked for. -/
theorem setnodevector_spec (hash : BitVec 32 → BitVec 32) {size : ℕ} (hsize : size ≤ 2 ^ MAXBITS) (t : Table V)
    (hle : t.sizearray ≤ t.array.length) (hmax : t.sizearray ≤ MAXASIZE) :
    ∃ n dummy, setnodevector t size = .ok { t with node := n, dummy } ∧
      Core hash { t with node := n, dummy } ∧ (∀ i, n.node i = {}) ∧ (size ≠ 0 → dummy = false) ∧
      size ≤ n.size := by
  rw [setnodevector]
  split_ifs with h0 hbits
  · refine ⟨dummynode, true, rfl, ⟨hle, hmax, show 1 ≤ 2 ^ MAXBITS by decide, good_dummynode, fun _ _ => rfl, (nomatch ·),
      fun _ _ h => nomatch h⟩, fun _ => rfl, fun h => absurd h0 h, by omega⟩
  · exact absurd (ceillog2_le hsize) hbits.not_ge
  · refine ⟨.empty (2 ^ ceillog2 size), false, rfl,
      ⟨hle, hmax, Nat.pow_le_pow_right (by decide) (not_lt.1 hbits), ?_, (nomatch ·), fun _ => ?_,
      fun _ _ h => nomatch h⟩, fun _ => rfl, fun _ => rfl, le_two_pow_ceillog2 size⟩
    · exact Scatter.good_empty fun k => mainposition_lt hash (Nat.two_pow_pos _) k
    · exact Scatter.freeBelow_empty _

theorem getD_setarrayvector (hlen : t.array.length = t.sizearray) {size : ℕ} (hsize : t.sizearray ≤ size)
    (i : ℕ) : (setarrayvector t size).array.getD i none = t.array.getD i none := by
  show (t.array.take size ++ List.replicate (size - t.sizearray) none).getD i none = _
  rw [List.take_of_length_le (by omega)]
  obtain hlt | hge := lt_or_ge i t.array.length
  · rw [List.getD_append _ _ _ _ hlt]
  · rw [List.getD_append_right _ _ _ _ hge, List.getD_eq_default _ _ hge, List.getD_eq_getElem?_getD,
      List.getElem?_replicate]
    split_ifs <;> rfl

theorem length_setarrayvector (hlen : t.array.length = t.sizearray) {size : ℕ}
    (hsize : t.sizearray ≤ size) : (setarrayvector t size).array.length = size := by
  show (t.array.take size ++ List.replicate (size - t.sizearray) none).length = size
  rw [List.take_of_length_le (by omega), List.length_append, List.length_replicate]
  omega

/-! ### The table is rebuilt -/

theorem used_eq_zero (hempty : ∀ i, t.node.node i = {}) : t.node.used.card = 0 := by
  rw [Finset.card_eq_zero, Finset.eq_empty_iff_forall_notMem]
  intro i hi
  have := (Scatter.mem_used.1 hi).2
  rw [hempty i] at this
  exact this rfl

/-- **The entries of a table put in** another one, which has the rest of them already. -/
theorem refill_spec (d : ℕ) (hc : Core hash t) {u : Table V} (hu : Core hash u) {E : List (Key × V)}
    (hE : ∀ e ∈ E, t.Has e.1 e.2) (huhas : ∀ k v, u.Has k v → t.Has k v)
    (hall : ∀ k v, t.Has k v → (k, v) ∈ E ∨ u.Has k v)
    (hroom : E.countP (fun e => outside u.sizearray e.1) ≠ 0 → u.dummy = false)
    (hcount : u.node.used.card + E.countP (fun e => outside u.sizearray e.1) ≤ u.node.size) :
    ∃ t', E.foldlM (assign hash (newkey hash (d + 1))) u = .ok t' ∧ Core hash t' ∧ Kept u t' ∧
      (∀ k v, t'.Has k v ↔ t.Has k v) ∧
      t'.node.used.card ≤ u.node.used.card + E.countP (fun e => outside u.sizearray e.1) := by
  obtain ⟨t', hfold, hc', hkept, hhas, hle⟩ := assignAll_spec d E hu
    (fun e he e' he' hk => hc.has_unique (hE e he) (hk ▸ hE e' he')) hroom hcount
  refine ⟨t', hfold, hc', hkept, fun k v => ?_, hle⟩
  rw [hhas]
  constructor
  · rintro (h | ⟨-, h⟩)
    · exact hE _ h
    · exact huhas k v h
  · intro h
    by_cases hin : ∃ e ∈ E, e.1 = k
    · obtain ⟨e, he, rfl⟩ := hin
      have hv : e.2 = v := hc.has_unique (hE e he) h
      exact Or.inl (hv ▸ he)
    · obtain hmem | hu' := hall k v h
      · exact absurd ⟨_, hmem, rfl⟩ hin
      · exact Or.inr ⟨fun e he hek => hin ⟨e, he, hek⟩, hu'⟩

/-- The loop over the old hash part puts its entries in. -/
theorem reinsertNodes_eq (new : Table V → Key → Except Error (Table V × Slot)) (hc : Core hash t)
    (u : Table V) :
    (List.range t.node.size).reverse.foldlM (fun u i => reinsertNode hash new u (t.node.node i)) u =
      (nodeEntries t.node).foldlM (assign hash new) u :=
  reinsertNode_fold new (fun i hv hk => hv (by rw [hc.node_good.blank i hk])) _ u

/-- An array that is cut off behind the part that counts. -/
theorem Table.Core.cut (hc : Core hash t) {m : ℕ} (hm : t.sizearray = m) :
    Core hash { t with array := t.array.take m } ∧
      ∀ k v, ({ t with array := t.array.take m } : Table V).Has k v ↔ t.Has k v := by
  subst hm
  have hget : ∀ i, i < t.sizearray → (t.array.take t.sizearray).getD i none = t.array.getD i none := by
    intro i hi
    rw [List.getD_eq_getElem?_getD, List.getElem?_take, if_pos hi, ← List.getD_eq_getElem?_getD]
  refine ⟨⟨?_, hc.sizearray_le, hc.size_le, hc.node_good, hc.dummy_eq, hc.free, hc.split⟩, fun k v => ?_⟩
  · exact (List.length_take_of_le hc.le_length).ge
  · refine or_congr (exists_congr fun i => and_congr_right fun hi => ?_) Iff.rfl
    rw [hget i hi]

/-- **A table that is rebuilt** has the entries that it had, if there is room for them. -/
theorem resize_spec (d : ℕ) (hg : Good hash t) {nasize nhsize : ℕ} (hna : nasize ≤ MAXASIZE)
    (hnh : nhsize ≤ 2 ^ MAXBITS) (hcount : t.entries.countP (fun e => outside nasize e.1) ≤ nhsize) :
    ∃ t', resize hash (newkey hash (d + 1)) t nasize nhsize = .ok t' ∧ Good hash t' ∧
      t'.sizearray = nasize ∧ (∀ k v, t'.Has k v ↔ t.Has k v) ∧ (nhsize ≠ 0 → t'.dummy = false) ∧
      nhsize ≤ t'.node.size ∧
      t'.node.used.card ≤ t.entries.countP (fun e => outside nasize e.1) := by
  have hmem : ∀ {k v}, (k, v) ∈ t.entries ↔ t.Has k v := hg.mem_entries
  obtain hgrow | hshrink := le_or_gt t.sizearray nasize
  · -- the array part keeps its elements; the hash part is put in again
    set t₁ := if t.sizearray < nasize then setarrayvector t nasize else t with ht₁
    have harray : ∀ i, t₁.array.getD i none = t.array.getD i none := by
      intro i
      rw [ht₁]
      split_ifs
      · exact getD_setarrayvector hg.length_eq hgrow i
      · rfl
    have hlen : t₁.array.length = nasize ∧ t₁.sizearray = nasize := by
      rw [ht₁]
      split_ifs with h
      · exact ⟨length_setarrayvector hg.length_eq hgrow, rfl⟩
      · have := hg.length_eq
        omega
    obtain ⟨n, dummy, hset, hu, hempty, hdummy, hsize⟩ :=
      setnodevector_spec hash hnh t₁ (by omega) (by omega)
    have hle : (nodeEntries t.node).countP (fun e => outside nasize e.1) ≤
        t.entries.countP (fun e => outside nasize e.1) :=
      (List.sublist_append_right _ _).countP_le
    set u : Table V := { t₁ with node := n, dummy } with hu_eq
    have hsz : u.sizearray = nasize := hlen.2
    have hused₀ : u.node.used.card = 0 := used_eq_zero hempty
    have huhas : ∀ k v, u.Has k v → t.Has k v := by
      rintro k v (⟨i, -, rfl, hv⟩ | ⟨i, hi, -⟩)
      · have hv' : t.array.getD i none = some v := (harray i).symm.trans hv
        have hi : i < t.sizearray := by
          by_contra hge
          rw [List.getD_eq_default _ _ (by have := hg.length_eq; omega)] at hv'
          exact nomatch hv'
        exact Or.inl ⟨i, hi, rfl, hv'⟩
      · rw [show u.node.node i = {} from hempty i] at hi
        exact nomatch hi
    have hall : ∀ k v, t.Has k v → (k, v) ∈ nodeEntries t.node ∨ u.Has k v := by
      rintro k v (⟨i, hi, rfl, hv⟩ | h)
      · exact Or.inr (Or.inl ⟨i, hi.trans_le (hgrow.trans hsz.ge), rfl, (harray i).trans hv⟩)
      · exact Or.inl ((mem_nodeEntries hg.node_good).2 h)
    obtain ⟨t', hfold, hc', hkept, hhas, hused⟩ := refill_spec d hg.toCore hu
      (fun e he => hmem.1 (List.mem_append_right _ he)) huhas hall
      (by rw [hsz]; exact fun h => hdummy (by omega))
      (by rw [hsz, hused₀, Nat.zero_add]; exact (hle.trans hcount).trans hsize)
    refine ⟨t', ?_, ⟨hc', ?_⟩, hkept.sizearray_eq.trans hlen.2, hhas, fun h => ?_, ?_, ?_⟩
    · rw [resize]
      simp only [← ht₁, hset, if_neg hgrow.not_gt]
      exact (reinsertNodes_eq _ hg.toCore u).trans hfold
    · rw [hkept.length_eq, hkept.sizearray_eq]
      exact hlen.1.trans hlen.2.symm
    · rw [hkept.dummy_eq]
      exact hdummy h
    · rw [hkept.size_eq]
      exact hsize
    · rw [hsz, hused₀, Nat.zero_add] at hused
      exact hused.trans hle
  · -- so are the elements of the slice that vanishes
    obtain ⟨n, dummy, hset, hu₀, hempty, hdummy, hsize⟩ :=
      setnodevector_spec hash hnh t hg.le_length hg.sizearray_le
    set u : Table V := { t with node := n, dummy, sizearray := nasize } with hu_eq
    have hu : Core hash u := by
      refine ⟨hshrink.le.trans hg.le_length, hna, hu₀.size_le, hu₀.node_good, hu₀.dummy_eq, hu₀.free, fun i m h => ?_⟩
      rw [show u.node.node i = {} from hempty i] at h
      exact nomatch h
    set E := sliceEntries t.array nasize (t.sizearray - nasize) with hE
    have hEmem : ∀ e ∈ E, ∃ i, i < t.sizearray ∧ e.1 = intKey (i + 1) ∧ t.array.getD i none = some e.2 := by
      rintro ⟨k, v⟩ he
      obtain ⟨i, hlo, hlt, hk, hv⟩ := mem_sliceEntries.1 he
      exact ⟨i, by omega, hk, hv⟩
    have hsub : (E ++ nodeEntries t.node).Sublist t.entries := by
      rw [entries, sliceEntries, ← Nat.add_sub_of_le hshrink.le, ← List.range'_append_1, List.filterMap_append,
        Nat.zero_add, List.append_assoc]
      exact List.sublist_append_right _ _
    have hle := hsub.countP_le (p := fun e => outside nasize e.1)
    rw [List.countP_append] at hle
    have hused₀ : u.node.used.card = 0 := used_eq_zero hempty
    have hnsize : u.node.size = n.size := rfl
    have hEhas : ∀ e ∈ E, t.Has e.1 e.2 := fun e he => hmem.1 (hsub.subset (List.mem_append_left _ he))
    have hroomE : E.countP (fun e => outside u.sizearray e.1) ≠ 0 → u.dummy = false := by
      intro h
      have h' : E.countP (fun e => outside nasize e.1) ≠ 0 := h
      exact hdummy (by omega)
    have hcountE : u.node.used.card + E.countP (fun e => outside u.sizearray e.1) ≤ u.node.size := by
      show u.node.used.card + E.countP (fun e => outside nasize e.1) ≤ n.size
      omega
    have hslice := reinsertArray_fold d t.array (List.range' nasize (t.sizearray - nasize)) hu
      (fun i hi => (List.mem_range'_1.1 hi).1) (fun _ _ => rfl) hroomE hcountE
    obtain ⟨u₁, hfold₁, hc₁, hkept₁, hhas₁, hused₁⟩ := assignAll_spec d E hu
      (fun e he e' he' hk => hg.has_unique (hEhas e he) (hk ▸ hEhas e' he')) hroomE hcountE
    have hsz₁ : u₁.sizearray = nasize := hkept₁.sizearray_eq
    have hsize₁ : u₁.node.size = n.size := hkept₁.size_eq
    have hdummy₁ : u₁.dummy = dummy := hkept₁.dummy_eq
    -- the array is cut before the hash part is put in
    obtain ⟨hc₂, hhas₂⟩ := hc₁.cut hsz₁
    set u₂ : Table V := { u₁ with array := u₁.array.take nasize } with hu₂
    have hused₂ : u₂.node.used.card ≤ E.countP (fun e => outside nasize e.1) := by
      rw [hused₀, Nat.zero_add] at hused₁
      exact hused₁
    have huhas : ∀ k v, u.Has k v → t.Has k v := by
      rintro k v (⟨i, hi, rfl, hv⟩ | ⟨i, hi, -⟩)
      · exact Or.inl ⟨i, hi.trans hshrink, rfl, hv⟩
      · rw [show u.node.node i = {} from hempty i] at hi
        exact nomatch hi
    have hu₂has : ∀ k v, u₂.Has k v → t.Has k v := by
      intro k v h
      obtain hmem' | ⟨-, h⟩ := (hhas₁ k v).1 ((hhas₂ k v).1 h)
      · exact hEhas _ hmem'
      · exact huhas k v h
    have hall : ∀ k v, t.Has k v → (k, v) ∈ nodeEntries t.node ∨ u₂.Has k v := by
      intro k v h
      refine or_iff_not_imp_left.2 fun hnot => (hhas₂ k v).2 ((hhas₁ k v).2 ?_)
      obtain ⟨i, hi, rfl, hv⟩ | h := h
      · obtain hlt | hge := lt_or_ge i nasize
        · refine or_iff_not_imp_left.2 fun hE' => ⟨fun e he hk => hE' ?_, Or.inl ⟨i, hlt, rfl, hv⟩⟩
          have hv' : e.2 = v := hg.has_unique (hk ▸ hEhas e he) (Or.inl ⟨i, hi, rfl, hv⟩)
          rw [← hk, ← hv']
          exact he
        · exact Or.inl (mem_sliceEntries.2 ⟨i, hge, by omega, rfl, hv⟩)
      · exact absurd ((mem_nodeEntries hg.node_good).2 h) hnot
    obtain ⟨t', hfold, hc', hkept, hhas, hused⟩ := refill_spec d hg.toCore hc₂
      (fun e he => hmem.1 (List.mem_append_right _ he)) hu₂has hall
      (by
        intro h
        have h' : (nodeEntries t.node).countP (fun e => outside u₁.sizearray e.1) ≠ 0 := h
        rw [hsz₁] at h'
        exact hdummy₁.trans (hdummy (by omega)))
      (by
        show u₂.node.used.card + (nodeEntries t.node).countP (fun e => outside u₁.sizearray e.1) ≤ u₁.node.size
        rw [hsz₁, hsize₁]
        omega)
    have hlen : u₂.array.length = nasize := List.length_take_of_le (by rw [← hsz₁]; exact hc₁.le_length)
    refine ⟨t', ?_, ⟨hc', ?_⟩, hkept.sizearray_eq.trans hsz₁, hhas, fun h => ?_, ?_, ?_⟩
    · rw [resize]
      simp only [if_neg hshrink.le.not_gt, hset, if_pos hshrink]
      show ((List.range' nasize (t.sizearray - nasize)).foldlM (reinsertArray hash (newkey hash (d + 1))) u >>=
        fun v => (List.range t.node.size).reverse.foldlM
          (fun w i => reinsertNode hash (newkey hash (d + 1)) w (t.node.node i))
          { v with array := v.array.take nasize }) = Except.ok t'
      rw [hslice, ← sliceEntries, ← hE, hfold₁]
      exact (reinsertNodes_eq _ hg.toCore u₂).trans hfold
    · rw [hkept.length_eq, hkept.sizearray_eq]
      exact hlen.trans hsz₁.symm
    · rw [hkept.dummy_eq]
      exact hdummy₁.trans (hdummy h)
    · rw [hkept.size_eq]
      exact hsize.trans hsize₁.ge
    · have hused' : t'.node.used.card ≤ u₂.node.used.card +
          (nodeEntries t.node).countP (fun e => outside u₁.sizearray e.1) := hused
      rw [hsz₁] at hused'
      omega

end Lua

end OsdCore
