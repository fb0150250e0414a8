import OsdCore.Lua.TableRuns

/-!
# The traversal of a table

* `Lua.luaHNext_spec` : the next entry, in the order of the places.
* `Lua.next_visits_all` : while a table is traversed, its fields may be assigned to and cleared; no key comes
  twice, none that stays is left out, and the traversal ends.
-/

namespace OsdCore

namespace Lua

open Table

variable {V : Type} {hash : BitVec 32 → BitVec 32} {t t' : Table V} {k : Key}

/-- The number of a slot in the order of the traversal. -/
def Slot.index (size : ℕ) : Slot → ℕ
  | array i => i
  | node i => size + i

/-- The entry at the place `j`, in the order of the traversal. -/
def Table.entryAt (t : Table V) (j : ℕ) : Option (Key × V) :=
  if j < t.sizearray then (t.array.getD j none).map (intKey (j + 1), ·)
  else (t.node.node (j - t.sizearray)).val.bind fun v =>
    (t.node.node (j - t.sizearray)).key.map (·, v)

theorem findSome?_congr_of_mem {α β : Type} {f g : α → Option β} {l : List α} (h : ∀ a ∈ l, f a = g a) :
    l.findSome? f = l.findSome? g := by
  induction l with
  | nil => rfl
  | cons a l ih =>
    rw [List.findSome?_cons, List.findSome?_cons, h a List.mem_cons_self,
      ih fun b hb => h b (List.mem_cons_of_mem _ hb)]

/-- **The first hit** of a search through a range. -/
theorem findSome?_range' {α : Type} (f : ℕ → Option α) (m i : ℕ) :
    (∃ j b, i ≤ j ∧ j < i + m ∧ (List.range' i m).findSome? f = some b ∧ f j = some b ∧
        ∀ j', i ≤ j' → j' < j → f j' = none) ∨
      (List.range' i m).findSome? f = none ∧ ∀ j, i ≤ j → j < i + m → f j = none := by
  induction m generalizing i with
  | zero => exact Or.inr ⟨rfl, fun j h h' => by omega⟩
  | succ m ih =>
    rw [List.range'_succ, List.findSome?_cons]
    cases hf : f i with
    | some b => exact Or.inl ⟨i, b, le_rfl, by omega, rfl, hf, fun j' h h' => by omega⟩
    | none =>
      have hskip : ∀ j', i ≤ j' → (i + 1 ≤ j' → f j' = none) → f j' = none := by
        intro j' hle h
        obtain rfl | hlt := hle.eq_or_lt
        · exact hf
        · exact h hlt
      obtain ⟨j, b, hle, hlt, hfind, hj, hno⟩ | ⟨hfind, hno⟩ := ih (i + 1)
      · exact Or.inl ⟨j, b, by omega, by omega, hfind, hj, fun j' h h' => hskip j' h fun h => hno j' h h'⟩
      · exact Or.inr ⟨hfind, fun j h h' => hskip j h fun h => hno j h (by omega)⟩

theorem entryAt_index {s : Slot} (hs : t.SlotOf k s) :
    t.entryAt (s.index t.sizearray) = (t.val s).map (k, ·) := by
  cases s with
  | array i =>
    obtain ⟨hi, rfl⟩ := hs
    rw [entryAt, Slot.index, if_pos hi]
    rfl
  | node i =>
    have hk : (t.node.node i).key = some k := hs
    rw [entryAt, Slot.index, if_neg (by omega), Nat.add_sub_cancel_left, hk]
    show _ = ((t.node.node i).val).map (k, ·)
    cases (t.node.node i).val <;> rfl

theorem index_lt (hc : Core hash t) {s : Slot} (hs : t.SlotOf k s) :
    s.index t.sizearray < t.sizearray + t.node.size := by
  cases s with
  | array i => exact hs.1.trans_le (Nat.le_add_right _ _)
  | node i =>
    have hk : (t.node.node i).key = some k := hs
    exact Nat.add_lt_add_left (hc.node_good.lt_of_key (by rw [hk]; exact nofun)) _

/-- The place of an entry is the one of the slot of its key. -/
theorem slotOf_of_entryAt {j : ℕ} {v : V} (h : t.entryAt j = some (k, v)) :
    ∃ s, t.SlotOf k s ∧ s.index t.sizearray = j ∧ t.val s = some v := by
  rw [entryAt] at h
  split_ifs at h with hj
  · obtain ⟨w, hw, he⟩ := Option.map_eq_some_iff.1 h
    obtain ⟨rfl, rfl⟩ := Prod.mk.inj he
    exact ⟨.array j, ⟨hj, rfl⟩, rfl, hw⟩
  · obtain ⟨w, hw, h⟩ := Option.bind_eq_some_iff.1 h
    obtain ⟨k', hk', he⟩ := Option.map_eq_some_iff.1 h
    obtain ⟨rfl, rfl⟩ := Prod.mk.inj he
    exact ⟨.node (j - t.sizearray), hk', by rw [Slot.index]; omega, hw⟩

/-- Two places of one key are one place. -/
theorem index_unique (hc : Core hash t) {s s' : Slot} (hs : t.SlotOf k s) (hs' : t.SlotOf k s') : s = s' := by
  cases s with
  | array i =>
    cases s' with
    | array j =>
      have := intKey_injOn (hc.lt_of_lt_sizearray hs.1) (hc.lt_of_lt_sizearray hs'.1) (hs.2.symm.trans hs'.2)
      exact congrArg _ (by omega)
    | node j => exact absurd hs' (hc.not_key_of_inArray ⟨i, hs⟩ j)
  | node i =>
    cases s' with
    | array j => exact absurd hs (hc.not_key_of_inArray ⟨j, hs'⟩ i)
    | node j => exact congrArg _ (hc.node_good.distinct i j k hs hs')

theorem findindex_spec (hc : Core hash t) {s : Slot} (hs : t.SlotOf k s) :
    findindex hash t (some k) = .ok (s.index t.sizearray) := by
  have hmax : MAXASIZE < 2 ^ 31 := by decide
  have hle := hc.sizearray_le
  rw [findindex]
  cases s with
  | array i =>
    obtain ⟨hi, rfl⟩ := hs
    rw [arrayindex_intKey (by omega), if_pos (by omega), Slot.index]
    congr 1
    omega
  | node i =>
    have hk : (t.node.node i).key = some k := hs
    have hnot : ¬ (0 < arrayindex k ∧ arrayindex k ≤ t.sizearray) := by
      rw [← inArray_iff hle]
      exact fun h => hc.not_key_of_inArray h i hk
    rw [if_neg hnot, hc.node_good.find_of_key hk]
    show Except.ok ((i : ℤ) + t.sizearray) = Except.ok ((t.sizearray + i : ℕ) : ℤ)
    exact congrArg Except.ok (by omega)

/-- The loops of `luaH_next` go through the places in their order. -/
theorem next_eq_findSome? (t : Table V) {i : ℕ} (hi : i ≤ t.sizearray + t.node.size) :
    (nextArray t i).or (nextNode t (max i t.sizearray - t.sizearray)) =
      (List.range' i (t.sizearray + t.node.size - i)).findSome? t.entryAt := by
  have harray : nextArray t i = (List.range' i (t.sizearray - i)).findSome? t.entryAt := by
    rw [nextArray]
    refine findSome?_congr_of_mem fun j hj => ?_
    rw [entryAt, if_pos (by have := List.mem_range'_1.1 hj; omega)]
  have hnode : nextNode t (max i t.sizearray - t.sizearray) =
      (List.range' (max i t.sizearray) (t.sizearray + t.node.size - max i t.sizearray)).findSome?
        t.entryAt := by
    have hshift : List.range' (max i t.sizearray) (t.sizearray + t.node.size - max i t.sizearray) =
        (List.range' (max i t.sizearray - t.sizearray)
          (t.node.size - (max i t.sizearray - t.sizearray))).map (t.sizearray + ·) := by
      rw [List.map_add_range']
      congr 1 <;> omega
    rw [hshift, List.findSome?_map, nextNode]
    refine findSome?_congr_of_mem fun j _ => ?_
    rw [Function.comp_apply, entryAt, if_neg (by omega), Nat.add_sub_cancel_left]
  rw [harray, hnode, ← List.findSome?_append]
  congr 1
  obtain hle | hlt := le_total i t.sizearray
  · rw [max_eq_right hle, show t.sizearray + t.node.size - i =
      (t.sizearray - i) + (t.sizearray + t.node.size - t.sizearray) by omega, ← List.range'_append_1,
      show i + (t.sizearray - i) = t.sizearray by omega]
  · rw [show t.sizearray - i = 0 by omega, max_eq_left hlt]
    rfl

/-- **The entry that comes next** after the place before `i`. -/
theorem luaHNext_spec {key : Option Key} {i : ℕ} (hi : i ≤ t.sizearray + t.node.size)
    (hindex : findindex hash t key = .ok ((i : ℤ) - 1)) :
    (∃ j k v, i ≤ j ∧ luaHNext hash t key = .ok (some (k, v)) ∧ t.entryAt j = some (k, v) ∧
        ∀ j', i ≤ j' → j' < j → t.entryAt j' = none) ∨
      luaHNext hash t key = .ok none ∧
        ∀ j, i ≤ j → j < t.sizearray + t.node.size → t.entryAt j = none := by
  have hrun : luaHNext hash t key =
      .ok ((List.range' i (t.sizearray + t.node.size - i)).findSome? t.entryAt) := by
    rw [luaHNext, hindex, ← next_eq_findSome? t hi]
    show Except.ok ((nextArray t ((i : ℤ) - 1 + 1).toNat).or
      (nextNode t (max ((i : ℤ) - 1 + 1).toNat t.sizearray - t.sizearray))) = _
    rw [Int.sub_add_cancel, Int.toNat_natCast]
  obtain ⟨j, ⟨k, v⟩, hle, -, hfind, hj, hno⟩ | ⟨hfind, hno⟩ :=
    findSome?_range' t.entryAt (t.sizearray + t.node.size - i) i
  · exact Or.inl ⟨j, k, v, hle, by rw [hrun, hfind], hj, hno⟩
  · exact Or.inr ⟨by rw [hrun, hfind], fun j h h' => hno j h (by omega)⟩

/-! ### Runs -/

/-- A traversal under way: the table, the key that came last, what has come so far, and whether the end has
been seen. -/
structure Traversal (V : Type) where
  table : Table V
  last : Option Key := none
  seen : List (Key × V) := []
  finished : Bool := false

/-- What the body of the loop does, and the loop itself. -/
inductive TraversalEvent (V : Type)
  | assign (key : Key) (v : Option V)
  | next

/-- A call of `luaH_next`. -/
def TraversalEvent.isNext : TraversalEvent V → Bool
  | assign _ _ => false
  | next => true

/-- One event. -/
def TraversalEvent.step (hash : BitVec 32 → BitVec 32) (d : ℕ) (w : Traversal V) :
    TraversalEvent V → Except Error (Traversal V)
  | assign key v => do
    let t ← luaRawset hash d w.table (some key) v
    .ok { w with table := t }
  | next => do
    match ← luaHNext hash w.table w.last with
    | some (k, v) => .ok { w with last := some k, seen := w.seen ++ [(k, v)] }
    | none => .ok { w with finished := true }

/-- The places of the keys are the same. -/
structure SamePlaces (t t' : Table V) : Prop where
  sizearray_eq : t'.sizearray = t.sizearray
  size_eq : t'.node.size = t.node.size
  slotOf_iff : ∀ k s, t'.SlotOf k s ↔ t.SlotOf k s

theorem samePlaces_store (t : Table V) (s : Slot) (v : Option V) : SamePlaces t (t.store s v) := by
  cases s with
  | array i =>
    refine ⟨rfl, rfl, fun k s => ?_⟩
    cases s <;> exact Iff.rfl
  | node i =>
    refine ⟨rfl, rfl, fun k s => ?_⟩
    cases s with
    | array j => exact Iff.rfl
    | node j =>
      show ((t.node.put i { t.node.node i with val := v }).node j).key = some k ↔ _
      rw [Scatter.setVal_key]
      exact Iff.rfl

/-- **What holds of a traversal** under way. `n` calls of `luaH_next` have been made, and the next place is
`pos`. -/
structure Traversal.Inv (hash : BitVec 32 → BitVec 32) (t : Table V) (f : Key → Option V)
    (done : List (TraversalEvent V)) (w : Traversal V) (pos : ℕ) : Prop where
  good : Good hash w.table
  same : SamePlaces t w.table
  has : ∀ k v, w.table.Has k v → f k = some v ∨ .assign k (some v) ∈ done
  alive : ∀ k, f k ≠ none → .assign k none ∉ done → ∃ v, w.table.Has k v
  last_eq : w.last = none ∧ pos = 0 ∨
    ∃ k s, w.last = some k ∧ t.SlotOf k s ∧ pos = s.index t.sizearray + 1
  seen_lt : ∀ e ∈ w.seen, ∃ s, t.SlotOf e.1 s ∧ s.index t.sizearray < pos
  nodup : (w.seen.map Prod.fst).Nodup
  sound : ∀ e ∈ w.seen, f e.1 = some e.2 ∨ .assign e.1 (some e.2) ∈ done
  complete : ∀ k s, t.SlotOf k s → s.index t.sizearray < pos → f k ≠ none →
    .assign k none ∉ done → k ∈ w.seen.map Prod.fst
  ended : w.finished = true → ∀ k, f k ≠ none → .assign k none ∉ done → k ∈ w.seen.map Prod.fst
  count : w.finished = true ∨ w.seen.length = done.countP TraversalEvent.isNext

theorem get_of_slot (hc : Core hash t) {s : Slot} (hs : t.SlotOf k s) :
    luaHGet hash t (some k) = .ok (some s) := by
  obtain ⟨s', hget, hs'⟩ | ⟨-, habsent⟩ := hc.get_spec k
  · rw [hget, index_unique hc hs hs']
  · cases s with
    | array i => exact absurd ⟨i, hs⟩ habsent.not_inArray
    | node i => exact absurd hs (habsent.no_key i)

theorem slot_of_has (hc : Core hash t) {v : V} (h : t.Has k v) : ∃ s, t.SlotOf k s ∧ t.val s = some v := by
  obtain ⟨s, -, hs⟩ | ⟨-, habsent⟩ := hc.get_spec k
  · exact ⟨s, hs, (hc.val_eq_some_iff hs).2 h⟩
  · exact absurd h (habsent.not_has v)

variable {f : Key → Option V} {done : List (TraversalEvent V)} {w : Traversal V} {pos : ℕ}

theorem mem_snoc {α : Type} {a b : α} {l : List α} : a ∈ l ++ [b] ↔ a ∈ l ∨ a = b := by
  rw [List.mem_append, List.mem_singleton]

/-- **A field that there is** is assigned to or cleared. -/
theorem Traversal.Inv.assign (h : w.Inv hash t f done pos) (ht : Represents hash t f) (d : ℕ)
    (hk : f k ≠ none) (v : Option V) :
    ∃ w', TraversalEvent.step hash d w (.assign k v) = .ok w' ∧
      w'.Inv hash t f (done ++ [.assign k v]) pos := by
  obtain ⟨v₀, hv₀⟩ := Option.ne_none_iff_exists'.1 hk
  obtain ⟨s, hs, -⟩ := slot_of_has ht.good.toCore ((ht.has_iff k v₀).2 hv₀)
  have hsw : w.table.SlotOf k s := (h.same.slotOf_iff k s).2 hs
  obtain ⟨hc, hhas⟩ := h.good.store_spec hsw v
  have hsame := samePlaces_store w.table s v
  have hkept : Kept w.table (w.table.store s v) := kept_store hsw v
  have hnot : ∀ {k'}, .assign k' none ∉ done ++ [TraversalEvent.assign k v] →
      TraversalEvent.assign k' none ∉ done := fun h' hmem => h' (mem_snoc.2 (Or.inl hmem))
  refine ⟨{ w with table := w.table.store s v }, ?_, ⟨⟨hc, ?_⟩, ⟨?_, ?_, fun k' s' => ?_⟩, ?_, ?_, h.last_eq,
    h.seen_lt, h.nodup, ?_, ?_, ?_, ?_⟩⟩
  · rw [TraversalEvent.step, luaRawset, luaHSet, setWith, get_of_slot h.good.toCore hsw]
    rfl
  · rw [hkept.length_eq, hkept.sizearray_eq]
    exact h.good.length_eq
  · exact hsame.sizearray_eq.trans h.same.sizearray_eq
  · exact hsame.size_eq.trans h.same.size_eq
  · exact (hsame.slotOf_iff k' s').trans (h.same.slotOf_iff k' s')
  · intro k' x hx
    obtain ⟨rfl, rfl⟩ | ⟨-, hx⟩ := (hhas k' x).1 hx
    · exact Or.inr (mem_snoc.2 (Or.inr rfl))
    · exact (h.has k' x hx).imp_right fun hmem => mem_snoc.2 (Or.inl hmem)
  · intro k' hk' hno
    by_cases hkk : k' = k
    · subst hkk
      obtain ⟨x, rfl⟩ : ∃ x, v = some x := by
        refine Option.ne_none_iff_exists'.1 fun hv => hno (mem_snoc.2 (Or.inr ?_))
        rw [hv]
      exact ⟨x, (hhas _ x).2 (Or.inl ⟨rfl, rfl⟩)⟩
    · obtain ⟨x, hx⟩ := h.alive k' hk' (hnot hno)
      exact ⟨x, (hhas k' x).2 (Or.inr ⟨hkk, hx⟩)⟩
  · exact fun e he => (h.sound e he).imp_right fun hmem => mem_snoc.2 (Or.inl hmem)
  · exact fun k' s' hs' hlt hk' hno => h.complete k' s' hs' hlt hk' (hnot hno)
  · exact fun hfin k' hk' hno => h.ended hfin k' hk' (hnot hno)
  · rw [List.countP_append]
    exact h.count

/-- A traversal begins with nil. -/
theorem Traversal.inv_init (ht : Represents hash t f) : Traversal.Inv hash t f [] { table := t } 0 where
  good := ht.good
  same := ⟨rfl, rfl, fun _ _ => Iff.rfl⟩
  has k v h := Or.inl ((ht.has_iff k v).1 h)
  alive k hk _ := by
    obtain ⟨v, hv⟩ := Option.ne_none_iff_exists'.1 hk
    exact ⟨v, (ht.has_iff k v).2 hv⟩
  last_eq := Or.inl ⟨rfl, rfl⟩
  seen_lt _ he := absurd he List.not_mem_nil
  nodup := List.nodup_nil
  sound _ he := absurd he List.not_mem_nil
  complete _ _ _ h := absurd h (Nat.not_lt_zero _)
  ended h := nomatch h
  count := Or.inr rfl

/-- The next place is the one after the key that came last. -/
theorem Traversal.Inv.index (h : w.Inv hash t f done pos) (ht : Represents hash t f) :
    findindex hash w.table w.last = .ok ((pos : ℤ) - 1) ∧
      pos ≤ w.table.sizearray + w.table.node.size := by
  obtain ⟨hlast, rfl⟩ | ⟨k, s, hlast, hs, rfl⟩ := h.last_eq
  · rw [hlast]
    exact ⟨rfl, Nat.zero_le _⟩
  · have hsw : w.table.SlotOf k s := (h.same.slotOf_iff k s).2 hs
    rw [hlast, findindex_spec h.good.toCore hsw, h.same.sizearray_eq]
    refine ⟨congrArg Except.ok (by omega), ?_⟩
    have := index_lt ht.good.toCore hs
    rw [h.same.size_eq]
    exact this

/-- A key that has had a value all along is not in a place that is passed over. -/
theorem Traversal.Inv.entryAt_ne_none (h : w.Inv hash t f done pos) {s : Slot} (hs : t.SlotOf k s)
    (hk : f k ≠ none) (hno : .assign k none ∉ done) : w.table.entryAt (s.index t.sizearray) ≠ none := by
  have hsw : w.table.SlotOf k s := (h.same.slotOf_iff k s).2 hs
  obtain ⟨x, hx⟩ := h.alive k hk hno
  rw [← h.same.sizearray_eq, entryAt_index hsw, (h.good.val_eq_some_iff hsw).2 hx]
  exact nofun

/-- **A call of `luaH_next`.** -/
theorem Traversal.Inv.next (h : w.Inv hash t f done pos) (ht : Represents hash t f) (d : ℕ) :
    ∃ w' pos', TraversalEvent.step hash d w .next = .ok w' ∧ w'.Inv hash t f (done ++ [.next]) pos' := by
  have hnot : ∀ {k v}, TraversalEvent.assign k v ∈ done ++ [.next] ↔ TraversalEvent.assign k v ∈ done :=
    mem_snoc.trans ⟨fun h => h.elim id nofun, Or.inl⟩
  obtain ⟨hindex, hle⟩ := h.index ht
  obtain ⟨j, k, v, hj, hnext, hentry, hskip⟩ | ⟨hnext, hskip⟩ := luaHNext_spec hle hindex
  · obtain ⟨s, hsw, hidx, hval⟩ := slotOf_of_entryAt hentry
    have hs : t.SlotOf k s := (h.same.slotOf_iff k s).1 hsw
    rw [h.same.sizearray_eq] at hidx
    have hhas : w.table.Has k v := (h.good.val_eq_some_iff hsw).1 hval
    refine ⟨{ w with last := some k, seen := w.seen ++ [(k, v)] }, j + 1, ?_,
      ⟨h.good, h.same, ?_, ?_, Or.inr ⟨k, s, rfl, hs, by rw [hidx]⟩, ?_, ?_, ?_, ?_, ?_, ?_⟩⟩
    · rw [TraversalEvent.step, hnext]
      rfl
    · exact fun k' x hx => (h.has k' x hx).imp_right hnot.2
    · exact fun k' hk' hno => h.alive k' hk' fun hmem => hno (hnot.2 hmem)
    · intro e he
      obtain he | rfl := mem_snoc.1 he
      · obtain ⟨s', hs', hlt⟩ := h.seen_lt e he
        exact ⟨s', hs', by omega⟩
      · exact ⟨s, hs, by omega⟩
    · rw [List.map_append, List.nodup_append]
      refine ⟨h.nodup, List.nodup_singleton _, ?_⟩
      intro k' hk' k'' hk'' heq
      obtain ⟨e, he, rfl⟩ := List.mem_map.1 hk'
      obtain ⟨s', hs', hlt⟩ := h.seen_lt e he
      rw [List.map_singleton, List.mem_singleton] at hk''
      have hek : e.1 = k := heq.trans hk''
      have hss : s' = s := index_unique ht.good.toCore (hek ▸ hs') hs
      rw [hss] at hlt
      omega
    · intro e he
      obtain he | rfl := mem_snoc.1 he
      · exact (h.sound e he).imp_right hnot.2
      · exact (h.has k v hhas).imp_right hnot.2
    · intro k' s' hs' hlt hk' hno
      have hno' : .assign k' none ∉ done := fun hmem => hno (hnot.2 hmem)
      rw [List.map_append, List.mem_append]
      obtain hlt' | hge := lt_or_ge (s'.index t.sizearray) pos
      · exact Or.inl (h.complete k' s' hs' hlt' hk' hno')
      · have hne := h.entryAt_ne_none hs' hk' hno'
        obtain hlt' | heq := Nat.lt_succ_iff_lt_or_eq.1 hlt
        · exact absurd (hskip _ hge hlt') hne
        · -- the place is the one that has come
          have hsw' : w.table.SlotOf k' s' := (h.same.slotOf_iff k' s').2 hs'
          have hat := entryAt_index hsw'
          rw [h.same.sizearray_eq, heq, hentry] at hat
          obtain ⟨x, -, he⟩ := Option.map_eq_some_iff.1 hat.symm
          exact Or.inr (List.mem_singleton.2 (congrArg Prod.fst he))
    · intro hfin k' hk' hno
      rw [List.map_append, List.mem_append]
      exact Or.inl (h.ended hfin k' hk' fun hmem => hno (hnot.2 hmem))
    · refine h.count.imp_right fun hcount => ?_
      rw [List.length_append, List.countP_append, hcount]
      rfl
  · refine ⟨{ w with finished := true }, pos, ?_, ⟨h.good, h.same, ?_, ?_, h.last_eq, h.seen_lt, h.nodup, ?_,
      ?_, ?_, Or.inl rfl⟩⟩
    · rw [TraversalEvent.step, hnext]
      rfl
    · exact fun k' x hx => (h.has k' x hx).imp_right hnot.2
    · exact fun k' hk' hno => h.alive k' hk' fun hmem => hno (hnot.2 hmem)
    · exact fun e he => (h.sound e he).imp_right hnot.2
    · exact fun k' s' hs' hlt hk' hno => h.complete k' s' hs' hlt hk' fun hmem => hno (hnot.2 hmem)
    · intro _ k' hk' hno
      have hno' : .assign k' none ∉ done := fun hmem => hno (hnot.2 hmem)
      obtain ⟨x, hx⟩ := Option.ne_none_iff_exists'.1 hk'
      obtain ⟨s', hs', -⟩ := slot_of_has ht.good.toCore ((ht.has_iff k' x).2 hx)
      refine h.complete k' s' hs' ?_ hk' hno'
      by_contra hge
      refine h.entryAt_ne_none hs' hk' hno' (hskip _ (not_lt.1 hge) ?_)
      rw [h.same.sizearray_eq, h.same.size_eq]
      exact index_lt ht.good.toCore hs'

/-- **A traversal of a table** that has been made by any run, with fields assigned to and cleared in between:
it does not fail, no key comes twice, what comes is an entry that the table had, and once the end is seen
every key that was there all along has come. The end is seen after one call more than there are keys. -/
theorem next_visits_all (hash : BitVec 32 → BitVec 32) (d : ℕ) {narray nhash : ℕ} (hna : narray ≤ MAXASIZE)
    (hnh : nhash ≤ 2 ^ MAXBITS) (ops : List (TableOp V)) (hfits : ∀ op ∈ ops, op.Fits)
    (hlen : ops.length ≤ 2 ^ MAXBITS) {t : Table V} (hrun : runTable hash (d + 2) narray nhash ops = .ok t)
    (events : List (TraversalEvent V)) (hex : ∀ k v, .assign k v ∈ events → mapOf ops k ≠ none) :
    ∃ w, events.foldlM (TraversalEvent.step hash d) { table := t } = .ok w ∧
      (w.seen.map Prod.fst).Nodup ∧
      (∀ e ∈ w.seen, mapOf ops e.1 = some e.2 ∨ .assign e.1 (some e.2) ∈ events) ∧
      (w.finished = true → ∀ k, mapOf ops k ≠ none → .assign k none ∉ events → k ∈ w.seen.map Prod.fst) ∧
      ∀ keys : Finset Key, (∀ k, mapOf ops k ≠ none → k ∈ keys) →
        keys.card < events.countP TraversalEvent.isNext → w.finished = true := by
  obtain ⟨u, hu, ht, -⟩ := runTable_spec hash d hna hnh ops hfits hlen
  obtain rfl : u = t := Except.ok.inj (hu.symm.trans hrun)
  have hfold : ∀ (todo done : List (TraversalEvent V)) (w : Traversal V) (pos : ℕ),
      (∀ k v, .assign k v ∈ todo → mapOf ops k ≠ none) → w.Inv hash u (mapOf ops) done pos →
      ∃ w' pos', todo.foldlM (TraversalEvent.step hash d) w = .ok w' ∧
        w'.Inv hash u (mapOf ops) (done ++ todo) pos' := by
    intro todo
    induction todo with
    | nil => exact fun done w pos _ h => ⟨w, pos, rfl, by rwa [List.append_nil]⟩
    | cons e todo ih =>
      intro done w pos hex h
      have hstep : ∃ w' pos', e.step hash d w = .ok w' ∧ w'.Inv hash u (mapOf ops) (done ++ [e]) pos' := by
        cases e with
        | assign k v =>
          obtain ⟨w', hw', h'⟩ := h.assign ht d (hex k v List.mem_cons_self) v
          exact ⟨w', pos, hw', h'⟩
        | next => exact h.next ht d
      obtain ⟨w₁, pos₁, hstep, h₁⟩ := hstep
      obtain ⟨w', pos', hfold, h'⟩ := ih (done ++ [e]) w₁ pos₁
        (fun k v hmem => hex k v (List.mem_cons_of_mem _ hmem)) h₁
      rw [List.append_assoc] at h'
      refine ⟨w', pos', ?_, h'⟩
      rw [List.foldlM_cons, hstep]
      exact hfold
  obtain ⟨w, pos, hw, h⟩ := hfold events [] { table := u } 0 hex (Traversal.inv_init ht)
  rw [List.nil_append] at h
  refine ⟨w, hw, h.nodup, h.sound, h.ended, fun keys hkeys hcard => ?_⟩
  refine h.count.resolve_right fun hcount => ?_
  have hsub : (w.seen.map Prod.fst).toFinset ⊆ keys := by
    intro k hk
    obtain ⟨e, he, rfl⟩ := List.mem_map.1 (List.mem_toFinset.1 hk)
    obtain hv | hmem := h.sound e he
    · exact hkeys _ (by rw [hv]; exact nofun)
    · exact hkeys _ (hex _ _ hmem)
  have hle := Finset.card_le_card hsub
  rw [List.toFinset_card_of_nodup h.nodup, List.length_map] at hle
  omega

theorem next_visits_all_array :
    ∃ w, ([.next, .assign (.number 1) none, .next, .next] : List (TraversalEvent ℕ)).foldlM
        (TraversalEvent.step id 0) { table := ⟨2, [some 10, some 20], true, dummynode⟩ } = .ok w ∧
      (w.seen.map Prod.fst).Nodup ∧
      (∀ e ∈ w.seen, mapOf [.rawseti 1 (some 10), .rawseti 2 (some 20)] e.1 = some e.2 ∨
        TraversalEvent.assign e.1 (some e.2) ∈ [.next, .assign (.number 1) none, .next, .next]) ∧
      (w.finished = true → ∀ k, mapOf [.rawseti 1 (some 10), .rawseti 2 (some 20)] k ≠ none →
        TraversalEvent.assign (V := ℕ) k none ∉ [.next, .assign (.number 1) none, .next, .next] →
        k ∈ w.seen.map Prod.fst) ∧
      ∀ keys : Finset Key, (∀ k, mapOf [.rawseti 1 (some 10), .rawseti 2 (some 20)] k ≠ none → k ∈ keys) →
        keys.card < ([.next, .assign (.number 1) none, .next, .next] : List (TraversalEvent ℕ)).countP
          TraversalEvent.isNext → w.finished = true :=
  next_visits_all id 0 (show 2 ≤ MAXASIZE by decide) (Nat.zero_le _)
    [.rawseti 1 (some 10), .rawseti 2 (some 20)]
    (by
      intro op hop
      simp only [List.mem_cons, List.not_mem_nil, or_false] at hop
      obtain rfl | rfl := hop <;> exact trivial)
    (by decide) rfl _
    (by
      intro k v hmem
      simp only [List.mem_cons, List.not_mem_nil, or_false, reduceCtorEq, false_or,
        TraversalEvent.assign.injEq] at hmem
      obtain ⟨rfl, -⟩ := hmem
      decide)

end Lua

end OsdCore
