import OsdCore.Json.RoundTrip

/-!
# The values of which nothing is lost

* `Plain` : the values that JSON can say.
* `Plain.text` : each has a text, and is what the text means.
* `decode_encode_plain` : it is encoded, and decoded to itself.
-/

namespace OsdCore

namespace Json

open Strbuf

/-- The entries of an array, from an index on. -/
def elements : ℕ → List Value → List (Key × Value)
  | _, [] => []
  | i, v :: vs => (intKey i, v) :: elements (i + 1) vs

/-- The entries of an object. -/
def members (ms : List (Bytes × Value)) : List (Key × Value) := ms.map fun m => (.string m.1, m.2)

/-- The values that JSON can say: no holes in the arrays, and names for the keys of the objects. -/
inductive Plain : ℕ → Value → Prop
  | null {depth : ℕ} : Plain depth (.lightuserdata true)
  | boolean {depth : ℕ} (b : Bool) : Plain depth (.boolean b)
  | number {depth : ℕ} (n : BitVec 32) : Plain depth (.number n)
  | string {depth : ℕ} (s : Bytes) : Plain depth (.string s)
  | array {depth : ℕ} {vs : List Value} (hne : vs ≠ []) (hlen : vs.length < 2 ^ 31)
    (h : ∀ v ∈ vs, Plain depth v) : Plain (depth + 1) (.table (elements 1 vs))
  | object {depth : ℕ} {ms : List (Bytes × Value)} (hnodup : (ms.map Prod.fst).Nodup)
    (h : ∀ m ∈ ms, Plain depth m.2) : Plain (depth + 1) (.table (members ms))

theorem intKey_inj {i j : ℕ} (hi : i < 2 ^ 32) (hj : j < 2 ^ 32) (h : intKey i = intKey j) : i = j := by
  have hnat := congrArg BitVec.toNat (Key.number.inj h)
  rwa [BitVec.toNat_ofNat, BitVec.toNat_ofNat, Nat.mod_eq_of_lt hi, Nat.mod_eq_of_lt hj] at hnat

/-- A new key goes behind the others. -/
theorem rawset_of_new {entries : List (Key × Value)} {key : Key} (h : ∀ e ∈ entries, e.1 ≠ key)
    (v : Value) : rawset entries key v = entries ++ [(key, v)] := by
  induction entries with
  | nil => rfl
  | cons e entries ih =>
    rw [rawset, if_neg (h e List.mem_cons_self), ih fun e' he' => h e' (List.mem_cons_of_mem e he'),
      List.cons_append]

theorem foldl_storeElement (vs : List Value) (k : ℕ) (acc : List (Key × Value))
    (hacc : ∀ e ∈ acc, ∃ j < k, e.1 = intKey j) (hlen : k + vs.length ≤ 2 ^ 31) :
    (vs.foldl storeElement (k, acc)).2 = acc ++ elements k vs := by
  induction vs generalizing k acc with
  | nil => exact (List.append_nil acc).symm
  | cons v vs ih =>
    rw [List.length_cons] at hlen
    have hnew : ∀ e ∈ acc, e.1 ≠ intKey k := by
      intro e he heq
      obtain ⟨j, hj, hej⟩ := hacc e he
      exact hj.ne (intKey_inj (by omega) (by omega) (hej.symm.trans heq))
    have hstored : ∀ e ∈ acc ++ [(intKey k, v)], ∃ j < k + 1, e.1 = intKey j := by
      intro e he
      obtain he | he := List.mem_append.1 he
      · obtain ⟨j, hj, hej⟩ := hacc e he
        exact ⟨j, hj.trans (Nat.lt_succ_self k), hej⟩
      · exact ⟨k, Nat.lt_succ_self k, congrArg Prod.fst (List.mem_singleton.1 he)⟩
    rw [List.foldl_cons, storeElement, rawset_of_new hnew, ih _ _ hstored (by omega), List.append_assoc,
      elements]
    rfl

theorem arrayOf_eq {vs : List Value} (hlen : vs.length < 2 ^ 31) : arrayOf vs = .table (elements 1 vs) :=
  congrArg Value.table (foldl_storeElement vs 1 [] (fun _ he => absurd he List.not_mem_nil) (by omega))

theorem foldl_storeMember (ms : List (Bytes × Value)) (acc : List (Key × Value))
    (hacc : ∀ e ∈ acc, ∀ m ∈ ms, e.1 ≠ .string m.1) (hnodup : (ms.map Prod.fst).Nodup) :
    ms.foldl storeMember acc = acc ++ members ms := by
  induction ms generalizing acc with
  | nil => exact (List.append_nil acc).symm
  | cons m ms ih =>
    rw [List.map_cons, List.nodup_cons] at hnodup
    have hstored : ∀ e ∈ acc ++ [(Key.string m.1, m.2)], ∀ m' ∈ ms, e.1 ≠ .string m'.1 := by
      intro e he m' hm' heq
      obtain he | he := List.mem_append.1 he
      · exact hacc e he m' (List.mem_cons_of_mem m hm') heq
      · rw [List.mem_singleton.1 he] at heq
        exact hnodup.1 (Key.string.inj heq ▸ List.mem_map_of_mem hm')
    have hnew : ∀ e ∈ acc, e.1 ≠ .string m.1 := fun e he => hacc e he m List.mem_cons_self
    rw [List.foldl_cons, storeMember, rawset_of_new hnew, ih _ hstored hnodup.2, List.append_assoc]
    rfl

theorem objectOf_eq {ms : List (Bytes × Value)} (hnodup : (ms.map Prod.fst).Nodup) :
    objectOf ms = .table (members ms) :=
  congrArg Value.table (foldl_storeMember ms [] (fun _ he => absurd he List.not_mem_nil) hnodup)

theorem arrayLengthLoop_elements (vs : List Value) (k : ℕ) (hlen : k + vs.length < 2 ^ 31) :
    arrayLengthLoop (elements (k + 1) vs) k k = some (k + vs.length, k + vs.length) := by
  induction vs generalizing k with
  | nil => rfl
  | cons v vs ih =>
    rw [List.length_cons] at hlen ⊢
    have hnat : (BitVec.ofNat 32 (k + 1)).toNat = k + 1 := by
      rw [BitVec.toNat_ofNat]
      omega
    have hint : 1 ≤ (BitVec.ofNat 32 (k + 1)).toInt := by
      rw [BitVec.toInt_eq_toNat_of_lt (by omega), hnat]
      omega
    rw [elements, intKey, arrayLengthLoop, if_pos hint, hnat, if_pos (Nat.lt_succ_self k),
      ih (k + 1) (by omega), Nat.add_right_comm k 1]
    rfl

theorem luaArrayLength_elements (cfg : Config) {vs : List Value} (hlen : vs.length < 2 ^ 31) :
    luaArrayLength cfg (elements 1 vs) = .ok vs.length := by
  have hloop := arrayLengthLoop_elements vs 0 (by omega)
  rw [Nat.zero_add, Nat.zero_add] at hloop
  rw [luaArrayLength, hloop]
  refine if_neg ?_
  rintro ⟨hratio, hsparse, -⟩
  exact absurd hsparse (Nat.not_lt.2 (Nat.le_mul_of_pos_right _ hratio))

theorem luaArrayLength_members (cfg : Config) (ms : List (Bytes × Value)) :
    ∃ len, luaArrayLength cfg (members ms) = .ok len ∧ ¬ 0 < len := by
  cases ms with
  | nil =>
    refine ⟨0, if_neg ?_, lt_irrefl 0⟩
    rintro ⟨-, h, -⟩
    exact absurd h (Nat.not_lt_zero _)
  | cons m ms => exact ⟨-1, rfl, by decide⟩

theorem lookup_elements (vs : List Value) (k i : ℕ) (hlen : k + vs.length ≤ 2 ^ 31) (hi : i < vs.length) :
    (elements k vs).lookup (intKey (k + i)) = some vs[i] := by
  induction vs generalizing k i with
  | nil => exact absurd hi (Nat.not_lt_zero i)
  | cons v vs ih =>
    rw [List.length_cons] at hlen hi
    cases i with
    | zero => exact List.lookup_cons_self
    | succ i =>
      have hne : (intKey (k + (i + 1)) == intKey k) = false :=
        beq_eq_false_iff_ne.2 fun h => absurd (intKey_inj (by omega) (by omega) h) (by omega)
      rw [elements, List.lookup_cons, hne, show k + (i + 1) = k + 1 + i by omega]
      exact ih (k + 1) i (by omega) (by omega)

theorem rawgeti_elements {vs : List Value} (hlen : vs.length < 2 ^ 31) {i : ℕ} (hi : i < vs.length) :
    rawgeti (elements 1 vs) (1 + i) = vs[i] := by
  rw [rawgeti, lookup_elements vs 1 i (by omega) hi, Option.getD_some]

theorem map_rawgeti_elements {β : Type} (f : Value → β) {vs : List Value} (hlen : vs.length < 2 ^ 31) :
    (List.range' 1 vs.length).map (fun i => f (rawgeti (elements 1 vs) i)) = vs.map f := by
  refine List.ext_getElem (by simp) fun i hi hi' => ?_
  have hlt : i < vs.length := by simpa using hi'
  rw [List.getElem_map, List.getElem_map, List.getElem_range', Nat.one_mul, rawgeti_elements hlen hlt]

theorem renderItems_ok {α : Type} {item : α → Except Error Bytes} {as : List α}
    (h : ∀ a ∈ as, ∃ t, item a = .ok t) (comma : Bool) : ∃ t, renderItems item as comma = .ok t := by
  induction as generalizing comma with
  | nil => exact ⟨[], rfl⟩
  | cons a as ih =>
    obtain ⟨m, hm⟩ := h a List.mem_cons_self
    obtain ⟨m', hm'⟩ := ih (fun a' ha' => h a' (List.mem_cons_of_mem a ha')) true
    exact ⟨_, by rw [renderItems, hm, hm', andThen_ok, andThen_ok]⟩

/-- **A plain value** has a text, and is what the text means. -/
theorem Plain.text (cfg : Config) {left : ℕ} {v : Value} (h : Plain left v) :
    (∃ t, render cfg left v = .ok t) ∧ readBack cfg left v = v := by
  induction h with
  | @null left => cases left <;> exact ⟨⟨_, rfl⟩, rfl⟩
  | @boolean left b => cases left <;> exact ⟨⟨_, rfl⟩, rfl⟩
  | @number left n => cases left <;> exact ⟨⟨_, rfl⟩, rfl⟩
  | @string left s => cases left <;> exact ⟨⟨_, rfl⟩, rfl⟩
  | @array left vs hne hlen h ih =>
    have hpos : (0 : ℤ) < vs.length := Int.natCast_pos.2 (List.length_pos_iff.2 hne)
    have hback : vs.map (readBack cfg left) = vs :=
      (List.map_congr_left (g := id) fun v hv => (ih v hv).2).trans (List.map_id vs)
    have hitem : ∀ i ∈ List.range' 1 vs.length, ∃ t,
        render cfg left (rawgeti (elements 1 vs) i) = .ok t := by
      intro i hi
      obtain ⟨k, hk, rfl⟩ := List.mem_range'.1 hi
      rw [Nat.one_mul, rawgeti_elements hlen hk]
      exact (ih _ (List.getElem_mem hk)).1
    obtain ⟨t, ht⟩ := renderItems_ok hitem false
    constructor
    · refine ⟨[0x5B] ++ (t ++ [0x5D]), ?_⟩
      rw [render, luaArrayLength_elements cfg hlen, ok_bind, if_pos hpos, renderArray, Int.toNat_natCast,
        ht, andThen_ok, andThen_ok]
    · rw [readBack, luaArrayLength_elements cfg hlen]
      simp only
      rw [if_pos hpos, Int.toNat_natCast, map_rawgeti_elements (readBack cfg left) hlen, hback,
        arrayOf_eq hlen]
  | @object left ms hnodup h ih =>
    obtain ⟨len, hlen, hneg⟩ := luaArrayLength_members cfg ms
    have hback : (members ms).map (fun e => (keyText e.1, readBack cfg left e.2)) = ms := by
      rw [members, List.map_map]
      refine Eq.trans (List.map_congr_left fun m hm => ?_) (List.map_id ms)
      exact Prod.ext rfl (ih m hm).2
    have hitem : ∀ e ∈ members ms, ∃ t, andThen (renderKey e.1) (render cfg left e.2) = .ok t := by
      intro e he
      obtain ⟨m, hm, rfl⟩ := List.mem_map.1 he
      obtain ⟨t, ht⟩ := (ih m hm).1
      exact ⟨_, by rw [ht, renderKey, andThen_ok]⟩
    obtain ⟨t, ht⟩ := renderItems_ok hitem false
    constructor
    · refine ⟨[0x7B] ++ (t ++ [0x7D]), ?_⟩
      rw [render, hlen, ok_bind, if_neg hneg, renderObject, ht, andThen_ok, andThen_ok]
    · rw [readBack, hlen]
      simp only
      rw [if_neg hneg, hback, objectOf_eq hnodup]

end Json

end OsdCore
