import Mathlib.Data.Finset.Card
import Mathlib.Logic.Function.Basic
import Mathlib.Logic.Relation

/-!
# Chained scatter tables

A hash table without lists of its own: the chains of the places that collide run through the table
itself (Brent's variation). A key that collides with one that is where its hash says goes to a free
place; one that is elsewhere has to make room.

* `Scatter.find` : the search along the chain of a key.
* `Scatter.insert` : a place for a key that has none yet.
* `Scatter.Good` : the chains end, no place has two before it, every key is in the chain that its hash
  begins, and the first place of that chain holds a key of the same hash.
-/

namespace OsdCore

/-- A place of the table: a key, its value and the next place of the chain; `none` where it is nil. -/
structure Node (K V : Type*) where
  key : Option K := none
  val : Option V := none
  next : Option ℕ := none

/-- A table of `size` places, of which those from `lastfree` on are no longer free. -/
structure Scatter (K V : Type*) where
  size : ℕ
  node : ℕ → Node K V
  lastfree : ℕ

namespace Scatter

variable {K V : Type*}

/-- A table with no keys. -/
def empty (size : ℕ) : Scatter K V := ⟨size, fun _ => {}, size⟩

/-- One place written. -/
def put (t : Scatter K V) (i : ℕ) (n : Node K V) : Scatter K V :=
  { t with node := Function.update t.node i n }

/-- The next free place below `lastfree`, from above. -/
def freeBelow (t : Scatter K V) : ℕ → Option ℕ
  | 0 => none
  | i + 1 => if (t.node i).key.isNone then some i else freeBelow t i

/-- The place before `i` in the chain from `j`; `none` when the chain does not come to `i`. -/
def prevFrom (t : Scatter K V) (i : ℕ) : ℕ → ℕ → Option ℕ
  | 0, _ => none
  | fuel + 1, j =>
    if (t.node j).next = some i then some j
    else
      match (t.node j).next with
      | none => none
      | some j' => prevFrom t i fuel j'

/-- A key that is where it belongs lets the new one in behind it, in the free place `n`. -/
def link (t : Scatter K V) (i n : ℕ) (k : K) : Scatter K V :=
  let t := t.put n { t.node n with next := (t.node i).next }
  let t := t.put i { t.node i with next := some n }
  t.put n { t.node n with key := some k }

/-- A key that is not where it belongs moves to the free place `n`; `p` is the place before it. -/
def move (t : Scatter K V) (p i n : ℕ) (k : K) : Scatter K V :=
  let t := t.put p { t.node p with next := some n }
  let t := t.put n (t.node i)
  let t := t.put i { t.node i with next := none }
  let t := t.put i { t.node i with val := none }
  t.put i { t.node i with key := some k }

/-- What the search for a place comes to: a place, no place left, or a chain that is broken. -/
inductive Outcome (K V : Type*)
  | placed (t : Scatter K V) (i : ℕ)
  | full (t : Scatter K V)
  | lost

section Search

variable [DecidableEq K]

/-- The place of `k` in the chain from a place; the outer `none` is a chain that does not end. -/
def findFrom (t : Scatter K V) (k : K) : ℕ → ℕ → Option (Option ℕ)
  | 0, _ => none
  | fuel + 1, i =>
    if (t.node i).key = some k then some (some i)
    else
      match (t.node i).next with
      | none => some none
      | some j => findFrom t k fuel j

/-- The place of `k` in the chain that begins where its hash says. -/
def find (mp : K → ℕ) (t : Scatter K V) (k : K) : Option (Option ℕ) := t.findFrom k t.size (mp k)

end Search

/-- A place for the key `k`, which has none. -/
def insert (mp : K → ℕ) (t : Scatter K V) (k : K) : Outcome K V :=
  let i := mp k
  if (t.node i).val.isNone then .placed (t.put i { t.node i with key := some k }) i
  else
    match t.freeBelow t.lastfree with
    | none => .full { t with lastfree := 0 }
    | some n =>
      let t := { t with lastfree := n }
      match (t.node i).key with
      | none => .lost
      | some k' =>
        if mp k' = i then .placed (t.link i n k) n
        else
          match t.prevFrom i t.size (mp k') with
          | none => .lost
          | some p => .placed (t.move p i n k) i

/-- The places that have a key. -/
def used (t : Scatter K V) : Finset ℕ := {i ∈ Finset.range t.size | (t.node i).key.isSome}

/-- `k` has the value `v`. -/
def Holds (t : Scatter K V) (k : K) (v : V) : Prop :=
  ∃ i, (t.node i).key = some k ∧ (t.node i).val = some v

/-- `j` comes right after `i`. -/
def Next (t : Scatter K V) (i j : ℕ) : Prop := (t.node i).next = some j

/-- **What holds of a table** at any time. -/
structure Good (mp : K → ℕ) (t : Scatter K V) : Prop where
  mp_lt : ∀ k, mp k < t.size
  outside : ∀ i, t.size ≤ i → t.node i = {}
  blank : ∀ i, (t.node i).key = none → t.node i = {}
  next_key : ∀ i j, t.Next i j → (t.node j).key ≠ none
  next_inj : ∀ i i' j, t.Next i j → t.Next i' j → i = i'
  ends : ∃ rank : ℕ → ℕ, ∀ i j, t.Next i j → rank j < rank i
  home : ∀ i k, (t.node i).key = some k → ∃ k', (t.node (mp k)).key = some k' ∧ mp k' = mp k
  reach : ∀ i k, (t.node i).key = some k → Relation.ReflTransGen t.Next (mp k) i
  distinct : ∀ i j k, (t.node i).key = some k → (t.node j).key = some k → i = j

/-- From `lastfree` on no place is free. -/
structure FreeBelow (t : Scatter K V) : Prop where
  le : t.lastfree ≤ t.size
  keyed : ∀ i, t.lastfree ≤ i → i < t.size → (t.node i).key ≠ none

/-- **What an insertion does**: the key has a place of its own, with no value, and no value is lost. -/
structure Placed (mp : K → ℕ) (t : Scatter K V) (k : K) (t' : Scatter K V) (i : ℕ) : Prop where
  good : Good mp t'
  free : t'.FreeBelow
  size_eq : t'.size = t.size
  key_eq : (t'.node i).key = some k
  val_eq : (t'.node i).val = none
  holds_iff : ∀ k' v, t'.Holds k' v ↔ t.Holds k' v
  old_key : ∀ j k', (t'.node j).key = some k' → k' = k ∨ ∃ j', (t.node j').key = some k'
  used_le : t'.used.card ≤ t.used.card + 1

@[simp] theorem put_size (t : Scatter K V) (i : ℕ) (n : Node K V) : (t.put i n).size = t.size := rfl

@[simp] theorem put_lastfree (t : Scatter K V) (i : ℕ) (n : Node K V) :
    (t.put i n).lastfree = t.lastfree := rfl

theorem put_node (t : Scatter K V) (i : ℕ) (n : Node K V) (j : ℕ) :
    (t.put i n).node j = if j = i then n else t.node j := Function.update_apply _ _ _ _

theorem good_empty {mp : K → ℕ} {size : ℕ} (hmp : ∀ k, mp k < size) :
    Good mp (empty size : Scatter K V) where
  mp_lt := hmp
  outside _ _ := rfl
  blank _ _ := rfl
  next_key _ _ h := nomatch h
  next_inj _ _ _ h := nomatch h
  ends := ⟨fun _ => 0, fun _ _ h => nomatch h⟩
  home _ _ h := nomatch h
  reach _ _ h := nomatch h
  distinct _ _ _ h := nomatch h

theorem freeBelow_empty (size : ℕ) : (empty size : Scatter K V).FreeBelow :=
  ⟨le_rfl, fun _ h h' => absurd h' h.not_gt⟩

section Good

variable {mp : K → ℕ} {t : Scatter K V}

theorem Good.lt_of_key (hg : Good mp t) {i : ℕ} (h : (t.node i).key ≠ none) : i < t.size := by
  by_contra hi
  exact h (by rw [hg.outside i (not_lt.1 hi)])

/-- **The chains end**: a place is not reached again from those that come after it. -/
theorem Good.not_reach (hg : Good mp t) {i j : ℕ} (h : t.Next i j) :
    ¬ Relation.ReflTransGen t.Next j i := by
  obtain ⟨rank, hrank⟩ := hg.ends
  have hle : ∀ i j, Relation.ReflTransGen t.Next i j → rank j ≤ rank i := by
    intro i j hij
    induction hij with
    | refl => exact le_rfl
    | tail _ hn ih => exact (hrank _ _ hn).le.trans ih
  exact fun hji => (hrank i j h).not_ge (hle j i hji)

open Classical in
/-- The places that come after a place, itself among them. -/
noncomputable def after (t : Scatter K V) (i : ℕ) : Finset ℕ :=
  {j ∈ Finset.range t.size | Relation.ReflTransGen t.Next i j}

open Classical in
theorem card_after_le (t : Scatter K V) (i : ℕ) : (t.after i).card ≤ t.size :=
  (Finset.card_filter_le _ _).trans (Finset.card_range _).le

open Classical in
theorem mem_after {i j : ℕ} : j ∈ t.after i ↔ j < t.size ∧ Relation.ReflTransGen t.Next i j := by
  rw [after, Finset.mem_filter, Finset.mem_range]

theorem Good.card_after_lt (hg : Good mp t) {i j : ℕ} (hi : i < t.size) (h : t.Next i j) :
    (t.after j).card < (t.after i).card := by
  refine Finset.card_lt_card (Finset.ssubset_iff_subset_ne.2 ⟨fun x hx => ?_, fun he => ?_⟩)
  · obtain ⟨hlt, hr⟩ := mem_after.1 hx
    exact mem_after.2 ⟨hlt, hr.head h⟩
  · have hmem : i ∈ t.after i := mem_after.2 ⟨hi, .refl⟩
    rw [← he] at hmem
    exact hg.not_reach h (mem_after.1 hmem).2

theorem Good.next_lt (hg : Good mp t) {i j : ℕ} (h : t.Next i j) : j < t.size :=
  hg.lt_of_key (hg.next_key i j h)

theorem Good.not_next_of_key_eq_none (hg : Good mp t) {i : ℕ} (h : (t.node i).key = none) (j : ℕ) :
    ¬ t.Next i j := by
  rw [Next, hg.blank i h]
  exact nofun

section Search

variable [DecidableEq K]

theorem findFrom_succ (t : Scatter K V) (k : K) (fuel i : ℕ) :
    t.findFrom k (fuel + 1) i =
      if (t.node i).key = some k then some (some i)
      else
        match (t.node i).next with
        | none => some none
        | some j => t.findFrom k fuel j := rfl

/-- **The search finds** a key that is in the chain. -/
theorem Good.findFrom_of_reach (hg : Good mp t) {k : K} {i : ℕ} (hk : (t.node i).key = some k) :
    ∀ fuel a, a < t.size → (t.after a).card ≤ fuel → Relation.ReflTransGen t.Next a i →
      t.findFrom k fuel a = some (some i) := by
  intro fuel
  induction fuel with
  | zero =>
    intro a ha hle _
    have hpos : 0 < (t.after a).card := Finset.card_pos.2 ⟨a, mem_after.2 ⟨ha, .refl⟩⟩
    omega
  | succ fuel ih =>
    intro a ha hle hr
    rw [findFrom_succ]
    split_ifs with hka
    · rw [hg.distinct a i k hka hk]
    · obtain rfl | ⟨b, hb, hbi⟩ := hr.cases_head
      · exact absurd hk hka
      · have hnext : (t.node a).next = some b := hb
        simp only [hnext]
        have hlt := hg.card_after_lt ha hb
        exact ih b (hg.next_lt hb) (by omega) hbi

/-- **The search ends** without the key when no place has it. -/
theorem Good.findFrom_of_absent (hg : Good mp t) {k : K} (hk : ∀ i, (t.node i).key ≠ some k) :
    ∀ fuel a, a < t.size → (t.after a).card ≤ fuel → t.findFrom k fuel a = some none := by
  intro fuel
  induction fuel with
  | zero =>
    intro a ha hle
    have hpos : 0 < (t.after a).card := Finset.card_pos.2 ⟨a, mem_after.2 ⟨ha, .refl⟩⟩
    omega
  | succ fuel ih =>
    intro a ha hle
    rw [findFrom_succ, if_neg (hk a)]
    cases hnext : (t.node a).next with
    | none => rfl
    | some b =>
      have hlt := hg.card_after_lt ha hnext
      exact ih b (hg.next_lt hnext) (by omega)

theorem Good.find_of_key (hg : Good mp t) {k : K} {i : ℕ} (hk : (t.node i).key = some k) :
    t.find mp k = some (some i) :=
  hg.findFrom_of_reach hk _ _ (hg.mp_lt k) (card_after_le t _) (hg.reach i k hk)

theorem Good.find_of_absent (hg : Good mp t) {k : K} (hk : ∀ i, (t.node i).key ≠ some k) :
    t.find mp k = some none :=
  hg.findFrom_of_absent hk _ _ (hg.mp_lt k) (card_after_le t _)

/-- **The search of a good table** ends, and finds a key exactly where it is. -/
theorem Good.find_spec (hg : Good mp t) (k : K) :
    (∃ i, t.find mp k = some (some i) ∧ (t.node i).key = some k) ∨
      t.find mp k = some none ∧ ∀ i, (t.node i).key ≠ some k := by
  by_cases h : ∃ i, (t.node i).key = some k
  · obtain ⟨i, hi⟩ := h
    exact Or.inl ⟨i, hg.find_of_key hi, hi⟩
  · exact Or.inr ⟨hg.find_of_absent fun i hi => h ⟨i, hi⟩, fun i hi => h ⟨i, hi⟩⟩

end Search

/-- The place before `i` is found from every place that leads to it. -/
theorem Good.prevFrom_of_reach (hg : Good mp t) {p i : ℕ} (hp : t.Next p i) :
    ∀ fuel a, a < t.size → (t.after a).card ≤ fuel → Relation.ReflTransGen t.Next a p →
      t.prevFrom i fuel a = some p := by
  intro fuel
  induction fuel with
  | zero =>
    intro a ha hle _
    have hpos : 0 < (t.after a).card := Finset.card_pos.2 ⟨a, mem_after.2 ⟨ha, .refl⟩⟩
    omega
  | succ fuel ih =>
    intro a ha hle hr
    rw [prevFrom]
    split_ifs with hai
    · rw [hg.next_inj a p i hai hp]
    · obtain rfl | ⟨b, hb, hbp⟩ := hr.cases_head
      · exact absurd hp hai
      · have hnext : (t.node a).next = some b := hb
        simp only [hnext]
        have hlt := hg.card_after_lt ha hb
        exact ih b (hg.next_lt hb) (by omega) hbp

theorem prevFrom_congr (t t' : Scatter K V) (i fuel : ℕ) {a : ℕ} (h : t.node = t'.node) :
    t.prevFrom i fuel a = t'.prevFrom i fuel a := by
  induction fuel generalizing a with
  | zero => rfl
  | succ fuel ih =>
    rw [prevFrom, prevFrom, h]
    split_ifs
    · rfl
    · cases (t'.node a).next with
      | none => rfl
      | some j => exact ih

theorem freeBelow_eq_some {m n : ℕ} (h : t.freeBelow m = some n) :
    n < m ∧ (t.node n).key = none ∧ ∀ i, n < i → i < m → (t.node i).key ≠ none := by
  induction m with
  | zero => exact nomatch h
  | succ m ih =>
    rw [freeBelow] at h
    split_ifs at h with hm
    · obtain rfl := Option.some.inj h
      exact ⟨Nat.lt_succ_self m, Option.isNone_iff_eq_none.1 hm, fun i hi hlt => by omega⟩
    · obtain ⟨hlt, hkey, habove⟩ := ih h
      refine ⟨by omega, hkey, fun i hi him => ?_⟩
      obtain him | rfl := Nat.lt_succ_iff_lt_or_eq.1 him
      · exact habove i hi him
      · exact fun hnone => hm (Option.isNone_iff_eq_none.2 hnone)

theorem freeBelow_eq_none {m : ℕ} (h : t.freeBelow m = none) :
    ∀ i, i < m → (t.node i).key ≠ none := by
  induction m with
  | zero => exact fun i hi => absurd hi (Nat.not_lt_zero i)
  | succ m ih =>
    rw [freeBelow] at h
    split_ifs at h with hm
    intro i hi
    obtain him | rfl := Nat.lt_succ_iff_lt_or_eq.1 hi
    · exact ih h i him
    · exact fun hnone => hm (Option.isNone_iff_eq_none.2 hnone)

theorem mem_used {i : ℕ} : i ∈ t.used ↔ i < t.size ∧ (t.node i).key ≠ none := by
  rw [used, Finset.mem_filter, Finset.mem_range, Option.isSome_iff_ne_none]

end Good

end Scatter

end OsdCore
