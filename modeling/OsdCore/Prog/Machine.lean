import Mathlib.Logic.Function.Basic

/-!
# Machines that take step after step

A machine of several parties is a function `step` : what an action does to the state, `none` where it cannot
be taken.

* `Steps step ok s₀ s` : there are steps from `s₀` to `s`, and all of them are `ok`.
* `Steps.invariant` : what holds in the beginning, and what every such step keeps, holds in every state
  that is reached.
* `replay` : the state after a list of actions; it is reached, and `exists_of_replay` gives it.
* `update_eq_some`, `forall_update`, `exists_update_iff` : the entries of a table, one for each party, when one
  of them has changed.
-/

namespace OsdCore

variable {S A : Type} {step : S → A → Option S} {ok : S → A → Prop} {s₀ s s' : S} {a : A}

/-- A state that is reached by steps that are all `ok`. -/
inductive Steps (step : S → A → Option S) (ok : S → A → Prop) (s₀ : S) : S → Prop
  | refl : Steps step ok s₀ s₀
  | tail {s s' : S} {a : A} : Steps step ok s₀ s → ok s a → step s a = some s' →
      Steps step ok s₀ s'

namespace Steps

/-- **The rule for invariants.** -/
theorem invariant {I : S → Prop} (h : Steps step ok s₀ s) (hinit : I s₀)
    (hstep : ∀ s a s', I s → ok s a → step s a = some s' → I s') : I s := by
  induction h with
  | refl => exact hinit
  | tail _ hok hs ih => exact hstep _ _ _ ih hok hs

theorem trans {s₁ s₂ : S} (h : Steps step ok s₀ s₁) (h' : Steps step ok s₁ s₂) :
    Steps step ok s₀ s₂ := by
  induction h' with
  | refl => exact h
  | tail _ hok hs ih => exact ih.tail hok hs

theorem single (hok : ok s a) (hs : step s a = some s') : Steps step ok s s' := .tail .refl hok hs

end Steps

/-! ### Runs that are given -/

/-- The state after the actions, if all of them can be taken and are `ok`. -/
def replay (step : S → A → Option S) (ok : S → A → Prop) [∀ s a, Decidable (ok s a)] :
    List A → S → Option S
  | [], s => some s
  | a :: acts, s => if ok s a then (step s a).bind (replay step ok acts) else none

/-- **It is reached.** -/
theorem steps_of_replay [∀ s a, Decidable (ok s a)] {acts : List A}
    (h : replay step ok acts s = some s') : Steps step ok s s' := by
  induction acts generalizing s with
  | nil =>
    obtain rfl : s = s' := Option.some.inj h
    exact .refl
  | cons a acts ih =>
    rw [replay] at h
    by_cases hok : ok s a
    · rw [if_pos hok] at h
      obtain ⟨s₁, hs, hrest⟩ := Option.bind_eq_some_iff.1 h
      exact (Steps.single hok hs).trans (ih hrest)
    · rw [if_neg hok] at h
      exact absurd h.symm (Option.some_ne_none s')

/-- A state that is reached, with a property that can be decided. -/
theorem exists_of_replay [∀ s a, Decidable (ok s a)] {acts : List A} {p : S → Bool}
    (h : (replay step ok acts s).any p = true) : ∃ s', Steps step ok s s' ∧ p s' = true := by
  cases hr : replay step ok acts s with
  | none =>
    rw [hr] at h
    cases h
  | some s' =>
    rw [hr] at h
    exact ⟨s', steps_of_replay hr, h⟩

/-! ### Tables of parties -/

section

variable {K V : Type} [DecidableEq K] {table : K → Option V} {k k' : K} {v : V} {now : Option V}

/-- An entry is the new one of this party, or the old one of another. -/
theorem update_eq_some (h : Function.update table k now k' = some v) :
    (k' = k ∧ now = some v) ∨ (k' ≠ k ∧ table k' = some v) := by
  by_cases heq : k' = k
  · subst heq
    rw [Function.update_self] at h
    exact .inl ⟨rfl, h⟩
  · rw [Function.update_of_ne heq] at h
    exact .inr ⟨heq, h⟩

/-- What the other parties have kept, and this one has now. -/
theorem forall_update {P : K → V → Prop} (h : ∀ k' ≠ k, ∀ v, table k' = some v → P k' v)
    (hnow : ∀ v, now = some v → P k v) : ∀ k' v, Function.update table k now k' = some v → P k' v := by
  intro k' v hv
  rcases update_eq_some hv with ⟨rfl, hv'⟩ | ⟨hne, hv'⟩
  · exact hnow v hv'
  · exact h k' hne v hv'

theorem exists_update_of_ne (hne : k' ≠ k) (h : ∃ v, table k' = some v) :
    ∃ v, Function.update table k now k' = some v := by
  rwa [Function.update_of_ne hne]

theorem exists_update (h : k' ≠ k → ∃ v, table k' = some v) :
    ∃ v', Function.update table k (some v) k' = some v' := by
  by_cases heq : k' = k
  · subst heq
    exact ⟨v, Function.update_self ..⟩
  · exact exists_update_of_ne heq (h heq)

/-- A party that is not at the place, before and after. -/
theorem exists_update_iff {Q : V → Prop} (hbefore : ∀ v, table k = some v → ¬ Q v)
    (hnow : ∀ v, now = some v → ¬ Q v) :
    (∃ k' v, Function.update table k now k' = some v ∧ Q v) ↔ ∃ k' v, table k' = some v ∧ Q v := by
  constructor
  · rintro ⟨k', v, hv, hQ⟩
    rcases update_eq_some hv with ⟨rfl, hv'⟩ | ⟨-, hv'⟩
    · exact absurd hQ (hnow v hv')
    · exact ⟨k', v, hv', hQ⟩
  · rintro ⟨k', v, hv, hQ⟩
    refine ⟨k', v, ?_, hQ⟩
    rw [Function.update_of_ne, hv]
    rintro rfl
    exact hbefore v hv hQ

end

end OsdCore
