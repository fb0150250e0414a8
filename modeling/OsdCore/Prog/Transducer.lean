import Mathlib.Data.Nat.Init
import Mathlib.Data.List.Basic
import Mathlib.Tactic.Push

/-!
# Transducers into a buffer

A `Transducer` turns its input into output, a piece at a time; before each piece it asks whether there is
room in the buffer.  `Transducer.run` goes on until the input is finished or refused, or the buffer is
full.

* `run_cases` : a run is a sequence of pieces, and how it ends is decided where they end.
* `run_error_iff`, `run_refused_iff` : the runs that end badly.
* `run_eq_all` : with room enough, a run does not see the buffer.
* `run_full`, `run_not_full` : a run that found the buffer full is continued by a run on the rest.
-/

namespace OsdCore

/-- What a transducer does next. -/
inductive Move (β ε : Type) where
  /-- The input is at its end. -/
  | finish
  /-- It does something undefined. -/
  | fault (e : ε)
  /-- It does not accept the rest of the input. -/
  | refuse
  /-- It takes `size` symbols and puts out `piece`. -/
  | emit (piece : List β) (size : ℕ)

/-- A transducer: the room it asks for and its next move, by the rest of the input. -/
structure Transducer (α β ε : Type) where
  need : List α → ℕ
  move : List α → Move β ε
  size_pos : ∀ {s piece size}, move s = .emit piece size → 0 < size
  size_le : ∀ {s piece size}, move s = .emit piece size → size ≤ s.length

/-- How a run ends. -/
inductive Ending where
  | finished | full | refused
deriving DecidableEq, Repr

/-- What a run leaves. -/
structure Transduced (α β : Type) where
  ending : Ending
  rest : List α
  out : List β

/-- More output in front. -/
def Transduced.after {α β : Type} (dst : List β) (r : Transduced α β) : Transduced α β :=
  { r with out := dst ++ r.out }

namespace Transducer

variable {α β ε : Type} (t : Transducer α β ε) {room : ℕ → Bool} {s s' : List α} {dst dst' : List β}

/-- Run, in a buffer that already holds `dst`. -/
def run (room : ℕ → Bool) (s : List α) (dst : List β) : Except ε (Transduced α β) :=
  match _h : t.move s with
  | .finish => .ok ⟨.finished, s, dst⟩
  | .fault e => if room (dst.length + t.need s) then .error e else .ok ⟨.full, s, dst⟩
  | .refuse => .ok ⟨if room (dst.length + t.need s) then .refused else .full, s, dst⟩
  | .emit piece size =>
    if room (dst.length + t.need s) then run room (s.drop size) (dst ++ piece)
    else .ok ⟨.full, s, dst⟩
termination_by s.length
decreasing_by
  have hpos := t.size_pos _h
  have hle := t.size_le _h
  rw [List.length_drop]
  omega

/-- Run in a buffer without end. -/
def all (s : List α) (dst : List β) : Except ε (Transduced α β) := t.run (fun _ => true) s dst

theorem run_finish (h : t.move s = .finish) : t.run room s dst = .ok ⟨.finished, s, dst⟩ := by
  unfold run
  split <;> simp_all

theorem run_no_room (h : t.move s ≠ .finish) (hroom : room (dst.length + t.need s) = false) :
    t.run room s dst = .ok ⟨.full, s, dst⟩ := by
  unfold run
  split <;> simp_all

theorem run_fault {e : ε} (h : t.move s = .fault e) (hroom : room (dst.length + t.need s) = true) :
    t.run room s dst = .error e := by
  unfold run
  split <;> simp_all

theorem run_refuse (h : t.move s = .refuse) (hroom : room (dst.length + t.need s) = true) :
    t.run room s dst = .ok ⟨.refused, s, dst⟩ := by
  unfold run
  split <;> simp_all

theorem run_emit {piece : List β} {size : ℕ} (h : t.move s = .emit piece size)
    (hroom : room (dst.length + t.need s) = true) :
    t.run room s dst = t.run room (s.drop size) (dst ++ piece) := by
  rw [run]
  split <;> simp_all

variable {t}

/-- The rule of induction: what holds of the rest behind a piece holds. -/
theorem rest_induction {P : List α → Prop} (s : List α)
    (h : ∀ s, (∀ piece size, t.move s = .emit piece size → P (s.drop size)) → P s) : P s := by
  induction hn : s.length using Nat.strongRecOn generalizing s with
  | _ n ih =>
    refine h s fun piece size hmove => ?_
    have hpos := t.size_pos hmove
    have hle := t.size_le hmove
    exact ih (s.drop size).length (by rw [List.length_drop]; omega) _ rfl

/-! ### The pieces of a run -/

variable (t)

/-- The run gets from one place to another, piece by piece. -/
inductive Reach (room : ℕ → Bool) : List α → List β → List α → List β → Prop
  | refl (s : List α) (dst : List β) : Reach room s dst s dst
  | emit {s s' : List α} {dst dst' piece : List β} {size : ℕ} : t.move s = .emit piece size →
      room (dst.length + t.need s) = true → Reach room (s.drop size) (dst ++ piece) s' dst' →
      Reach room s dst s' dst'

/-- A run stops here: it is finished or refused, or there is no room. -/
def Stops (room : ℕ → Bool) (s : List α) (dst : List β) : Prop :=
  ∀ piece size, t.move s = .emit piece size → room (dst.length + t.need s) = false

variable {t}

theorem run_of_reach (h : t.Reach room s dst s' dst') : t.run room s dst = t.run room s' dst' := by
  induction h with
  | refl => rfl
  | emit hmove hroom _ ih => rw [t.run_emit hmove hroom, ih]

theorem Reach.suffix (h : t.Reach room s dst s' dst') : s' <:+ s := by
  induction h with
  | refl => exact List.suffix_rfl
  | emit _ _ _ ih => exact ih.trans (List.drop_suffix _ _)

theorem Reach.eq_or_lt (h : t.Reach room s dst s' dst') : (s = s' ∧ dst = dst') ∨
    s'.length < s.length := by
  cases h with
  | refl => exact Or.inl ⟨rfl, rfl⟩
  | emit hmove _ h =>
    have hle := h.suffix.length_le
    have hpos := t.size_pos hmove
    have hsize := t.size_le hmove
    rw [List.length_drop] at hle
    exact Or.inr (by omega)

/-- Every run gets to where it stops. -/
theorem exists_reach (t : Transducer α β ε) (room : ℕ → Bool) (s : List α) (dst : List β) :
    ∃ s' dst', t.Reach room s dst s' dst' ∧ t.Stops room s' dst' := by
  induction s using t.rest_induction generalizing dst with
  | h s ih =>
    by_cases hstop : t.Stops room s dst
    · exact ⟨s, dst, .refl s dst, hstop⟩
    · unfold Stops at hstop
      push Not at hstop
      obtain ⟨piece, size, hmove, hroom⟩ := hstop
      obtain ⟨s', dst', hreach, hstop'⟩ := ih piece size hmove (dst ++ piece)
      exact ⟨s', dst', .emit hmove (by simpa using hroom) hreach, hstop'⟩

/-- **Every run** is a sequence of pieces, and how it ends is decided where they end. -/
theorem run_cases (t : Transducer α β ε) (room : ℕ → Bool) (s : List α) (dst : List β) :
    ∃ s' dst', t.Reach room s dst s' dst' ∧
      (t.move s' = .finish ∧ t.run room s dst = .ok ⟨.finished, s', dst'⟩ ∨
        t.move s' ≠ .finish ∧ room (dst'.length + t.need s') = false ∧
          t.run room s dst = .ok ⟨.full, s', dst'⟩ ∨
        room (dst'.length + t.need s') = true ∧
          (t.move s' = .refuse ∧ t.run room s dst = .ok ⟨.refused, s', dst'⟩ ∨
            ∃ e, t.move s' = .fault e ∧ t.run room s dst = .error e)) := by
  obtain ⟨s', dst', hreach, hstop⟩ := exists_reach t room s dst
  refine ⟨s', dst', hreach, ?_⟩
  rw [run_of_reach hreach]
  by_cases hfin : t.move s' = .finish
  · exact Or.inl ⟨hfin, t.run_finish hfin⟩
  cases hroom : room (dst'.length + t.need s') with
  | false => exact Or.inr (Or.inl ⟨hfin, rfl, t.run_no_room hfin hroom⟩)
  | true =>
    refine Or.inr (Or.inr ⟨rfl, ?_⟩)
    cases hmove : t.move s' with
    | finish => exact absurd hmove hfin
    | fault e => exact Or.inr ⟨e, rfl, t.run_fault hmove hroom⟩
    | refuse => exact Or.inl ⟨rfl, t.run_refuse hmove hroom⟩
    | emit piece size => exact absurd (hstop piece size hmove) (by simp [hroom])

/-- What is left is a suffix of the input. -/
theorem rest_suffix {r : Transduced α β} (h : t.run room s dst = .ok r) : r.rest <:+ s := by
  obtain ⟨s', dst', hreach, hcases⟩ := run_cases t room s dst
  rcases hcases with ⟨-, hrun⟩ | ⟨-, -, hrun⟩ | ⟨-, ⟨-, hrun⟩ | ⟨e, -, hrun⟩⟩ <;> cases h.symm.trans hrun
  · exact hreach.suffix
  · exact hreach.suffix
  · exact hreach.suffix

/-- The runs that do something undefined. -/
theorem run_error_iff {e : ε} : t.run room s dst = .error e ↔
    ∃ s' dst', t.Reach room s dst s' dst' ∧ room (dst'.length + t.need s') = true ∧
      t.move s' = .fault e := by
  constructor
  · intro h
    obtain ⟨s', dst', hreach, hcases⟩ := run_cases t room s dst
    rcases hcases with ⟨-, hrun⟩ | ⟨-, -, hrun⟩ | ⟨hroom, ⟨-, hrun⟩ | ⟨e, hmove, hrun⟩⟩ <;>
      cases h.symm.trans hrun
    exact ⟨s', dst', hreach, hroom, hmove⟩
  · rintro ⟨s', dst', hreach, hroom, hmove⟩
    rw [run_of_reach hreach, t.run_fault hmove hroom]

/-- A transducer that does nothing undefined. -/
theorem exists_run (h : ∀ s e, t.move s ≠ .fault e) (room : ℕ → Bool) (s : List α) (dst : List β) :
    ∃ r, t.run room s dst = .ok r := by
  cases hrun : t.run room s dst with
  | ok r => exact ⟨r, rfl⟩
  | error e =>
    obtain ⟨s', -, -, -, hfault⟩ := run_error_iff.1 hrun
    exact absurd hfault (h s' e)

/-- The runs that are refused. -/
theorem run_refused_iff : (∃ r, t.run room s dst = .ok r ∧ r.ending = .refused) ↔
    ∃ s' dst', t.Reach room s dst s' dst' ∧ room (dst'.length + t.need s') = true ∧
      t.move s' = .refuse := by
  constructor
  · rintro ⟨r, h, hr⟩
    obtain ⟨s', dst', hreach, hcases⟩ := run_cases t room s dst
    rcases hcases with ⟨-, hrun⟩ | ⟨-, -, hrun⟩ | ⟨hroom, ⟨hmove, hrun⟩ | ⟨e, -, hrun⟩⟩ <;>
      cases h.symm.trans hrun
    · cases hr
    · cases hr
    · exact ⟨s', dst', hreach, hroom, hmove⟩
  · rintro ⟨s', dst', hreach, hroom, hmove⟩
    exact ⟨_, by rw [run_of_reach hreach, t.run_refuse hmove hroom], rfl⟩

/-! ### Buffers -/

/-- A buffer without end is not full. -/
theorem all_ending {r : Transduced α β} (h : t.all s dst = .ok r) : r.ending ≠ .full := by
  obtain ⟨s', dst', -, hcases⟩ := run_cases t (fun _ => true) s dst
  rcases hcases with ⟨-, hrun⟩ | ⟨-, hroom, -⟩ | ⟨-, ⟨-, hrun⟩ | ⟨e, -, hrun⟩⟩
  · cases h.symm.trans hrun
    exact Ending.noConfusion
  · cases hroom
  · cases h.symm.trans hrun
    exact Ending.noConfusion
  · cases h.symm.trans hrun

/-- Without end, what is in the buffer does not matter. -/
theorem all_after (t : Transducer α β ε) (s : List α) (dst : List β) :
    t.all s dst = (t.all s []).map (·.after dst) := by
  unfold all
  induction s using t.rest_induction generalizing dst with
  | h s ih =>
    cases hmove : t.move s with
    | finish => simp [t.run_finish hmove, Transduced.after, Except.map]
    | fault e => simp [t.run_fault hmove, Except.map]
    | refuse => simp [t.run_refuse hmove, Transduced.after, Except.map]
    | emit piece size =>
      rw [t.run_emit hmove rfl, t.run_emit hmove rfl, List.nil_append, ih _ _ hmove (dst ++ piece),
        ih _ _ hmove piece]
      cases t.run (fun _ => true) (s.drop size) [] with
      | error e => rfl
      | ok r => simp [Except.map, Transduced.after]

/-- The output is at most `k` times as long as the input, and no more is asked for. -/
structure Expands (t : Transducer α β ε) (k : ℕ) : Prop where
  need_le : ∀ {s}, t.move s ≠ .finish → t.need s ≤ k * s.length
  piece_le : ∀ {s piece size}, t.move s = .emit piece size → piece.length ≤ k * size

/-- **With room enough** for all that can come, a run goes as it would without end. -/
theorem run_eq_all {k : ℕ} (ht : t.Expands k)
    (hroom : ∀ m ≤ dst.length + k * s.length, room m = true) : t.run room s dst = t.all s dst := by
  unfold all
  induction s using t.rest_induction generalizing dst with
  | h s ih =>
    by_cases hfin : t.move s = .finish
    · rw [t.run_finish hfin, t.run_finish hfin]
    have hhere := hroom (dst.length + t.need s) (Nat.add_le_add_left (ht.need_le hfin) _)
    cases hmove : t.move s with
    | finish => exact absurd hmove hfin
    | fault e => rw [t.run_fault hmove hhere, t.run_fault hmove rfl]
    | refuse => rw [t.run_refuse hmove hhere, t.run_refuse hmove rfl]
    | emit piece size =>
      have hle := t.size_le hmove
      have hlen : (s.drop size).length = s.length - size := List.length_drop
      rw [t.run_emit hmove hhere, t.run_emit hmove rfl]
      refine ih _ _ hmove fun m hm => hroom m (Nat.le_trans hm ?_)
      have hpiece := ht.piece_le hmove
      have hsplit : k * s.length = k * (s.length - size) + k * size := by
        rw [← Nat.mul_add, Nat.sub_add_cancel hle]
      rw [List.length_append, hlen]
      omega

/-- **A full buffer**: the run without end goes on from the rest. -/
theorem run_full {r : Transduced α β} (h : t.run room s dst = .ok r) (hr : r.ending = .full) :
    t.all s dst = (t.all r.rest []).map (·.after r.out) ∧
      (room (dst.length + t.need s) = true → r.rest.length < s.length) := by
  obtain ⟨s', dst', hreach, hcases⟩ := run_cases t room s dst
  obtain ⟨hroom, hrun⟩ : room (dst'.length + t.need s') = false ∧ r = ⟨.full, s', dst'⟩ := by
    rcases hcases with ⟨-, hrun⟩ | ⟨-, hroom, hrun⟩ | ⟨-, ⟨-, hrun⟩ | ⟨e, -, hrun⟩⟩
    · cases h.symm.trans hrun
      cases hr
    · exact ⟨hroom, Except.ok.inj (h.symm.trans hrun)⟩
    · cases h.symm.trans hrun
      cases hr
    · cases h.symm.trans hrun
  subst hrun
  have hreach' : t.Reach (fun _ => true) s dst s' dst' := by
    clear hcases hroom hr h
    induction hreach with
    | refl => exact .refl _ _
    | emit hmove _ _ ih => exact .emit hmove rfl ih
  constructor
  · rw [all, run_of_reach hreach']
    exact all_after t s' dst'
  · intro hhere
    rcases hreach.eq_or_lt with ⟨rfl, rfl⟩ | hlt
    · rw [hhere] at hroom
      cases hroom
    · exact hlt

/-- A run that did not find the buffer full went as it would without end. -/
theorem run_not_full (h : ∀ r, t.run room s dst = .ok r → r.ending ≠ .full) :
    t.run room s dst = t.all s dst := by
  unfold all
  induction s using t.rest_induction generalizing dst with
  | h s ih =>
    by_cases hfin : t.move s = .finish
    · rw [t.run_finish hfin, t.run_finish hfin]
    cases hroom : room (dst.length + t.need s) with
    | false => exact absurd rfl (h _ (t.run_no_room hfin hroom))
    | true =>
      cases hmove : t.move s with
      | finish => exact absurd hmove hfin
      | fault e => rw [t.run_fault hmove hroom, t.run_fault hmove rfl]
      | refuse => rw [t.run_refuse hmove hroom, t.run_refuse hmove rfl]
      | emit piece size =>
        rw [t.run_emit hmove hroom] at h ⊢
        rw [t.run_emit hmove rfl]
        exact ih _ _ hmove h

end Transducer

end OsdCore
