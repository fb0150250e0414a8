import Mathlib.Data.Set.Basic
import Mathlib.Logic.Relation

/-!
# Programs over a device, and what they do when the power fails

A program computes with its own data and now and then calls an operation of a *device* that keeps
state across runs (a disk, a flash file system).  `Prog Op Resp α` is the tree of its calls.

* `Device` says what each operation may answer and do (`step`, nondeterministic, so that failures
  are just further answers) and which states it may leave behind when the power fails in the middle
  of it (`mid`).
* `Prog.Finishes` and `Prog.Visits` are the runs: the results a program may end with, and the device
  states a power failure may leave behind.
* `Prog.wpc` is the weakest precondition with a crash condition: `wpc D C ub p Q s` holds if every
  run from `s` leaves only states in `C` behind, ends only in results and states in `Q`, and gets
  stuck only if `ub` (`Prog.wpc_sound`).
* `Prog.run` executes a program on a device that is a function, and `wpc` computes the result of
  `run` (`Prog.run_eq_of_wpc`).
* `MProg` adds a memory that is lost with the power, with the same rules.
-/

namespace OsdCore

/-- Programs that call operations `o : Op`, answered by a `Resp o`, and end with an `α`.  A `stuck`
program has no defined behaviour from there on. -/
inductive Prog (Op : Type) (Resp : Op → Type) (α : Type) where
  | ret (a : α)
  | call (o : Op) (k : Resp o → Prog Op Resp α)
  | stuck

/-- What a device does. -/
structure Device (Op : Type) (Resp : Op → Type) (S : Type) where
  /-- `step o s r s'` : the operation `o` may answer `r` and leave the state `s'`. -/
  step : (o : Op) → S → Resp o → S → Prop
  /-- `mid o s m` : a power failure in the middle of `o` may leave `m` behind. -/
  mid : Op → S → S → Prop

/-- The device that answers by a function and is never interrupted in the middle. -/
def Device.ofFun {Op : Type} {Resp : Op → Type} {S : Type} (f : (o : Op) → S → Resp o × S) :
    Device Op Resp S where
  step o s r s' := (r, s') = f o s
  mid _ _ _ := False

namespace Prog

variable {Op : Type} {Resp : Op → Type} {S α β : Type}

/-- Sequencing. -/
def bind : Prog Op Resp α → (α → Prog Op Resp β) → Prog Op Resp β
  | ret a, f => f a
  | call o k, f => call o fun r => (k r).bind f
  | stuck, _ => stuck

instance : Monad (Prog Op Resp) where
  pure := ret
  bind := bind

theorem bind_ret (p : Prog Op Resp α) : p.bind ret = p := by
  induction p with
  | ret a => rfl
  | call o k ih => exact congrArg (call o) (funext ih)
  | stuck => rfl

theorem bind_bind {γ : Type} (p : Prog Op Resp α) (f : α → Prog Op Resp β) (g : β → Prog Op Resp γ) :
    (p.bind f).bind g = p.bind fun a => (f a).bind g := by
  induction p with
  | ret a => rfl
  | call o k ih => exact congrArg (call o) (funext ih)
  | stuck => rfl

/-- The laws of a monad.  This is no instance, as `simp` would turn programs into `map`s with it. -/
theorem lawfulMonad : LawfulMonad (Prog Op Resp) := .mk' _ bind_ret (fun _ _ => rfl) bind_bind

/-- Call one operation. -/
def op (o : Op) : Prog Op Resp (Resp o) := call o ret

/-! ### Runs -/

/-- `p.Finishes D s a s'` : `p`, started in `s`, may end with `a` in `s'`. -/
inductive Finishes (D : Device Op Resp S) : Prog Op Resp α → S → α → S → Prop
  | ret {a : α} {s : S} : Finishes D (ret a) s a s
  | call {o : Op} {k : Resp o → Prog Op Resp α} {s s' s'' : S} {r : Resp o} {a : α} :
      D.step o s r s' → Finishes D (k r) s' a s'' → Finishes D (call o k) s a s''

/-- `p.Visits D s m` : a power failure during the run of `p` from `s` may leave `m` behind. -/
inductive Visits (D : Device Op Resp S) : Prog Op Resp α → S → S → Prop
  | here {p : Prog Op Resp α} {s : S} : Visits D p s s
  | mid {o : Op} {k : Resp o → Prog Op Resp α} {s m : S} :
      D.mid o s m → Visits D (call o k) s m
  | call {o : Op} {k : Resp o → Prog Op Resp α} {s s' m : S} {r : Resp o} :
      D.step o s r s' → Visits D (k r) s' m → Visits D (call o k) s m

/-- Run a program on a device that is a function; `none` if it gets stuck. -/
def run (f : (o : Op) → S → Resp o × S) : Prog Op Resp α → S → Option (α × S)
  | ret a, s => some (a, s)
  | call o k, s => (k (f o s).1).run f (f o s).2
  | stuck, _ => none

theorem run_bind (f : (o : Op) → S → Resp o × S) (p : Prog Op Resp α)
    (q : α → Prog Op Resp β) (s : S) :
    (p.bind q).run f s = (p.run f s).bind fun r => (q r.1).run f r.2 := by
  induction p generalizing s with
  | ret a => rfl
  | call o k ih => exact ih _ _
  | stuck => rfl

/-- The device after the first `n` operations of a run. -/
def runFor (f : (o : Op) → S → Resp o × S) : ℕ → Prog Op Resp α → S → S
  | n + 1, call o k, s => (k (f o s).1).runFor f n (f o s).2
  | _, _, s => s

/-! ### Weakest preconditions with a crash condition -/

/-- Every run from `s` leaves only states in `C` behind, ends in `Q`, and is stuck only if `ub`. -/
def wpc (D : Device Op Resp S) (C : S → Prop) (ub : Prop) :
    Prog Op Resp α → (α → S → Prop) → S → Prop
  | ret a, Q, s => C s ∧ Q a s
  | call o k, Q, s =>
    C s ∧ (∀ m, D.mid o s m → C m) ∧ ∀ r s', D.step o s r s' → (k r).wpc D C ub Q s'
  | stuck, _, s => C s ∧ ub

variable {D : Device Op Resp S} {C : S → Prop} {ub : Prop} {s s' : S}

theorem wpc_here {p : Prog Op Resp α} {Q : α → S → Prop} (h : p.wpc D C ub Q s) : C s := by
  cases p <;> exact h.1

/-- A sequence, by its parts. -/
theorem wpc_bind_iff {p : Prog Op Resp α} {f : α → Prog Op Resp β} {Q : β → S → Prop} :
    (p.bind f).wpc D C ub Q s ↔ p.wpc D C ub (fun a s' => (f a).wpc D C ub Q s') s := by
  induction p generalizing s with
  | ret a => exact ⟨fun h => ⟨wpc_here h, h⟩, fun h => h.2⟩
  | call o k ih =>
    exact and_congr_right' (and_congr_right' (forall₂_congr fun r s' => imp_congr_right fun _ => ih r))
  | stuck => exact Iff.rfl

theorem wpc_mono {p : Prog Op Resp α} {Q Q' : α → S → Prop} {C' : S → Prop}
    (h : p.wpc D C ub Q s) (hC : ∀ s, C s → C' s) (hQ : ∀ a s, C s → Q a s → Q' a s) :
    p.wpc D C' ub Q' s := by
  induction p generalizing s with
  | ret a => exact ⟨hC _ h.1, hQ _ _ h.1 h.2⟩
  | call o k ih =>
    exact ⟨hC _ h.1, fun m hm => hC _ (h.2.1 m hm), fun r s' hr => ih r (h.2.2 r s' hr)⟩
  | stuck => exact ⟨hC _ h.1, h.2⟩

theorem wpc_mono_ub {p : Prog Op Resp α} {Q Q' : α → S → Prop} {ub' : Prop}
    (h : p.wpc D C ub Q s) (hub : ub → ub') (hQ : ∀ a s, Q a s → Q' a s) : p.wpc D C ub' Q' s := by
  induction p generalizing s with
  | ret a => exact ⟨h.1, hQ _ _ h.2⟩
  | call o k ih => exact ⟨h.1, h.2.1, fun r s' hr => ih r (h.2.2 r s' hr)⟩
  | stuck => exact ⟨h.1, hub h.2⟩

/-- **Soundness**: a program that satisfies `wpc` leaves only states in `C` behind ... -/
theorem wpc_visits {p : Prog Op Resp α} {Q : α → S → Prop} {m : S} (h : p.wpc D C ub Q s)
    (hv : p.Visits D s m) : C m := by
  induction hv with
  | here => exact wpc_here h
  | mid hm => exact h.2.1 _ hm
  | call hst _ ih => exact ih (h.2.2 _ _ hst)

/-- ... and ends only in `Q`. -/
theorem wpc_finishes {p : Prog Op Resp α} {Q : α → S → Prop} {a : α} (h : p.wpc D C ub Q s)
    (hf : p.Finishes D s a s') : C s' ∧ Q a s' := by
  induction hf with
  | ret => exact h
  | call hst _ ih => exact ih (h.2.2 _ _ hst)

/-- The runs themselves satisfy `wpc`, so that `wpc` loses nothing. -/
theorem wpc_runs (p : Prog Op Resp α) (s : S) :
    p.wpc D (p.Visits D s) True (fun a s' => p.Finishes D s a s') s := by
  induction p generalizing s with
  | ret a => exact ⟨.here, .ret⟩
  | call o k ih =>
    refine ⟨.here, fun m hm => .mid hm, fun r s' hr => ?_⟩
    exact wpc_mono (ih r s') (fun m hm => .call hr hm) fun a s'' _ hf => .call hr hf
  | stuck => exact ⟨.here, trivial⟩

/-- A device that may do less has fewer runs. -/
theorem Finishes.mono {D' : Device Op Resp S} {p : Prog Op Resp α} {a : α}
    (h : p.Finishes D s a s') (hD : ∀ o s r s', D.step o s r s' → D'.step o s r s') :
    p.Finishes D' s a s' := by
  induction h with
  | ret => exact .ret
  | call hst _ ih => exact .call (hD _ _ _ _ hst) ih

/-- What is proved for a device holds of every device that does less. -/
theorem wpc_device {D' : Device Op Resp S} {p : Prog Op Resp α} {Q : α → S → Prop}
    (h : p.wpc D C ub Q s) (hstep : ∀ o s r s', D'.step o s r s' → D.step o s r s')
    (hmid : ∀ o s m, D'.mid o s m → D.mid o s m) : p.wpc D' C ub Q s := by
  induction p generalizing s with
  | ret a => exact h
  | call o k ih =>
    exact ⟨h.1, fun m hm => h.2.1 m (hmid _ _ _ hm),
      fun r s' hr => ih r (h.2.2 r s' (hstep _ _ _ _ hr))⟩
  | stuck => exact h

/-- On a device that is a function, `wpc` computes the run: if the program can only end in `x`, and
only be stuck if `x` is `none`, then it runs to `x`. -/
theorem run_eq_of_wpc {f : (o : Op) → S → Resp o × S} {p : Prog Op Resp α} {x : Option (α × S)}
    (h : p.wpc (.ofFun f) C (x = none) (fun a s' => x = some (a, s')) s) : p.run f s = x := by
  induction p generalizing s with
  | ret a => exact h.2.symm
  | call o k ih => exact ih _ (h.2.2 _ _ rfl)
  | stuck => exact h.2.symm

theorem finishes_of_run {f : (o : Op) → S → Resp o × S} {p : Prog Op Resp α} {a : α}
    (h : p.run f s = some (a, s')) (hf : ∀ o s, D.step o s (f o s).1 (f o s).2) :
    p.Finishes D s a s' := by
  induction p generalizing s with
  | ret b => cases h; exact .ret
  | call o k ih => exact .call (hf o s) (ih _ h)
  | stuck => cases h

theorem visits_runFor {f : (o : Op) → S → Resp o × S} {p : Prog Op Resp α}
    (hf : ∀ o s, D.step o s (f o s).1 (f o s).2) (n : ℕ) : p.Visits D s (p.runFor f n s) := by
  induction n generalizing p s with
  | zero => cases p <;> exact .here
  | succ n ih =>
    cases p with
    | ret a => exact .here
    | call o k => exact .call (hf o s) ih
    | stuck => exact .here

end Prog

/-! ### Programs with a memory -/

/-- Programs with a memory `M`, which a power failure erases. -/
abbrev MProg (M : Type) (Op : Type) (Resp : Op → Type) (α : Type) := StateT M (Prog Op Resp) α

namespace MProg

variable {M Op : Type} {Resp : Op → Type} {S α β : Type}

/-- No defined behaviour. -/
def stuck : MProg M Op Resp α := fun _ => .stuck

/-- Call one operation of the device. -/
def op (o : Op) : MProg M Op Resp (Resp o) := fun σ => .call o fun r => .ret (r, σ)

/-- `Prog.wpc` for programs with a memory: the postcondition sees the memory at the end. -/
def wpc (D : Device Op Resp S) (C : S → Prop) (ub : Prop) (x : MProg M Op Resp α)
    (Q : α → M → S → Prop) (σ : M) (s : S) : Prop :=
  (x σ).wpc D C ub (fun p s' => Q p.1 p.2 s') s

/-- `Prog.run` for programs with a memory. -/
def run (f : (o : Op) → S → Resp o × S) (x : MProg M Op Resp α) (σ : M) (s : S) :
    Option (α × M × S) :=
  ((x σ).run f s).map fun r => (r.1.1, r.1.2, r.2)

variable {D : Device Op Resp S} {C : S → Prop} {ub : Prop} {σ : M} {s : S}

theorem wpc_here {x : MProg M Op Resp α} {Q : α → M → S → Prop} (h : x.wpc D C ub Q σ s) : C s :=
  Prog.wpc_here h

theorem wpc_mono {x : MProg M Op Resp α} {Q Q' : α → M → S → Prop} (h : x.wpc D C ub Q σ s)
    (hQ : ∀ a σ' s', C s' → Q a σ' s' → Q' a σ' s') : x.wpc D C ub Q' σ s :=
  Prog.wpc_mono h (fun _ => id) fun _ _ hC => hQ _ _ _ hC

@[simp] theorem wpc_bind {x : MProg M Op Resp α} {f : α → MProg M Op Resp β}
    {Q : β → M → S → Prop} : wpc D C ub (x >>= f) Q σ s ↔
      x.wpc D C ub (fun a σ' s' => (f a).wpc D C ub Q σ' s') σ s :=
  Prog.wpc_bind_iff

@[simp] theorem wpc_pure {a : α} {Q : α → M → S → Prop} :
    wpc D C ub (pure a : MProg M Op Resp α) Q σ s ↔ C s ∧ Q a σ s := Iff.rfl

@[simp] theorem wpc_get {Q : M → M → S → Prop} :
    wpc D C ub (get : MProg M Op Resp M) Q σ s ↔ C s ∧ Q σ σ s := Iff.rfl

@[simp] theorem wpc_set {σ' : M} {Q : PUnit → M → S → Prop} :
    wpc D C ub (set σ' : MProg M Op Resp PUnit) Q σ s ↔ C s ∧ Q ⟨⟩ σ' s := Iff.rfl

@[simp] theorem wpc_modify {g : M → M} {Q : PUnit → M → S → Prop} :
    wpc D C ub (modify g : MProg M Op Resp PUnit) Q σ s ↔ C s ∧ Q ⟨⟩ (g σ) s := Iff.rfl

@[simp] theorem wpc_stuck {Q : α → M → S → Prop} :
    wpc D C ub (stuck : MProg M Op Resp α) Q σ s ↔ C s ∧ ub := Iff.rfl

theorem wpc_op {o : Op} {Q : Resp o → M → S → Prop} :
    wpc D C ub (op o : MProg M Op Resp (Resp o)) Q σ s ↔
      C s ∧ (∀ m, D.mid o s m → C m) ∧ ∀ r s', D.step o s r s' → C s' ∧ Q r σ s' := Iff.rfl

theorem run_bind {f : (o : Op) → S → Resp o × S} {x : MProg M Op Resp α}
    {g : α → MProg M Op Resp β} :
    run f (x >>= g) σ s = (x.run f σ s).bind fun r => (g r.1).run f r.2.1 r.2.2 := by
  have h := Prog.run_bind f (x σ) (fun r => g r.1 r.2) s
  change (((x σ).bind fun r => g r.1 r.2).run f s).map _ = _
  rw [h, run]
  cases (x σ).run f s <;> rfl

@[simp] theorem run_pure {f : (o : Op) → S → Resp o × S} {a : α} :
    run f (pure a : MProg M Op Resp α) σ s = some (a, σ, s) := rfl

/-- Every program ends in something or gets stuck. -/
theorem wpc_trivial (x : MProg M Op Resp α) :
    x.wpc D (fun _ => True) True (fun _ _ _ => True) σ s := by
  unfold wpc
  generalize x σ = p
  induction p generalizing s with
  | ret => exact ⟨trivial, trivial⟩
  | call o k ih => exact ⟨trivial, fun _ _ => trivial, fun r s' _ => ih r⟩
  | stuck => exact ⟨trivial, trivial⟩

/-- On a device that is a function, `wpc` computes the run. -/
theorem run_eq_of_wpc {f : (o : Op) → S → Resp o × S} {x : MProg M Op Resp α}
    {y : Option (α × M × S)}
    (h : x.wpc (.ofFun f) C (y = none) (fun a σ' s' => y = some (a, σ', s')) σ s) :
    x.run f σ s = y := by
  have hrun : (x σ).run f s = y.map fun r => ((r.1, r.2.1), r.2.2) :=
    Prog.run_eq_of_wpc (Prog.wpc_mono_ub h (by simp) fun a s' hQ => by simp [hQ])
  cases y <;> simp [run, hrun]

end MProg

end OsdCore
