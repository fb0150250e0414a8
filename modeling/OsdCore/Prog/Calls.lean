import OsdCore.Prog.Basic

/-!
# Sequences of calls on an object

An object `a : A` (a stream, a handle) goes from call to call: `step c a` makes the call `c`, and gives
its result and the object after it.  `MProg.calls` makes a sequence of calls.  What the object stands
for is an abstract machine `spec : Call → X → R × X`, and `specCalls` makes the calls there.

* `Along spec ok cs x` : on the machine, every call of the sequence meets `ok` where it is made.
* `specCalls_congr` : machines that agree on such calls agree on the sequence.
* `wpc_calls` : what every call keeps, a sequence keeps.
* `run_calls` : if every call that meets `ok` does what the machine does, so does every sequence whose
  calls all do.
-/

namespace OsdCore

variable {Call A X R : Type}

/-- Make the calls on the abstract machine. -/
def specCalls (spec : Call → X → R × X) : List Call → X → List R × X
  | [], x => ([], x)
  | c :: cs, x => ((spec c x).1 :: (specCalls spec cs (spec c x).2).1, (specCalls spec cs (spec c x).2).2)

/-- Every call meets `ok` where it is made. -/
def Along (spec : Call → X → R × X) (ok : Call → X → Prop) : List Call → X → Prop
  | [], _ => True
  | c :: cs, x => ok c x ∧ Along spec ok cs (spec c x).2

instance Along.decidable {spec : Call → X → R × X} {ok : Call → X → Prop}
    [∀ c x, Decidable (ok c x)] : ∀ cs x, Decidable (Along spec ok cs x)
  | [], _ => .isTrue trivial
  | c :: cs, x =>
    have : Decidable (Along spec ok cs (spec c x).2) := Along.decidable cs _
    inferInstanceAs (Decidable (ok c x ∧ Along spec ok cs (spec c x).2))

theorem Along.mono {spec : Call → X → R × X} {ok ok' : Call → X → Prop} {cs : List Call} {x : X}
    (h : Along spec ok cs x) (himp : ∀ c x, ok c x → ok' c x) : Along spec ok' cs x := by
  induction cs generalizing x with
  | nil => trivial
  | cons c cs ih => exact ⟨himp _ _ h.1, ih h.2⟩

theorem Along.and {spec : Call → X → R × X} {ok ok' : Call → X → Prop} {cs : List Call} {x : X}
    (h : Along spec ok cs x) (h' : Along spec ok' cs x) :
    Along spec (fun c x => ok c x ∧ ok' c x) cs x := by
  induction cs generalizing x with
  | nil => trivial
  | cons c cs ih => exact ⟨⟨h.1, h'.1⟩, ih h.2 h'.2⟩

theorem Along.of_forall {spec : Call → X → R × X} {ok : Call → X → Prop} {cs : List Call}
    (h : ∀ c ∈ cs, ∀ x, ok c x) {x : X} : Along spec ok cs x := by
  induction cs generalizing x with
  | nil => trivial
  | cons c cs ih => exact ⟨h c List.mem_cons_self x, ih fun c' hc' => h c' (List.mem_cons_of_mem c hc')⟩

/-- What every call that meets `ok` keeps, the sequence keeps. -/
theorem Along.specCalls {spec : Call → X → R × X} {ok : Call → X → Prop} {I : X → Prop}
    (hstep : ∀ c x, ok c x → I x → I (spec c x).2) {cs : List Call} {x : X}
    (h : Along spec ok cs x) (hx : I x) : I (specCalls spec cs x).2 := by
  induction cs generalizing x with
  | nil => exact hx
  | cons c cs ih => exact ih h.2 (hstep c x h.1 hx)

/-- Two machines that agree on every call that meets `ok` agree on the sequence. -/
theorem specCalls_congr {spec spec' : Call → X → R × X} {ok : Call → X → Prop} {I : X → Prop}
    (hstep : ∀ c x, ok c x → I x → spec' c x = spec c x ∧ I (spec c x).2) {cs : List Call} {x : X}
    (h : Along spec ok cs x) (hx : I x) :
    specCalls spec' cs x = specCalls spec cs x ∧ Along spec' ok cs x := by
  induction cs generalizing x with
  | nil => exact ⟨rfl, trivial⟩
  | cons c cs ih =>
    obtain ⟨heq, hinv⟩ := hstep c x h.1 hx
    obtain ⟨hrest, halong⟩ := ih h.2 hinv
    refine ⟨?_, h.1, by rwa [heq]⟩
    rw [specCalls, specCalls, heq, hrest]

namespace MProg

variable {M Op S α : Type} {Resp : Op → Type}

/-- Make the calls, one after the other. -/
def calls (step : Call → A → MProg M Op Resp (R × A)) : List Call → A → MProg M Op Resp (List R × A)
  | [], a => pure ([], a)
  | c :: cs, a => do
    let r ← step c a
    let rs ← calls step cs r.2
    pure (r.1 :: rs.1, rs.2)

/-- Calls that do not depend on what else the object carries. -/
theorem calls_map {B : Type} {step : Call → A → MProg M Op Resp (R × A)}
    {step' : Call → B → MProg M Op Resp (R × B)} {e : B → A}
    (h : ∀ c b, step c (e b) = (fun r => (r.1, e r.2)) <$> step' c b) (cs : List Call) (b : B) :
    calls step cs (e b) = (fun r => (r.1, e r.2)) <$> calls step' cs b := by
  have := @Prog.lawfulMonad Op Resp
  induction cs generalizing b with
  | nil => simp only [calls, map_pure]
  | cons c cs ih => simp only [calls, h, ih, map_bind, bind_map_left, map_pure]

variable {f : (o : Op) → S → Resp o × S} {σ : M} {s : S}

/-- On a device that is a function, a program either ends, in the postcondition, or gets stuck. -/
theorem run_of_wpc {C : S → Prop} {ub : Prop} {x : MProg M Op Resp α} {Q : α → M → S → Prop}
    (h : x.wpc (.ofFun f) C ub Q σ s) :
    (∃ a σ' s', x.run f σ s = some (a, σ', s') ∧ Q a σ' s') ∨ (x.run f σ s = none ∧ ub) := by
  have key : ∀ (p : Prog Op Resp (α × M)) (s : S),
      p.wpc (.ofFun f) C ub (fun r s' => Q r.1 r.2 s') s →
        (∃ r s', p.run f s = some (r, s') ∧ Q r.1 r.2 s') ∨ (p.run f s = none ∧ ub) := by
    intro p
    induction p with
    | ret r => exact fun s h => Or.inl ⟨r, s, rfl, h.2⟩
    | call o k ih => exact fun s h => ih _ _ (h.2.2 _ _ rfl)
    | stuck => exact fun s h => Or.inr ⟨rfl, h.2⟩
  rcases key (x σ) s h with ⟨r, s', hrun, hQ⟩ | ⟨hrun, hub⟩
  · exact Or.inl ⟨r.1, r.2, s', by rw [run, hrun]; rfl, hQ⟩
  · exact Or.inr ⟨by rw [run, hrun]; rfl, hub⟩

/-- A run ends in the postcondition. -/
theorem post_of_run {C : S → Prop} {ub : Prop} {x : MProg M Op Resp α} {Q : α → M → S → Prop}
    (h : x.wpc (.ofFun f) C ub Q σ s) {a : α} {σ' : M} {s' : S}
    (hrun : x.run f σ s = some (a, σ', s')) : Q a σ' s' := by
  rcases run_of_wpc h with ⟨b, τ, t, hb, hQ⟩ | ⟨hnone, -⟩
  · rw [hrun] at hb
    cases hb
    exact hQ
  · rw [hrun] at hnone
    cases hnone

/-- **What every call keeps, a sequence keeps.** -/
theorem wpc_calls {D : Device Op Resp S} {C : S → Prop} {ub : Prop}
    {step : Call → A → MProg M Op Resp (R × A)} {ok : Call → Prop} {I : A → S → Prop}
    (hC : ∀ a s, I a s → C s)
    (hstep : ∀ c a σ s, ok c → I a s → (step c a).wpc D C ub (fun r _ s' => I r.2 s') σ s)
    {cs : List Call} (hok : ∀ c ∈ cs, ok c) {a : A} (h : I a s) :
    (calls step cs a).wpc D C ub (fun r _ s' => I r.2 s') σ s := by
  induction cs generalizing a σ s with
  | nil => exact ⟨hC a s h, h⟩
  | cons c cs ih =>
    rw [List.forall_mem_cons] at hok
    simp only [calls, wpc_bind, wpc_pure]
    refine wpc_mono (hstep c a σ s hok.1 h) fun r σ₁ s₁ _ hr => ?_
    exact wpc_mono (ih hok.2 hr) fun r' _ s₂ hC₂ hr' => ⟨hC₂, hr'⟩

/-- **Forward simulation over sequences of calls**, which leave the memory and the device as they
are. -/
theorem run_calls {step : Call → A → MProg M Op Resp (R × A)} {spec : Call → X → R × X}
    {ok : Call → X → Prop} {Rel : X → A → Prop}
    (hstep : ∀ c x a, ok c x → Rel x a →
      ∃ a', (step c a).run f σ s = some (((spec c x).1, a'), σ, s) ∧ Rel (spec c x).2 a')
    {cs : List Call} {x : X} {a : A} (hok : Along spec ok cs x) (hrel : Rel x a) :
    ∃ a', (calls step cs a).run f σ s = some (((specCalls spec cs x).1, a'), σ, s) ∧
      Rel (specCalls spec cs x).2 a' := by
  induction cs generalizing x a with
  | nil => exact ⟨a, rfl, hrel⟩
  | cons c cs ih =>
    obtain ⟨a₁, hrun₁, hrel₁⟩ := hstep c x a hok.1 hrel
    obtain ⟨a₂, hrun₂, hrel₂⟩ := ih hok.2 hrel₁
    refine ⟨a₂, ?_, hrel₂⟩
    rw [calls, run_bind, hrun₁, Option.bind_some, run_bind, hrun₂]
    rfl

end MProg

end OsdCore
