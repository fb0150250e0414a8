import Mathlib.Data.List.Basic

/-!
# Words that stand one after another

A relation `P : List α → β → Prop` says which words there are and what they mean.

* `Concat P` : words one after another.
* `Separated sep P` : words with a separator between them, at least one.
* `Padded blank P` : a word with blanks on both sides.
-/

namespace OsdCore

variable {α β : Type*}

/-- Words one after another. -/
inductive Concat (P : List α → β → Prop) : List α → List β → Prop
  | nil : Concat P [] []
  | cons {s : List α} {b : β} {t : List α} {bs : List β} (h : P s b) (ht : Concat P t bs) :
    Concat P (s ++ t) (b :: bs)

/-- Words with a separator between them. -/
inductive Separated (sep : α) (P : List α → β → Prop) : List α → List β → Prop
  | one {s : List α} {b : β} (h : P s b) : Separated sep P s [b]
  | more {s : List α} {b : β} {t : List α} {bs : List β} (h : P s b) (ht : Separated sep P t bs) :
    Separated sep P (s ++ sep :: t) (b :: bs)

/-- A word with blanks on both sides. -/
inductive Padded (blank : α → Prop) (P : List α → β → Prop) : List α → β → Prop
  | mk {w s w' : List α} {b : β} (hw : ∀ c ∈ w, blank c) (h : P s b) (hw' : ∀ c ∈ w', blank c) :
    Padded blank P (w ++ (s ++ w')) b

variable {sep : α} {blank : α → Prop} {P Q : List α → β → Prop} {s : List α} {b : β} {bs : List β}

theorem Separated.mono (hPQ : ∀ s b, P s b → Q s b) (h : Separated sep P s bs) : Separated sep Q s bs := by
  induction h with
  | one h => exact one (hPQ _ _ h)
  | more h _ ih => exact more (hPQ _ _ h) ih

theorem Padded.mono (hPQ : ∀ s b, P s b → Q s b) (h : Padded blank P s b) : Padded blank Q s b := by
  obtain ⟨hw, h, hw'⟩ := h
  exact mk hw (hPQ _ _ h) hw'

/-- A word for each member of a list. -/
theorem Concat.flatMap {γ : Type*} {word : γ → List α} {meaning : γ → β} (as : List γ)
    (h : ∀ a ∈ as, P (word a) (meaning a)) : Concat P (as.flatMap word) (as.map meaning) := by
  induction as with
  | nil => exact nil
  | cons a as ih =>
    exact cons (h a List.mem_cons_self) (ih fun a' ha' => h a' (List.mem_cons_of_mem a ha'))

/-- What is in none of the words is in no sequence of them. -/
theorem Concat.notMem {a : α} (hP : ∀ s b, P s b → a ∉ s) (h : Concat P s bs) : a ∉ s := by
  induction h with
  | nil => exact List.not_mem_nil
  | cons h _ ih => exact fun ha => (List.mem_append.1 ha).elim (hP _ _ h) ih

theorem Separated.notMem {a : α} (hP : ∀ s b, P s b → a ∉ s) (hsep : a ≠ sep) (h : Separated sep P s bs) :
    a ∉ s := by
  induction h with
  | one h => exact hP _ _ h
  | more h _ ih =>
    exact fun ha => (List.mem_append.1 ha).elim (hP _ _ h) fun ha => (List.mem_cons.1 ha).elim hsep ih

theorem Padded.notMem {a : α} (hP : ∀ s b, P s b → a ∉ s) (ha : ¬ blank a) (h : Padded blank P s b) : a ∉ s := by
  obtain ⟨hw, h, hw'⟩ := h
  rw [List.mem_append, List.mem_append]
  rintro (hmem | hmem | hmem)
  · exact ha (hw a hmem)
  · exact hP _ _ h hmem
  · exact ha (hw' a hmem)

end OsdCore
