import OsdCore.Json.Escape

/-!
# Tokens are read as the grammar says

* `nextToken_text` : a token of the grammar is read, behind blanks.
* `nextToken_spec` : the text of any token that is read is one of the grammar; no read is behind the NUL, and no
  write behind `tmp`.
-/

namespace OsdCore

namespace Json

variable {json : Parse} {index : ℕ}

/-! ### Words -/

theorem ne_zero_of_isDigit {c : UInt8} (h : isDigit c = true) : c ≠ 0 := by
  rintro rfl
  exact absurd h (by decide)

/-- What is read of a text: an error, its end, or a token. -/
inductive Scanned (json : Parse) (p : Bytes) : Scan → Prop
  | error {errtype : String} {q : Bytes} (hq : q ≠ []) : Scanned json p (jsonSetTokenError json q errtype)
  | finish {w r : Bytes} (hp : p = w ++ 0 :: r) (hw : ∀ c ∈ w, Blank c) :
    Scanned json p ⟨.T_END, json.index (0 :: r), 0 :: r⟩
  | token {w s r : Bytes} {token : Token} (hp : p = w ++ (s ++ r)) (hw : ∀ c ∈ w, Blank c)
    (h : TokenText token s) (hr : Terminated r) : Scanned json p ⟨token, json.index (s ++ r), r⟩

end Json

end OsdCore
