import OsdCore.Format.Listing
import OsdCore.Json.Decode

/-!
# The grammar of the texts, and their meaning

* `StringItem`, `StringBody` : the characters of a string, as the bytes of UTF-8.
* `NumberText` : a number, where `decode_invalid_numbers` is on, as it is by default.
* `Denotes` : a value whose tables are nested to a depth at most.
* `Text` : a whole text, with blanks around the value.
-/

namespace OsdCore

namespace Json

/-- One more hexadecimal digit. -/
def hexStep (acc : ℕ) (c : UInt8) : Option ℕ := (hexdigit2int c).map (acc * 16 + ·)

/-- Four hexadecimal digits. -/
def Hex4 (ds : Bytes) (n : ℕ) : Prop := ds.length = 4 ∧ ds.foldlM hexStep 0 = some n

/-- A character of a string, and its bytes. -/
inductive StringItem : Bytes → Bytes → Prop
  | plain {c : UInt8} (h0 : c ≠ 0) (hquote : c ≠ 0x22) (hbackslash : c ≠ 0x5C) : StringItem [c] [c]
  | escape {c e : UInt8} (h : (c, e) ∈ escapes) (hu : c ≠ 0x75) : StringItem [0x5C, c] [e]
  | unicode {ds : Bytes} {n : ℕ} (h : Hex4 ds n) (hn : n.isValidChar) :
    StringItem (0x5C :: 0x75 :: ds) (String.utf8EncodeChar (Char.ofNat n))
  | surrogates {ds ds' : Bytes} {hi lo : ℕ} (h : Hex4 ds (0xD800 + hi)) (hhi : hi < 0x400)
    (h' : Hex4 ds' (0xDC00 + lo)) (hlo : lo < 0x400) :
    StringItem (0x5C :: 0x75 :: (ds ++ 0x5C :: 0x75 :: ds'))
      (String.utf8EncodeChar (Char.ofNat (0x10000 + hi * 0x400 + lo)))

/-- What is between the quotes of a string. -/
def StringBody (s b : Bytes) : Prop := ∃ items, Concat StringItem s items ∧ b = items.flatten

/-- A number, with the sign in front. -/
inductive NumberText : Bytes → BitVec 32 → Prop
  | unsigned {ds : Bytes} (hne : ds ≠ []) (hds : ∀ d ∈ ds, isDigit d = true) :
    NumberText ds (clampLong (digitsValue ds))
  | minus {ds : Bytes} (hne : ds ≠ []) (hds : ∀ d ∈ ds, isDigit d = true) :
    NumberText (0x2D :: ds) (clampLong (-(digitsValue ds : ℤ)))
  | plus {ds : Bytes} (hne : ds ≠ []) (hds : ∀ d ∈ ds, isDigit d = true) :
    NumberText (0x2B :: ds) (clampLong (digitsValue ds))

/-- A token, and its text. -/
inductive TokenText : Token → Bytes → Prop
  | punctuation {c : UInt8} {token : Token} (h : (c, token) ∈ punctuation) : TokenText token [c]
  | word {word : Bytes} {token : Token} (h : (word, token) ∈ words) : TokenText token word
  | string {s b : Bytes} (h : StringBody s b) : TokenText (.T_STRING b) (0x22 :: (s ++ [0x22]))
  | number {s : Bytes} {n : BitVec 32} (h : NumberText s n) : TokenText (.T_NUMBER n) s

/-- A value that is a token. -/
def scalar : Token → Option Value
  | .T_STRING s => some (.string s)
  | .T_NUMBER n => some (.number n)
  | .T_BOOLEAN b => some (.boolean b)
  | .T_NULL => some (.lightuserdata true)
  | _ => none

/-- Blanks. -/
abbrev Blank (c : UInt8) : Prop := c ∈ whitespace

/-- The elements are stored one after another, from the index 1 on. -/
def arrayOf (vs : List Value) : Value := .table (vs.foldl storeElement (1, [])).2

/-- The members are stored one after another. -/
def objectOf (ms : List (Bytes × Value)) : Value := .table (ms.foldl storeMember [])

/-- A key, its colon and its value. -/
inductive Member (P : Bytes → Value → Prop) : Bytes → Bytes × Value → Prop
  | mk {k w w' s key : Bytes} {v : Value} (hkey : TokenText (.T_STRING key) k)
    (hw : ∀ c ∈ w, Blank c) (hw' : ∀ c ∈ w', Blank c) (h : P s v) :
    Member P (k ++ (w ++ 0x3A :: (w' ++ s))) (key, v)

/-- A value that is no table. -/
inductive ScalarText : Bytes → Value → Prop
  | mk {token : Token} {s : Bytes} {v : Value} (h : TokenText token s) (hv : scalar token = some v) :
    ScalarText s v

/-- A table, whose values are those of `P`. -/
inductive TableText (P : Bytes → Value → Prop) : Bytes → Value → Prop
  | emptyArray {w : Bytes} (hw : ∀ c ∈ w, Blank c) : TableText P (0x5B :: (w ++ [0x5D])) (arrayOf [])
  | array {s : Bytes} {vs : List Value} (h : Separated 0x2C (Padded Blank P) s vs) :
    TableText P (0x5B :: (s ++ [0x5D])) (arrayOf vs)
  | emptyObject {w : Bytes} (hw : ∀ c ∈ w, Blank c) :
    TableText P (0x7B :: (w ++ [0x7D])) (objectOf [])
  | object {s : Bytes} {ms : List (Bytes × Value)} (h : Separated 0x2C (Padded Blank (Member P)) s ms) :
    TableText P (0x7B :: (s ++ [0x7D])) (objectOf ms)

/-- A value whose tables are nested to a depth at most. -/
def Denotes : ℕ → Bytes → Value → Prop
  | 0 => ScalarText
  | depth + 1 => fun s v => ScalarText s v ∨ TableText (Denotes depth) s v

end Json

end OsdCore
