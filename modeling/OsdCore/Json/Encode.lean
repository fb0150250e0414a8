import Mathlib.Data.Nat.Digits.Lemmas
import OsdCore.Json.Strbuf

/-!
# The encoder: `lua_cjson.c`, `fpconv.c`

A number is a `long`, so that it is neither infinite nor a NaN, and a table is the list of its entries in the
order in which `lua_next` gives them.

* `jsonAppendString`, `jsonAppendNumber`, `jsonAppendData` : the text of a value.
* `luaArrayLength` : which tables are arrays.
* `jsonEncode` : the call.
-/

namespace OsdCore

namespace Json

open Strbuf

/-- A key, as the encoder tells keys apart. -/
inductive Key
  | number (n : BitVec 32)
  | string (s : Bytes)
  | other (typename : String)
deriving DecidableEq, Repr

/-- A value; of a light userdata only whether it is `NULL`. -/
inductive Value
  | nil
  | boolean (b : Bool)
  | lightuserdata (null : Bool)
  | number (n : BitVec 32)
  | string (s : Bytes)
  | table (entries : List (Key × Value))
  | other (typename : String)

/-- The settings of `json_config_t` that bear on numbers without a fraction. -/
structure Config where
  encodeSparseConvert : Bool := false
  encodeSparseRatio : ℕ := 2
  encodeSparseSafe : ℕ := 10
  encodeMaxDepth : ℕ := 1000
  decodeInvalidNumbers : Bool := true
  decodeMaxDepth : ℕ := 1000

/-- The key that is the number `i`. -/
def intKey (i : ℕ) : Key := .number (BitVec.ofNat 32 i)

/-- `lua_rawgeti`. -/
def rawgeti (entries : List (Key × Value)) (i : ℕ) : Value := (entries.lookup (intKey i)).getD .nil

/-! ### Strings and numbers -/

/-- A digit of a `\u00xx`. -/
def hexDigit (n : UInt8) : UInt8 := if n < 10 then 0x30 + n else 0x57 + n

/-- The characters of `char2escape` that have a short escape. -/
def shortEscapes : List (UInt8 × Bytes) :=
  [(0x08, ascii "\\b"), (0x09, ascii "\\t"), (0x0A, ascii "\\n"), (0x0C, ascii "\\f"), (0x0D, ascii "\\r"),
    (0x22, ascii "\\\""), (0x2F, ascii "\\/"), (0x5C, ascii "\\\\")]

/-- `char2escape`. -/
def char2escape (c : UInt8) : Option Bytes :=
  match shortEscapes.lookup c with
  | some escstr => some escstr
  | none =>
    if c < 0x20 ∨ c = 0x7F then some (ascii "\\u00" ++ [hexDigit (c >>> 4), hexDigit (c &&& 0xF)]) else none

/-- The digits of a number. -/
def decimal (n : ℕ) : Bytes :=
  if n = 0 then [0x30] else (Nat.digits 10 n).reverse.map fun d => UInt8.ofNat (0x30 + d)

/-- What `snprintf` writes for `%d`. -/
def formatD (n : ℤ) : Bytes := if n < 0 then 0x2D :: decimal n.natAbs else decimal n.natAbs

/-- The loop of `lua_array_length`; `none` is a key that is none of an array. -/
def arrayLengthLoop : List (Key × Value) → (max items : ℕ) → Option (ℕ × ℕ)
  | [], max, items => some (max, items)
  | (.number k, _) :: entries, max, items =>
    if 1 ≤ k.toInt then arrayLengthLoop entries (if max < k.toNat then k.toNat else max) (items + 1) else none
  | (.string _, _) :: _, _, _ => none
  | (.other _, _) :: _, _, _ => none

/-- `lua_array_length`. -/
def luaArrayLength (cfg : Config) (entries : List (Key × Value)) : Except Error ℤ :=
  match arrayLengthLoop entries 0 0 with
  | none => .ok (-1)
  | some (max, items) =>
    if 0 < cfg.encodeSparseRatio ∧ items * cfg.encodeSparseRatio < max ∧ cfg.encodeSparseSafe < max then
      if cfg.encodeSparseConvert then .ok (-1) else .error (.cannotSerialise "table" "excessively sparse array")
    else .ok max

end Json

end OsdCore
