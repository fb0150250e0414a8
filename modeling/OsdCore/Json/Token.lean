import OsdCore.Json.Encode

/-!
# The tokens of a text: `lua_cjson.c`

`ptr` is what is left of the text, the NUL behind it included. A read behind that NUL stops the computation
with `Stop.oob`.

* `jsonNextStringToken` : a string, with its escapes.
* `jsonNextNumberToken` : a number, by `strtol`.
* `jsonNextToken` : the next token.
-/

namespace OsdCore

namespace Json

open Strbuf

/-- `json_token_type_t`, with the value of the token. -/
inductive Token
  | T_OBJ_BEGIN | T_OBJ_END | T_ARR_BEGIN | T_ARR_END
  | T_STRING (s : Bytes)
  | T_NUMBER (n : BitVec 32)
  | T_BOOLEAN (b : Bool)
  | T_NULL | T_COLON | T_COMMA | T_END | T_WHITESPACE
  | T_ERROR (errtype : String)
  | T_UNKNOWN
deriving DecidableEq, Repr

/-- What an error says was found: the error, or the name in `json_token_type_name`. -/
def Token.found : Token → String
  | T_OBJ_BEGIN => "T_OBJ_BEGIN"
  | T_OBJ_END => "T_OBJ_END"
  | T_ARR_BEGIN => "T_ARR_BEGIN"
  | T_ARR_END => "T_ARR_END"
  | T_STRING _ => "T_STRING"
  | T_NUMBER _ => "T_NUMBER"
  | T_BOOLEAN _ => "T_BOOLEAN"
  | T_NULL => "T_NULL"
  | T_COLON => "T_COLON"
  | T_COMMA => "T_COMMA"
  | T_END => "T_END"
  | T_WHITESPACE => "T_WHITESPACE"
  | T_ERROR errtype => errtype
  | T_UNKNOWN => "T_UNKNOWN"

/-- The characters that are tokens by themselves, or none. -/
def punctuation : List (UInt8 × Token) :=
  [(0x7B, .T_OBJ_BEGIN), (0x7D, .T_OBJ_END), (0x5B, .T_ARR_BEGIN), (0x5D, .T_ARR_END), (0x2C, .T_COMMA),
    (0x3A, .T_COLON)]

/-- White space. -/
def whitespace : List UInt8 := [0x20, 0x09, 0x0A, 0x0D]

/-- The characters that require further processing. -/
def unknown : Bytes := ascii "fiInNt\"+-0123456789"

/-- `ch2token`. -/
def ch2token (c : UInt8) : Token :=
  match punctuation.lookup c with
  | some token => token
  | none =>
    if c = 0 then .T_END
    else if c ∈ whitespace then .T_WHITESPACE
    else if c ∈ unknown then .T_UNKNOWN
    else .T_ERROR "invalid token"

/-- The characters with an entry in `escape2char`. -/
def escapes : List (UInt8 × UInt8) :=
  [(0x22, 0x22), (0x5C, 0x5C), (0x2F, 0x2F), (0x62, 0x08), (0x74, 0x09), (0x6E, 0x0A), (0x66, 0x0C),
    (0x72, 0x0D), (0x75, 0x75)]

/-- `escape2char`. -/
def escape2char (c : UInt8) : UInt8 := (escapes.lookup c).getD 0

/-- `json_parse_t` without what changes: the length of the text, and the size of `tmp`, which is never
resized. -/
structure Parse where
  cfg : Config
  length : ℕ
  tmpSize : ℕ

/-- `json->ptr - json->data`. -/
def Parse.index (json : Parse) (ptr : Bytes) : ℕ := json.length + 1 - ptr.length

/-- `json_token_t`, and where `json->ptr` is left. -/
structure Scan where
  token : Token
  index : ℕ
  ptr : Bytes

/-- `*(ptr + k)`. -/
def peek (ptr : Bytes) (k : ℕ) : Except Stop UInt8 :=
  match ptr[k]? with
  | some c => .ok c
  | none => .error .oob

/-- `json_set_token_error`. -/
def jsonSetTokenError (json : Parse) (ptr : Bytes) (errtype : String) : Scan :=
  ⟨.T_ERROR errtype, json.index ptr, ptr⟩

/-! ### Strings -/

/-- `hexdigit2int`. -/
def hexdigit2int (hex : UInt8) : Option ℕ :=
  if 0x30 ≤ hex ∧ hex ≤ 0x39 then some (hex.toNat - 0x30)
  else if 0x61 ≤ hex ||| 0x20 ∧ hex ||| 0x20 ≤ 0x66 then some (10 + (hex ||| 0x20).toNat - 0x61)
  else none

/-- The loop of `decode_hex4`, and the sum behind it: `n` digits are left. -/
def decodeHex : ℕ → Bytes → ℕ → Except Stop (Option ℕ)
  | 0, _, acc => .ok (some acc)
  | _ + 1, [], _ => .error .oob
  | n + 1, c :: hex, acc =>
    match hexdigit2int c with
    | some digit => decodeHex n hex (acc * 16 + digit)
    | none => .ok none

/-- `decode_hex4`. -/
def decodeHex4 (hex : Bytes) : Except Stop (Option ℕ) := decodeHex 4 hex 0

/-- `codepoint_to_utf8`. -/
def codepointToUtf8 (codepoint : ℕ) : Bytes :=
  if codepoint ≤ 0x7F then [UInt8.ofNat codepoint]
  else if codepoint ≤ 0x7FF then
    [UInt8.ofNat (codepoint >>> 6 ||| 0xC0), UInt8.ofNat (codepoint &&& 0x3F ||| 0x80)]
  else if codepoint ≤ 0xFFFF then
    [UInt8.ofNat (codepoint >>> 12 ||| 0xE0), UInt8.ofNat (codepoint >>> 6 &&& 0x3F ||| 0x80),
      UInt8.ofNat (codepoint &&& 0x3F ||| 0x80)]
  else if codepoint ≤ 0x1FFFFF then
    [UInt8.ofNat (codepoint >>> 18 ||| 0xF0), UInt8.ofNat (codepoint >>> 12 &&& 0x3F ||| 0x80),
      UInt8.ofNat (codepoint >>> 6 &&& 0x3F ||| 0x80), UInt8.ofNat (codepoint &&& 0x3F ||| 0x80)]
  else []

/-- The low surrogate of `json_append_unicode_escape`, which has to follow the first escape. -/
def surrogateLow (ptr : Bytes) : Except Stop (Option ℕ) := do
  let backslash ← peek ptr 6
  if backslash ≠ 0x5C then pure none
  else do
    let u ← peek ptr 7
    if u ≠ 0x75 then pure none else decodeHex4 (ptr.drop 8)

/-- The end of `json_append_unicode_escape`. -/
def appendCodepoint (ptr : Bytes) (tmp : Strbuf) (codepoint escapeLen : ℕ) :
    Except Stop (Option (Bytes × Strbuf)) :=
  if (codepointToUtf8 codepoint).length = 0 then .ok none
  else do
    let tmp ← tmp.appendMemUnsafe (codepointToUtf8 codepoint)
    pure (some (ptr.drop escapeLen, tmp))

/-- The surrogate pair of `json_append_unicode_escape`. -/
def appendSurrogates (ptr : Bytes) (tmp : Strbuf) (codepoint : ℕ) : Except Stop (Option (Bytes × Strbuf)) :=
  if codepoint &&& 0x400 ≠ 0 then .ok none
  else do
    match ← surrogateLow ptr with
    | none => pure none
    | some low =>
      if low &&& 0xFC00 ≠ 0xDC00 then pure none
      else appendCodepoint ptr tmp (((codepoint &&& 0x3FF) <<< 10 ||| low &&& 0x3FF) + 0x10000) 12

/-- `json_append_unicode_escape`; `none` is its error. -/
def jsonAppendUnicodeEscape (ptr : Bytes) (tmp : Strbuf) : Except Stop (Option (Bytes × Strbuf)) := do
  match ← decodeHex4 (ptr.drop 2) with
  | none => pure none
  | some codepoint =>
    if codepoint &&& 0xF800 = 0xD800 then appendSurrogates ptr tmp codepoint
    else appendCodepoint ptr tmp codepoint 6

/-- The loop of `json_next_string_token`. -/
def stringLoop (json : Parse) (index : ℕ) : ℕ → Bytes → Strbuf → Except Stop Scan
  | 0, _, _ => .error .fuel
  | fuel + 1, ptr, tmp => do
    let ch ← peek ptr 0
    if ch = 0x22 then do
      tmp.ensureNull
      pure ⟨.T_STRING tmp.bytes, index, ptr.drop 1⟩
    else if ch = 0 then pure (jsonSetTokenError json ptr "unexpected end of string")
    else if ch = 0x5C then do
      let e ← peek ptr 1
      if escape2char e = 0x75 then do
        let r ← jsonAppendUnicodeEscape ptr tmp
        r.elim (pure (jsonSetTokenError json ptr "invalid unicode escape code")) fun r =>
          stringLoop json index fuel r.1 r.2
      else if escape2char e = 0 then pure (jsonSetTokenError json ptr "invalid escape code")
      else do
        let tmp ← tmp.appendCharUnsafe (escape2char e)
        stringLoop json index fuel (ptr.drop 2) tmp
    else do
      let tmp ← tmp.appendCharUnsafe ch
      stringLoop json index fuel (ptr.drop 1) tmp

/-- `json_next_string_token`. -/
def jsonNextStringToken (json : Parse) (index : ℕ) (ptr : Bytes) : Except Stop Scan :=
  stringLoop json index ptr.length (ptr.drop 1) { size := json.tmpSize }

/-! ### Numbers -/

def isDigit (c : UInt8) : Bool := 0x30 ≤ c ∧ c ≤ 0x39

/-- Whether the text begins with the word, when `fold` makes letters equal: `strncmp` and `strncasecmp` up to
the length of the word. -/
def beginsWith (fold : UInt8 → UInt8) : Bytes → Bytes → Except Stop Bool
  | _, [] => .ok true
  | [], _ :: _ => .error .oob
  | c :: p, c' :: word => if fold c = fold c' then beginsWith fold p word else .ok false

/-- `tolower`. -/
def tolower (c : UInt8) : UInt8 := if 0x41 ≤ c ∧ c ≤ 0x5A then c + 0x20 else c

/-- `json_is_invalid_number` behind the sign. -/
def isInvalidUnsigned (p : Bytes) : Except Stop Bool := do
  let c ← peek p 0
  if c = 0x30 then do
    let ch2 ← peek p 1
    pure (decide (ch2 ||| 0x20 = 0x78) || isDigit ch2)
  else if c ≤ 0x39 then pure false
  else do
    let inf ← beginsWith tolower p (ascii "inf")
    if inf then pure true else beginsWith tolower p (ascii "nan")

/-- `json_is_invalid_number`. -/
def jsonIsInvalidNumber (ptr : Bytes) : Except Stop Bool := do
  let c ← peek ptr 0
  if c = 0x2B then pure true
  else if c = 0x2D then isInvalidUnsigned (ptr.drop 1)
  else isInvalidUnsigned ptr

/-- The value of digits. -/
def digitsValue (ds : Bytes) : ℕ := ds.foldl (fun n d => n * 10 + (d.toNat - 0x30)) 0

/-- A number, or the `long` that is nearest to it. -/
def clampLong (n : ℤ) : BitVec 32 := BitVec.ofInt 32 (max (-2 ^ 31) (min n (2 ^ 31 - 1)))

/-- The digits in front, and the rest. -/
def spanDigits : Bytes → Except Stop (Bytes × Bytes)
  | [] => .error .oob
  | c :: p =>
    if isDigit c then do
      let r ← spanDigits p
      pure (c :: r.1, r.2)
    else .ok ([], c :: p)

/-- `strtol` to the base 10, of a text that does not begin with white space: the number, and the end, which is
the beginning where there is no number. -/
def strtol (p : Bytes) : Except Stop (BitVec 32 × Bytes) := do
  let c ← peek p 0
  let r ← spanDigits (if c = 0x2D ∨ c = 0x2B then p.drop 1 else p)
  if r.1 = [] then pure (0, p)
  else pure (clampLong (if c = 0x2D then -(digitsValue r.1 : ℤ) else digitsValue r.1), r.2)

/-- `json_next_number_token`. -/
def jsonNextNumberToken (json : Parse) (index : ℕ) (ptr : Bytes) : Except Stop Scan := do
  let r ← strtol ptr
  if r.2.length = ptr.length then pure (jsonSetTokenError json ptr "invalid number")
  else pure ⟨.T_NUMBER r.1, index, r.2⟩

/-! ### Tokens -/

/-- The words, which follow one another in `json_next_token`, and what is left. -/
def wordToken (json : Parse) (index : ℕ) (ptr : Bytes) (otherwise : Except Stop Scan) :
    List (Bytes × Token) → Except Stop Scan
  | [] => otherwise
  | (word, token) :: words => do
    let found ← beginsWith id ptr word
    if found then pure ⟨token, index, ptr.drop word.length⟩ else wordToken json index ptr otherwise words

/-- The words. -/
def words : List (Bytes × Token) :=
  [(ascii "true", .T_BOOLEAN true), (ascii "false", .T_BOOLEAN false), (ascii "null", .T_NULL)]

/-- The last token of `json_next_token`: what may still be a number, if invalid numbers are decoded. -/
def otherToken (json : Parse) (index : ℕ) (ptr : Bytes) : Except Stop Scan :=
  if json.cfg.decodeInvalidNumbers then do
    let invalid ← jsonIsInvalidNumber ptr
    if invalid then jsonNextNumberToken json index ptr else pure (jsonSetTokenError json ptr "invalid token")
  else .ok (jsonSetTokenError json ptr "invalid token")

/-- The tokens of `json_next_token` that require further processing. -/
def unknownToken (json : Parse) (index : ℕ) (ch : UInt8) (ptr : Bytes) : Except Stop Scan :=
  if ch = 0x22 then jsonNextStringToken json index ptr
  else if ch = 0x2D ∨ isDigit ch then
    if json.cfg.decodeInvalidNumbers then jsonNextNumberToken json index ptr
    else do
      let invalid ← jsonIsInvalidNumber ptr
      if invalid then pure (jsonSetTokenError json ptr "invalid number") else jsonNextNumberToken json index ptr
  else wordToken json index ptr (otherToken json index ptr) words

/-- The first loop of `json_next_token`. -/
def eatWhitespace : Bytes → Except Stop Bytes
  | [] => .error .oob
  | ch :: ptr => if ch2token ch = .T_WHITESPACE then eatWhitespace ptr else .ok (ch :: ptr)

/-- `json_next_token` behind its first loop. -/
def tokenAt (json : Parse) (ch : UInt8) (ptr : Bytes) : Except Stop Scan :=
  match ch2token ch with
  | .T_ERROR errtype => .ok (jsonSetTokenError json ptr errtype)
  | .T_END => .ok ⟨.T_END, json.index ptr, ptr⟩
  | .T_UNKNOWN => unknownToken json (json.index ptr) ch ptr
  | token => .ok ⟨token, json.index ptr, ptr.drop 1⟩

/-- `json_next_token`. -/
def jsonNextToken (json : Parse) (ptr : Bytes) : Except Stop Scan := do
  let ptr ← eatWhitespace ptr
  let ch ← peek ptr 0
  tokenAt json ch ptr

end Json

end OsdCore
