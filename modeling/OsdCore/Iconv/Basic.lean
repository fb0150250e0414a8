import OsdCore.Format.Bytes

/-!
# Converting between UCS-2 and UTF-8: `utf8_to_ucs2.c`

`encUnicodeToUtf8` and `encUtf8ToUnicode` convert a whole buffer, in either byte order, until the input
ends, the output is full or a character is not accepted.  A buffer has as many bytes as its size says,
and reading past its end is `Stop.oob`.
-/

namespace OsdCore

/-- The byte order of UCS-2 text: `endian` is 0 or 1. -/
inductive Endian where
  | little
  | big
deriving DecidableEq, Repr

/-- The values of `errno`. -/
inductive IconvErrno where
  | E2BIG
  | EINVAL
deriving DecidableEq, Repr

/-- Store a code unit. -/
def Endian.store : Endian → UInt8 → UInt8 → Bytes
  | little, hi, lo => [lo, hi]
  | big, hi, lo => [hi, lo]

@[simp] theorem Endian.length_store {endian : Endian} (hi lo : UInt8) :
    (endian.store hi lo).length = 2 := by
  cases endian <;> rfl

/-- What a conversion returns, the `errno` that it sets, how far it moves `*_inbuf` on, the sizes it
leaves, and the bytes it has stored. -/
structure Conversion where
  result : ℤ
  errno : Option IconvErrno
  inbuf : ℕ
  inbytesleft : ℕ
  outbytesleft : ℕ
  out : Bytes
deriving DecidableEq, Repr

/-- Subtract in a `size_t`. -/
def subSize (a b : ℕ) : ℕ := (a + 2 ^ 32 - b) % 2 ^ 32

theorem subSize_eq {a b : ℕ} (h : b ≤ a) (ha : a < 2 ^ 32) : subSize a b = a - b := by
  unfold subSize
  omega

/-- The end of a conversion, at the position `iPos` of the input. -/
def Conversion.exit (src : Bytes) (maxOLen : ℕ) (errno : Option IconvErrno) (iPos : ℕ) (dst : Bytes) :
    Conversion where
  result := if errno.isSome then -1 else 0
  errno := errno
  inbuf := iPos
  inbytesleft := subSize src.length iPos
  outbytesleft := subSize maxOLen dst.length
  out := dst

/-! ### UTF-8 to UCS-2 -/

/-- The loop of `enc_get_utf8_size`: after eight shifts nothing is left of `c`. -/
def countOnes : ℕ → UInt8 → ℕ
  | 0, _ => 0
  | n + 1, c => if c &&& 0x80 ≠ 0 then countOnes n (c <<< 1) + 1 else 0

/-- `enc_get_utf8_size`. -/
def encGetUtf8Size (c : UInt8) : ℕ := if countOnes 8 c = 0 then 1 else countOnes 8 c

/-- `enc_utf8_to_unicode_one`: the two bytes that it stores, `none` if it returns -1. -/
def encUtf8ToUnicodeOne (src : Bytes) (i : ℕ) (endian : Endian) : Except Stop (Option Bytes) := do
  let b1 ← rd src i
  if encGetUtf8Size b1 = 1 then return some (endian.store 0 b1)
  else if encGetUtf8Size b1 = 2 then
    let b2 ← rd src (i + 1)
    -- three bits are compared, unlike for the characters of three bytes
    if b2 &&& 0xE0 ≠ 0x80 then return none
    return some (endian.store ((b1 >>> 2) &&& 0x07) ((b1 <<< 6) + (b2 &&& 0x3F)))
  else if encGetUtf8Size b1 = 3 then
    let b2 ← rd src (i + 1)
    let b3 ← rd src (i + 2)
    if b2 &&& 0xC0 ≠ 0x80 ∨ b3 &&& 0xC0 ≠ 0x80 then return none
    return some (endian.store ((b1 <<< 4) + ((b2 >>> 2) &&& 0x0F)) ((b2 <<< 6) + (b3 &&& 0x3F)))
  else return none

/-- The loop of `enc_utf8_to_unicode`. -/
def utf8ToUnicodeLoop (src : Bytes) (maxOLen : ℕ) (endian : Endian) :
    ℕ → ℕ → Bytes → Except Stop Conversion
  | 0, _, _ => .error .fuel
  | fuel + 1, iPos, dst =>
    if iPos < src.length then
      if (dst.length + 2) % 2 ^ 32 > maxOLen then .ok (.exit src maxOLen (some .E2BIG) iPos dst)
      else do
        let utfbytes := encGetUtf8Size (← rd src iPos)
        match ← encUtf8ToUnicodeOne src iPos endian with
        | none => .ok (.exit src maxOLen (some .EINVAL) iPos dst)
        | some unit => utf8ToUnicodeLoop src maxOLen endian fuel (iPos + utfbytes) (dst ++ unit)
    else .ok (.exit src maxOLen none iPos dst)

/-- `enc_utf8_to_unicode`. -/
def encUtf8ToUnicode (inbuf : Bytes) (outbytesleft : ℕ) (endian : Endian) : Except Stop Conversion :=
  utf8ToUnicodeLoop inbuf outbytesleft endian (inbuf.length + 1) 0 []

/-- `iconv_utf8_to_ucs2`. -/
def iconvUtf8ToUcs2 (inbuf : Bytes) (outbytesleft : ℕ) : Except Stop Conversion :=
  encUtf8ToUnicode inbuf outbytesleft .little

/-- `iconv_utf8_to_ucs2be`. -/
def iconvUtf8ToUcs2be (inbuf : Bytes) (outbytesleft : ℕ) : Except Stop Conversion :=
  encUtf8ToUnicode inbuf outbytesleft .big

/-! ### UCS-2 to UTF-8 -/

/-- The bytes that `enc_unicode_to_utf8` stores for a code unit. -/
def utf8Bytes (unicodeVal : ℕ) : Bytes :=
  if unicodeVal ≤ 0x7F then [UInt8.ofNat unicodeVal]
  else if unicodeVal ≤ 0x07FF then
    [UInt8.ofNat ((unicodeVal >>> 6 ||| 0xE0) &&& 0xDF),
      UInt8.ofNat ((unicodeVal &&& 0xFF ||| 0xC0) &&& 0xBF)]
  else
    [UInt8.ofNat (((unicodeVal >>> 12 &&& 0xFF) ||| 0xF0) &&& 0xEF),
      UInt8.ofNat (((unicodeVal >>> 6 &&& 0xFF) ||| 0xC0) &&& 0xBF),
      UInt8.ofNat ((unicodeVal &&& 0xFF ||| 0xC0) &&& 0xBF)]

/-- The code unit of two bytes in memory. -/
def Endian.load : Endian → UInt8 → UInt8 → ℕ
  | little, a, b => b.toNat * 256 + a.toNat
  | big, a, b => a.toNat * 256 + b.toNat

/-- The loop of `enc_unicode_to_utf8`. -/
def unicodeToUtf8Loop (src : Bytes) (maxOLen : ℕ) (endian : Endian) :
    ℕ → ℕ → Bytes → Except Stop Conversion
  | 0, _, _ => .error .fuel
  | fuel + 1, iPos, dst =>
    if iPos + 1 < src.length then do
      let unicodeVal := endian.load (← rd src iPos) (← rd src (iPos + 1))
      if (dst.length + (utf8Bytes unicodeVal).length) % 2 ^ 32 > maxOLen then
        .ok (.exit src maxOLen (some .E2BIG) iPos dst)
      else unicodeToUtf8Loop src maxOLen endian fuel (iPos + 2) (dst ++ utf8Bytes unicodeVal)
    else .ok (.exit src maxOLen none iPos dst)

/-- `enc_unicode_to_utf8`. -/
def encUnicodeToUtf8 (inbuf : Bytes) (outbytesleft : ℕ) (endian : Endian) : Except Stop Conversion :=
  unicodeToUtf8Loop inbuf outbytesleft endian (inbuf.length + 1) 0 []

/-- `iconv_ucs2_to_utf8`. -/
def iconvUcs2ToUtf8 (inbuf : Bytes) (outbytesleft : ℕ) : Except Stop Conversion :=
  encUnicodeToUtf8 inbuf outbytesleft .little

/-- `iconv_ucs2be_to_utf8`. -/
def iconvUcs2beToUtf8 (inbuf : Bytes) (outbytesleft : ℕ) : Except Stop Conversion :=
  encUnicodeToUtf8 inbuf outbytesleft .big

end OsdCore
