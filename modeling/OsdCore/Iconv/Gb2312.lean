import OsdCore.Iconv.Basic

/-!
# Converting between UCS-2 and GB2312, and `iconv`

`ucs2_to_gb2312.c` and `gb2312_to_ucs2.c` convert by tables, which are parameters here
(`Gb2312Tables`); behind the end of a table is whatever the memory holds there.  `iconvMap` is the table
of the converters that `iconv` calls, and `liconv` the loop of the script's `iconv` method, which calls
it again as long as the output buffer is full.
-/

namespace OsdCore

/-- The tables of `ucs2_to_gb2312_table.h`, `ucs2_to_gb2312_offset.h` and `gb2312_to_ucs2_table.h`. -/
structure Gb2312Tables where
  /-- `ucs2_index_table_4E00_9FFF[page][i]`. -/
  ucs2IndexTable : UInt16 → UInt16 → UInt16
  /-- `ucs2_mirror_4E00_9FFF[page][i]`. -/
  ucs2Mirror : UInt16 → UInt16 → UInt8
  ucs2ToGb2312Table : UInt16 → UInt16
  tabUcs2ToGbk : List (UInt16 × UInt16)
  gb2312ToUcs2Table : UInt16 → UInt16

/-- `number_of_bit_1`. -/
def numberOfBit1 (b : UInt8) : UInt16 := UInt16.ofNat ((List.range 8).countP (b.toNat.testBit ·))

/-- The first loop of `get_ucs2_offset`, over whole bytes of the mirror. -/
def offsetBytes (mirror : UInt16 → UInt8) : ℕ → UInt16 → UInt16 → UInt16
  | 0, _, offset => offset
  | n + 1, mirrorPtr, offset => offsetBytes mirror n (mirrorPtr + 1) (offset + numberOfBit1 (mirror mirrorPtr))

/-- The second loop, over the bits of the last byte. -/
def offsetBits : ℕ → UInt8 → UInt16 → UInt16
  | 0, _, offset => offset
  | tmp + 1, ch, offset => offsetBits tmp (ch >>> 1) (if ch &&& 0x1 ≠ 0 then offset + 1 else offset)

/-- `get_ucs2_offset`, for `0x4E00 <= ucs2 < 0xA000`. -/
def getUcs2Offset (T : Gb2312Tables) (ucs2 : UInt16) : UInt16 :=
  let page := (ucs2 >>> 8) - 0x4E
  let mirrorPtr := ((ucs2 &&& 0xFF) >>> 6) <<< 3
  let bytes := (ucs2 &&& 0x3F).toNat / 8
  let tmp := (ucs2 &&& 0x3F).toNat % 8
  let offset := offsetBytes (T.ucs2Mirror page) bytes mirrorPtr
    (T.ucs2IndexTable page ((ucs2 &&& 0xFF) >>> 6))
  let ch := T.ucs2Mirror page (mirrorPtr + UInt16.ofNat bytes)
  if ch.toNat.testBit tmp then offsetBits tmp ch offset else 0xFFFF

/-- The bytes that `iconv_ucs2_to_gb2312_endian` stores for a code unit.  Of the pairs of
`tab_UCS2_to_GBK` the last one counts. -/
def gb2312Bytes (T : Gb2312Tables) (ucs2 : UInt16) : Bytes :=
  if ucs2 < 0x80 then [ucs2.toUInt8]
  else
    let gb2312 : UInt16 :=
      if 0x4E00 ≤ ucs2 ∧ ucs2 < 0xA000 then
        if getUcs2Offset T ucs2 ≠ 0xFFFF then T.ucs2ToGb2312Table (getUcs2Offset T ucs2) else 0xA1A1
      else T.tabUcs2ToGbk.foldl (fun gb2312 entry => if ucs2 = entry.1 then entry.2 else gb2312) 0xA1A1
    [(gb2312 >>> 8).toUInt8, gb2312.toUInt8]

/-- The loop of `iconv_ucs2_to_gb2312_endian`: `inlen` counts code units, and it is what is left in
`*inbytesleft`.  `*_inbuf` is not written. -/
def ucs2ToGb2312Loop (T : Gb2312Tables) (src : Bytes) (outlen : ℕ) (endian : Endian) :
    ℕ → ℕ → Bytes → Except Stop Conversion
  | 0, _, dst => .ok ⟨0, none, 0, 0, subSize outlen dst.length, dst⟩
  | inlen + 1, ucs2buf, dst =>
    if (dst.length + 2) % 2 ^ 32 > outlen then
      .ok ⟨-1, some .E2BIG, 0, inlen + 1, subSize outlen dst.length, dst⟩
    else do
      let ucs2 := UInt16.ofNat (endian.load (← rd src ucs2buf) (← rd src (ucs2buf + 1)))
      ucs2ToGb2312Loop T src outlen endian inlen (ucs2buf + 2) (dst ++ gb2312Bytes T ucs2)

/-- `iconv_ucs2_to_gb2312_endian`. -/
def iconvUcs2ToGb2312Endian (T : Gb2312Tables) (inbuf : Bytes) (outbytesleft : ℕ) (endian : Endian) :
    Except Stop Conversion :=
  ucs2ToGb2312Loop T inbuf outbytesleft endian (inbuf.length / 2) 0 []

/-- A `char`, which is signed, as a `u16`. -/
def charToU16 (b : UInt8) : UInt16 := if b < 0x80 then b.toUInt16 else 0xFF00 + b.toUInt16

theorem charToU16_lt_iff (b : UInt8) : charToU16 b < 0x80 ↔ b < 0x80 := by
  revert b
  apply forall_byte
  decide +kernel

/-- The index into `gb2312_to_ucs2_table` for the two bytes of a character. -/
def gb2312Offset (lead trail : UInt8) : UInt16 :=
  let gb2312 := (charToU16 lead <<< 8) + (charToU16 trail &&& 0x00FF)
  ((gb2312 >>> 8) - 0xA0) * 94 + ((gb2312 &&& 0x00FF) - 0xA1)

/-- The code unit `ucs2` as it is stored. -/
def Endian.storeUnit (endian : Endian) (ucs2 : UInt16) : Bytes :=
  endian.store (ucs2 >>> 8).toUInt8 ucs2.toUInt8

/-- The loop of `iconv_gb2312_to_ucs2_endian`.  If the last byte begins a character, `gbbuf` has moved
past it when the loop is left, but `inlen` has not. -/
def gb2312ToUcs2Loop (T : Gb2312Tables) (src : Bytes) (outlen : ℕ) (endian : Endian) :
    ℕ → ℕ → Bytes → Except Stop Conversion
  | 0, gbbuf, dst => .ok ⟨0, none, gbbuf, 0, subSize outlen dst.length, dst⟩
  | inlen + 1, gbbuf, dst =>
    if (dst.length + 2) % 2 ^ 32 > outlen then
      .ok ⟨-1, some .E2BIG, gbbuf, inlen + 1, subSize outlen dst.length, dst⟩
    else do
      let lead ← rd src gbbuf
      if charToU16 lead < 0x80 then
        gb2312ToUcs2Loop T src outlen endian inlen (gbbuf + 1) (dst ++ endian.storeUnit (charToU16 lead))
      else match inlen with
        | inlen + 1 => do
          let trail ← rd src (gbbuf + 1)
          gb2312ToUcs2Loop T src outlen endian inlen (gbbuf + 2)
            (dst ++ endian.storeUnit (T.gb2312ToUcs2Table (gb2312Offset lead trail)))
        | 0 => .ok ⟨-1, some .EINVAL, gbbuf + 1, 1, subSize outlen dst.length, dst⟩

/-- `iconv_gb2312_to_ucs2_endian`. -/
def iconvGb2312ToUcs2Endian (T : Gb2312Tables) (inbuf : Bytes) (outbytesleft : ℕ) (endian : Endian) :
    Except Stop Conversion :=
  gb2312ToUcs2Loop T inbuf outbytesleft endian inbuf.length 0 []

/-! ### `iconv.c` -/

/-- The functions in `iconv_map`. -/
inductive IconvFct where
  | iconvUcs2ToGb2312 | iconvUcs2beToGb2312
  | iconvGb2312ToUcs2 | iconvGb2312ToUcs2be
  | iconvUtf8ToUcs2 | iconvUtf8ToUcs2be
  | iconvUcs2ToUtf8 | iconvUcs2beToUtf8
deriving DecidableEq, Repr

/-- Call one of them. -/
def IconvFct.call (T : Gb2312Tables) (inbuf : Bytes) (outbytesleft : ℕ) :
    IconvFct → Except Stop Conversion
  | iconvUcs2ToGb2312 => iconvUcs2ToGb2312Endian T inbuf outbytesleft .little
  | iconvUcs2beToGb2312 => iconvUcs2ToGb2312Endian T inbuf outbytesleft .big
  | iconvGb2312ToUcs2 => iconvGb2312ToUcs2Endian T inbuf outbytesleft .little
  | iconvGb2312ToUcs2be => iconvGb2312ToUcs2Endian T inbuf outbytesleft .big
  | iconvUtf8ToUcs2 => OsdCore.iconvUtf8ToUcs2 inbuf outbytesleft
  | iconvUtf8ToUcs2be => OsdCore.iconvUtf8ToUcs2be inbuf outbytesleft
  | iconvUcs2ToUtf8 => OsdCore.iconvUcs2ToUtf8 inbuf outbytesleft
  | iconvUcs2beToUtf8 => OsdCore.iconvUcs2beToUtf8 inbuf outbytesleft

/-- `builtin_iconv_map`. -/
structure BuiltinIconvMap where
  fromcode : Bytes
  tocode : Bytes
  fct : IconvFct
deriving DecidableEq, Repr

/-- `iconv_map`. -/
def iconvMap : List BuiltinIconvMap :=
  [⟨ascii "ucs2", ascii "gb2312", .iconvUcs2ToGb2312⟩,
    ⟨ascii "ucs2be", ascii "gb2312", .iconvUcs2beToGb2312⟩,
    ⟨ascii "gb2312", ascii "ucs2", .iconvGb2312ToUcs2⟩,
    ⟨ascii "gb2312", ascii "ucs2be", .iconvGb2312ToUcs2be⟩,
    ⟨ascii "utf8", ascii "ucs2", .iconvUtf8ToUcs2⟩,
    ⟨ascii "utf8", ascii "ucs2be", .iconvUtf8ToUcs2be⟩,
    ⟨ascii "ucs2", ascii "utf8", .iconvUcs2ToUtf8⟩,
    ⟨ascii "ucs2be", ascii "utf8", .iconvUcs2beToUtf8⟩]

/-- `iconv_open`. -/
def iconvOpen (tocode fromcode : Bytes) : Option BuiltinIconvMap :=
  iconvMap.find? fun entry => entry.fromcode = fromcode ∧ entry.tocode = tocode

/-- `iconv`, on an input buffer that is there. -/
def iconv (T : Gb2312Tables) (cd : BuiltinIconvMap) (inbuf : Bytes) (outbytesleft : ℕ) :
    Except Stop Conversion :=
  cd.fct.call T inbuf outbytesleft

/-! ### `Liconv` -/

/-- The codes that the script's method returns besides the text; `ERROR_INVALID` is for an `errno` that
no converter sets. -/
inductive LiconvError where
  | ERROR_NO_MEMORY
  | ERROR_INCOMPLETE
  | ERROR_UNKNOWN
deriving DecidableEq, Repr

/-- The loop of `Liconv`: `inbuf` and `ibleft` are where the converters have left them, `pushed` is the
string that is on the stack.  Input outside the string is `Stop.oob`. -/
def liconvLoop (T : Gb2312Tables) (cd : BuiltinIconvMap) (s : Bytes) (obsize : ℕ) :
    ℕ → ℕ → ℕ → Bytes → Except Stop (Bytes × Option LiconvError)
  | 0, _, _, _ => .error .fuel
  | fuel + 1, inbuf, ibleft, pushed =>
    if inbuf + ibleft > s.length then .error .oob
    else do
      let c ← iconv T cd ((s.drop inbuf).take ibleft) obsize
      if c.result = -1 then
        match c.errno with
        | some .EINVAL => .ok (pushed ++ c.out, some .ERROR_INCOMPLETE)
        | some .E2BIG =>
          liconvLoop T cd s obsize fuel (inbuf + c.inbuf) c.inbytesleft (pushed ++ c.out)
        | none => .ok (pushed ++ c.out, some .ERROR_UNKNOWN)
      -- no converter returns anything but 0 and -1
      else .ok (pushed ++ c.out, none)

/-- `Liconv`: the text and the error it returns. -/
def liconv (T : Gb2312Tables) (malloc : ℕ → Bool) (cd : BuiltinIconvMap) (s : Bytes) :
    Except Stop (Bytes × Option LiconvError) :=
  if malloc (max 256 s.length) then
    liconvLoop T cd s (max 256 s.length) (s.length + 1) 0 s.length []
  else .ok ([], some .ERROR_NO_MEMORY)

end OsdCore
