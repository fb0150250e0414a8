import OsdCore.Format.Tlv

/-!
# Decoding a LuaDB image

A LuaDB image is a header and a sequence of files, each a header and its data.  The headers are runs
of records (`TlvFormat`) ended by a checksum record.  `decode` is the decode phase of
`parse_luadb_data`: it reads the image header (`decodeHeadInfo`), allocates the file table, and reads
the file headers one after the other (`decodeFile`), with 32-bit cursors that wrap.

The offsets a file is found at are the two the source keeps: `DbFileInfo.data`, the pointer
`&pData[pos]` as an index into the image, and `DbFileInfo.offset`, the `u32` sum `*pOffset + pos`.
-/

namespace OsdCore

/-! ### Error codes -/

def LUADB_ERR_NONE : ℤ := 0
def LUADB_ERR_TLV_LEN : ℤ := -1
def LUADB_ERR_CHECK_FAIL : ℤ := -2
def LUADB_ERR_FILE_COUNT : ℤ := -4
def LUADB_ERR_MAGIC : ℤ := -5
def LUADB_ERR_OUT_OF_RANGE : ℤ := -6
def LUADB_ERR_UNKNOWN_TYPE : ℤ := -7
def LUADB_ERR_UNZIP_FILE : ℤ := -8
def LUADB_ERR_WRITE_FILE : ℤ := -9
def LUADB_ERR_ADD_TABLE_ITEM : ℤ := -10
def LUADB_ERR_NOT_DBDATA : ℤ := -100

/-- The magic number of image and file headers. -/
def dbMagic : ℕ := 0xA55AA55A

/-- A buffer whose size is a `u32`. -/
structure Image where
  bytes : Bytes
  size_lt : bytes.length < 2 ^ 32
deriving DecidableEq

/-- The length argument that goes with the buffer. -/
def Image.length (img : Image) : ℕ := img.bytes.length

/-! ### The image header -/

/-- The tags of the image header. -/
inductive DbHeadType where
  | reserved0x00 | magicNumber | version | length | filecount | crc | reserved0xFF
deriving DecidableEq, Repr

/-- The byte of a tag. -/
def DbHeadType.toByte : DbHeadType → UInt8
  | reserved0x00 => 0x00
  | magicNumber => 0x01
  | version => 0x02
  | length => 0x03
  | filecount => 0x04
  | crc => 0xFE
  | reserved0xFF => 0xFF

/-- The tag of a byte. -/
def DbHeadType.ofByte (b : UInt8) : Option DbHeadType :=
  [reserved0x00, magicNumber, version, length, filecount, crc, reserved0xFF].find? (·.toByte = b)

@[simp] theorem DbHeadType.ofByte_toByte (t : DbHeadType) : ofByte t.toByte = some t := by
  cases t <;> rfl

/-- What the image header says. -/
structure DbHeadInfo where
  verNum : ℕ := 0
  filecount : ℕ := 0
  length : ℕ := 0
deriving DecidableEq, Repr

/-- `DbHeadInfo` with the two numbers that are checked and not kept. -/
structure HeadScan extends DbHeadInfo where
  magic : ℕ := 0
  checkCode : ℕ := 0
deriving DecidableEq, Repr

/-- The records of the image header.  The file count has one byte until a version other than 0 was
read, and two bytes after it. -/
def headFormat : TlvFormat HeadScan where
  rule s tag := match DbHeadType.ofByte tag with
    | some .magicNumber => .exact 4
    | some .version => .exact 2
    | some .length => .exact 4
    | some .filecount => if s.verNum = 0 then .exact 1 else .exact 2
    | some .reserved0x00 => .exact 0
    | some .reserved0xFF => .exact 0
    | some .crc => .exact 2
    | none => .unknown
  last tag := DbHeadType.ofByte tag = some .crc
  store s tag v := match DbHeadType.ofByte tag with
    | some .magicNumber => { s with magic := le32 v }
    | some .version => { s with verNum := le16 v }
    | some .length => { s with length := le32 v }
    | some .filecount => { s with filecount := if s.verNum = 0 then (v.headD 0).toNat else le16 v }
    | some .crc => { s with checkCode := le16 v }
    | _ => s
  badTag := LUADB_ERR_UNKNOWN_TYPE
  badLength := LUADB_ERR_TLV_LEN

/-- The loop of `calcCheckCode`: add up the bytes below `n`, from the last to the first. -/
def calcCheckCodeLoop (data : Bytes) : ℕ → ℕ → Except Stop ℕ
  | 0, sum => .ok (sum % 2 ^ 16)
  | n + 1, sum => do
    let b ← rd data n
    calcCheckCodeLoop data n ((sum + b.toNat) % 2 ^ 32)

/-- The 16-bit sum of the first `length` bytes. -/
def calcCheckCode (data : Bytes) (length : ℕ) : Except Stop ℕ := calcCheckCodeLoop data length 0

/-- Read the image header. -/
def decodeHeadInfo (pData : Bytes) : Except Stop DbHeadInfo := do
  let (s, pos) ← headFormat.scan pData (pData.length + 1) 0 {}
  if s.magic ≠ dbMagic then throw (.exit LUADB_ERR_MAGIC)
  -- the checksum covers everything before its own two bytes
  let sum ← calcCheckCode pData (pos - 2)
  if sum ≠ s.checkCode then throw (.exit LUADB_ERR_CHECK_FAIL)
  return s.toDbHeadInfo

/-! ### The file headers -/

/-- The tags of a file header. -/
inductive DbFileHeadType where
  | reserved0x00 | magicNumber | name | length | crc | reserved0xFF
deriving DecidableEq, Repr

/-- The byte of a tag. -/
def DbFileHeadType.toByte : DbFileHeadType → UInt8
  | reserved0x00 => 0x00
  | magicNumber => 0x01
  | name => 0x02
  | length => 0x03
  | crc => 0xFE
  | reserved0xFF => 0xFF

/-- The tag of a byte. -/
def DbFileHeadType.ofByte (b : UInt8) : Option DbFileHeadType :=
  [reserved0x00, magicNumber, name, length, crc, reserved0xFF].find? (·.toByte = b)

@[simp] theorem DbFileHeadType.ofByte_toByte (t : DbFileHeadType) : ofByte t.toByte = some t := by
  cases t <;> rfl

/-- A listed file.  The name buffer holds `nameLen = name.length` bytes and a terminating NUL; a
file without a name record has a null name pointer and `nameLen = 0`. -/
structure DbFileInfo where
  name : Bytes := []
  length : ℕ := 0
  /-- The index of the first data byte: the pointer `&pData[pos]`. -/
  data : ℕ := 0
  /-- The `u32` offset of the data, as the file tables keep it. -/
  offset : ℕ := 0
deriving DecidableEq, Repr

/-- What a file header says. -/
structure FileScan where
  name : Bytes := []
  length : ℕ := 0
  magic : ℕ := 0
  checkCode : ℕ := 0
deriving DecidableEq, Repr

/-- The records of a file header. -/
def fileFormat : TlvFormat FileScan where
  rule _ tag := match DbFileHeadType.ofByte tag with
    | some .reserved0x00 => .exact 0
    | some .reserved0xFF => .exact 0
    | some .magicNumber => .exact 4
    | some .name => .any
    | some .length => .exact 4
    | some .crc => .exact 2
    | none => .unknown
  last tag := DbFileHeadType.ofByte tag = some .crc
  store s tag v := match DbFileHeadType.ofByte tag with
    | some .magicNumber => { s with magic := le32 v }
    | some .name => { s with name := v }
    | some .length => { s with length := le32 v }
    | some .crc => { s with checkCode := le16 v }
    | _ => s
  badTag := LUADB_ERR_UNKNOWN_TYPE
  badLength := LUADB_ERR_TLV_LEN

/-- Read the file header at `offset`; gives the file and the offset after its data. -/
def decodeFile (img : Bytes) (offset : ℕ) : Except Stop (DbFileInfo × ℕ) := do
  let pData := img.drop offset
  let (s, pos) ← fileFormat.scan pData (pData.length + 1) 0 {}
  if s.magic ≠ dbMagic then throw (.exit LUADB_ERR_MAGIC)
  let sum ← calcCheckCode pData (pos - 2)
  if sum ≠ s.checkCode then throw (.exit LUADB_ERR_CHECK_FAIL)
  return ({ name := s.name, length := s.length, data := offset + pos,
            offset := (offset + pos) % 2 ^ 32 },
          (offset + (pos + s.length) % 2 ^ 32) % 2 ^ 32)

/-! ### The decode phase -/

/-- The files of an image and the cursor after the last of them. -/
structure Decoded where
  files : List DbFileInfo
  offset : ℕ
deriving DecidableEq, Repr

/-- Read at most `count` file headers, from `offset` on, while the cursor is below `length`. -/
def decodeFiles (img : Bytes) (length : ℕ) : ℕ → ℕ → Except Stop Decoded
  | 0, offset => .ok ⟨[], offset⟩
  | count + 1, offset =>
    if offset < length then do
      let (file, offset') ← decodeFile img offset
      let rest ← decodeFiles img length count offset'
      return ⟨file :: rest.files, rest.offset⟩
    else .ok ⟨[], offset⟩

/-- `sizeof(DbFileInfo)`. -/
def sizeofDbFileInfo : ℕ := 20

/-- The first test of `parse_luadb_data`; the second byte is looked at only if the first is not the
magic number's tag. -/
def checkDbData (pData : Bytes) : Except Stop Unit := do
  let b₀ ← rd pData 0
  if b₀ = 0x01 then return
  else do
    let b₁ ← rd pData 1
    if b₁ = 0x04 then return else throw (.exit LUADB_ERR_NOT_DBDATA)

/-- The decode phase of `parse_luadb_data`; `alloc n` says whether the heap has `n` bytes.  Ends in
`.exit err` where the source leaves for `decode_exit` with the error `err`: without a file table,
that is `LUADB_ERR_NONE`. -/
def decode (alloc : ℕ → Bool) (img : Image) : Except Stop Decoded := do
  checkDbData img.bytes
  let headInfo ← decodeHeadInfo img.bytes
  if alloc (sizeofDbFileInfo * headInfo.filecount) then
    let out ← decodeFiles img.bytes img.length headInfo.filecount headInfo.length
    if out.offset > img.length then throw (.exit LUADB_ERR_OUT_OF_RANGE)
    else if out.files.length ≠ headInfo.filecount then throw (.exit LUADB_ERR_FILE_COUNT)
    else return out
  else throw (.exit LUADB_ERR_NONE)

end OsdCore
