import OsdCore.Device.Disk
import OsdCore.Luadb.Decode

/-!
# The C library's streams, over the file system and the file tables

The program's own `stdio`, written for this platform: `fopen` looks a path up in two tables of files
that were left in their image (`pUpdateFileTable`, `pFlashFileTable`) before it asks the file system,
and the other functions follow the kind of stream they are given.

A `FILE` is passed by value; what its slot in the table of streams adds is that there are only 17 of
them, and `StdioState.openFiles` counts the ones in use.
-/

namespace OsdCore

/-- The platform's cipher: `platform_decode` decrypts a buffer of whole words in place. -/
structure Cipher where
  decode : Bytes → Bytes
  length_decode : ∀ b, (decode b).length = b.length

/-- What `LzmaDec_DecodeToBuf` gives. -/
structure LzmaOutput where
  /-- The bytes written to the output buffer. -/
  out : Bytes
  /-- The number of input bytes used. -/
  inProcessed : ℕ

/-- What the program finds around it, besides the file system. -/
structure Platform where
  /-- `_lua_script_section_start` : the image in ROM. -/
  rom : Image
  /-- Whether an allocation of this many bytes succeeds, where the program looks. -/
  alloc : ℕ → Bool
  /-- The LZMA decoder: properties, input, size of the output buffer; `none` if the properties are
  not supported or its tables do not fit in memory. -/
  lzmaDec : Bytes → Bytes → ℕ → Option LzmaOutput
  cipher : Cipher
  /-- What uninitialised memory holds. -/
  junk : ℕ → UInt8

/-- `T_UNCOMPRESS_FILE_TABLE_ITEM` : a file that stays in its image. -/
structure UncompressFileItem where
  pFile : Path
  nOffset : ℤ
  nLen : ℤ
deriving DecidableEq, Repr

/-- `sizeof(T_UNCOMPRESS_FILE_TABLE_ITEM)`. -/
def sizeofUncompressFileItem : ℕ := 16

/-- `E_LUA_SCRIPT_TABLE_SECTION`. -/
inductive TableSection where
  | update | flash
deriving DecidableEq, Repr

/-- The memory of the C library. -/
structure StdioState where
  openFiles : ℕ := 0
  pUpdateFileTable : List UncompressFileItem := []
  pFlashFileTable : List UncompressFileItem := []
deriving DecidableEq, Repr

/-- Put an item at the head of a table. -/
def StdioState.add (σ : StdioState) (item : UncompressFileItem) : TableSection → StdioState
  | .update => { σ with pUpdateFileTable := item :: σ.pUpdateFileTable }
  | .flash => { σ with pFlashFileTable := item :: σ.pFlashFileTable }

/-- Programs over the C library's memory and the file system. -/
abbrev StdioM := MProg StdioState DevOp DevOp.Resp

/-- `FOPEN_MAX - 3` : the slots that are not `stdin`, `stdout` or `stderr`. -/
def fopenMax : ℕ := 17

/-- `EOF`, as a `size_t`. -/
def sizeEOF : ℕ := 2 ^ 32 - 1

/-! ### Streams -/

def SRD : BitVec 16 := 0x0004
def SWR : BitVec 16 := 0x0008
def SRW : BitVec 16 := 0x0010
def SEOF : BitVec 16 := 0x0020
def SERR : BitVec 16 := 0x0040
def SOFF : BitVec 16 := 0x1000

def COMMON_FILE : BitVec 8 := 0
def ENC_FILE : BitVec 8 := 1
def LUA_UNCOMPRESS_FILE : BitVec 8 := 2

/-- A stream. -/
structure FILE where
  flags : BitVec 16
  file : Descriptor := {}
  offset : ℤ := 0
  type : BitVec 8 := COMMON_FILE
  /-- The table entry of a stream that `fopen_ext` opened. -/
  cookie : Option UncompressFileItem := none
deriving DecidableEq, Repr

/-- The stream reads a file table. -/
def FILE.isUncompress (fp : FILE) : Bool := LUA_UNCOMPRESS_FILE &&& fp.type ≠ 0

/-- A section, as the flags of a stream. -/
def TableSection.toFlags : TableSection → BitVec 16
  | update => 0
  | flash => 1

/-- An integer as a `u32`. -/
def toU32 (i : ℤ) : ℕ := (i % 2 ^ 32).toNat

theorem toU32_natCast {n : ℕ} (h : n < 2 ^ 32) : toU32 n = n := by
  unfold toU32
  omega

theorem toU32_of_nonneg {i : ℤ} (h0 : 0 ≤ i) (h : i < 2 ^ 32) : ((toU32 i : ℕ) : ℤ) = i := by
  unfold toU32
  omega

theorem toU32_sub {a b : ℕ} (hle : b ≤ a) (h : a < 2 ^ 32) : toU32 ((a : ℤ) - b) = a - b := by
  unfold toU32
  omega

/-- The length of a read: what is asked for, or what is there. -/
theorem toInt32_clamp {n rest : ℕ} (h : min n rest < 2 ^ 31) :
    toInt32 (if rest ≥ n then n else rest) = (min n rest : ℕ) := by
  have hmin : (if rest ≥ n then n else rest) = min n rest := by
    split_ifs <;> omega
  rw [hmin, toInt32_of_lt h]

/-- Round down to a multiple of 512: `x & 0xFFFFFE00`. -/
def lowBoundary (x : ℕ) : ℕ := x - x % 512

/-- `memcpy` from a buffer; `none` outside it. -/
def memcpyFrom (src : Bytes) (offset : ℤ) (n : ℕ) : Option Bytes :=
  if 0 ≤ offset ∧ offset + n ≤ src.length then some (slice src offset.toNat n) else none

/-- A buffer of `n` uninitialised bytes, after `buf` was stored at its start. -/
def overlay (P : Platform) (n : ℕ) (buf : Bytes) : Bytes :=
  (buf ++ ((List.range n).map P.junk).drop buf.length).take n

theorem length_overlay_le (P : Platform) (n : ℕ) (buf : Bytes) : (overlay P n buf).length ≤ n := by
  simp [overlay]

/-- Decrypt the whole words of a buffer. -/
def Cipher.decodeWords (c : Cipher) (b : Bytes) : Bytes :=
  c.decode (b.take (b.length / 4 * 4)) ++ b.drop (b.length / 4 * 4)

/-- Decrypt a buffer block by block; `n` is the number of whole blocks. -/
def Cipher.decodeBlocks (c : Cipher) : ℕ → Bytes → Bytes
  | 0, b => c.decodeWords b
  | n + 1, b => c.decodeWords (b.take 512) ++ c.decodeBlocks n (b.drop 512)

namespace Stdio

/-- `strncmp(&file[fileNameLen - 5], ".luae", 5) == 0`. -/
def isLuaeFile (file : Path) : Option Bool :=
  strncmpAt (file ++ [0]) ((file.length : ℤ) - 5) (ascii ".luae")

/-- Continue with a value that must be defined. -/
def defined {α : Type} : Option α → StdioM α
  | some a => pure a
  | none => MProg.stuck

/-! ### File tables -/

/-- Look a path up, in the update's table first. -/
def findUncompressFileItem (σ : StdioState) (pFile : Path) :
    Option (TableSection × UncompressFileItem) :=
  if pFile = [] then none
  else match σ.pUpdateFileTable.find? (·.pFile = pFile) with
    | some item => some (.update, item)
    | none => (σ.pFlashFileTable.find? (·.pFile = pFile)).map fun item => (.flash, item)

/-- Add a file to a table; `false` if the path is empty or the memory is not there. -/
def addUncompressFileItem (P : Platform) (nSection : TableSection) (pFile : Path)
    (nOffset nLen : ℕ) : StdioM Bool := do
  if pFile = [] then pure false
  else if P.alloc sizeofUncompressFileItem && P.alloc (pFile.length + 1) then
    modify fun σ => σ.add ⟨pFile, toInt32 nOffset, toInt32 nLen⟩ nSection
    pure true
  else pure false

/-- Open a file of the tables, in whatever mode. -/
def fopenExt (file : Path) : StdioM (Option FILE) := do
  let σ ← get
  match findUncompressFileItem σ file with
  | some (nSection, item) =>
    let enc ← defined (isLuaeFile file)
    pure (some { flags := nSection.toFlags, cookie := some item,
                 type := LUA_UNCOMPRESS_FILE ||| if enc then ENC_FILE else 0 })
  | none => pure none

def ftellExt (fp : FILE) : ℤ := fp.offset

def fseekExt (fp : FILE) (offset : ℤ) (whence : Whence) : StdioM (ℤ × FILE) := do
  let item ← defined fp.cookie
  match whence with
  | .SEEK_SET =>
    if offset > item.nLen ∨ offset < 0 then pure (-1, fp) else pure (0, { fp with offset := offset })
  | .SEEK_CUR =>
    if fp.offset + offset > item.nLen ∨ fp.offset + offset < 0 then pure (-1, fp)
    else pure (0, { fp with offset := fp.offset + offset })
  | .SEEK_END =>
    if offset < -item.nLen ∨ offset > 0 then pure (-1, fp)
    else pure (0, { fp with offset := item.nLen - offset })

/-! ### Calls of the file system -/

/-- Call the platform's vector table. -/
def callDevice (o : DevOp) : StdioM o.Resp := MProg.op o

def openFile (path : Path) (flags : ℕ) : StdioM (Option Descriptor) := callDevice (.openFile path flags)

def closeFile (fd : Descriptor) : StdioM ℤ := callDevice (.closeFile fd)

def writeFile (fd : Descriptor) (buf : Bytes) : StdioM (ℤ × Descriptor) :=
  callDevice (.writeFile fd buf)

def readFile (fd : Descriptor) (n : ℕ) : StdioM (Option Bytes × Descriptor) :=
  callDevice (.readFile fd n)

def seekFile (fd : Descriptor) (offset : ℤ) (whence : Whence) : StdioM (ℤ × Descriptor) :=
  callDevice (.seekFile fd offset whence)

def deleteFile (path : Path) : StdioM ℤ := callDevice (.deleteFile path)

def removeDir (path : Path) : StdioM ℤ := callDevice (.removeDir path)

/-- `__sread` : an error of the platform is reported as 0 bytes. -/
def sread (fp : FILE) (n : ℕ) : StdioM (Bytes × FILE) := do
  let (ret, fd) ← readFile fp.file n
  pure (ret.getD [], { fp with file := fd, offset := fp.offset + (ret.getD []).length })

/-- `__sseek`. -/
def sseek (fp : FILE) (offset : ℤ) (whence : Whence) : StdioM (ℤ × FILE) := do
  let (ret, fd) ← seekFile fp.file offset whence
  if ret < 0 then pure (-1, { fp with file := fd, flags := fp.flags &&& ~~~SOFF })
  else pure (ret, { fp with file := fd, flags := fp.flags ||| SOFF, offset := ret })

/-- `__swrite` : an error of the platform is reported as 0 bytes.  The test for `O_APPEND` is made on
the stream's own flags, which never hold that bit. -/
def swrite (fp : FILE) (buf : Bytes) : StdioM (ℤ × FILE) := do
  let fp ← if fp.flags &&& 1 ≠ 0 then (do
      let (_, fd) ← seekFile fp.file 0 .SEEK_END
      pure { fp with file := fd })
    else pure fp
  let (ret, fd) ← writeFile fp.file buf
  pure (if ret < 0 then 0 else ret, { fp with file := fd, flags := fp.flags &&& ~~~SOFF })

/-! ### The library's functions -/

/-- The flags of a mode: those of the stream and those of `open_file`. -/
def sflags : Bytes → Option (BitVec 16 × ℕ)
  | [] => none
  | c :: mode =>
    let plus : Bool := mode.take 1 = ascii "+" || mode.take 2 = ascii "b+"
    if c = 'r'.toUInt8 then some (if plus then (SRW, O_RDWR) else (SRD, O_RDONLY))
    else if c = 'w'.toUInt8 then
      some (if plus then (SRW, O_RDWR ||| (O_CREAT ||| O_TRUNC))
        else (SWR, O_WRONLY ||| (O_CREAT ||| O_TRUNC)))
    else if c = 'a'.toUInt8 then
      some (if plus then (SRW, O_RDWR ||| (O_CREAT ||| O_APPEND))
        else (SWR, O_WRONLY ||| (O_CREAT ||| O_APPEND)))
    else none

/-- Give a slot back. -/
def release : StdioM Unit := modify fun σ => { σ with openFiles := σ.openFiles - 1 }

/-- `_open_r`, on a slot for the stream. -/
def openSlot (file : Path) (pFile : Option FILE) (flags : BitVec 16) (oflags : ℕ) :
    StdioM (Option FILE) := do
  let σ ← get
  if σ.openFiles < fopenMax then
    set { σ with openFiles := σ.openFiles + 1 }
    match ← openFile file oflags with
    | none => do
      release
      pure pFile
    | some fd => do
      let enc ← defined (isLuaeFile file)
      pure (some { flags := flags, file := fd, type := if enc then ENC_FILE else COMMON_FILE })
  else pure none

/-- Open a stream: an entry of the update's table first, then the file system, then an entry of the
flash table. -/
def fopen (file : Path) (mode : Bytes) : StdioM (Option FILE) := do
  let pFile ← fopenExt file
  if pFile.isSome ∧ pFile.map (·.flags) = some 0 then pure pFile
  else match sflags mode with
    | none => pure none
    | some (flags, oflags) => openSlot file pFile flags oflags

def fclose (fp : FILE) : StdioM ℤ :=
  if fp.isUncompress then pure 0
  else if fp.flags = 0 then pure (-1)
  else do
    let r ← closeFile fp.file
    release
    pure (if r ≠ 0 then -1 else 0)

def fseek (fp : FILE) (offset : ℤ) (whence : Whence) : StdioM (ℤ × FILE) :=
  if fp.isUncompress then fseekExt fp offset whence
  else do
    let (ret, fp) ← sseek fp offset whence
    if ret = -1 then pure (-1, { fp with flags := fp.flags &&& ~~~SEOF }) else pure (0, fp)

def ftell (fp : FILE) : StdioM (ℤ × FILE) :=
  if fp.isUncompress then pure (ftellExt fp, fp)
  else if fp.flags &&& SOFF ≠ 0 then pure (fp.offset, fp)
  else sseek fp 0 .SEEK_CUR

/-- Write `count` items of `size` bytes; `buf` is the memory from the pointer on. -/
def fwrite (buf : Bytes) (size count : ℕ) (fp : FILE) : StdioM (ℕ × FILE) :=
  if fp.flags &&& (SWR ||| SRW) = 0 then pure (sizeEOF, fp)
  else do
    let data ← defined (memcpyFrom buf 0 (size * count % 2 ^ 32))
    let (w, fp) ← swrite fp data
    if w ≤ 0 then pure (sizeEOF, { fp with flags := fp.flags ||| SERR })
    else pure (w.toNat / size, fp)

/-- The part of `fread` that reads a file of the file system.  The buffer for an encrypted file is
uninitialised, so that behind a short read it holds anything. -/
def freadFile (P : Platform) (offset size resid : ℕ) (fp : FILE) : StdioM (ℕ × Bytes × FILE) := do
  let actLowBoundary := lowBoundary offset
  let actUpBoundary := lowBoundary ((offset + resid + 511) % 2 ^ 32)
  let readCount := if fp.type = ENC_FILE then toU32 (actUpBoundary - actLowBoundary) else resid
  let fp ← if fp.type = ENC_FILE then (do
      let (_, fp) ← fseek fp (toInt32 actLowBoundary) .SEEK_SET
      pure fp)
    else pure fp
  let (temp, fp) ← sread fp readCount
  if temp = [] then pure (0, [], { fp with flags := fp.flags ||| SEOF })
  else if fp.type = ENC_FILE then
    let (actCount, fp) ← if temp.length < readCount then (do
        let (_, fp) ← fseek fp 0 .SEEK_END
        let (realSize, fp) ← ftell fp
        pure (if toU32 (realSize - offset) < resid then toU32 (realSize - offset) else resid, fp))
      else pure (resid, fp)
    let (_, fp) ← fseek fp (toInt32 (offset + actCount)) .SEEK_SET
    let plain := overlay P readCount (P.cipher.decodeBlocks (temp.length / 512) temp)
    let buf ← defined (memcpyFrom plain (offset - actLowBoundary) actCount)
    pure (actCount / size, buf, fp)
  else pure (temp.length / size, temp, fp)

/-- `decode_file` : read an encrypted file of the flash table.  The bytes are copied from `offset`
on, and taken from the block `offset` lies in.  The index into the image is unsigned here, and the
buffer is uninitialised. -/
def decodeFile (P : Platform) (size resid : ℕ) (fp : FILE) : StdioM (ℕ × Bytes × FILE) := do
  let item ← defined fp.cookie
  let offset := toU32 (ftellExt fp)
  let actLowBoundary := lowBoundary offset
  let actUpBoundary := lowBoundary ((offset + resid + 511) % 2 ^ 32)
  let readCount := toU32 (actUpBoundary - actLowBoundary)
  let (_, fp) ← fseekExt fp (toInt32 actLowBoundary) .SEEK_SET
  let len := toInt32 (if toU32 (item.nLen - offset) ≥ readCount then readCount
    else toU32 (item.nLen - offset))
  -- `malloc` is not checked, and does not give 2 GiB
  if len < 0 then MProg.stuck
  else do
    let temp ← defined (memcpyFrom P.rom.bytes (toU32 (item.nOffset + offset)) len.toNat)
    let actCount := if readCount > len.toNat ∧ toU32 (item.nLen - offset) < resid then
        toU32 (item.nLen - offset)
      else resid
    let (_, fp) ← fseekExt fp (toInt32 (offset + actCount)) .SEEK_SET
    let plain := overlay P readCount (P.cipher.decodeBlocks (len.toNat / 512) temp)
    let buf ← defined (memcpyFrom plain (offset - actLowBoundary) actCount)
    pure (actCount / size, buf, fp)

/-- The update image on the file system. -/
def LUA_UPDATE_FILE : Path := ascii "/luazip/update.bin"

/-- Read a file of the tables.  An entry of the update's table is read from the update image, which
itself is a file of the file system. -/
def freadExt (P : Platform) (size resid : ℕ) (fp : FILE) : StdioM (ℕ × Bytes × FILE) :=
  if resid = 0 then pure (0, [], fp)
  else do
    let item ← defined fp.cookie
    let len := toInt32 (if toU32 (item.nLen - fp.offset) ≥ resid then resid
      else toU32 (item.nLen - fp.offset))
    if len ≤ 0 then pure (0, [], fp)
    else if fp.flags = TableSection.update.toFlags then do
      match ← fopen LUA_UPDATE_FILE (ascii "rb") with
      | none => pure (0, [], fp)
      | some fpUpd => do
        if fpUpd.isUncompress then MProg.stuck
        else do
          let (_, fpUpd) ← fseek fpUpd (item.nOffset + fp.offset) .SEEK_CUR
          let (offset, fpUpd) ← ftell fpUpd
          let (_, buf, fpUpd) ← freadFile P (toU32 offset) 1 len.toNat fpUpd
          let _ ← fclose fpUpd
          pure (len.toNat / size, buf, { fp with offset := fp.offset + len })
    else if fp.flags = TableSection.flash.toFlags then
      if fp.type = LUA_UNCOMPRESS_FILE ||| ENC_FILE then decodeFile P size resid fp
      else do
        let buf ← defined (memcpyFrom P.rom.bytes (item.nOffset + fp.offset) len.toNat)
        pure (len.toNat / size, buf, { fp with offset := fp.offset + len })
    else pure (0, [], fp)

/-- Read at most `count` items of `size` bytes: the number of items, and the bytes that are stored
from the buffer's start on. -/
def fread (P : Platform) (size count : ℕ) (fp : FILE) : StdioM (ℕ × Bytes × FILE) := do
  let (offset, fp) ← ftell fp
  let resid := count * size % 2 ^ 32
  if fp.isUncompress then freadExt P size resid fp
  else if resid = 0 then pure (0, [], fp)
  else freadFile P (toU32 offset) size resid fp

/-! ### Characters and lines -/

/-- A byte as a `char`, which is signed. -/
def toChar (b : UInt8) : ℤ := if b.toNat < 128 then b.toNat else b.toNat - 256

/-- One character by `read`, into a variable that is not initialised. -/
def getcOf (P : Platform) (read : ℕ → ℕ → FILE → StdioM (ℕ × Bytes × FILE)) (fp : FILE) :
    StdioM (ℤ × FILE) := do
  let (n, buf, fp) ← read 1 1 fp
  pure (if n ≠ 1 then -1 else toChar ((overlay P 1 buf).headD 0), fp)

def getcExt (P : Platform) (fp : FILE) : StdioM (ℤ × FILE) :=
  getcOf P (fun size count => freadExt P size (count * size % 2 ^ 32)) fp

def getc (P : Platform) (fp : FILE) : StdioM (ℤ × FILE) :=
  if fp.isUncompress then getcExt P fp else getcOf P (fread P) fp

def ungetcExt (fp : FILE) : StdioM (ℤ × FILE) := do
  let (_, fp) ← fseekExt fp (-1) .SEEK_CUR
  pure (0, fp)

def ungetc (fp : FILE) : StdioM (ℤ × FILE) :=
  if fp.isUncompress then ungetcExt fp
  else do
    let (_, fp) ← fseek fp (-1) .SEEK_CUR
    pure (0, fp)

/-- The loop of `fgets`, with room for `n` more characters: the character in hand is dropped when
there is none. -/
def fgetsLoop {m : Type → Type} [Monad m] {α : Type} (getc : α → m (ℤ × α)) :
    ℕ → ℤ → α → m (Bytes × α)
  | 0, _, fp => pure ([], fp)
  | n + 1, character, fp =>
    if character = -1 then pure ([], fp)
    else if character = 0x0A then pure ([0x0A], fp)
    else do
      let (next, fp) ← getc fp
      let (rest, fp) ← fgetsLoop getc n next fp
      pure (UInt8.ofInt character :: rest, fp)

/-- `fgets` by `getc`: the string that is stored, or `NULL`. -/
def fgetsOf {m : Type → Type} [Monad m] {α : Type} (getc : α → m (ℤ × α)) (n : ℤ) (fp : α) :
    m (Option Bytes × α) :=
  if n ≤ 1 then pure (none, fp)
  else do
    let (character, fp) ← getc fp
    if character = -1 then pure (none, fp)
    else do
      let (s, fp) ← fgetsLoop getc (n - 1).toNat character fp
      pure (some s, fp)

def fgetsExt (P : Platform) (n : ℤ) (fp : FILE) : StdioM (Option Bytes × FILE) :=
  fgetsOf (getcExt P) n fp

def fgets (P : Platform) (n : ℤ) (fp : FILE) : StdioM (Option Bytes × FILE) :=
  if fp.isUncompress then fgetsExt P n fp else fgetsOf (getc P) n fp

/-- Write a C string.  There is no `_write` behind a table entry. -/
def fputs (s : Bytes) (fp : FILE) : StdioM (ℤ × FILE) :=
  if fp.isUncompress then MProg.stuck else swrite fp s

def feofExt (fp : FILE) : Bool := fp.cookie.any fun item => fp.offset ≥ item.nLen

/-- `__sfeof`. -/
def feof (fp : FILE) : Bool :=
  (fp.type = COMMON_FILE && fp.flags &&& SEOF ≠ 0) || (fp.isUncompress && feofExt fp)

def remove (filename : Path) : StdioM ℤ := do
  let r ← deleteFile filename
  pure (if r = -1 then -1 else 0)

end Stdio

/-- `file_exist`. -/
def fileExist (name : Path) : StdioM Bool := do
  match ← Stdio.fopen name (ascii "rb") with
  | none => pure false
  | some fp => do
    let _ ← Stdio.fclose fp
    pure true

end OsdCore
