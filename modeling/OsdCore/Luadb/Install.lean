import OsdCore.Luadb.Name
import OsdCore.Stdio.Basic

/-!
# Installing a LuaDB image

`parseLuadbData` is `parse_luadb_data`: it decodes an image and goes through its files (`writeFiles`),
decompressing some into files (`lzmaDecodeBufToFile`), registering some in a file table and copying
the others, until one of them fails.  An update whose files are all in the file system afterwards is
deleted, and a restart is asked for.
-/

namespace OsdCore

open Stdio

/-! ### LZMA -/

def SZ_OK : ℤ := 0
def SZ_ERROR_DATA : ℤ := 1
def SZ_ERROR_MEM : ℤ := 2
def SZ_ERROR_UNSUPPORTED : ℤ := 4
def SZ_ERROR_INPUT_EOF : ℤ := 6
def SZ_ERROR_FAIL : ℤ := 11

/-- Five bytes of properties and eight of uncompressed size. -/
def LZMA_HEAD_SIZE : ℕ := 5 + 8

/-- `DecodeToBuf`. -/
def decodeToBuf (P : Platform) (srcBuf : Bytes) (unpackSize : ℕ) : Except ℤ Bytes :=
  match P.lzmaDec (srcBuf.take 5) (srcBuf.drop LZMA_HEAD_SIZE) unpackSize with
  | none => .error SZ_ERROR_UNSUPPORTED
  | some r =>
    if r.out.length ≠ unpackSize then .error SZ_ERROR_INPUT_EOF
    else if r.inProcessed = 0 ∧ r.out.length = 0 then .error SZ_ERROR_DATA
    else .ok r.out

/-- The decompression of `LzmaDecodeBufToFile`: `inbuff` is the memory from the pointer on, of which
the first `inlen` bytes are the stream.  `none` if they are not all there. -/
def lzmaDecode (P : Platform) (inbuff : Bytes) (inlen : ℕ) : Option (Except ℤ Bytes) :=
  if inlen ≤ LZMA_HEAD_SIZE then some (.error SZ_ERROR_INPUT_EOF)
  else do
    let head ← memcpyFrom inbuff 0 LZMA_HEAD_SIZE
    let unpackSize := le32 (slice head 5 4) + 2 ^ 32 * le32 (slice head 9 4)
    if unpackSize ≥ 2 ^ 31 then some (.error SZ_ERROR_MEM)
    else if P.alloc unpackSize then do
      let srcBuf ← memcpyFrom inbuff 0 inlen
      some (decodeToBuf P srcBuf unpackSize)
    else some (.error SZ_ERROR_MEM)

/-- Write `length` bytes to a file, and remove it if they do not all get there. -/
def storeFile (filename : Path) (buf : Bytes) (length : ℕ) : StdioM Bool := do
  match ← fopen filename (ascii "wb") with
  | none => pure false
  | some fout => do
    let (w, fout) ← fwrite buf 1 length fout
    let _ ← fclose fout
    if w ≠ length then do
      let _ ← remove filename
      pure false
    else pure true

/-- `LzmaDecodeBufToFile`. -/
def lzmaDecodeBufToFile (P : Platform) (inbuff : Bytes) (inlen : ℕ) (outfile : Path) :
    StdioM ℤ := do
  match ← defined (lzmaDecode P inbuff inlen) with
  | .error ret => pure ret
  | .ok outbuff => do
    let stored ← storeFile outfile outbuff outbuff.length
    pure (if stored then SZ_OK else SZ_ERROR_FAIL)

/-! ### The write phase -/

/-- `delupdpack` and `wrFile`. -/
structure PassFlags where
  delupdpack : Bool := true
  wrFile : Bool := false
deriving DecidableEq, Repr

/-- Whether a file is extracted: if it is forced, or if no file of the file system or of the update's
table is there under its name. -/
def shouldExtract (override : Bool) (filename : Path) : StdioM Bool := do
  let σ ← get
  let inUpdate : Bool := (findUncompressFileItem σ filename).map (·.1) = some .update
  let onDisk ← fileExist filename
  pure ((!onDisk && !inUpdate) || override)

/-- The write phase, for one file. -/
def writeEntry (P : Platform) (img : Image) (override : Bool) (nSection : TableSection)
    (file : DbFileInfo) (fl : PassFlags) : StdioM (ℤ × PassFlags) := do
  match ← defined (classify file.name) with
  | .skip => pure (LUADB_ERR_NONE, fl)
  | .zip filename => do
    if ← shouldExtract override filename then do
      let lzmaRet ← lzmaDecodeBufToFile P (img.bytes.drop file.data) file.length filename
      if lzmaRet ≠ 0 then pure (LUADB_ERR_UNZIP_FILE, fl)
      else pure (LUADB_ERR_NONE, { fl with wrFile := true })
    else pure (LUADB_ERR_NONE, fl)
  | .table filename => do
    let added ← addUncompressFileItem P nSection filename file.offset file.length
    pure (if added then LUADB_ERR_NONE else LUADB_ERR_ADD_TABLE_ITEM,
      { fl with delupdpack := false })
  | .plain filename => do
    if ← shouldExtract override filename then do
      let stored ← storeFile filename (img.bytes.drop file.data) file.length
      if stored then pure (LUADB_ERR_NONE, { delupdpack := false, wrFile := true })
      else pure (LUADB_ERR_WRITE_FILE, { fl with delupdpack := false })
    else pure (LUADB_ERR_NONE, { fl with delupdpack := false })

/-- The write phase: file by file, until one fails. -/
def writeFiles (P : Platform) (img : Image) (override : Bool) (nSection : TableSection) :
    List DbFileInfo → PassFlags → StdioM (ℤ × PassFlags)
  | [], fl => pure (LUADB_ERR_NONE, fl)
  | file :: files, fl => do
    let (err, fl) ← writeEntry P img override nSection file fl
    if err ≠ LUADB_ERR_NONE then pure (err, fl)
    else writeFiles P img override nSection files fl

/-- The end of `parse_luadb_data`: the error and whether a restart is asked for. -/
def decodeExit (nSection : TableSection) (err : ℤ) (fl : PassFlags) : StdioM (ℤ × Bool) := do
  if fl.delupdpack ∧ err = LUADB_ERR_NONE ∧ nSection = .update then do
    let _ ← remove LUA_UPDATE_FILE
    pure (err, true)
  else pure (err, decide (err = LUADB_ERR_NONE ∧ fl.wrFile ∧ nSection = .update))

/-- `parse_luadb_data`. -/
def parseLuadbData (P : Platform) (img : Image) (override : Bool) (nSection : TableSection) :
    StdioM (ℤ × Bool) := do
  match decode P.alloc img with
  | .ok out => do
    let (err, fl) ← writeFiles P img override nSection out.files {}
    decodeExit nSection err fl
  | .error (.exit err) => decodeExit nSection err {}
  | .error _ => MProg.stuck

end OsdCore
