import OsdCore.Luadb.Install

/-!
# The boot: `load_luadb`

A boot installs the update image, if there is one, and then the image in ROM.  The ROM image's files
are extracted by force when `/integrity.bin` does not hold the integrity flag, or after an update was
rejected and everything was removed; the flag is then written.  `loadLuadb` is `load_luadb`, in two
parts: `updatePass` and `romPass`.
-/

namespace OsdCore

open Stdio

def LUA_CHECK_INTEGRITY_FILE : Path := ascii "/integrity.bin"

def LUA_INTEGRITY_FLAG : ℕ := 0xABCD8765

def LUA_ENTRY_FILE : Path := ascii "/lua/main.lua"

def LUA_ENTRY_ENC_FILE : Path := ascii "/lua/main.luae"

/-- The update image in its buffer of `size` bytes, `size` being an `int`. -/
def updateBuffer (P : Platform) (size : ℤ) (data : Bytes) : Image where
  bytes := overlay P (toU32 size) data
  size_lt := by
    have := length_overlay_le P (toU32 size) data
    unfold toU32 at this ⊢
    omega

/-- Read the update image, if there is one.  There is no buffer of negative size. -/
def readUpdate (P : Platform) : StdioM (Option Image) := do
  match ← fopen LUA_UPDATE_FILE (ascii "rb") with
  | none => pure none
  | some fp => do
    let (_, fp) ← fseek fp 0 .SEEK_END
    let (size, fp) ← ftell fp
    let (_, fp) ← fseek fp 0 .SEEK_SET
    if size < 0 then MProg.stuck
    else do
      let (_, data, fp) ← fread P 1 (toU32 size) fp
      let _ ← fclose fp
      pure (some (updateBuffer P size data))

/-- Whether the ROM image is to be extracted by force: the integrity flag is not there. -/
def checkIntegrity (P : Platform) : StdioM Bool := do
  if ← fileExist LUA_CHECK_INTEGRITY_FILE then do
    match ← fopen LUA_CHECK_INTEGRITY_FILE (ascii "rb") with
    | some integrityFile => do
      let (_, buf, integrityFile) ← fread P 4 1 integrityFile
      let _ ← fclose integrityFile
      pure (decide (le32 (overlay P 4 buf) ≠ LUA_INTEGRITY_FLAG))
    | none => pure true
  else pure true

/-- Write the integrity flag, whatever became of the ROM image. -/
def writeIntegrity : StdioM Unit := do
  match ← fopen LUA_CHECK_INTEGRITY_FILE (ascii "wb") with
  | some integrityFile => do
    let (_, integrityFile) ← fwrite (toLe32 LUA_INTEGRITY_FLAG) 4 1 integrityFile
    let _ ← fclose integrityFile
    pure ()
  | none => pure ()

/-- `removeLuaDir`. -/
def removeLuaDir : StdioM Unit := do
  let _ ← remove LUA_ENTRY_FILE
  let _ ← remove LUA_ENTRY_ENC_FILE
  let _ ← removeDir LUA_DIR
  let _ ← removeDir LUA_DATA_DIR
  let _ ← removeDir (ascii "/luazip")

/-- What a boot gives. -/
structure BootResult where
  /-- What `parse_luadb_data` returned for the update, and whether it set `restart1`. -/
  update : Option (ℤ × Bool)
  /-- What it returned for the ROM image, and whether it set `restart2`. -/
  rom : ℤ × Bool
  /-- The boot ends with a restart. -/
  restart : Bool
deriving DecidableEq, Repr

/-- The first part of `load_luadb`: the update. -/
def updatePass (P : Platform) : StdioM (Option (ℤ × Bool)) := do
  match ← readUpdate P with
  | none => pure none
  | some buff => do
    let r ← parseLuadbData P buff true .update
    pure (some r)

/-- The second part of `load_luadb`: the clean-up after a rejected update, and the ROM image. -/
def romPass (P : Platform) (update : Option (ℤ × Bool)) : StdioM BootResult := do
  let rejected : Bool := update.any fun r => decide (r.1 ≠ LUADB_ERR_NONE)
  let fileOverride ← if rejected then (do
      removeLuaDir
      pure true)
    else checkIntegrity P
  let rom ← parseLuadbData P P.rom fileOverride .flash
  if fileOverride then writeIntegrity
  pure ⟨update, rom, rejected || update.any (·.2) || rom.2⟩

/-- `load_luadb`. -/
def loadLuadb (P : Platform) : StdioM BootResult := do
  let update ← updatePass P
  romPass P update

end OsdCore
