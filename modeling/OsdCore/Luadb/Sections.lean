import OsdCore.Luadb.InstallLaw
import OsdCore.Stdio.Encrypted

/-!
# The two sections

An image may be registered for the flash section, and its entries are then read in ROM, or for the
update section, and they are then read in the update image on the file system.  A script should not
see the difference if both are the same image.

* `run_openAndCall_sections` : it does not, whatever calls it makes, for an entry in the first 2 GiB
  that is not encrypted; an entry of the update's table is never decrypted.
-/

namespace OsdCore

open Stdio

/-- Open a file for reading, make the calls and close it: their results, or `none` if there is no
such file. -/
def openAndCall (P : Platform) (p : Path) (calls : List StreamCall) :
    StdioM (Option (List CallResult)) := do
  match ← fopen p (ascii "rb") with
  | none => pure none
  | some fp => do
    let r ← MProg.calls (StreamCall.run P) calls fp
    let _ ← fclose r.2
    pure (some r.1)

/-- The data of an entry. -/
def entryBytes (img : Image) (file : DbFileInfo) : Bytes := slice img.bytes file.offset file.length

variable {σ : StdioState} {d : Disk} {P : Platform} {p : Path} {item : UncompressFileItem}
variable {src : Source} {calls : List StreamCall} {out : Decoded} {f : DbFileInfo}

/-- Calls on a table entry that follows a source. -/
theorem run_openAndCall_table {nSection : TableSection} {okRead : ℕ → Place → Prop}
    (hopen : MProg.run DevOp.handle (fopen p (ascii "rb")) σ d =
      some (some (tableStream nSection p item), σ, d))
    (hreads : Reads P src src.len
      (fun x fp => fp = tableAt nSection p item x.pos ∧ x.pos ≤ src.len) (StaysInside src.len) okRead
      σ d)
    (hread : ∀ n x, okRead n x)
    (hcalls : ∀ offset whence, .fseek offset whence ∈ calls → ¬ EndSeek src.len offset whence) :
    MProg.run DevOp.handle (openAndCall P p calls) σ d =
      some (some (specCalls (StreamCall.spec src src.len) calls {}).1, σ, d) := by
  have hmeets : ∀ call ∈ calls, ∀ x, call.Meets (StaysInside src.len) okRead x := by
    intro call hcall x
    cases call with
    | fseek offset whence => exact hcalls _ _ hcall
    | fread size count => exact hread _ _
    | getc => exact hread _ _
    | ungetc => exact fun hend => absurd hend.1 (by decide)
    | fgets n => exact fun _ => hread _ _
  obtain ⟨fp', hrun, hfp', -⟩ := hreads.calls (fun _ _ => hread _ _)
    (Along.of_forall hmeets) (x := {}) ⟨tableAt_zero, Nat.zero_le _⟩
  have hclose : MProg.run DevOp.handle (fclose fp') σ d = some (0, σ, d) := by
    rw [fclose, if_pos (by rw [hfp']; exact isUncompress_tableAt _)]
    rfl
  rw [openAndCall, MProg.run_bind, hopen, Option.bind_some, MProg.run_bind, hrun, Option.bind_some,
    MProg.run_bind, hclose]
  rfl

theorem findUncompressFileItem_add_update (hp : p ≠ []) (hitem : item.pFile = p) :
    findUncompressFileItem (σ.add item .update) p = some (.update, item) := by
  simp [findUncompressFileItem, StdioState.add, hp, hitem]

theorem findUncompressFileItem_add_flash (hp : p ≠ []) (hitem : item.pFile = p) (hu : ¬ σ.InUpdate p) :
    findUncompressFileItem (σ.add item .flash) p = some (.flash, item) := by
  have hu' : ¬ (σ.add item .flash).InUpdate p := hu
  rw [findUncompressFileItem_of_not_inUpdate hp hu']
  simp [StdioState.add, hitem]

/-- A path that is in no table stays so when another one is added. -/
theorem findUncompressFileItem_add_ne {nSection : TableSection} (hitem : item.pFile ≠ p) :
    findUncompressFileItem (σ.add item nSection) p = findUncompressFileItem σ p := by
  cases nSection <;> simp [findUncompressFileItem, StdioState.add, hitem]

/-- An entry of the update's table is opened there. -/
theorem run_fopen_add_update (hidle : σ.Idle) (h5 : 5 ≤ p.length) (hitem : item.pFile = p) :
    MProg.run DevOp.handle (fopen p (ascii "rb")) (σ.add item .update) d =
      some (some (tableStream .update p item), σ.add item .update, d) := by
  have hp : p ≠ [] := by rintro rfl; simp at h5
  have hfind : findUncompressFileItem (σ.add item .update) p = some (.update, item) :=
    findUncompressFileItem_add_update hp hitem
  have hin := findUncompressFileItem_update hfind
  have hidle' : (σ.add item .update).Idle := hidle
  refine run_eq_of_wpc (wpc_fopen sflags_rb hidle' h5 trivial (fun item' hitem' => ?_)
    (fun hu => absurd hin hu) fun hu => absurd hin hu)
  rw [hfind] at hitem'
  cases hitem'
  rfl

/-- An entry of the flash table is opened if neither the update's table nor the file system has the
path. -/
theorem run_fopen_add_flash (hidle : σ.Idle) (h5 : 5 ≤ p.length) (hitem : item.pFile = p)
    (hu : ¬ σ.InUpdate p) (hd : d p = none) :
    MProg.run DevOp.handle (fopen p (ascii "rb")) (σ.add item .flash) d =
      some (some (tableStream .flash p item), σ.add item .flash, d) := by
  have hp : p ≠ [] := by rintro rfl; simp at h5
  have hidle' : (σ.add item .flash).Idle := hidle
  have hu' : ¬ (σ.add item .flash).InUpdate p := hu
  refine run_eq_of_wpc (wpc_fopen_rb hidle' h5 trivial hu'
    (fun hsome => absurd hd (Option.isSome_iff_ne_none.1 hsome)) fun _ => ?_)
  rw [tableOpen, findUncompressFileItem_add_flash hp hitem hu]
  rfl

/-- An entry that is not encrypted is read as its data, in either section. -/
theorem run_openAndCall_section (hdec : decode P.alloc P.rom = .ok out) (hf : f ∈ out.files)
    (hp : TablePath f p) (hin : f.offset + f.length ≤ P.rom.length)
    (himg : d LUA_UPDATE_FILE = some P.rom.bytes)
    (hupdFile : findUncompressFileItem σ LUA_UPDATE_FILE = none) (hu : ¬ σ.InUpdate p)
    (hd : d p = none) (henc : ¬ ascii ".luae" <:+ p) (h31 : f.offset + f.length ≤ 2 ^ 31)
    (hidle : σ.Idle)
    (hcalls : ∀ offset whence, .fseek offset whence ∈ calls → ¬ EndSeek f.length offset whence)
    (nSection : TableSection) :
    MProg.run DevOp.handle (openAndCall P p calls) (σ.add (tableItem f p) nSection) d =
      some (some (specCalls (StreamCall.spec (.ofBytes (entryBytes P.rom f)) f.length) calls {}).1,
        σ.add (tableItem f p) nSection, d) := by
  obtain ⟨hpos, -, hoffset⟩ := decode_data hdec f hf
  have hunder : UnderLua p := classify_path (decode_fits hdec f hf).name_le hp rfl
  have h5 := hunder.length
  have hne : (tableItem f p).pFile ≠ LUA_UPDATE_FILE := by
    change p ≠ LUA_UPDATE_FILE
    rintro rfl
    exact absurd hunder (by decide)
  have hlen : (entryBytes P.rom f).length = f.length := length_slice hin
  have hsrc : (Source.ofBytes (entryBytes P.rom f)).len = f.length := hlen
  have hnLen : (tableItem f p).nLen = (entryBytes P.rom f).length := by
    rw [hlen]
    exact toInt32_of_lt (by omega)
  -- an empty entry may begin at the very end of the 2 GiB
  have hnOffset : entryBytes P.rom f ≠ [] → (tableItem f p).nOffset = f.offset := fun hc => by
    have hpos' := List.length_pos_iff.2 hc
    exact toInt32_of_lt (by omega)
  have hcopy : entryBytes P.rom f ≠ [] →
      memcpyFrom P.rom.bytes (tableItem f p).nOffset (entryBytes P.rom f).length =
        some (entryBytes P.rom f) := fun hc => by
    unfold Image.length at hin
    rw [hnOffset hc, hlen, memcpyFrom, if_pos ⟨by omega, by omega⟩]
    rfl
  have hidle' : (σ.add (tableItem f p) nSection).Idle := by cases nSection <;> exact hidle
  rw [← hlen]
  cases nSection with
  | update =>
    refine run_openAndCall_table (run_fopen_add_update hidle h5 rfl)
      (reads_update ⟨by omega, hnLen, _, himg, fun hc => ⟨hcopy hc, ?_⟩⟩ hidle' ?_)
      (fun _ _ => trivial) (by rwa [hsrc])
    · rw [hnOffset hc]
      omega
    · rwa [findUncompressFileItem_add_ne hne]
  | flash =>
    refine run_openAndCall_table (run_fopen_add_flash hidle h5 rfl hu hd)
      (reads_flash hnLen (by omega) fun pos n hlt => ?_)
      (fun n x h => absurd h henc) (by rwa [hsrc])
    exact flashRead_plain henc (hcopy (List.ne_nil_of_length_pos (by omega))) hlt

/-- **Section independence**: a script gets the same from an entry, whether the image was registered
for the update section or for the flash section. -/
theorem sections_agree (hdec : decode P.alloc P.rom = .ok out) (hf : f ∈ out.files)
    (hp : TablePath f p) (hin : f.offset + f.length ≤ P.rom.length)
    (himg : d LUA_UPDATE_FILE = some P.rom.bytes)
    (hupdFile : findUncompressFileItem σ LUA_UPDATE_FILE = none) (hu : ¬ σ.InUpdate p)
    (hd : d p = none) (henc : ¬ ascii ".luae" <:+ p) (h31 : f.offset + f.length ≤ 2 ^ 31)
    (hidle : σ.Idle)
    (hcalls : ∀ offset whence, .fseek offset whence ∈ calls → ¬ EndSeek f.length offset whence) :
    ∃ rs, MProg.run DevOp.handle (openAndCall P p calls) (σ.add (tableItem f p) .update) d =
        some (some rs, σ.add (tableItem f p) .update, d) ∧
      MProg.run DevOp.handle (openAndCall P p calls) (σ.add (tableItem f p) .flash) d =
        some (some rs, σ.add (tableItem f p) .flash, d) :=
  have h := run_openAndCall_section hdec hf hp hin himg hupdFile hu hd henc h31 hidle hcalls
  ⟨_, h .update, h .flash⟩

/-! ### Samples -/

/-- An image with a script and an encrypted script. -/
def sectionFiles : List LuadbFile :=
  [⟨ascii "a.lua", [1, 2, 3]⟩, ⟨ascii "b.luae", [1, 2, 3, 4, 5, 6, 7, 8]⟩]

set_option maxRecDepth 2000 in
def sectionImage : Image where
  bytes := encodeImage 0 sectionFiles
  size_lt := by decide

/-- A disk that holds the image as the update image. -/
def sectionDisk : Disk := fun p => if p = LUA_UPDATE_FILE then some sectionImage.bytes else none

def scriptEntry : DbFileInfo := ⟨ascii "a.lua", 3, 46, 46⟩

def scriptPath : Path := ascii "/lua/a.lua"

def luaeEntry : DbFileInfo := ⟨ascii "b.luae", 8, 73, 73⟩

def luaePath : Path := ascii "/lua/b.luae"

set_option maxRecDepth 2000 in
/-- The last two bytes of the script are read alike. -/
theorem sections_agree_script :
    ∃ rs, MProg.run DevOp.handle
        (openAndCall (romPlatform sectionImage) scriptPath [.fseek 1 .SEEK_SET, .fread 1 3])
        (({} : StdioState).add (tableItem scriptEntry scriptPath) .update) sectionDisk =
          some (some rs, ({} : StdioState).add (tableItem scriptEntry scriptPath) .update,
            sectionDisk) ∧
      MProg.run DevOp.handle
        (openAndCall (romPlatform sectionImage) scriptPath [.fseek 1 .SEEK_SET, .fread 1 3])
        (({} : StdioState).add (tableItem scriptEntry scriptPath) .flash) sectionDisk =
          some (some rs, ({} : StdioState).add (tableItem scriptEntry scriptPath) .flash,
            sectionDisk) :=
  have hcalls : ∀ offset whence,
      .fseek offset whence ∈ [StreamCall.fseek 1 .SEEK_SET, .fread 1 3] →
        ¬ EndSeek scriptEntry.length offset whence := by
    simp +contextual [EndSeek]
  have hpath : TablePath scriptEntry scriptPath := by
    unfold TablePath
    decide
  have hdec : decode (romPlatform sectionImage).alloc (romPlatform sectionImage).rom =
      .ok ⟨layout 23 sectionFiles, sectionImage.length⟩ := by decide
  sections_agree (P := romPlatform sectionImage) hdec (by decide) hpath (by decide) (by decide)
    (by decide) (by decide) (by decide) (by decide) (by decide) StdioState.idle_init hcalls

/-- The encrypted script is decrypted in the flash section only. -/
theorem not_sections_agree_luae :
    (decode (romPlatform sectionImage).alloc (romPlatform sectionImage).rom =
        .ok ⟨layout 23 sectionFiles, sectionImage.length⟩ ∧
      luaeEntry ∈ layout 23 sectionFiles ∧ classify luaeEntry.name = some (.table luaePath) ∧
      sectionDisk LUA_UPDATE_FILE = some (romPlatform sectionImage).rom.bytes) ∧
    (MProg.run DevOp.handle (openAndCall (romPlatform sectionImage) luaePath [.fread 1 4])
        (({} : StdioState).add (tableItem luaeEntry luaePath) .update) sectionDisk).map (·.1) =
          some (some [.items 4 [1, 2, 3, 4]]) ∧
      (MProg.run DevOp.handle (openAndCall (romPlatform sectionImage) luaePath [.fread 1 4])
        (({} : StdioState).add (tableItem luaeEntry luaePath) .flash) sectionDisk).map (·.1) =
          some (some [.items 4 [254, 253, 252, 251]]) := by
  decide +kernel

end OsdCore
