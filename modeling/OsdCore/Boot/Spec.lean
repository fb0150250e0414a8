import OsdCore.Boot.Basic
import OsdCore.Luadb.Pass
import OsdCore.Stdio.Read

/-!
# The steps of a boot

One rule for each step of `load_luadb`, on a device whose writes may fail, and the boot without faults
as a function.

* `wpc_readUpdate`, `wpc_checkIntegrity`, `wpc_writeIntegrity`, `wpc_removeLuaDir` : the steps around
  the two calls of `parse_luadb_data`.
* `run_loadLuadb` : without faults, a boot is `bootStep`.
-/

namespace OsdCore

open Stdio

variable {P : Platform} {F : Faults} {C : Disk → Prop} {ub : Prop} {σ : StdioState} {d : Disk}

/-! ### The update image -/

/-- The update image, by the contents of its file.  A file of 2 GiB or more has no size. -/
def updateImage (c : Bytes) : Image :=
  if h : c.length < 2 ^ 31 then ⟨c, by omega⟩ else ⟨[], by decide⟩

theorem updateBuffer_eq (P : Platform) {c : Bytes} (h : c.length < 2 ^ 31) :
    updateBuffer P c.length c = updateImage c := by
  have hsize : toU32 (c.length : ℤ) = c.length := toU32_natCast (by omega)
  rw [updateImage, dif_pos h]
  simp [updateBuffer, overlay, hsize]

theorem updateBuffer_zero (P : Platform) {c : Bytes} (h : ¬ c.length < 2 ^ 31) :
    updateBuffer P (0 : ℕ) [] = updateImage c := by
  rw [updateImage, dif_neg h]
  rfl

/-- A seek to the end of a file whose size is an `int` goes there; otherwise it fails, and the stream
stays where it is. -/
theorem Stdio.wpc_fseek_end {p : Path} {c : Bytes} {fp : FILE}
    {Q : ℤ × FILE → StdioState → Disk → Prop} (hF : ¬ F.other) (hC : C d) (hd : d p = some c)
    (hfp : FileAt p 0 fp)
    (h : ∀ r fp', FileAt p (if c.length < 2 ^ 31 then c.length else 0) fp' → Q (r, fp') σ d) :
    MProg.wpc (device F) C ub (fseek fp 0 .SEEK_END) Q σ d := by
  have hpos : seekPos d fp.file 0 .SEEK_END = c.length := by simp [seekPos, hfp.file, hd]
  by_cases hlt : c.length < 2 ^ 31
  · rw [if_pos hlt] at h
    exact wpc_fseek hF hC hfp hpos hlt fun fp' hfp' _ => h 0 fp' hfp'
  · rw [if_neg hlt] at h
    exact wpc_fseek_fail hF hC hfp (by omega) fun fp' hfp' _ => h (-1) fp' hfp'

/-- **The update image is read**, if there is one. -/
theorem wpc_readUpdate {Q : Option Image → StdioState → Disk → Prop} (hF : ¬ F.other) (hC : C d)
    (h : Q ((d LUA_UPDATE_FILE).map updateImage) {} d) :
    MProg.wpc (device F) C ub (readUpdate P) Q {} d := by
  have hu : ¬ ({} : StdioState).InUpdate LUA_UPDATE_FILE := by simp [StdioState.InUpdate]
  have henc : ¬ ascii ".luae" <:+ LUA_UPDATE_FILE := by decide
  unfold readUpdate
  rw [MProg.wpc_bind]
  refine wpc_fopen_rb StdioState.idle_init (by decide) hC hu (fun hsome => ?_) fun hno => ?_
  · obtain ⟨c, hc⟩ := Option.isSome_iff_exists.1 hsome
    rw [hc, Option.map_some] at h
    simp only [MProg.wpc_bind]
    refine wpc_fseek_end hF hC hc (fileAt_fopen _) fun _ fp hfp => ?_
    have hbuf : updateBuffer P (if c.length < 2 ^ 31 then c.length else 0 : ℕ)
        (c.take (if c.length < 2 ^ 31 then c.length else 0)) = updateImage c := by
      split_ifs with hlt
      · rw [List.take_length, updateBuffer_eq P hlt]
      · rw [List.take_zero, updateBuffer_zero P hlt]
    -- from the size on, whatever it is
    have hpos : (if c.length < 2 ^ 31 then c.length else 0) < 2 ^ 31 := by
      split_ifs with hlt
      · exact hlt
      · decide
    generalize (if c.length < 2 ^ 31 then c.length else 0) = pos at hfp hbuf hpos
    have hsize : toU32 (pos : ℤ) * 1 % 2 ^ 32 = pos := by
      rw [toU32_natCast (by omega)]
      omega
    have hview : fileView P LUA_UPDATE_FILE c pos = c.take pos := by
      rw [fileView, if_neg henc]
    refine wpc_ftell hF hC hfp hpos fun fp₁ hfp₁ _ => ?_
    refine wpc_fseek hF hC hfp₁ (k := 0) rfl (by decide) fun fp₂ hfp₂ _ => ?_
    rw [if_neg (by omega)]
    simp only [MProg.wpc_bind]
    refine wpc_fread_start hF hC hfp₂ hc (absurd · henc) hsize hpos fun fp₃ hfp₃ => ?_
    refine wpc_fclose_file hfp₃.isUncompress hfp₃.flags hC fun _ => ⟨hC, ?_⟩
    rw [hview, hbuf]
    exact h
  · rw [hno.resolve_right hF] at h
    exact ⟨hC, h⟩

/-! ### The integrity flag -/

/-- The integrity flag is not there. -/
def flagMissing (P : Platform) (d : Disk) : Bool :=
  match d LUA_CHECK_INTEGRITY_FILE with
  | some c => decide (le32 (overlay P 4 (c.take 4)) ≠ LUA_INTEGRITY_FLAG)
  | none => true

/-- **The flag is read.** -/
theorem wpc_checkIntegrity {Q : Bool → StdioState → Disk → Prop} (hF : ¬ F.other) (hidle : σ.Idle)
    (hu : ¬ σ.InUpdate LUA_CHECK_INTEGRITY_FILE) (hflash : ¬ σ.InFlash LUA_CHECK_INTEGRITY_FILE)
    (hC : C d) (h : Q (flagMissing P d) σ d) :
    MProg.wpc (device F) C ub (checkIntegrity P) Q σ d := by
  have henc : ¬ ascii ".luae" <:+ LUA_CHECK_INTEGRITY_FILE := by decide
  have hpres : σ.Present d LUA_CHECK_INTEGRITY_FILE ↔ (d LUA_CHECK_INTEGRITY_FILE).isSome := by
    simp [StdioState.Present, hu, hflash]
  unfold checkIntegrity
  rw [MProg.wpc_bind]
  refine wpc_fileExist hidle (by decide) hC fun b hb => ?_
  have hb' : b = decide (d LUA_CHECK_INTEGRITY_FILE).isSome := by
    simpa [hpres] using hb.resolve_right hF
  cases hd : d LUA_CHECK_INTEGRITY_FILE with
  | none =>
    rw [hd] at hb'
    subst hb'
    refine ⟨hC, ?_⟩
    simpa [flagMissing, hd] using h
  | some c =>
    rw [hd] at hb'
    subst hb'
    simp only [Option.isSome_some, decide_true, ↓reduceIte, MProg.wpc_bind]
    refine wpc_fopen_rb hidle (by decide) hC hu (fun _ => ?_) fun hno =>
      absurd (hd.symm.trans (hno.resolve_right hF)) (Option.some_ne_none c)
    simp only [MProg.wpc_bind]
    refine wpc_fread_start (n := 4) hF hC (fileAt_fopen _) hd (absurd · henc) (by decide) (by decide)
      fun fp hfp => ?_
    refine wpc_fclose_file hfp.isUncompress hfp.flags hC fun _ => ⟨hC, ?_⟩
    rw [fileView, if_neg henc]
    simpa [flagMissing, hd] using h

/-- **The flag is written**, or some of its bytes if the write fails. -/
theorem wpc_writeIntegrity {Q : Unit → StdioState → Disk → Prop} (hF : ¬ F.other) (hidle : σ.Idle)
    (hu : ¬ σ.InUpdate LUA_CHECK_INTEGRITY_FILE) (hC : C d)
    (hcut : ∀ k, C (Function.update d LUA_CHECK_INTEGRITY_FILE
      (some ((toLe32 LUA_INTEGRITY_FLAG).take k))))
    (hok : Q ⟨⟩ σ (Function.update d LUA_CHECK_INTEGRITY_FILE (some (toLe32 LUA_INTEGRITY_FLAG))))
    (hfail : F.write → ∀ k, Q ⟨⟩ σ (Function.update d LUA_CHECK_INTEGRITY_FILE
      (some ((toLe32 LUA_INTEGRITY_FLAG).take k)))) :
    MProg.wpc (device F) C ub writeIntegrity Q σ d := by
  have hcreat : (O_WRONLY ||| (O_CREAT ||| O_TRUNC)) &&& O_CREAT ≠ 0 := by decide
  have htake : (toLe32 LUA_INTEGRITY_FLAG).take 4 = toLe32 LUA_INTEGRITY_FLAG := by decide
  have hfile := isUncompress_fileStream SWR LUA_CHECK_INTEGRITY_FILE
  have hwrite : ∀ b, Disk.write (Function.update d LUA_CHECK_INTEGRITY_FILE (some []))
      (fileStream SWR LUA_CHECK_INTEGRITY_FILE).file b =
        Function.update d LUA_CHECK_INTEGRITY_FILE (some b) := write_update_nil d _
  unfold writeIntegrity
  rw [MProg.wpc_bind]
  refine wpc_fopen sflags_wb hidle (by decide) hC
    (fun item hitem => absurd (findUncompressFileItem_update hitem) hu) (fun _ _ => ?_)
    fun _ hno => absurd (Or.inr hcreat) (hno.resolve_right hF)
  rw [handle_openFile_wb]
  have hC0 := hcut 0
  refine ⟨hC0, ?_⟩
  simp only [MProg.wpc_bind]
  refine wpc_fwrite (n := 4) rfl (by decide) hC0 (fun hlt => absurd hlt (by decide))
    (fun k => ?_) (fun _ w fp hun hfl _ => ?_) fun hw w k fp hun hfl _ => ?_
  · rw [hwrite, htake]
    exact hcut k
  · have hC4 := hcut 4
    rw [htake] at hC4
    rw [hwrite, htake]
    exact wpc_fclose_file (hun.trans hfile) hfl hC4 fun _ => ⟨hC4, hok⟩
  · rw [hwrite, htake]
    exact wpc_fclose_file (hun.trans hfile) hfl (hcut k) fun _ => ⟨hcut k, hfail hw k⟩

/-! ### The clean-up -/

/-- The directories that `removeLuaDir` empties. -/
def Wiped (p : Path) : Prop := UnderLua p ∨ ascii "/luazip/" <+: p

instance (p : Path) : Decidable (Wiped p) := inferInstanceAs (Decidable (_ ∨ _))

/-- The disk after `removeLuaDir`. -/
def Disk.wipe (d : Disk) : Disk := fun p => if Wiped p then none else d p

/-- Some of the files that `removeLuaDir` removes are gone. -/
def Disk.WipesSome (d d' : Disk) : Prop := ∀ p, d' p = d p ∨ (Wiped p ∧ d' p = none)

theorem Disk.WipesSome.refl (d : Disk) : d.WipesSome d := fun _ => Or.inl rfl

theorem Disk.WipesSome.trans {d d' d'' : Disk} (h : d.WipesSome d') (h' : d'.WipesSome d'') :
    d.WipesSome d'' := fun p => by
  rcases h' p with h2 | h2
  · rcases h p with h1 | h1
    · exact Or.inl (h2.trans h1)
    · exact Or.inr ⟨h1.1, h2.trans h1.2⟩
  · exact Or.inr h2

theorem Disk.wipesSome_update {d : Disk} {p : Path} (hp : Wiped p) :
    d.WipesSome (Function.update d p none) := fun q => by
  by_cases hq : q = p
  · subst hq
    exact Or.inr ⟨hp, Function.update_self _ _ _⟩
  · exact Or.inl (Function.update_of_ne hq _ _)

theorem Disk.RemovesSome.wipesSome {d d' : Disk} {dir : Path} (h : d.RemovesSome dir d')
    (hdir : ∀ p, dir ++ ascii "/" <+: p → Wiped p) : d.WipesSome d' := fun p =>
  (h p).imp id fun hp => ⟨hdir p hp.1, hp.2⟩

theorem Disk.removesSome_removeDir (d : Disk) (dir : Path) : d.RemovesSome dir (d.removeDir dir) :=
  fun p => by
    unfold removeDir
    split_ifs with hp
    · exact Or.inr ⟨hp, rfl⟩
    · exact Or.inl rfl

theorem Stdio.wpc_removeDir {dir : Path} {Q : ℤ → StdioState → Disk → Prop} (hF : ¬ F.other)
    (hcut : ∀ d', d.RemovesSome dir d' → C d') (h : Q 0 σ (d.removeDir dir)) :
    MProg.wpc (device F) C ub (removeDir dir) Q σ d := by
  refine wpc_callDevice (hcut d fun _ => Or.inl rfl) (fun m hm => ?_)
    ⟨hcut _ (d.removesSome_removeDir dir), h⟩ fun r d' hf => ?_
  · cases hm with
    | removeDir hm => exact hcut m hm
  · cases hf
    contradiction

/-- **`removeLuaDir`** removes everything; on the way some of it is there. -/
theorem wpc_removeLuaDir {Q : Unit → StdioState → Disk → Prop} (hF : ¬ F.other)
    (hcut : ∀ d', d.WipesSome d' → C d') (h : Q ⟨⟩ σ d.wipe) :
    MProg.wpc (device F) C ub removeLuaDir Q σ d := by
  have hmain : Wiped LUA_ENTRY_FILE := by decide
  have henc : Wiped LUA_ENTRY_ENC_FILE := by decide
  have hlua : ∀ p, LUA_DIR ++ ascii "/" <+: p → Wiped p := fun p hp => Or.inl (Or.inl hp)
  have hdata : ∀ p, LUA_DATA_DIR ++ ascii "/" <+: p → Wiped p := fun p hp => Or.inl (Or.inr hp)
  have hzip : ∀ p, ascii "/luazip" ++ ascii "/" <+: p → Wiped p := fun p hp => Or.inr hp
  have hrm : ∀ {d₁ : Disk} {p : Path} {R : ℤ → StdioState → Disk → Prop}, d.WipesSome d₁ → Wiped p →
      (d.WipesSome (Function.update d₁ p none) → ∀ r, R r σ (Function.update d₁ p none)) →
      MProg.wpc (device F) C ub (remove p) R σ d₁ := fun h₁ hp hR =>
    wpc_remove (hcut _ h₁) ⟨hcut _ (h₁.trans (Disk.wipesSome_update hp)),
      hR (h₁.trans (Disk.wipesSome_update hp))⟩ (absurd · hF)
  have hdir : ∀ {d₁ : Disk} {dir : Path} {R : ℤ → StdioState → Disk → Prop}, d.WipesSome d₁ →
      (∀ p, dir ++ ascii "/" <+: p → Wiped p) →
      (d.WipesSome (d₁.removeDir dir) → R 0 σ (d₁.removeDir dir)) →
      MProg.wpc (device F) C ub (removeDir dir) R σ d₁ := fun h₁ hp hR =>
    wpc_removeDir hF (fun d' hd' => hcut d' (h₁.trans (hd'.wipesSome hp)))
      (hR (h₁.trans ((Disk.removesSome_removeDir _ _).wipesSome hp)))
  unfold removeLuaDir
  simp only [MProg.wpc_bind]
  refine hrm (.refl d) hmain fun h1 _ => hrm h1 henc fun h2 _ => hdir h2 hlua fun h3 =>
    hdir h3 hdata fun h4 => hdir h4 hzip fun h5 => ⟨hcut _ h5, ?_⟩
  convert h using 1
  funext p
  unfold Disk.wipe
  split_ifs with hp
  · simp only [Disk.removeDir]
    split_ifs with hz hd hl
    · rfl
    · rfl
    · rfl
    · rcases hp with (hp | hp) | hp
      exacts [absurd hp hl, absurd hp hd, absurd hp hz]
  · exact (h5 p).resolve_right fun hw => hp hw.1

/-! ### The tables of a boot -/

/-- The library's memory in a boot, between the steps: no slot is in use, and the tables list only
paths of the two directories. -/
structure StdioState.Lua (σ : StdioState) : Prop where
  openFiles : σ.openFiles = 0
  update : ∀ item ∈ σ.pUpdateFileTable, UnderLua item.pFile
  flash : ∀ item ∈ σ.pFlashFileTable, UnderLua item.pFile

namespace StdioState.Lua

theorem init : ({} : StdioState).Lua := ⟨rfl, by simp, by simp⟩

theorem idle (h : σ.Lua) : σ.Idle := by
  rw [Idle, h.openFiles]
  decide

theorem not_inUpdate (h : σ.Lua) {p : Path} (hp : ¬ UnderLua p) : ¬ σ.InUpdate p := by
  rintro ⟨item, hmem, rfl⟩
  exact hp (h.update item hmem)

theorem not_inFlash (h : σ.Lua) {p : Path} (hp : ¬ UnderLua p) : ¬ σ.InFlash p := by
  rintro ⟨item, hmem, rfl⟩
  exact hp (h.flash item hmem)

theorem entry {img : Image} {override : Bool} {nSection : TableSection} {file : DbFileInfo}
    {st st' : PassState} {err : ℤ} (h : st.mem.Lua) (hfits : file.Fits)
    (hcase : EntryCase P img override nSection file st err st') : st'.mem.Lua := by
  cases hcase with
  | @table p hp =>
    have hunder : UnderLua (tableItem file p).pFile := classify_path hfits.name_le hp rfl
    cases nSection with
    | update => exact ⟨h.openFiles, List.forall_mem_cons.2 ⟨hunder, h.update⟩, h.flash⟩
    | flash => exact ⟨h.openFiles, h.update, List.forall_mem_cons.2 ⟨hunder, h.flash⟩⟩
  | skip => exact h
  | noItem => exact h
  | kept => exact h
  | stored => exact h
  | hidden => exact h
  | failed => exact h

end StdioState.Lua

/-- `parsePass` lists only paths of the two directories. -/
theorem StdioState.Lua.parsePass {img : Image} {override : Bool} {nSection : TableSection}
    {r : (ℤ × Bool) × StdioState × Disk} (h : σ.Lua)
    (hr : parsePass P img override nSection σ d = some r) : r.2.1.Lua := by
  rcases parsePass_eq_some_iff.1 hr with ⟨out, err, st, hdec, hpass, rfl⟩ | ⟨err, -, rfl⟩
  · rw [exitStep_mem]
    exact pass_invariant (I := fun st => st.mem.Lua)
      (fun f hf st st' err hI hcase => hI.entry (decode_fits hdec f hf) hcase) h hpass
  · rw [exitStep_mem]
    exact h

/-! ### The boot without faults -/

/-- `updatePass` without faults. -/
def updateStep (P : Platform) (d : Disk) : Option (Option (ℤ × Bool) × StdioState × Disk) :=
  match d LUA_UPDATE_FILE with
  | none => some (none, {}, d)
  | some c => (parsePass P (updateImage c) true .update {} d).map fun r => (some r.1, r.2)

/-- The update was rejected. -/
def rejects (update : Option (ℤ × Bool)) : Bool := update.any fun r => decide (r.1 ≠ LUADB_ERR_NONE)

/-- `romPass` without faults. -/
def romStep (P : Platform) (update : Option (ℤ × Bool)) (σ : StdioState) (d : Disk) :
    Option (BootResult × StdioState × Disk) :=
  let fileOverride := rejects update || flagMissing P d
  (parsePass P P.rom fileOverride .flash σ (if rejects update then d.wipe else d)).map fun r =>
    (⟨update, r.1, rejects update || update.any (·.2) || r.1.2⟩, r.2.1,
      if fileOverride then
        Function.update r.2.2 LUA_CHECK_INTEGRITY_FILE (some (toLe32 LUA_INTEGRITY_FLAG))
      else r.2.2)

/-- `loadLuadb` without faults. -/
def bootStep (P : Platform) (d : Disk) : Option (BootResult × StdioState × Disk) :=
  (updateStep P d).bind fun r => romStep P r.1 r.2.1 r.2.2

theorem not_underLua_integrity : ¬ UnderLua LUA_CHECK_INTEGRITY_FILE := by decide

theorem run_updatePass : MProg.run DevOp.handle (updatePass P) {} d = updateStep P d := by
  have hread : MProg.run DevOp.handle (readUpdate P) {} d =
      some ((d LUA_UPDATE_FILE).map updateImage, {}, d) :=
    run_eq_of_wpc (wpc_readUpdate id trivial rfl)
  unfold updatePass updateStep
  rw [MProg.run_bind, hread]
  cases d LUA_UPDATE_FILE with
  | none => rfl
  | some c =>
    simp only [Option.map_some, Option.bind_some, MProg.run_bind,
      run_parseLuadbData StdioState.idle_init, MProg.run_pure]
    cases parsePass P (updateImage c) true .update {} d <;> rfl

theorem StdioState.Lua.updateStep {r : Option (ℤ × Bool) × StdioState × Disk}
    (h : updateStep P d = some r) : r.2.1.Lua := by
  unfold OsdCore.updateStep at h
  cases hd : d LUA_UPDATE_FILE with
  | none =>
    rw [hd] at h
    cases h
    exact .init
  | some c =>
    simp only [hd, Option.map_eq_some_iff] at h
    obtain ⟨r', hr', rfl⟩ := h
    exact init.parsePass hr'

theorem run_romPass {update : Option (ℤ × Bool)} (hσ : σ.Lua) :
    MProg.run DevOp.handle (romPass P update) σ d = romStep P update σ d := by
  have hu := not_underLua_integrity
  have hrm : MProg.run DevOp.handle removeLuaDir σ d = some (⟨⟩, σ, d.wipe) :=
    run_eq_of_wpc (wpc_removeLuaDir id (fun _ _ => trivial) rfl)
  have hcheck : MProg.run DevOp.handle (checkIntegrity P) σ d = some (flagMissing P d, σ, d) :=
    run_eq_of_wpc (wpc_checkIntegrity id hσ.idle (hσ.not_inUpdate hu) (hσ.not_inFlash hu) trivial rfl)
  have hwrite : ∀ {σ' : StdioState} {d' : Disk}, σ'.Lua →
      MProg.run DevOp.handle writeIntegrity σ' d' = some (⟨⟩, σ', Function.update d'
        LUA_CHECK_INTEGRITY_FILE (some (toLe32 LUA_INTEGRITY_FLAG))) := fun hσ' =>
    run_eq_of_wpc (wpc_writeIntegrity id hσ'.idle (hσ'.not_inUpdate hu) trivial
      (fun _ => trivial) rfl False.elim)
  unfold romPass romStep
  cases hrej : rejects update with
  | true =>
    have hrej' : (update.any fun r => decide (r.1 ≠ LUADB_ERR_NONE)) = true := hrej
    simp only [hrej', ↓reduceIte, MProg.run_bind, MProg.run_pure, hrm, Option.bind_some,
      run_parseLuadbData hσ.idle, Bool.true_or]
    cases hparse : parsePass P P.rom true .flash σ d.wipe with
    | none => rfl
    | some r => simp [hwrite (hσ.parsePass hparse)]
  | false =>
    have hrej' : (update.any fun r => decide (r.1 ≠ LUADB_ERR_NONE)) = false := hrej
    simp only [hrej', Bool.false_eq_true, ↓reduceIte, MProg.run_bind, hcheck, Option.bind_some,
      run_parseLuadbData hσ.idle, Bool.false_or]
    cases hparse : parsePass P P.rom (flagMissing P d) .flash σ d with
    | none => rfl
    | some r =>
      cases flagMissing P d with
      | false => rfl
      | true => simp [MProg.run_bind, hwrite (hσ.parsePass hparse)]

/-- **Without faults, a boot is `bootStep`.** -/
theorem run_loadLuadb : MProg.run DevOp.handle (loadLuadb P) {} d = bootStep P d := by
  unfold loadLuadb bootStep
  rw [MProg.run_bind, run_updatePass]
  cases hu : updateStep P d with
  | none => rfl
  | some r => exact run_romPass (StdioState.Lua.updateStep hu)

end OsdCore
