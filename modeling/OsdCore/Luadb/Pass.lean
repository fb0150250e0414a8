import OsdCore.Luadb.Install
import OsdCore.Stdio.Spec

/-!
# The write phase as a function of the disk

Without faults, the write phase is a function: `pass` goes through the files of an image, on a state
made of the library's memory, the disk and the two flags, and is `none` where the source has no
defined behaviour.

* `wpc_writeFiles` : on any device, the write phase ends as `pass` says, or with an error after a
  fault; `run_writeFiles` : without faults, it is `pass`.
* `run_parseLuadbData` : the same for `parse_luadb_data` and `parsePass`.
-/

namespace OsdCore

open Stdio

/-! ### The functions -/

/-- What the write phase works on. -/
structure PassState where
  mem : StdioState := {}
  disk : Disk
  flags : PassFlags := {}

/-- `storeFile`: an entry of the update's table hides the file and cannot be written. -/
def storeStep (σ : StdioState) (d : Disk) (p : Path) (buf : Bytes) (length : ℕ) :
    Option (Bool × Disk) :=
  if σ.InUpdate p then
    some (if length = sizeEOF then (true, d) else (false, Function.update d p none))
  else if length ≤ buf.length then
    some (if fwriteReport length = length then (true, Function.update d p (some (buf.take length)))
      else (false, Function.update d p none))
  else none

/-- A file is extracted if it is forced or not there. -/
def Extracts (override : Bool) (σ : StdioState) (d : Disk) (p : Path) : Prop :=
  override = true ∨ ¬ σ.Present d p

instance (override : Bool) (σ : StdioState) (d : Disk) (p : Path) :
    Decidable (Extracts override σ d p) := inferInstanceAs (Decidable (_ ∨ _))

/-- `writeEntry`, for a file that goes to `target`. -/
def targetStep (P : Platform) (img : Image) (override : Bool) (nSection : TableSection)
    (file : DbFileInfo) (st : PassState) : Target → Option (ℤ × PassState)
  | .skip => some (LUADB_ERR_NONE, st)
  | .zip p =>
    if Extracts override st.mem st.disk p then
      match lzmaDecode P (img.bytes.drop file.data) file.length with
      | none => none
      | some (.error _) => some (LUADB_ERR_UNZIP_FILE, st)
      | some (.ok c) => (storeStep st.mem st.disk p c c.length).map fun r =>
        if r.1 then (LUADB_ERR_NONE, { st with disk := r.2, flags.wrFile := true })
        else (LUADB_ERR_UNZIP_FILE, { st with disk := r.2 })
    else some (LUADB_ERR_NONE, st)
  | .table p =>
    if P.alloc sizeofUncompressFileItem && P.alloc (p.length + 1) then
      some (LUADB_ERR_NONE,
        { st with mem := st.mem.add ⟨p, toInt32 file.offset, toInt32 file.length⟩ nSection,
                  flags.delupdpack := false })
    else some (LUADB_ERR_ADD_TABLE_ITEM, { st with flags.delupdpack := false })
  | .plain p =>
    if Extracts override st.mem st.disk p then
      (storeStep st.mem st.disk p (img.bytes.drop file.data) file.length).map fun r =>
        if r.1 then (LUADB_ERR_NONE, { st with disk := r.2, flags := ⟨false, true⟩ })
        else (LUADB_ERR_WRITE_FILE, { st with disk := r.2, flags.delupdpack := false })
    else some (LUADB_ERR_NONE, { st with flags.delupdpack := false })

/-- `writeEntry`. -/
def entryStep (P : Platform) (img : Image) (override : Bool) (nSection : TableSection)
    (file : DbFileInfo) (st : PassState) : Option (ℤ × PassState) :=
  (classify file.name).bind (targetStep P img override nSection file st)

/-- `writeFiles`. -/
def pass (P : Platform) (img : Image) (override : Bool) (nSection : TableSection) :
    List DbFileInfo → PassState → Option (ℤ × PassState)
  | [], st => some (LUADB_ERR_NONE, st)
  | file :: files, st => (entryStep P img override nSection file st).bind fun r =>
    if r.1 ≠ LUADB_ERR_NONE then some r else pass P img override nSection files r.2

/-! ### The paths of an image -/

/-- The path begins with one of the two directories. -/
def UnderLua (p : Path) : Prop := LUA_DIR ++ ascii "/" <+: p ∨ LUA_DATA_DIR ++ ascii "/" <+: p

instance (p : Path) : Decidable (UnderLua p) := inferInstanceAs (Decidable (_ ∨ _))

/-- The file is extracted to this path. -/
def FsPath (file : DbFileInfo) (p : Path) : Prop :=
  classify file.name = some (.zip p) ∨ classify file.name = some (.plain p)

instance (file : DbFileInfo) (p : Path) : Decidable (FsPath file p) :=
  inferInstanceAs (Decidable (_ ∨ _))

/-- The file is registered in a table under this path. -/
def TablePath (file : DbFileInfo) (p : Path) : Prop := classify file.name = some (.table p)

theorem pathOf_underLua (name : Bytes) : UnderLua (pathOf name) := by
  unfold UnderLua pathOf
  split_ifs
  · exact Or.inl ⟨cstr name, by simp⟩
  · exact Or.inr ⟨cstr name, by simp⟩

/-- The path of a target. -/
def Target.path? : Target → Option Path
  | skip => none
  | zip p => some p
  | table p => some p
  | plain p => some p

theorem targetOf_path {name : Bytes} {p : Path} (h : (targetOf name).path? = some p) :
    UnderLua p := by
  unfold targetOf at h
  split_ifs at h <;> cases h <;> exact pathOf_underLua _

/-- Everything goes to one of the two directories. -/
theorem classify_path {name : Bytes} {t : Target} {p : Path} (hlen : name.length ≤ 255)
    (h : classify name = some t) (ht : t.path? = some p) : UnderLua p := by
  rw [classify_eq hlen] at h
  split_ifs at h
  cases h
  exact targetOf_path ht

theorem UnderLua.length {p : Path} (h : UnderLua p) : 5 ≤ p.length := by
  rcases h with ⟨t, rfl⟩ | ⟨t, rfl⟩ <;> simp [LUA_DIR, LUA_DATA_DIR, ascii]

theorem UnderLua.ne_nil {p : Path} (h : UnderLua p) : p ≠ [] := by
  have := h.length
  rintro rfl
  simp at this

/-! ### Rules -/

variable {F : Faults} {C : Disk → Prop} {ub : Prop} {σ : StdioState} {d : Disk}

/-- **`storeFile`**: as `storeStep` says, or it fails after a fault. -/
theorem wpc_storeFile {p : Path} {buf : Bytes} {length : ℕ} {Q : Bool → StdioState → Disk → Prop}
    (hidle : σ.Idle) (h5 : 5 ≤ p.length) (hlength : length < 2 ^ 32)
    (hflash : F.other → σ.pFlashFileTable = []) (hcut : ∀ x, C (Function.update d p x))
    (hub : storeStep σ d p buf length = none → ub)
    (hok : ∀ r d', storeStep σ d p buf length = some (r, d') → Q r σ d')
    (hfault : F.write ∨ F.other → ∀ x, (¬ F.other → x = none) → Q false σ (Function.update d p x)) :
    MProg.wpc (device F) C ub (storeFile p buf length) Q σ d := by
  have hC : C d := by simpa using hcut (d p)
  have hself : F.other → Q false σ d := fun ho => by
    simpa using hfault (Or.inr ho) (d p) (absurd ho)
  unfold storeFile
  rw [MProg.wpc_bind]
  refine wpc_fopen sflags_wb hidle h5 hC (fun item hitem => ?_) (fun hu _ => ?_) fun hu hno => ?_
  · -- the path is in the update's table
    have hin := findUncompressFileItem_update hitem
    simp only [MProg.wpc_bind]
    refine wpc_fwrite_table hC (wpc_fclose_table (isUncompress_tableStream _ _ _) hC ?_)
    unfold storeStep at hok
    simp only [hin, ↓reduceIte, Option.some.injEq] at hok
    by_cases hlen : length = sizeEOF
    · simp only [hlen, ne_eq, not_true_eq_false, ↓reduceIte, MProg.wpc_pure, hC, true_and]
      exact hok true d (by simp [hlen])
    · simp only [ne_eq, Ne.symm hlen, not_false_eq_true, ↓reduceIte, MProg.wpc_bind,
        MProg.wpc_pure]
      refine wpc_remove hC ⟨hcut _, fun _ => ⟨hcut _, ?_⟩⟩ fun ho _ => ⟨hC, hself ho⟩
      exact hok _ _ (by simp [hlen])
  · -- the file is open and empty
    rw [handle_openFile_wb]
    refine ⟨hcut _, ?_⟩
    have hwrite : ∀ b, Disk.write (Function.update d p (some [])) (fileStream SWR p).file b =
        Function.update d p (some b) := write_update_nil d p
    have hclose : ∀ {w : ℕ} {fp' : FILE} {x : Option Bytes}, fp'.isUncompress = false →
        fp'.flags ≠ 0 → (w = length → Q true σ (Function.update d p x)) →
        (w ≠ length → Q false σ (Function.update d p none) ∧
          (F.other → Q false σ (Function.update d p x))) →
        MProg.wpc (device F) C ub (fclose fp' >>= fun _ => if w ≠ length then
          remove p >>= fun _ => pure false else pure true) Q σ.acquire (Function.update d p x) := by
      intro w fp' x hfp hflags hsame hdiff
      simp only [MProg.wpc_bind]
      refine wpc_fclose_file hfp hflags (hcut _) fun _ => ?_
      by_cases hw : w = length
      · simpa [hw, hcut] using hsame hw
      · simp only [ne_eq, hw, not_false_eq_true, ↓reduceIte, MProg.wpc_bind, MProg.wpc_pure]
        refine wpc_remove (hcut _) ?_ fun ho _ => ⟨hcut _, (hdiff hw).2 ho⟩
        rw [Function.update_idem]
        exact ⟨hcut _, fun _ => ⟨hcut _, (hdiff hw).1⟩⟩
    have hfile := isUncompress_fileStream SWR p
    rw [MProg.wpc_bind]
    refine wpc_fwrite (n := length) rfl (by rw [Nat.one_mul, Nat.mod_eq_of_lt hlength]) (hcut _)
      (fun hlt => hub ?_) (fun k => by rw [hwrite]; exact hcut _) (fun hle w fp' hun hfl hw => ?_)
      fun hwr w k fp' hun hfl hw => ?_
    · simp [storeStep, hu, Nat.not_le.2 hlt]
    · rw [hwrite]
      refine hclose (hun.trans hfile) hfl (fun hsame => hok _ _ ?_) fun hdiff => ⟨hok _ _ ?_, fun ho =>
        hfault (Or.inr ho) _ (absurd ho)⟩
      · simp [storeStep, hu, hle, ← hw rfl, hsame]
      · simp [storeStep, hu, hle, ← hw rfl, hdiff]
    · rw [hwrite]
      exact hclose (hun.trans hfile) hfl (fun hsame => absurd hsame (hw rfl)) fun _ =>
        ⟨hfault (Or.inl hwr) _ fun _ => rfl, fun ho => hfault (Or.inr ho) _ (absurd ho)⟩
  · -- the file is not opened
    have hcreat : (O_WRONLY ||| (O_CREAT ||| O_TRUNC)) &&& O_CREAT ≠ 0 := by decide
    have ho : F.other := hno.resolve_left (by simp [hcreat])
    have hne : p ≠ [] := by rintro rfl; simp at h5
    rw [tableOpen_of_not_inUpdate hne hu, hflash ho]
    exact ⟨hC, hself ho⟩

/-- **`shouldExtract`** decides by `Extracts`; under `override`, faults do not matter. -/
theorem wpc_shouldExtract {override : Bool} {p : Path} {Q : Bool → StdioState → Disk → Prop}
    (hidle : σ.Idle) (h5 : 5 ≤ p.length) (hC : C d) (hover : F.other → override = true)
    (h : Q (decide (Extracts override σ d p)) σ d) :
    MProg.wpc (device F) C ub (shouldExtract override p) Q σ d := by
  have hne : p ≠ [] := by rintro rfl; simp at h5
  have hupd := map_findUncompressFileItem (σ := σ) hne
  simp only [shouldExtract, MProg.wpc_bind, MProg.wpc_get, hC, true_and]
  refine wpc_fileExist hidle h5 hC fun b hb => ?_
  rw [MProg.wpc_pure]
  refine ⟨hC, ?_⟩
  convert h using 1
  cases override with
  | true => simp [Extracts]
  | false =>
    have hb' : b = decide (σ.Present d p) := hb.resolve_right fun ho => absurd (hover ho) (by simp)
    have himp : σ.InUpdate p → σ.Present d p := Or.inl
    by_cases hpres : σ.Present d p
    · simp [Extracts, hb', hpres]
    · simp [Extracts, hb', hpres, hupd, mt himp hpres]

theorem lzmaDecode_error_ne {P : Platform} {buf : Bytes} {n : ℕ} {e : ℤ}
    (h : lzmaDecode P buf n = some (.error e)) : e ≠ 0 := by
  unfold lzmaDecode decodeToBuf at h
  simp only [Option.bind_eq_bind] at h
  split_ifs at h with h1
  · cases h; decide
  · obtain ⟨head, -, h⟩ := Option.bind_eq_some_iff.1 h
    split_ifs at h
    · cases h; decide
    · obtain ⟨src, -, h⟩ := Option.bind_eq_some_iff.1 h
      split at h
      · cases h; decide
      · split_ifs at h <;> cases h <;> decide
    · cases h; decide

theorem length_lzmaDecode {P : Platform} {buf c : Bytes} {n : ℕ}
    (h : lzmaDecode P buf n = some (.ok c)) : c.length < 2 ^ 31 := by
  unfold lzmaDecode decodeToBuf at h
  simp only [Option.bind_eq_bind] at h
  split_ifs at h with h1
  · cases h
  · obtain ⟨head, -, h⟩ := Option.bind_eq_some_iff.1 h
    split_ifs at h with hsize
    · cases h
    · obtain ⟨src, -, h⟩ := Option.bind_eq_some_iff.1 h
      split at h
      · cases h
      · split_ifs at h with hlen <;> cases h
        omega
    · cases h

/-- Storing a file changes nothing else. -/
theorem storeStep_disk {p : Path} {buf : Bytes} {length : ℕ} {r : Bool} {d' : Disk}
    (h : storeStep σ d p buf length = some (r, d')) : ∃ x, d' = Function.update d p x := by
  unfold storeStep at h
  split_ifs at h <;> cases h
  · exact ⟨d p, (Function.update_eq_self p d).symm⟩
  all_goals exact ⟨_, rfl⟩

/-- **`writeEntry`**: as `entryStep` says, or an error after a fault. -/
theorem wpc_writeEntry {P : Platform} {img : Image} {override : Bool} {nSection : TableSection}
    {file : DbFileInfo} {fl : PassFlags} {Q : ℤ × PassFlags → StdioState → Disk → Prop}
    (hidle : σ.Idle) (hfile : file.Fits) (hC : C d)
    (hover : F.other → override = true ∧ σ.pFlashFileTable = [])
    (hcut : ∀ p, FsPath file p → Extracts override σ d p → ∀ x, C (Function.update d p x))
    (hub : entryStep P img override nSection file ⟨σ, d, fl⟩ = none → ub)
    (hok : ∀ err st, entryStep P img override nSection file ⟨σ, d, fl⟩ = some (err, st) → C st.disk →
      Q (err, st.flags) st.mem st.disk)
    (hfault : F.write ∨ F.other → ∀ p, FsPath file p → ∀ err fl' x, err ≠ LUADB_ERR_NONE →
      (¬ F.other → x = none) → C (Function.update d p x) →
      Q (err, fl') σ (Function.update d p x)) :
    MProg.wpc (device F) C ub (writeEntry P img override nSection file fl) Q σ d := by
  unfold writeEntry
  unfold entryStep at hub hok
  simp only [MProg.wpc_bind, wpc_defined, hC, true_and]
  cases hcl : classify file.name with
  | none => exact hub (by rw [hcl]; rfl)
  | some t =>
    have hpath : ∀ p, t.path? = some p → UnderLua p := fun p => classify_path hfile.name_le hcl
    simp only [hcl, Option.bind_some] at hub hok
    cases t with
    | skip => exact ⟨hC, hok _ _ rfl hC⟩
    | zip p =>
      have h5 := (hpath p rfl).length
      have hfs : FsPath file p := Or.inl hcl
      simp only [MProg.wpc_bind]
      refine wpc_shouldExtract hidle h5 hC (fun ho => (hover ho).1) ?_
      by_cases hex : Extracts override σ d p
      · simp only [targetStep, hex, ↓reduceIte] at hub hok
        simp only [hex, decide_true, ↓reduceIte, MProg.wpc_bind, lzmaDecodeBufToFile, wpc_defined,
          hC, true_and]
        cases hlz : lzmaDecode P (img.bytes.drop file.data) file.length with
        | none => exact hub (by rw [hlz])
        | some r =>
          simp only [hlz] at hub hok
          cases r with
          | error ret =>
            simpa [lzmaDecode_error_ne hlz, hC] using hok _ _ rfl hC
          | ok c =>
            dsimp only at hub hok
            have hlen := length_lzmaDecode hlz
            simp only [MProg.wpc_bind]
            refine wpc_storeFile hidle h5 (by omega) (fun ho => (hover ho).2) (hcut p hfs hex)
              (fun hn => hub (by rw [hn]; rfl)) (fun r d' hr => ?_) fun hf x hx => ?_
            · obtain ⟨x, rfl⟩ := storeStep_disk hr
              have hC' := hcut p hfs hex x
              simp only [hr, Option.map_some, Option.some.injEq] at hok
              cases r
              · simpa [SZ_ERROR_FAIL, hC'] using hok _ _ rfl hC'
              · simpa [SZ_OK, hC'] using hok _ _ rfl hC'
            · simpa [SZ_ERROR_FAIL, hcut p hfs hex x] using
                hfault hf p hfs LUADB_ERR_UNZIP_FILE fl x (by decide) hx (hcut p hfs hex x)
      · simp only [targetStep, hex, ↓reduceIte] at hok
        simpa [hex, hC] using hok _ _ rfl hC
    | table p =>
      have hne := (hpath p rfl).ne_nil
      simp only [targetStep] at hok
      simp only [addUncompressFileItem, hne, ↓reduceIte, MProg.wpc_bind]
      by_cases halloc : (P.alloc sizeofUncompressFileItem && P.alloc (p.length + 1)) = true
      · simp only [halloc, ↓reduceIte] at hok ⊢
        simpa [hC] using hok _ _ rfl hC
      · simp only [halloc, Bool.false_eq_true, ↓reduceIte] at hok ⊢
        simpa [hC] using hok _ _ rfl hC
    | plain p =>
      have h5 := (hpath p rfl).length
      have hfs : FsPath file p := Or.inr hcl
      simp only [MProg.wpc_bind]
      refine wpc_shouldExtract hidle h5 hC (fun ho => (hover ho).1) ?_
      by_cases hex : Extracts override σ d p
      · simp only [targetStep, hex, ↓reduceIte] at hub hok
        simp only [hex, decide_true, ↓reduceIte, MProg.wpc_bind]
        refine wpc_storeFile hidle h5 hfile.length_lt (fun ho => (hover ho).2) (hcut p hfs hex)
          (fun hn => hub (by rw [hn]; rfl)) (fun r d' hr => ?_) fun hf x hx => ?_
        · obtain ⟨x, rfl⟩ := storeStep_disk hr
          have hC' := hcut p hfs hex x
          simp only [hr, Option.map_some, Option.some.injEq] at hok
          cases r
          · simpa [hC'] using hok _ _ rfl hC'
          · simpa [hC'] using hok _ _ rfl hC'
        · simpa [hcut p hfs hex x] using
            hfault hf p hfs LUADB_ERR_WRITE_FILE { fl with delupdpack := false } x (by decide) hx
              (hcut p hfs hex x)
      · simp only [targetStep, hex, ↓reduceIte] at hok
        simpa [hex, hC] using hok _ _ rfl hC

/-- **`writeFiles`**: an invariant `I` that every file keeps is carried through the whole write
phase, which ends as `pass` says, or with an error after a fault. -/
theorem wpc_writeFiles {P : Platform} {img : Image} {override : Bool} {nSection : TableSection}
    {I : StdioState → Disk → Prop} {Q : ℤ × PassFlags → StdioState → Disk → Prop}
    {files : List DbFileInfo} {fl : PassFlags} (hfiles : ∀ f ∈ files, f.Fits)
    (hbase : ∀ σ d, I σ d →
      σ.Idle ∧ C d ∧ (F.other → override = true ∧ σ.pFlashFileTable = []))
    (hcut : ∀ σ d, I σ d → ∀ f ∈ files, ∀ p, FsPath f p → Extracts override σ d p →
      ∀ x, C (Function.update d p x))
    (hstep : ∀ σ d, I σ d → ∀ f ∈ files, ∀ fl st,
      entryStep P img override nSection f ⟨σ, d, fl⟩ = some (LUADB_ERR_NONE, st) →
      I st.mem st.disk)
    (hfault : F.write ∨ F.other → ∀ σ d, I σ d → ∀ f ∈ files, ∀ p, FsPath f p → ∀ err fl' x,
      err ≠ LUADB_ERR_NONE → (¬ F.other → x = none) → C (Function.update d p x) →
      Q (err, fl') σ (Function.update d p x))
    (hI : I σ d) (hub : pass P img override nSection files ⟨σ, d, fl⟩ = none → ub)
    (hok : ∀ err st, pass P img override nSection files ⟨σ, d, fl⟩ = some (err, st) →
      (err = LUADB_ERR_NONE → I st.mem st.disk) → C st.disk → Q (err, st.flags) st.mem st.disk) :
    MProg.wpc (device F) C ub (writeFiles P img override nSection files fl) Q σ d := by
  induction files generalizing σ d fl with
  | nil =>
    have hC := (hbase σ d hI).2.1
    exact ⟨hC, hok _ _ rfl (fun _ => hI) hC⟩
  | cons file files ih =>
    obtain ⟨hidle, hC, hover⟩ := hbase σ d hI
    have hmem : file ∈ file :: files := List.mem_cons_self
    simp only [writeFiles, MProg.wpc_bind]
    simp only [pass] at hub hok
    refine wpc_writeEntry hidle (hfiles file hmem) hC hover (fun p => hcut σ d hI file hmem p)
      (fun hn => hub (by rw [hn]; rfl)) (fun err st hst hC' => ?_)
      fun hF p hp err fl' x herr hx hC' => ?_
    · simp only [hst, Option.bind_some] at hub hok
      by_cases herr : err = LUADB_ERR_NONE
      · subst herr
        simp only [ne_eq, not_true_eq_false, ↓reduceIte] at hub hok ⊢
        exact ih (fun f hf => hfiles f (List.mem_cons_of_mem _ hf))
          (fun σ d hI f hf => hcut σ d hI f (List.mem_cons_of_mem _ hf))
          (fun σ d hI f hf => hstep σ d hI f (List.mem_cons_of_mem _ hf))
          (fun hF σ d hI f hf => hfault hF σ d hI f (List.mem_cons_of_mem _ hf))
          (hstep σ d hI file hmem _ _ hst) hub hok
      · simp only [ne_eq, herr, not_false_eq_true, ↓reduceIte] at hub hok ⊢
        exact ⟨hC', hok _ _ rfl (absurd · herr) hC'⟩
    · simp only [ne_eq, herr, not_false_eq_true, ↓reduceIte]
      exact ⟨hC', hfault hF σ d hI file hmem p hp err fl' x herr hx hC'⟩

/-! ### `parse_luadb_data` -/

/-- `decodeExit`. -/
def exitStep (nSection : TableSection) (err : ℤ) (st : PassState) :
    (ℤ × Bool) × StdioState × Disk :=
  if st.flags.delupdpack ∧ err = LUADB_ERR_NONE ∧ nSection = .update then
    ((err, true), st.mem, Function.update st.disk LUA_UPDATE_FILE none)
  else ((err, decide (err = LUADB_ERR_NONE ∧ st.flags.wrFile ∧ nSection = .update)), st.mem, st.disk)

/-- `parseLuadbData`. -/
def parsePass (P : Platform) (img : Image) (override : Bool) (nSection : TableSection)
    (σ : StdioState) (d : Disk) : Option ((ℤ × Bool) × StdioState × Disk) :=
  match decode P.alloc img with
  | .ok out => (pass P img override nSection out.files ⟨σ, d, {}⟩).map fun r =>
      exitStep nSection r.1 r.2
  | .error (.exit err) => some (exitStep nSection err ⟨σ, d, {}⟩)
  | .error _ => none

/-- `parsePass`, by its cases: the write phase over the files of an accepted image, or an error of the
decode phase. -/
theorem parsePass_eq_some_iff {img : Image} {override : Bool} {nSection : TableSection}
    {r : (ℤ × Bool) × StdioState × Disk} :
    parsePass P img override nSection σ d = some r ↔
      (∃ out err st, decode P.alloc img = .ok out ∧
        pass P img override nSection out.files ⟨σ, d, {}⟩ = some (err, st) ∧
        r = exitStep nSection err st) ∨
      ∃ err, decode P.alloc img = .error (.exit err) ∧ r = exitStep nSection err ⟨σ, d, {}⟩ := by
  unfold parsePass
  cases hdec : decode P.alloc img with
  | ok out =>
    simp only [Option.map_eq_some_iff, Prod.exists]
    constructor
    · rintro ⟨err, st, hpass, rfl⟩
      exact Or.inl ⟨out, err, st, rfl, hpass, rfl⟩
    · rintro (⟨out', err, st, hout, hpass, rfl⟩ | ⟨err, herr, -⟩)
      · cases hout
        exact ⟨err, st, hpass, rfl⟩
      · cases herr
  | error e =>
    cases e with
    | exit err =>
      constructor
      · intro h
        cases h
        exact Or.inr ⟨err, rfl, rfl⟩
      · rintro (⟨_, _, _, hout, -⟩ | ⟨err', herr, rfl⟩)
        · cases hout
        · cases herr
          rfl
    | oob => simp
    | fuel => simp

theorem exitStep_mem (nSection : TableSection) (err : ℤ) (st : PassState) :
    (exitStep nSection err st).2.1 = st.mem := by
  unfold exitStep
  split_ifs <;> rfl

/-- For the image in ROM there is nothing to delete and nothing to restart for. -/
theorem parsePass_flash {P : Platform} {img : Image} {override : Bool} {out : Decoded}
    (h : decode P.alloc img = .ok out) : parsePass P img override .flash σ d =
      (pass P img override .flash out.files ⟨σ, d, {}⟩).map fun r =>
        ((r.1, false), r.2.mem, r.2.disk) := by
  have hexit : ∀ err st, exitStep .flash err st = ((err, false), st.mem, st.disk) := fun err st => by
    simp [exitStep]
  simp only [parsePass, h, hexit]

theorem wpc_decodeExit {nSection : TableSection} {err : ℤ} {fl : PassFlags}
    {Q : ℤ × Bool → StdioState → Disk → Prop} (hC : C d)
    (hcut : nSection = .update → C (Function.update d LUA_UPDATE_FILE none))
    (hkeep : F.other → err = LUADB_ERR_NONE → Q (err, true) σ d)
    (hok : ∀ r σ' d', exitStep nSection err ⟨σ, d, fl⟩ = (r, σ', d') → Q r σ' d') :
    MProg.wpc (device F) C ub (decodeExit nSection err fl) Q σ d := by
  unfold decodeExit
  unfold exitStep at hok
  split_ifs with hcond
  · simp only [hcond, and_self, ↓reduceIte] at hok
    simp only [MProg.wpc_bind, MProg.wpc_pure]
    refine wpc_remove hC ⟨hcut hcond.2.2, fun _ => ⟨hcut hcond.2.2, ?_⟩⟩
      fun ho _ => ⟨hC, hkeep ho hcond.2.1⟩
    simpa [hcond.2.1] using hok _ _ _ rfl
  · exact ⟨hC, hok _ _ _ (if_neg hcond)⟩

/-- **`parse_luadb_data`**, with an invariant of the write phase. -/
theorem wpc_parseLuadbData {P : Platform} {img : Image} {override : Bool} {nSection : TableSection}
    {I : StdioState → Disk → Prop} {Q : ℤ × Bool → StdioState → Disk → Prop}
    (hbase : ∀ σ d, I σ d →
      σ.Idle ∧ C d ∧ (F.other → override = true ∧ σ.pFlashFileTable = []))
    (hcut : ∀ out, decode P.alloc img = .ok out → ∀ σ d, I σ d → ∀ f ∈ out.files, ∀ p, FsPath f p →
      Extracts override σ d p → ∀ x, C (Function.update d p x))
    (hremove : nSection = .update → ∀ d, C d → C (Function.update d LUA_UPDATE_FILE none))
    (hstep : ∀ out, decode P.alloc img = .ok out → ∀ σ d, I σ d → ∀ f ∈ out.files, ∀ fl st,
      entryStep P img override nSection f ⟨σ, d, fl⟩ = some (LUADB_ERR_NONE, st) →
      I st.mem st.disk)
    (hfault : F.write ∨ F.other → ∀ out, decode P.alloc img = .ok out → ∀ σ d, I σ d →
      ∀ f ∈ out.files, ∀ p, FsPath f p → ∀ err x, err ≠ LUADB_ERR_NONE → (¬ F.other → x = none) →
      Q (err, false) σ (Function.update d p x))
    (hkeep : F.other → ∀ σ d, I σ d → Q (LUADB_ERR_NONE, true) σ d)
    (hI : I σ d) (hub : parsePass P img override nSection σ d = none → ub)
    (hok : ∀ r σ' d', parsePass P img override nSection σ d = some (r, σ', d') → Q r σ' d') :
    MProg.wpc (device F) C ub (parseLuadbData P img override nSection) Q σ d := by
  have hC := (hbase σ d hI).2.1
  unfold parseLuadbData
  unfold parsePass at hub hok
  cases hdec : decode P.alloc img with
  | ok out =>
    simp only [hdec] at hub hok
    simp only [MProg.wpc_bind]
    refine wpc_writeFiles (decode_fits hdec) hbase (hcut out hdec) (hstep out hdec)
      (fun hF σ d hI f hf p hp err fl' x herr hx hC' => ?_) hI (fun hn => hub (by rw [hn]; rfl))
      fun err st hst hI' hC' => ?_
    · refine wpc_decodeExit hC' (fun hu => hremove hu _ hC') (fun _ h => absurd h herr) fun r σ' d' hr => ?_
      simp only [exitStep, herr, false_and, and_false, ↓reduceIte, decide_false, Prod.mk.injEq] at hr
      obtain ⟨rfl, rfl, rfl⟩ := hr
      exact hfault hF out hdec σ d hI f hf p hp err x herr hx
    · refine wpc_decodeExit hC' (fun hu => hremove hu _ hC') (fun ho herr => ?_) fun r σ' d' hr =>
        hok r σ' d' (by rw [hst, Option.map_some, hr])
      subst herr
      exact hkeep ho _ _ (hI' rfl)
  | error e =>
    cases e with
    | exit err =>
      simp only [hdec, Option.some.injEq] at hok
      refine wpc_decodeExit hC (fun hu => hremove hu d hC) (fun ho herr => ?_) hok
      subst herr
      exact hkeep ho σ d hI
    | oob => exact ⟨hC, hub (by rw [hdec])⟩
    | fuel => exact ⟨hC, hub (by rw [hdec])⟩

/-! ### Without faults -/

/-- The entry is not decompressed into a file: it is registered or copied. -/
def nonZip (file : DbFileInfo) : Bool :=
  match classify file.name with
  | some (.table _) => true
  | some (.plain _) => true
  | _ => false

/-- What an extracted entry puts into its file. -/
def entryContent (P : Platform) (img : Image) (file : DbFileInfo) : Option Bytes :=
  match classify file.name with
  | some (.zip _) =>
    match lzmaDecode P (img.bytes.drop file.data) file.length with
    | some (.ok c) => some c
    | _ => none
  | some (.plain _) => memcpyFrom (img.bytes.drop file.data) 0 file.length
  | _ => none

/-- The item of a table entry. -/
def tableItem (file : DbFileInfo) (p : Path) : UncompressFileItem :=
  ⟨p, toInt32 file.offset, toInt32 file.length⟩

/-- There is memory for a table item. -/
def allocItem (P : Platform) (p : Path) : Bool :=
  P.alloc sizeofUncompressFileItem && P.alloc (p.length + 1)

/-- **What the write phase can do with an entry.** -/
inductive EntryCase (P : Platform) (img : Image) (override : Bool) (nSection : TableSection)
    (file : DbFileInfo) (st : PassState) : ℤ → PassState → Prop
  | skip : classify file.name = some .skip →
      EntryCase P img override nSection file st LUADB_ERR_NONE st
  | table {p : Path} : TablePath file p → allocItem P p = true →
      EntryCase P img override nSection file st LUADB_ERR_NONE
        { st with mem := st.mem.add (tableItem file p) nSection, flags.delupdpack := false }
  | noItem {p : Path} : TablePath file p → allocItem P p = false →
      EntryCase P img override nSection file st LUADB_ERR_ADD_TABLE_ITEM
        { st with flags.delupdpack := false }
  /-- The file is there already. -/
  | kept {p : Path} {del : Bool} : FsPath file p → ¬ Extracts override st.mem st.disk p →
      del = (st.flags.delupdpack && !nonZip file) →
      EntryCase P img override nSection file st LUADB_ERR_NONE { st with flags.delupdpack := del }
  | stored {p : Path} {del : Bool} {c : Bytes} : FsPath file p →
      Extracts override st.mem st.disk p → ¬ st.mem.InUpdate p →
      entryContent P img file = some c → fwriteReport c.length = c.length →
      del = (st.flags.delupdpack && !nonZip file) →
      EntryCase P img override nSection file st LUADB_ERR_NONE
        ⟨st.mem, Function.update st.disk p (some c), ⟨del, true⟩⟩
  /-- The update's table hides the path, and the error `fwrite` reports is the length. -/
  | hidden {p : Path} : classify file.name = some (.plain p) →
      Extracts override st.mem st.disk p → st.mem.InUpdate p → file.length = sizeEOF →
      EntryCase P img override nSection file st LUADB_ERR_NONE ⟨st.mem, st.disk, ⟨false, true⟩⟩
  | failed {p : Path} {del : Bool} {err : ℤ} {x : Option Bytes} : FsPath file p →
      Extracts override st.mem st.disk p → err ≠ LUADB_ERR_NONE → x = st.disk p ∨ x = none →
      (∀ c, entryContent P img file = some c → st.mem.InUpdate p ∨
        fwriteReport c.length ≠ c.length) →
      EntryCase P img override nSection file st err
        ⟨st.mem, Function.update st.disk p x, { st.flags with delupdpack := del }⟩

theorem storeStep_cases {p : Path} {buf : Bytes} {length : ℕ} {r : Bool} {d' : Disk}
    (h : storeStep σ d p buf length = some (r, d')) :
    (r = true ∧ ¬ σ.InUpdate p ∧ length ≤ buf.length ∧ fwriteReport length = length ∧
      d' = Function.update d p (some (buf.take length))) ∨
    (r = true ∧ σ.InUpdate p ∧ length = sizeEOF ∧ d' = d) ∨
    (r = false ∧ (σ.InUpdate p ∨ fwriteReport length ≠ length) ∧
      d' = Function.update d p none) := by
  unfold storeStep at h
  split_ifs at h with hu hlen hlen hrep <;> cases h
  · exact Or.inr (Or.inl ⟨rfl, hu, hlen, rfl⟩)
  · exact Or.inr (Or.inr ⟨rfl, Or.inl hu, rfl⟩)
  · exact Or.inl ⟨rfl, hu, hlen, hrep, rfl⟩
  · exact Or.inr (Or.inr ⟨rfl, Or.inr hrep, rfl⟩)

theorem entryStep_cases {P : Platform} {img : Image} {override : Bool} {nSection : TableSection}
    {file : DbFileInfo} {st st' : PassState} {err : ℤ}
    (h : entryStep P img override nSection file st = some (err, st')) :
    EntryCase P img override nSection file st err st' := by
  obtain ⟨t, hcl, ht⟩ := Option.bind_eq_some_iff.1 h
  cases t with
  | skip =>
    cases ht
    exact .skip hcl
  | zip p =>
    have hfs : FsPath file p := Or.inl hcl
    have hzip : ∀ del : Bool, del = (del && !nonZip file) := by simp [nonZip, hcl]
    simp only [targetStep] at ht
    split_ifs at ht with hex
    · cases hlz : lzmaDecode P (img.bytes.drop file.data) file.length with
      | none => simp [hlz] at ht
      | some r =>
        cases r with
        | error e =>
          simp only [hlz, Option.some.injEq, Prod.mk.injEq] at ht
          obtain ⟨rfl, rfl⟩ := ht
          have hcase := @EntryCase.failed P img override nSection file st p st.flags.delupdpack
            LUADB_ERR_UNZIP_FILE _ hfs hex (by decide) (Or.inl rfl)
            (fun c hc => by simp [entryContent, hcl, hlz] at hc)
          rwa [Function.update_eq_self] at hcase
        | ok c =>
          have hc : entryContent P img file = some c := by simp [entryContent, hcl, hlz]
          simp only [hlz, Option.map_eq_some_iff] at ht
          obtain ⟨⟨stored, disk⟩, hst, ht⟩ := ht
          rcases storeStep_cases hst with ⟨rfl, hu, -, hrep, rfl⟩ | ⟨-, -, hlen, -⟩ | ⟨rfl, hrep, rfl⟩
          · cases ht
            rw [List.take_length]
            exact .stored hfs hex hu hc hrep (hzip _)
          · have := length_lzmaDecode hlz
            unfold sizeEOF at hlen
            omega
          · cases ht
            refine .failed hfs hex (by decide) (Or.inr rfl) fun c' hc' => ?_
            rw [hc] at hc'
            cases hc'
            exact hrep
    · cases ht
      exact .kept hfs hex (hzip _)
  | table p =>
    simp only [targetStep] at ht
    split_ifs at ht with halloc <;> cases ht
    · exact .table hcl halloc
    · exact .noItem hcl (by simpa [allocItem] using halloc)
  | plain p =>
    have hfs : FsPath file p := Or.inr hcl
    have hplain : ∀ del : Bool, false = (del && !nonZip file) := by simp [nonZip, hcl]
    simp only [targetStep] at ht
    split_ifs at ht with hex
    · simp only [Option.map_eq_some_iff] at ht
      obtain ⟨⟨stored, disk⟩, hst, ht⟩ := ht
      rcases storeStep_cases hst with ⟨rfl, hu, hle, hrep, rfl⟩ | ⟨rfl, hu, hlen, rfl⟩ |
        ⟨rfl, hrep, rfl⟩
      · cases ht
        have hc : entryContent P img file = some ((img.bytes.drop file.data).take file.length) := by
          simpa [entryContent, hcl, memcpyFrom, slice] using hle
        have hsize : ((img.bytes.drop file.data).take file.length).length = file.length := by
          rw [List.length_take, Nat.min_eq_left hle]
        exact .stored hfs hex hu hc (by rw [hsize, hrep]) (hplain _)
      · cases ht
        exact .hidden hcl hex hu hlen
      · cases ht
        refine .failed hfs hex (by decide) (Or.inr rfl) fun c hc => ?_
        have hsize : c.length = file.length := by
          simp only [entryContent, hcl, memcpyFrom, slice] at hc
          split_ifs at hc with hle
          cases hc
          simp only [Int.toNat_zero, List.drop_zero, List.length_take]
          omega
        rwa [hsize]
    · cases ht
      exact .kept hfs hex (hplain _)

/-- A write phase over one more file: the file fails, or it succeeds and the others follow. -/
theorem pass_cons_iff {P : Platform} {img : Image} {override : Bool} {nSection : TableSection}
    {file : DbFileInfo} {files : List DbFileInfo} {st st' : PassState} {err : ℤ} :
    pass P img override nSection (file :: files) st = some (err, st') ↔
      (err ≠ LUADB_ERR_NONE ∧ entryStep P img override nSection file st = some (err, st')) ∨
      ∃ st₁, entryStep P img override nSection file st = some (LUADB_ERR_NONE, st₁) ∧
        pass P img override nSection files st₁ = some (err, st') := by
  rw [pass]
  constructor
  · intro h
    obtain ⟨⟨e, st₁⟩, hst, h⟩ := Option.bind_eq_some_iff.1 h
    by_cases he : e = LUADB_ERR_NONE
    · subst he
      exact Or.inr ⟨st₁, hst, h⟩
    · rw [if_pos he] at h
      cases h
      exact Or.inl ⟨he, hst⟩
  · rintro (⟨he, hst⟩ | ⟨st₁, hst, h⟩)
    · rw [hst, Option.bind_some, if_pos he]
    · rw [hst, Option.bind_some, if_neg (fun hne => hne rfl), h]

/-- What every entry keeps, a write phase keeps. -/
theorem pass_invariant {P : Platform} {img : Image} {override : Bool} {nSection : TableSection}
    {I : PassState → Prop} {files : List DbFileInfo} {st st' : PassState} {err : ℤ}
    (hstep : ∀ f ∈ files, ∀ st st' err, I st →
      EntryCase P img override nSection f st err st' → I st')
    (hI : I st) (h : pass P img override nSection files st = some (err, st')) : I st' := by
  induction files generalizing st with
  | nil => cases h; exact hI
  | cons file files ih =>
    have hfile := hstep file List.mem_cons_self
    rcases pass_cons_iff.1 h with ⟨-, hst⟩ | ⟨st₁, hst, h⟩
    · exact hfile st st' err hI (entryStep_cases hst)
    · exact ih (fun f hf => hstep f (List.mem_cons_of_mem _ hf))
        (hfile st st₁ _ hI (entryStep_cases hst)) h

/-- An entry does not keep a slot. -/
theorem entryStep_openFiles {P : Platform} {img : Image} {override : Bool} {nSection : TableSection}
    {file : DbFileInfo} {st st' : PassState} {err : ℤ}
    (h : entryStep P img override nSection file st = some (err, st')) :
    st'.mem.openFiles = st.mem.openFiles := by
  cases entryStep_cases h <;> try rfl
  cases nSection <;> rfl

/-- **Without faults, `parse_luadb_data` is `parsePass`.** -/
theorem run_parseLuadbData {P : Platform} {img : Image} {override : Bool} {nSection : TableSection}
    (hidle : σ.Idle) : MProg.run DevOp.handle (parseLuadbData P img override nSection) σ d =
      parsePass P img override nSection σ d := by
  refine run_eq_of_wpc (wpc_parseLuadbData (I := fun σ _ => σ.Idle) ?_ ?_ ?_ ?_ ?_ ?_ hidle id
    fun r σ' d' => id)
  · exact fun σ d hI => ⟨hI, trivial, False.elim⟩
  · exact fun _ _ _ _ _ _ _ _ _ _ _ => trivial
  · exact fun _ _ _ => trivial
  · intro out _ σ d hI f _ fl st hst
    unfold StdioState.Idle at hI ⊢
    rwa [entryStep_openFiles hst]
  · exact fun hF => hF.elim False.elim False.elim
  · exact fun hF => False.elim hF

end OsdCore
