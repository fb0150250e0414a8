import OsdCore.Luadb.InstallLaw

/-!
# What becomes of an update

* `updateCase_of_parsePass` : without faults, an update is rejected, or removed, or it stays.
* `noneThrownAway_iff` : on any device, an update is removed only with all its files in the file
  system exactly when every file it lists is what the last `.zip` entry for its path stores.
-/

namespace OsdCore

open Stdio

variable {P : Platform} {d : Disk}

/-- The update image is accepted: it decodes, and all its files are installed. -/
def Accepts (P : Platform) (img : Image) (out : Decoded) : Prop :=
  decode P.alloc img = .ok out ∧ Installs P img .update (fun _ => False) out.files

theorem init_inUpdate : ({} : StdioState).InUpdate = fun _ => False := by
  funext p
  simp [StdioState.InUpdate]

/-- **What becomes of an update.** -/
inductive UpdateCase (P : Platform) (img : Image) (d : Disk) :
    ℤ × Bool → StdioState → Disk → Prop
  | rejected {err : ℤ} {σ : StdioState} {d' : Disk} : err ≠ LUADB_ERR_NONE →
      decode P.alloc img ≠ .error (.exit LUADB_ERR_NONE) → (∀ out, ¬ Accepts P img out) →
      d' LUA_UPDATE_FILE = d LUA_UPDATE_FILE → UpdateCase P img d (err, false) σ d'
  | noFiles : decode P.alloc img = .error (.exit LUADB_ERR_NONE) →
      UpdateCase P img d (LUADB_ERR_NONE, true) {} (Function.update d LUA_UPDATE_FILE none)
  | removed {out : Decoded} {st : PassState} : decode P.alloc img = .ok out →
      pass P img true .update out.files ⟨{}, d, {}⟩ = some (LUADB_ERR_NONE, st) →
      out.files.any nonZip = false →
      UpdateCase P img d (LUADB_ERR_NONE, true) st.mem (Function.update st.disk LUA_UPDATE_FILE none)
  | kept {out : Decoded} {st : PassState} : decode P.alloc img = .ok out →
      pass P img true .update out.files ⟨{}, d, {}⟩ = some (LUADB_ERR_NONE, st) →
      out.files.any nonZip = true →
      UpdateCase P img d (LUADB_ERR_NONE, out.files.any isFs) st.mem st.disk

/-- An update that is accepted is not touched while its files are installed. -/
theorem pass_keeps_update {img : Image} {out : Decoded} {override : Bool} {nSection : TableSection}
    {st st' : PassState} {err : ℤ} (hdec : decode P.alloc img = .ok out)
    (h : pass P img override nSection out.files st = some (err, st')) :
    st'.disk LUA_UPDATE_FILE = st.disk LUA_UPDATE_FILE :=
  (pass_frame h fun _ hf hpath => absurd (underLua_entryPath hdec hf hpath) (by decide)).1

theorem accepts_iff {img : Image} {out : Decoded} (hdec : decode P.alloc img = .ok out) :
    Accepts P img out ↔
      ∃ st, pass P img true .update out.files ⟨{}, d, {}⟩ = some (LUADB_ERR_NONE, st) := by
  rw [pass_none_iff, init_inUpdate]
  exact and_iff_right hdec

theorem updateCase_of_parsePass {img : Image} {r : ℤ × Bool} {σ : StdioState} {d' : Disk}
    (h : parsePass P img true .update {} d = some (r, σ, d')) : UpdateCase P img d r σ d' := by
  have herr : ∀ {err : ℤ} {st : PassState}, err ≠ LUADB_ERR_NONE →
      exitStep .update err st = ((err, false), st.mem, st.disk) := fun hne => by
    simp [exitStep, hne]
  rcases parsePass_eq_some_iff.1 h with ⟨out, err, st, hdec, hpass, hexit⟩ | ⟨err, hdec, hexit⟩
  · by_cases hne : err = LUADB_ERR_NONE
    · subst hne
      have hflags := pass_flags hpass
      cases hany : out.files.any nonZip with
      | false =>
        simp only [exitStep, hflags, hany, Bool.not_false, Bool.and_self, and_self, ↓reduceIte] at hexit
        cases hexit
        exact .removed hdec hpass hany
      | true =>
        simp only [exitStep, hflags, hany, Bool.not_true, Bool.and_false, Bool.false_eq_true,
          ↓reduceIte, Bool.false_or, true_and, and_true, Bool.decide_eq_true] at hexit
        cases hexit
        exact .kept hdec hpass hany
    · rw [herr hne] at hexit
      cases hexit
      refine .rejected hne (by simp [hdec]) (fun out' hacc => ?_) (pass_keeps_update hdec hpass)
      have hout := hacc.1
      rw [hdec] at hout
      cases hout
      obtain ⟨st', hst'⟩ := (accepts_iff hdec).1 hacc
      rw [hpass] at hst'
      cases hst'
      exact hne rfl
  · by_cases hne : err = LUADB_ERR_NONE
    · subst hne
      cases hexit
      exact .noFiles hdec
    · rw [herr hne] at hexit
      cases hexit
      refine .rejected hne (by simp [hdec, hne]) (fun out hacc => ?_) rfl
      rw [Accepts, hdec] at hacc
      cases hacc.1

/-! ### What the package's files leave behind -/

/-- What the last of the files for a path puts there. -/
def lastContent (P : Platform) (img : Image) (p : Path) : List DbFileInfo → Option Bytes
  | [] => none
  | file :: files =>
    (lastContent P img p files).or (if FsPath file p then entryContent P img file else none)

/-- After a successful write phase over `.zip` files, the disk holds at each path what the last of
them for it has put there. -/
theorem pass_lastContent {img : Image} {nSection : TableSection} {files : List DbFileInfo}
    {st st' : PassState} (hzip : files.any nonZip = false)
    (h : pass P img true nSection files st = some (LUADB_ERR_NONE, st')) (p : Path) :
    st'.disk p = (lastContent P img p files).or (st.disk p) := by
  induction files generalizing st with
  | nil => cases h; rfl
  | cons file files ih =>
    rw [List.any_cons, Bool.or_eq_false_iff] at hzip
    rcases pass_cons_iff.1 h with ⟨hne, -⟩ | ⟨st₁, hst, h⟩
    · exact absurd rfl hne
    rw [ih hzip.2 h, lastContent, Option.or_assoc]
    congr 1
    have hcase := entryStep_cases hst
    generalize herr : LUADB_ERR_NONE = err at hcase
    cases hcase with
    | skip hcl => simp [FsPath, hcl]
    | @table q hq =>
      unfold TablePath at hq
      simp [FsPath, hq]
    | noItem => exact absurd herr (by decide)
    | kept _ hex => exact absurd (Or.inl rfl) hex
    | @stored q del c hq _ _ hc =>
      by_cases hp : FsPath file p
      · obtain rfl := fsPath_unique hq hp
        simp [hp, hc]
      · have hne : p ≠ q := fun hpq => hp (hpq ▸ hq)
        simp [hp, hne]
    | hidden hcl => simp [nonZip, hcl] at hzip
    | failed _ _ hne => exact absurd herr.symm hne

/-- If all files for a path have the same contents, these are put there. -/
theorem lastContent_eq {img : Image} {files : List DbFileInfo} {p : Path} {c : Bytes}
    (hex : ∃ f ∈ files, FsPath f p)
    (hsame : ∀ f ∈ files, FsPath f p → entryContent P img f = some c) :
    lastContent P img p files = some c := by
  induction files with
  | nil => simp at hex
  | cons file files ih =>
    rw [List.forall_mem_cons] at hsame
    rw [lastContent]
    by_cases hrest : ∃ f ∈ files, FsPath f p
    · rw [ih hrest hsame.2]
      rfl
    · obtain ⟨f, hf, hfs⟩ := hex
      rcases List.mem_cons.1 hf with rfl | hf
      · have hnone : lastContent P img p files = none := by
          clear ih hsame hf
          induction files with
          | nil => rfl
          | cons g files ih =>
            simp only [List.mem_cons, exists_eq_or_imp, not_or] at hrest
            simp [lastContent, ih hrest.2, hrest.1]
        rw [hnone, if_pos hfs, hsame.1 hfs]
        rfl
      · exact absurd ⟨f, hf, hfs⟩ hrest

/-- `.zip` files leave the tables alone. -/
theorem pass_zip_mem {img : Image} {override : Bool} {nSection : TableSection}
    {files : List DbFileInfo} {st st' : PassState} {err : ℤ} (hzip : files.any nonZip = false)
    (h : pass P img override nSection files st = some (err, st')) : st'.mem = st.mem := by
  refine pass_invariant (I := fun s => s.mem = st.mem) (fun f hf s s' e hI hcase => ?_) rfl h
  have hf' := List.any_eq_false.1 hzip f hf
  cases hcase with
  | table hp =>
    unfold TablePath at hp
    simp [nonZip, hp] at hf'
  | skip => exact hI
  | noItem => exact hI
  | kept => exact hI
  | stored => exact hI
  | hidden => exact hI
  | failed => exact hI

/-- Every listed file is what the last `.zip` entry for its path stores. -/
def EveryFileStored (P : Platform) (img : Image) (files : List DbFileInfo) : Prop :=
  ∀ f ∈ files, ∃ c, payload P img f = some c ∧ lastContent P img (installPath f.name) files = some c

/-- The package is removed: it is accepted and lists only `.zip` files and files that are skipped, or
there is no memory for its files. -/
def Removes (P : Platform) (img : Image) : Prop :=
  decode P.alloc img = .error (.exit LUADB_ERR_NONE) ∨
    ∃ out, Accepts P img out ∧ out.files.any nonZip = false

/-- **No accepted file is thrown away**: on a device that may fail in any way, `parse_luadb_data`
removes the update image only if it returns `LUADB_ERR_NONE` and every listed file is then in the
file system, complete. -/
def NoneThrownAway (P : Platform) (img : Image) : Prop :=
  ∀ (d d' : Disk) (r : ℤ × Bool) (σ : StdioState), d LUA_UPDATE_FILE ≠ none →
    (parseLuadbData P img true .update {}).Finishes (device .all) d (r, σ) d' →
    d' LUA_UPDATE_FILE = none → r.1 = LUADB_ERR_NONE ∧
      ∀ out, decode (fun _ => true) img = .ok out → ∀ f ∈ out.files,
        ∃ c, payload P img f = some c ∧ d' (installPath f.name) = some c

theorem installPath_ne_update (name : Bytes) : installPath name ≠ LUA_UPDATE_FILE := fun h =>
  absurd (h ▸ underLua_installPath name) (by decide)

/-- On a device that may fail in any way, the update image is removed only as it is without faults. -/
theorem parsePass_of_finishes {img : Image} {d' : Disk} {r : ℤ × Bool} {σ : StdioState}
    (hd : d LUA_UPDATE_FILE ≠ none)
    (h : (parseLuadbData P img true .update {}).Finishes (device .all) d (r, σ) d')
    (hgone : d' LUA_UPDATE_FILE = none) : parsePass P img true .update {} d = some (r, σ, d') := by
  have hother : ∀ {out}, decode P.alloc img = .ok out → ∀ f ∈ out.files, ∀ p, FsPath f p →
      LUA_UPDATE_FILE ≠ p := fun hdec f hf p hp hpath =>
    absurd (underLua_entryPath hdec hf hp.entryPath) (hpath ▸ by decide)
  have hwpc : MProg.wpc (device .all) (fun _ => True) True (parseLuadbData P img true .update)
      (fun r σ d' => d' LUA_UPDATE_FILE = none → parsePass P img true .update {} d = some (r, σ, d'))
      {} d := by
    refine wpc_parseLuadbData (I := fun σ d => σ.Idle ∧ σ.pFlashFileTable = [] ∧
      d LUA_UPDATE_FILE ≠ none) ?_ (fun _ _ _ _ _ _ _ _ _ _ _ => trivial) (fun _ _ _ => trivial)
      ?_ ?_ ?_ ⟨StdioState.idle_init, rfl, hd⟩ (fun _ => trivial) fun r σ d' hr _ => hr
    · exact fun σ d hI => ⟨hI.1, trivial, fun _ => ⟨rfl, hI.2.1⟩⟩
    · intro out hdec σ d hI f hf fl st hst
      refine ⟨?_, ?_, ?_⟩
      · rw [StdioState.Idle, entryStep_openFiles hst]
        exact hI.1
      · cases entryStep_cases hst <;> exact hI.2.1
      · have hpath : entryPath f ≠ some LUA_UPDATE_FILE := fun hp =>
          absurd (underLua_entryPath hdec hf hp) (by decide)
        rw [(entry_frame (entryStep_cases hst) hpath).1]
        exact hI.2.2
    · intro _ out hdec σ d hI f hf p hp err x _ _ hnone
      rw [Function.update_of_ne (hother hdec f hf p hp)] at hnone
      exact absurd hnone hI.2.2
    · exact fun _ σ d hI hnone => absurd hnone hI.2.2
  exact (Prog.wpc_finishes hwpc h).2 hgone

/-- Without faults it is removed as the pass says. -/
theorem finishes_of_parsePass {img : Image} {d' : Disk} {r : ℤ × Bool} {σ : StdioState}
    (h : parsePass P img true .update {} d = some (r, σ, d')) :
    (parseLuadbData P img true .update {}).Finishes (device .all) d (r, σ) d' := by
  rw [← run_parseLuadbData StdioState.idle_init, MProg.run, Option.map_eq_some_iff] at h
  obtain ⟨⟨⟨r', σ'⟩, d'⟩, hrun, heq⟩ := h
  cases heq
  exact Prog.finishes_of_run hrun fun o s => device_step_handle .all o s

/-- What is decoded with less memory is the same. -/
theorem decode_alloc_unique {img : Image} {out out' : Decoded} (h' : decode P.alloc img = .ok out')
    (h : decode (fun _ => true) img = .ok out) : out' = out := by
  rw [decode_alloc_mono h'] at h
  cases h
  rfl

/-- The package, and nothing else, on the disk. -/
def onlyUpdate (img : Image) : Disk := Function.update (fun _ => none) LUA_UPDATE_FILE (some img.bytes)

theorem onlyUpdate_installPath (img : Image) (name : Bytes) : onlyUpdate img (installPath name) = none :=
  Function.update_of_ne (installPath_ne_update name) _ _

/-- A package that is removed, where nothing is thrown away: no files are listed, or all are stored. -/
theorem NoneThrownAway.stores {img : Image} {out : Decoded} (hnone : NoneThrownAway P img)
    (hrem : Removes P img) (hout : decode (fun _ => true) img = .ok out) :
    out.files = [] ∨ (decode P.alloc img = .ok out ∧ EveryFileStored P img out.files) := by
  by_cases hfiles : out.files = []
  · exact .inl hfiles
  have hd : onlyUpdate img LUA_UPDATE_FILE ≠ none := by simp [onlyUpdate]
  rcases hrem with hexit | ⟨out', hacc, hany⟩
  · exfalso
    have hparse : parsePass P img true .update {} (onlyUpdate img) = some ((LUADB_ERR_NONE, true), {},
        Function.update (onlyUpdate img) LUA_UPDATE_FILE none) := by
      rw [parsePass, hexit]
      rfl
    obtain ⟨f, hf⟩ := List.exists_mem_of_ne_nil _ hfiles
    obtain ⟨-, hall⟩ := hnone _ _ _ _ hd (finishes_of_parsePass hparse) (Function.update_self _ _ _)
    obtain ⟨c, -, hc⟩ := hall out hout f hf
    rw [Function.update_of_ne (installPath_ne_update _), onlyUpdate_installPath] at hc
    cases hc
  · obtain rfl := decode_alloc_unique hacc.1 hout
    obtain ⟨st, hpass⟩ := (accepts_iff (d := onlyUpdate img) hacc.1).1 hacc
    refine .inr ⟨hacc.1, fun f hf => ?_⟩
    have hparse : parsePass P img true .update {} (onlyUpdate img) = some ((LUADB_ERR_NONE, true), st.mem,
        Function.update st.disk LUA_UPDATE_FILE none) := by
      simp [parsePass, hacc.1, hpass, exitStep, pass_flags hpass, hany]
    obtain ⟨-, hall⟩ := hnone _ _ _ _ hd (finishes_of_parsePass hparse) (Function.update_self _ _ _)
    obtain ⟨c, hc, hdisk⟩ := hall out' hout f hf
    refine ⟨c, hc, ?_⟩
    rw [Function.update_of_ne (installPath_ne_update _), pass_lastContent hany hpass] at hdisk
    simpa only [onlyUpdate_installPath, Option.or_none] using hdisk

/-- **No accepted file is thrown away exactly if** a package that is removed lists no files, or there
is memory for its files and every one of them is what the last `.zip` entry for its path stores. -/
theorem noneThrownAway_iff {img : Image} : NoneThrownAway P img ↔ (Removes P img →
    ∀ out, decode (fun _ => true) img = .ok out →
      out.files = [] ∨ (decode P.alloc img = .ok out ∧ EveryFileStored P img out.files)) := by
  constructor
  · intro hnone hrem out hout
    exact NoneThrownAway.stores hnone hrem hout
  · intro hcond d d' r σ hd hfin hgone
    have hcase := updateCase_of_parsePass (parsePass_of_finishes hd hfin hgone)
    generalize hfinal : d' = final at hcase
    cases hcase with
    | rejected _ _ _ hkeep => exact absurd hgone (by rw [hfinal, hkeep]; exact hd)
    | noFiles hexit =>
      refine ⟨rfl, fun out hout f hf => ?_⟩
      rcases hcond (Or.inl hexit) out hout with hnil | ⟨hdec, -⟩
      · rw [hnil] at hf
        cases hf
      · rw [hexit] at hdec
        cases hdec
    | @removed out' st hdec hpass hany =>
      refine ⟨rfl, fun out hout f hf => ?_⟩
      obtain rfl := decode_alloc_unique hdec hout
      rcases hcond (Or.inr ⟨out', (accepts_iff hdec).2 ⟨_, hpass⟩, hany⟩) out' hout with
        hnil | ⟨-, hall⟩
      · rw [hnil] at hf
        cases hf
      · obtain ⟨c, hc, hlast⟩ := hall f hf
        refine ⟨c, hc, ?_⟩
        rw [Function.update_of_ne (installPath_ne_update _), pass_lastContent hany hpass,
          hlast]
        rfl
    | kept hdec hpass =>
      rw [hfinal, pass_keeps_update hdec hpass] at hgone
      exact absurd hgone hd

/-- An update with one file whose name is too short, `a`. -/
def shortNameImage : Image where
  bytes := encodeImage 0 [⟨ascii "a", [7]⟩]
  size_lt := by decide

/-- The file `a` is skipped, and the package removed. -/
theorem not_noneThrownAway_shortName :
    ¬ ∀ (P : Platform) (img : Image), NoneThrownAway P img := by
  intro h
  have hdec : decode (fun _ => true) shortNameImage =
      .ok ⟨layout 23 [⟨ascii "a", [7]⟩], shortNameImage.length⟩ := by decide
  have hparse : (parseLuadbData (samplePlatform shortNameImage) shortNameImage true .update {}).Finishes
      (device .all) (onlyUpdate shortNameImage) ((LUADB_ERR_NONE, true), {})
      (Function.update (onlyUpdate shortNameImage) LUA_UPDATE_FILE none) :=
    Prog.finishes_of_run (f := DevOp.handle) rfl fun o s => device_step_handle .all o s
  obtain ⟨-, hall⟩ := h _ _ (onlyUpdate shortNameImage) _ _ _ (by simp [onlyUpdate]) hparse
    (Function.update_self _ _ _)
  obtain ⟨c, -, hc⟩ := hall _ hdec _ List.mem_cons_self
  cases (show none = some c from hc)

end OsdCore
