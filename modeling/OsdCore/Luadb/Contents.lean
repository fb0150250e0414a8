import Mathlib.Data.List.Pairwise
import OsdCore.Luadb.Accept

/-!
# What a write phase leaves at each path

* `pass_frame` : the write phase changes only the paths of its entries.
* `pass_contents` : if the paths of an image are pairwise distinct, and the disk holds nothing else
  under them, a write phase that ends without an error leaves at each path the contents of its entry.
-/

namespace OsdCore

open Stdio

variable {P : Platform} {img : Image} {override : Bool} {nSection : TableSection}

/-- The path an entry goes to. -/
def entryPath (file : DbFileInfo) : Option Path := (classify file.name).bind Target.path?

theorem FsPath.entryPath {file : DbFileInfo} {p : Path} (h : FsPath file p) :
    entryPath file = some p := by
  rcases h with h | h <;> simp [OsdCore.entryPath, h, Target.path?]

theorem TablePath.entryPath {file : DbFileInfo} {p : Path} (h : TablePath file p) :
    entryPath file = some p := by
  unfold TablePath at h
  simp [OsdCore.entryPath, h, Target.path?]

/-- The first entry of the flash table for a path. -/
def StdioState.flashItem (σ : StdioState) (p : Path) : Option UncompressFileItem :=
  σ.pFlashFileTable.find? (·.pFile = p)

theorem StdioState.flashItem_add {σ : StdioState} {item : UncompressFileItem} {p : Path} :
    (σ.add item .flash).flashItem p = if item.pFile = p then some item else σ.flashItem p := by
  by_cases h : item.pFile = p <;> simp [flashItem, StdioState.add, h]

theorem StdioState.inFlash_iff {σ : StdioState} {p : Path} :
    σ.InFlash p ↔ (σ.flashItem p).isSome := by
  simp [InFlash, flashItem, List.find?_isSome]

/-- **Frame**: other paths keep their contents and their table entries. -/
theorem entry_frame {file : DbFileInfo} {st st' : PassState} {err : ℤ} {p : Path}
    (h : EntryCase P img override nSection file st err st') (hp : entryPath file ≠ some p) :
    st'.disk p = st.disk p ∧ st'.mem.flashItem p = st.mem.flashItem p ∧
      (st'.mem.InUpdate p ↔ st.mem.InUpdate p) := by
  have hfs : ∀ {q : Path} {x : Option Bytes}, FsPath file q →
      Function.update st.disk q x p = st.disk p := fun hq =>
    Function.update_of_ne (fun hpq => hp (by rw [hpq]; exact hq.entryPath)) _ _
  cases h with
  | skip => exact ⟨rfl, rfl, Iff.rfl⟩
  | @table q hq =>
    have hne : q ≠ p := fun hpq => hp (by rw [← hpq]; exact hq.entryPath)
    cases nSection with
    | update => simp [StdioState.add, StdioState.flashItem, StdioState.InUpdate, tableItem, hne]
    | flash =>
      simp only [StdioState.flashItem_add, tableItem, hne, ↓reduceIte, true_and]
      exact Iff.rfl
  | noItem => exact ⟨rfl, rfl, Iff.rfl⟩
  | kept => exact ⟨rfl, rfl, Iff.rfl⟩
  | stored hq => exact ⟨hfs hq, rfl, Iff.rfl⟩
  | hidden => exact ⟨rfl, rfl, Iff.rfl⟩
  | failed hq => exact ⟨hfs hq, rfl, Iff.rfl⟩

theorem pass_frame {files : List DbFileInfo} {st st' : PassState} {err : ℤ} {p : Path}
    (h : pass P img override nSection files st = some (err, st'))
    (hp : ∀ f ∈ files, entryPath f ≠ some p) :
    st'.disk p = st.disk p ∧ st'.mem.flashItem p = st.mem.flashItem p ∧
      (st'.mem.InUpdate p ↔ st.mem.InUpdate p) := by
  refine pass_invariant (I := fun s => s.disk p = st.disk p ∧
    s.mem.flashItem p = st.mem.flashItem p ∧ (s.mem.InUpdate p ↔ st.mem.InUpdate p))
    (fun f hf s s' e hI hcase => ?_) ⟨rfl, rfl, Iff.rfl⟩ h
  obtain ⟨h1, h2, h3⟩ := entry_frame hcase (hp f hf)
  exact ⟨h1.trans hI.1, h2.trans hI.2.1, h3.trans hI.2.2⟩

/-- An entry changes the disk at its own path at most, and only if it is extracted. -/
theorem EntryCase.disk {file : DbFileInfo} {st st' : PassState} {err : ℤ}
    (h : EntryCase P img override nSection file st err st') : st'.disk = st.disk ∨
      ∃ p x, FsPath file p ∧ Extracts override st.mem st.disk p ∧
        st'.disk = Function.update st.disk p x := by
  cases h with
  | stored hp hex => exact Or.inr ⟨_, _, hp, hex, rfl⟩
  | failed hp hex => exact Or.inr ⟨_, _, hp, hex, rfl⟩
  | skip => exact Or.inl rfl
  | table => exact Or.inl rfl
  | noItem => exact Or.inl rfl
  | kept => exact Or.inl rfl
  | hidden => exact Or.inl rfl

/-- A path that no entry is extracted to keeps its contents. -/
theorem pass_frame_disk {files : List DbFileInfo} {st st' : PassState} {err : ℤ} {p : Path}
    (h : pass P img override nSection files st = some (err, st'))
    (hp : ∀ f ∈ files, ¬ FsPath f p) : st'.disk p = st.disk p := by
  refine pass_invariant (I := fun s => s.disk p = st.disk p) (fun f hf s s' e hI hcase => ?_) rfl h
  rcases hcase.disk with hd | ⟨q, x, hq, -, hd⟩
  · rw [hd, hI]
  · rw [hd, Function.update_of_ne (show p ≠ q from fun hpq => hp f hf (hpq ▸ hq)), hI]

theorem exitStep_disk {err : ℤ} {st : PassState} {p : Path}
    (hp : nSection = .flash ∨ p ≠ LUA_UPDATE_FILE) : (exitStep nSection err st).2.2 p = st.disk p := by
  unfold exitStep
  split_ifs with hcond
  · refine Function.update_of_ne (hp.resolve_left fun hsec => ?_) _ _
    rw [hsec] at hcond
    exact absurd hcond.2.2 (by decide)
  · rfl

/-- Everything an accepted image installs is under the two directories. -/
theorem underLua_entryPath {out : Decoded} (h : decode P.alloc img = .ok out) {f : DbFileInfo}
    (hf : f ∈ out.files) {p : Path} (hp : entryPath f = some p) : UnderLua p := by
  obtain ⟨t, hcl, ht⟩ := Option.bind_eq_some_iff.1 hp
  exact classify_path (decode_fits h f hf).name_le hcl ht

/-- **Frame**: `parse_luadb_data` changes nothing outside the two directories, except that it removes
the update image. -/
theorem parsePass_frame {σ : StdioState} {d : Disk} {r : (ℤ × Bool) × StdioState × Disk} {p : Path}
    (h : parsePass P img override nSection σ d = some r) (hlua : ¬ UnderLua p)
    (hp : nSection = .flash ∨ p ≠ LUA_UPDATE_FILE) : r.2.2 p = d p := by
  rcases parsePass_eq_some_iff.1 h with ⟨out, err, st, hdec, hpass, rfl⟩ | ⟨err, -, rfl⟩
  · rw [exitStep_disk hp]
    exact (pass_frame hpass fun f hf hpath => hlua (underLua_entryPath hdec hf hpath)).1
  · exact exitStep_disk hp

/-- The image in ROM leaves the update's table alone. -/
theorem pass_flash_update {files : List DbFileInfo} {st st' : PassState} {err : ℤ}
    (h : pass P img override .flash files st = some (err, st')) :
    st'.mem.pUpdateFileTable = st.mem.pUpdateFileTable ∧ st'.mem.openFiles = st.mem.openFiles := by
  refine pass_invariant (I := fun s => s.mem.pUpdateFileTable = st.mem.pUpdateFileTable ∧
    s.mem.openFiles = st.mem.openFiles) (fun f _ s s' e hI hcase => ?_) ⟨rfl, rfl⟩ h
  cases hcase <;> exact hI

/-- The paths of an image are pairwise distinct. -/
def DistinctPaths (files : List DbFileInfo) : Prop :=
  files.Pairwise fun f g => ∀ p, entryPath f = some p → entryPath g ≠ some p

theorem DistinctPaths.unique {files : List DbFileInfo} (h : DistinctPaths files) {f g : DbFileInfo}
    {p : Path} (hf : f ∈ files) (hg : g ∈ files) (hfp : entryPath f = some p)
    (hgp : entryPath g = some p) : f = g := by
  by_contra hne
  have : Std.Symm fun f g : DbFileInfo => ∀ p, entryPath f = some p → entryPath g ≠ some p :=
    ⟨fun f g h p hg hf => h p hf hg⟩
  exact List.Pairwise.forall h hf hg hne p hfp hgp

/-- The file of an entry is complete on the disk. -/
def Complete (P : Platform) (img : Image) (file : DbFileInfo) (d : Disk) (p : Path) : Prop :=
  ∃ c, entryContent P img file = some c ∧ d p = some c ∧ fwriteReport c.length = c.length

/-- An entry has been installed: its file is complete, or its item is in the flash table. -/
def Installed (P : Platform) (img : Image) (file : DbFileInfo) (σ : StdioState) (d : Disk) : Prop :=
  (∀ p, FsPath file p → Complete P img file d p) ∧
    ∀ p, TablePath file p → allocItem P p = true ∧ σ.flashItem p = some (tableItem file p)

/-- The state an image can be installed on: the tables do not know its paths, and, unless the files
are forced, the disk holds under them what the image does, or nothing. -/
structure Ready (P : Platform) (img : Image) (override : Bool) (files : List DbFileInfo)
    (st : PassState) : Prop where
  update : st.mem.pUpdateFileTable = []
  flash : ∀ f ∈ files, ∀ p, entryPath f = some p → st.mem.flashItem p = none
  disk : override = false → ∀ f ∈ files, ∀ p, FsPath f p →
    st.disk p = none ∨ Complete P img f st.disk p

theorem Ready.not_inUpdate {files : List DbFileInfo} {st : PassState} {p : Path}
    (h : Ready P img override files st) : ¬ st.mem.InUpdate p := by
  rintro ⟨item, hmem, -⟩
  rw [h.update] at hmem
  cases hmem

/-- One entry that succeeds is installed. -/
theorem entry_installed {file : DbFileInfo} {files : List DbFileInfo} {st st' : PassState} {err : ℤ}
    (h : EntryCase P img override .flash file st err st') (herr : err = LUADB_ERR_NONE)
    (hready : Ready P img override (file :: files) st) : Installed P img file st'.mem st'.disk := by
  have hmem : file ∈ file :: files := List.mem_cons_self
  cases h with
  | skip hcl =>
    refine ⟨?_, ?_⟩
    · intro p hp
      rcases hp with hp | hp <;> rw [hcl] at hp <;> cases hp
    · intro p hp
      unfold TablePath at hp
      rw [hcl] at hp
      cases hp
  | @table q hq halloc =>
    refine ⟨fun p hp => absurd hp hq.not_fsPath, fun p hp => ?_⟩
    have hpq : q = p := by
      unfold TablePath at hp hq
      rw [hp] at hq
      cases hq
      rfl
    subst hpq
    exact ⟨halloc, by simp [StdioState.flashItem_add, tableItem]⟩
  | noItem => exact absurd herr (by decide)
  | @kept q del hq hex =>
    refine ⟨fun p hp => ?_, fun p hp => absurd hq hp.not_fsPath⟩
    obtain rfl := fsPath_unique hq hp
    cases override with
    | true => exact absurd (Or.inl rfl) hex
    | false =>
      refine (hready.disk rfl file hmem q hq).resolve_left fun hnone => hex (Or.inr ?_)
      rintro (hu | hfl | hd)
      · exact hready.not_inUpdate hu
      · rw [StdioState.inFlash_iff, hready.flash file hmem q hq.entryPath] at hfl
        cases hfl
      · rw [hnone] at hd
        cases hd
  | @stored q del c hq _ _ hc hrep =>
    refine ⟨fun p hp => ?_, fun p hp => absurd hq hp.not_fsPath⟩
    obtain rfl := fsPath_unique hq hp
    exact ⟨c, hc, Function.update_self _ _ _, hrep⟩
  | hidden _ _ hu => exact absurd hu hready.not_inUpdate
  | failed _ _ hne => exact absurd herr hne

/-- An entry leaves the state ready for the entries after it. -/
theorem Ready.tail {file : DbFileInfo} {files : List DbFileInfo} {st st' : PassState} {err : ℤ}
    (hready : Ready P img override (file :: files) st)
    (h : EntryCase P img override .flash file st err st')
    (hdist : ∀ g ∈ files, ∀ p, entryPath file = some p → entryPath g ≠ some p) :
    Ready P img override files st' := by
  have hframe : ∀ g ∈ files, ∀ p, entryPath g = some p → entryPath file ≠ some p :=
    fun g hg p hp hp' => hdist g hg p hp' hp
  refine ⟨?_, ?_, ?_⟩
  · have hupd := hready.update
    cases h <;> exact hupd
  · intro g hg p hp
    rw [(entry_frame h (hframe g hg p hp)).2.1]
    exact hready.flash g (List.mem_cons_of_mem _ hg) p hp
  · intro hover g hg p hp
    unfold Complete
    rw [(entry_frame h (hframe g hg p hp.entryPath)).1]
    exact hready.disk hover g (List.mem_cons_of_mem _ hg) p hp

/-- **What a successful write phase leaves**: every entry of an image with distinct paths is
installed. -/
theorem pass_contents {files : List DbFileInfo} {st st' : PassState}
    (hdist : DistinctPaths files) (hready : Ready P img override files st)
    (h : pass P img override .flash files st = some (LUADB_ERR_NONE, st')) :
    ∀ f ∈ files, Installed P img f st'.mem st'.disk := by
  induction files generalizing st with
  | nil => simp
  | cons file files ih =>
    obtain ⟨hhead, htail⟩ := List.pairwise_cons.1 hdist
    rcases pass_cons_iff.1 h with ⟨hne, -⟩ | ⟨st₁, hst, hrest⟩
    · exact absurd rfl hne
    · have hcase := entryStep_cases hst
      intro f hf
      rcases List.mem_cons.1 hf with rfl | hf
      · obtain ⟨hfs, htab⟩ := entry_installed hcase rfl hready
        refine ⟨?_, ?_⟩
        · intro p hp
          obtain ⟨hd, -, -⟩ := pass_frame hrest fun g hg => hhead g hg p hp.entryPath
          unfold Complete
          rw [hd]
          exact hfs p hp
        · intro p hp
          obtain ⟨-, hfl, -⟩ := pass_frame hrest fun g hg => hhead g hg p hp.entryPath
          rw [hfl]
          exact htab p hp
      · exact ih htail (hready.tail hcase hhead) hrest f hf

/-- On a state that is ready for it, an entry that can be installed succeeds. -/
theorem Ready.entryStep {file : DbFileInfo} {files : List DbFileInfo} {st : PassState}
    (hready : Ready P img override files st) (h : EntryInstalls P img (fun _ => False) file) :
    ∃ st', entryStep P img override .flash file st = some (LUADB_ERR_NONE, st') := by
  cases h with
  | skip hcl => exact ⟨_, entryStep_of_case (.skip hcl) rfl⟩
  | table hp halloc => exact ⟨_, entryStep_of_case (.table hp halloc) rfl⟩
  | @stored p c hp _ hc hrep =>
    by_cases hex : Extracts override st.mem st.disk p
    · exact ⟨_, entryStep_of_case (.stored hp hex hready.not_inUpdate hc hrep rfl) rfl⟩
    · exact ⟨_, entryStep_of_case (.kept hp hex rfl) rfl⟩
  | hidden _ hu => exact hu.elim

/-- **On a state that is ready for it, an image that can be installed is installed.** -/
theorem pass_of_ready {files : List DbFileInfo} {st : PassState} (hdist : DistinctPaths files)
    (hready : Ready P img override files st)
    (h : ∀ f ∈ files, EntryInstalls P img (fun _ => False) f) :
    ∃ st', pass P img override .flash files st = some (LUADB_ERR_NONE, st') := by
  induction files generalizing st with
  | nil => exact ⟨st, rfl⟩
  | cons file files ih =>
    obtain ⟨hhead, htail⟩ := List.pairwise_cons.1 hdist
    rw [List.forall_mem_cons] at h
    obtain ⟨st₁, hst⟩ := hready.entryStep h.1
    obtain ⟨st', hrest⟩ := ih htail (hready.tail (entryStep_cases hst) hhead) h.2
    exact ⟨st', pass_cons_iff.2 (Or.inr ⟨st₁, hst, hrest⟩)⟩

/-- The table items of an image. -/
def tableItems (files : List DbFileInfo) : List UncompressFileItem :=
  files.filterMap fun file => match classify file.name with
    | some (.table p) => some (tableItem file p)
    | _ => none

/-- What a successful write phase leaves in the tables depends on the image only. -/
theorem pass_mem {files : List DbFileInfo} {st st' : PassState}
    (h : pass P img override .flash files st = some (LUADB_ERR_NONE, st')) : st'.mem =
      { st.mem with pFlashFileTable := (tableItems files).reverse ++ st.mem.pFlashFileTable } := by
  induction files generalizing st with
  | nil => cases h; rfl
  | cons file files ih =>
    rcases pass_cons_iff.1 h with ⟨hne, -⟩ | ⟨st₁, hst, h⟩
    · exact absurd rfl hne
    have hfs : ∀ {p}, FsPath file p → tableItems (file :: files) = tableItems files := fun hp => by
      rcases hp with hp | hp <;> simp [tableItems, hp]
    rw [ih h]
    have hcase := entryStep_cases hst
    generalize herr : LUADB_ERR_NONE = err at hcase
    cases hcase with
    | skip hcl => simp [tableItems, hcl]
    | table hp =>
      unfold TablePath at hp
      simp [tableItems, hp, StdioState.add]
    | noItem => exact absurd herr (by decide)
    | kept hp => rw [hfs hp]
    | stored hp => rw [hfs hp]
    | hidden hcl => rw [hfs (Or.inr hcl)]
    | failed _ _ hne => exact absurd herr.symm hne

end OsdCore
