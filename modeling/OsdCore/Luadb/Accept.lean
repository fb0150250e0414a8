import OsdCore.Luadb.Pass

/-!
# Which images a forced write phase installs

Under `override` the write phase does not look at the disk, and whether it installs an image depends
on the image and on the update's table alone: `Installs`.

* `pass_none_iff` : a forced write phase ends without an error exactly when the image `Installs`.
* `pass_flags` : the two flags it then ends with.
-/

namespace OsdCore

open Stdio

variable {P : Platform} {img : Image} {nSection : TableSection}

/-! ### One entry -/

theorem fsPath_unique {file : DbFileInfo} {p q : Path} (hp : FsPath file p) (hq : FsPath file q) :
    p = q := by
  unfold FsPath at hp hq
  rcases hp with hp | hp <;> rcases hq with hq | hq <;> rw [hp] at hq <;> cases hq <;> rfl

theorem TablePath.not_fsPath {file : DbFileInfo} {p q : Path} (hp : TablePath file p) :
    ¬ FsPath file q := by
  unfold TablePath at hp
  rintro (hq | hq) <;> rw [hp] at hq <;> cases hq

/-- An entry that succeeds does one of the things `EntryCase` lists. -/
theorem entryStep_of_case {override : Bool} {file : DbFileInfo} {st st' : PassState} {err : ℤ}
    (h : EntryCase P img override nSection file st err st') (herr : err = LUADB_ERR_NONE) :
    entryStep P img override nSection file st = some (err, st') := by
  unfold entryStep
  cases h with
  | skip hcl => rw [hcl]; rfl
  | table hcl halloc =>
    unfold TablePath at hcl
    unfold allocItem at halloc
    simp [hcl, targetStep, halloc, tableItem]
  | noItem => exact absurd herr (by decide)
  | kept hfs hex hdel =>
    rcases hfs with hcl | hcl <;> simp [hcl, targetStep, hex, hdel, nonZip]
  | @stored p del c hfs hex hu hc hrep hdel =>
    rcases hfs with hcl | hcl
    · simp only [entryContent, hcl] at hc
      cases hlz : lzmaDecode P (img.bytes.drop file.data) file.length with
      | none => simp [hlz] at hc
      | some r =>
        cases r with
        | error e => simp [hlz] at hc
        | ok c' =>
          simp only [hlz, Option.some.injEq] at hc
          subst hc
          simp [hcl, targetStep, hex, hlz, storeStep, hu, hrep, hdel, nonZip]
    · simp only [entryContent, hcl, memcpyFrom, slice] at hc
      split_ifs at hc with hle
      cases hc
      simp only [Int.toNat_zero, List.drop_zero, List.length_take] at hrep ⊢
      have hle' : file.length ≤ (img.bytes.drop file.data).length := by omega
      rw [List.length_drop] at hle'
      rw [List.length_drop, Nat.min_eq_left hle'] at hrep
      simp [hcl, targetStep, hex, storeStep, hu, hle', hrep, hdel, nonZip]
  | hidden hcl hex hu hlen => simp [hcl, targetStep, hex, storeStep, hu, hlen]
  | failed _ _ hne => exact absurd herr hne

/-- An entry a forced write phase installs, if `tabled` are the paths of the update's table. -/
inductive EntryInstalls (P : Platform) (img : Image) (tabled : Path → Prop) (file : DbFileInfo) :
    Prop
  | skip : classify file.name = some .skip → EntryInstalls P img tabled file
  | table {p : Path} : TablePath file p → allocItem P p = true → EntryInstalls P img tabled file
  | stored {p : Path} {c : Bytes} : FsPath file p → ¬ tabled p → entryContent P img file = some c →
      fwriteReport c.length = c.length → EntryInstalls P img tabled file
  | hidden {p : Path} : classify file.name = some (.plain p) → tabled p → file.length = sizeEOF →
      EntryInstalls P img tabled file

theorem entryInstalls_iff {file : DbFileInfo} {st : PassState} :
    (∃ st', entryStep P img true nSection file st = some (LUADB_ERR_NONE, st')) ↔
      EntryInstalls P img st.mem.InUpdate file := by
  have hex : ∀ p, Extracts true st.mem st.disk p := fun p => Or.inl rfl
  constructor
  · rintro ⟨st', h⟩
    have hcase := entryStep_cases h
    generalize herr : LUADB_ERR_NONE = err at hcase
    cases hcase with
    | skip hcl => exact .skip hcl
    | table hcl halloc => exact .table hcl halloc
    | noItem => exact absurd herr (by decide)
    | kept _ hno => exact absurd (hex _) hno
    | stored hfs _ hu hc hrep => exact .stored hfs hu hc hrep
    | hidden hcl _ hu hlen => exact .hidden hcl hu hlen
    | failed _ _ hne => exact absurd herr.symm hne
  · intro h
    cases h with
    | skip hcl => exact ⟨_, entryStep_of_case (.skip hcl) rfl⟩
    | table hcl halloc => exact ⟨_, entryStep_of_case (.table hcl halloc) rfl⟩
    | stored hfs hu hc hrep => exact ⟨_, entryStep_of_case (.stored hfs (hex _) hu hc hrep rfl) rfl⟩
    | hidden hcl hu hlen => exact ⟨_, entryStep_of_case (.hidden hcl (hex _) hu hlen) rfl⟩

/-- An entry that can be installed has defined behaviour whatever the update's table lists. -/
theorem EntryInstalls.isSome {file : DbFileInfo}
    (h : EntryInstalls P img (fun _ => False) file) (st : PassState) :
    ∃ r, entryStep P img true nSection file st = some r := by
  have hstore : ∀ {p : Path} {buf : Bytes} {n : ℕ}, n ≤ buf.length →
      ∃ r, storeStep st.mem st.disk p buf n = some r := fun {p buf n} hn => by
    unfold storeStep
    split_ifs <;> exact ⟨_, rfl⟩
  cases h with
  | skip hcl => exact ⟨_, entryStep_of_case (.skip hcl) rfl⟩
  | table hp halloc => exact ⟨_, entryStep_of_case (.table hp halloc) rfl⟩
  | @stored p c hp _ hc =>
    unfold entryStep
    rcases hp with hcl | hcl
    · simp only [entryContent, hcl] at hc
      cases hlz : lzmaDecode P (img.bytes.drop file.data) file.length with
      | none => simp [hlz] at hc
      | some r =>
        cases r with
        | error e => simp [hlz] at hc
        | ok c' =>
          obtain ⟨r, hr⟩ := hstore (p := p) (le_refl c'.length)
          simp [hcl, targetStep, Extracts, hlz, hr]
    · simp only [entryContent, hcl, memcpyFrom] at hc
      split_ifs at hc with hin
      obtain ⟨r, hr⟩ := hstore (p := p) (show file.length ≤ (img.bytes.drop file.data).length by omega)
      simp [hcl, targetStep, Extracts, hr]
  | hidden _ hu => exact hu.elim

/-! ### The whole image -/

/-- The paths of the update's table after an entry. -/
def addTabled (nSection : TableSection) (tabled : Path → Prop) (file : DbFileInfo) : Path → Prop :=
  fun p => tabled p ∨ (nSection = .update ∧ TablePath file p)

/-- The image in ROM adds nothing to them. -/
@[simp] theorem addTabled_flash {tabled : Path → Prop} {file : DbFileInfo} :
    addTabled .flash tabled file = tabled := by
  funext p
  simp [addTabled]

/-- **The images a forced write phase installs.** -/
def Installs (P : Platform) (img : Image) (nSection : TableSection) :
    (Path → Prop) → List DbFileInfo → Prop
  | _, [] => True
  | tabled, file :: files =>
    EntryInstalls P img tabled file ∧ Installs P img nSection (addTabled nSection tabled file) files

/-- The paths of the update's table, after an entry that succeeds. -/
theorem inUpdate_of_case {override : Bool} {file : DbFileInfo} {st st' : PassState} {err : ℤ}
    (h : EntryCase P img override nSection file st err st') (herr : err = LUADB_ERR_NONE) :
    st'.mem.InUpdate = addTabled nSection st.mem.InUpdate file := by
  have hfs : ∀ {p : Path}, FsPath file p →
      st.mem.InUpdate = addTabled nSection st.mem.InUpdate file := fun hp => by
    funext q
    exact propext ⟨Or.inl, fun hq => hq.resolve_right fun ht => ht.2.not_fsPath hp⟩
  cases h with
  | skip hcl =>
    funext q
    refine propext ⟨Or.inl, fun hq => hq.resolve_right fun ht => ?_⟩
    have := ht.2
    unfold TablePath at this
    rw [hcl] at this
    cases this
  | @table p hcl =>
    funext q
    have hpath : TablePath file q ↔ p = q := by
      unfold TablePath at hcl ⊢
      rw [hcl]
      simp
    unfold addTabled
    rw [hpath]
    cases nSection <;> simp [StdioState.add, StdioState.InUpdate, tableItem, or_comm]
  | noItem => exact absurd herr (by decide)
  | kept hp => exact hfs hp
  | stored hp => exact hfs hp
  | hidden hcl => exact hfs (Or.inr hcl)
  | failed _ _ hne => exact absurd herr hne

/-- **A forced write phase ends without an error exactly when the image installs.** -/
theorem pass_none_iff {files : List DbFileInfo} {st : PassState} :
    (∃ st', pass P img true nSection files st = some (LUADB_ERR_NONE, st')) ↔
      Installs P img nSection st.mem.InUpdate files := by
  induction files generalizing st with
  | nil => exact ⟨fun _ => trivial, fun _ => ⟨st, rfl⟩⟩
  | cons file files ih =>
    unfold Installs
    rw [← @entryInstalls_iff P img nSection file st]
    constructor
    · rintro ⟨st', h⟩
      rcases pass_cons_iff.1 h with ⟨hne, -⟩ | ⟨st₁, hst, h⟩
      · exact absurd rfl hne
      · rw [← inUpdate_of_case (entryStep_cases hst) rfl]
        exact ⟨⟨st₁, hst⟩, ih.1 ⟨st', h⟩⟩
    · rintro ⟨⟨st₁, hst⟩, h⟩
      rw [← inUpdate_of_case (entryStep_cases hst) rfl] at h
      obtain ⟨st', h⟩ := ih.2 h
      exact ⟨st', pass_cons_iff.2 (Or.inr ⟨st₁, hst, h⟩)⟩

/-- A forced write phase over entries that can be installed has defined behaviour, whatever the
update's table lists. -/
theorem pass_isSome {files : List DbFileInfo}
    (h : ∀ f ∈ files, EntryInstalls P img (fun _ => False) f) (st : PassState) :
    ∃ r, pass P img true nSection files st = some r := by
  induction files generalizing st with
  | nil => exact ⟨_, rfl⟩
  | cons file files ih =>
    rw [List.forall_mem_cons] at h
    obtain ⟨⟨err, st₁⟩, hst⟩ := @EntryInstalls.isSome P img nSection file h.1 st
    rw [pass, hst, Option.bind_some]
    split_ifs
    · exact ⟨_, rfl⟩
    · exact ih h.2 st₁

/-- Every file of an image that is installed is installed. -/
theorem Installs.entry {tabled : Path → Prop} {files : List DbFileInfo}
    (h : Installs P img nSection tabled files) {f : DbFileInfo} (hf : f ∈ files) :
    ∃ tabled, EntryInstalls P img tabled f := by
  induction files generalizing tabled with
  | nil => cases hf
  | cons file files ih =>
    rcases List.mem_cons.1 hf with rfl | hf
    · exact ⟨tabled, h.1⟩
    · exact ih h.2 hf

/-- For the image in ROM, every file is installed by itself. -/
theorem installs_flash_iff {tabled : Path → Prop} {files : List DbFileInfo} :
    Installs P img .flash tabled files ↔ ∀ f ∈ files, EntryInstalls P img tabled f := by
  induction files with
  | nil => simp [Installs]
  | cons file files ih => simp only [Installs, addTabled_flash, ih, List.forall_mem_cons]

/-- The entry is extracted to a file. -/
def isFs (file : DbFileInfo) : Bool :=
  match classify file.name with
  | some (.zip _) => true
  | some (.plain _) => true
  | _ => false

theorem isFs_of_fsPath {file : DbFileInfo} {p : Path} (h : FsPath file p) : isFs file = true := by
  rcases h with h | h <;> simp [isFs, h]

theorem flags_of_case {file : DbFileInfo} {st st' : PassState} {err : ℤ}
    (h : EntryCase P img true nSection file st err st') (herr : err = LUADB_ERR_NONE) :
    st'.flags = ⟨st.flags.delupdpack && !nonZip file, st.flags.wrFile || isFs file⟩ := by
  cases h with
  | skip hcl => simp [nonZip, isFs, hcl]
  | table hcl =>
    unfold TablePath at hcl
    simp [nonZip, isFs, hcl]
  | noItem => exact absurd herr (by decide)
  | kept _ hno => exact absurd (Or.inl rfl) hno
  | stored hfs _ _ _ _ hdel => simp [isFs_of_fsPath hfs, hdel]
  | hidden hcl => simp [nonZip, isFs, hcl]
  | failed _ _ hne => exact absurd herr hne

/-- **The flags after a forced write phase**: the package is to be deleted if nothing but `.zip` files
was seen, and something was written if some file was extracted. -/
theorem pass_flags {files : List DbFileInfo} {st st' : PassState}
    (h : pass P img true nSection files st = some (LUADB_ERR_NONE, st')) :
    st'.flags = ⟨st.flags.delupdpack && !files.any nonZip, st.flags.wrFile || files.any isFs⟩ := by
  induction files generalizing st with
  | nil => cases h; simp
  | cons file files ih =>
    rcases pass_cons_iff.1 h with ⟨hne, -⟩ | ⟨st₁, hst, h⟩
    · exact absurd rfl hne
    · rw [ih h, flags_of_case (entryStep_cases hst) rfl]
      simp [Bool.and_assoc, Bool.or_assoc]

end OsdCore
