import OsdCore.Boot.Settle

/-!
# Whether an update wins over the image in ROM

* `pass_keeps_present` : a write phase that is not forced leaves every file that is there.
* `pass_keeps_forced` : a forced one leaves a file whose entries in the image all have its contents.
* `update_precedence` : if the integrity flag is there, or the ROM image has nothing else for the
  update's paths, then in every settled boot the update's files read as the update has them.
-/

namespace OsdCore

open Stdio

variable {P : Platform} {img : Image} {d : Disk}

/-! ### Files that a write phase leaves -/

/-- A write phase that is not forced leaves every file that is there. -/
theorem pass_keeps_present {nSection : TableSection} {files : List DbFileInfo} {st st' : PassState}
    {err : ℤ} {p : Path} {c : Bytes} (h : pass P img false nSection files st = some (err, st'))
    (hp : st.disk p = some c) : st'.disk p = some c := by
  refine pass_invariant (I := fun s => s.disk p = some c) (fun f _ s s' e hI hcase => ?_) hp h
  rcases hcase.disk with hd | ⟨q, x, -, hex, hd⟩
  · rw [hd, hI]
  · rw [hd, Function.update_of_ne _, hI]
    rintro rfl
    exact hex.resolve_left (by decide) (Or.inr (Or.inr (by rw [hI]; rfl)))

/-- A forced write phase comes to this entry: those before it are installed. -/
def Reached (P : Platform) (img : Image) (files : List DbFileInfo) (g : DbFileInfo) : Prop :=
  ∃ before after, files = before ++ g :: after ∧
    ∀ e ∈ before, EntryInstalls P img (fun _ => False) e

/-- A forced entry for a path leaves a file there that has its contents. -/
theorem EntryCase.keeps {file : DbFileInfo} {st st' : PassState} {err : ℤ} {p : Path} {c : Bytes}
    (h : EntryCase P img true .flash file st err st') (hu : ¬ st.mem.InUpdate p)
    (hc : fwriteReport c.length = c.length)
    (hsame : FsPath file p → entryContent P img file = some c) (hp : st.disk p = some c) :
    st'.disk p = some c := by
  by_cases hfs : FsPath file p
  · cases h with
    | stored hq _ _ hc' =>
      obtain rfl := fsPath_unique hq hfs
      rw [hsame hfs] at hc'
      cases hc'
      exact Function.update_self _ _ _
    | failed hq _ _ _ hwhy =>
      obtain rfl := fsPath_unique hq hfs
      rcases hwhy c (hsame hfs) with hin | hrep
      · exact absurd hin hu
      · exact absurd hc hrep
    | skip => exact hp
    | table => exact hp
    | noItem => exact hp
    | kept => exact hp
    | hidden => exact hp
  · rcases h.disk with hd | ⟨q, x, hq, -, hd⟩
    · rw [hd, hp]
    · rw [hd, Function.update_of_ne (show p ≠ q from fun hpq => hfs (hpq ▸ hq)), hp]

/-- A forced write phase leaves a file if every entry for its path that it comes to has the same
contents, which can be written. -/
theorem pass_keeps_forced {files : List DbFileInfo} {st st' : PassState} {err : ℤ} {p : Path}
    {c : Bytes} (h : pass P img true .flash files st = some (err, st'))
    (hu : st.mem.pUpdateFileTable = []) (hc : fwriteReport c.length = c.length)
    (hsame : ∀ g, Reached P img files g → FsPath g p → entryContent P img g = some c)
    (hp : st.disk p = some c) : st'.disk p = some c := by
  induction files generalizing st with
  | nil => cases h; exact hp
  | cons file files ih =>
    have hempty : st.mem.InUpdate = fun _ => False := by
      funext q
      simp [StdioState.InUpdate, hu]
    have hkeep : ∀ {st₁ err₁}, EntryCase P img true .flash file st err₁ st₁ →
        st₁.disk p = some c := fun hcase =>
      hcase.keeps (by simp [hempty]) hc (hsame file ⟨[], files, rfl, by simp⟩) hp
    rcases pass_cons_iff.1 h with ⟨-, hst⟩ | ⟨st₁, hst, h⟩
    · exact hkeep (entryStep_cases hst)
    · have hcase := entryStep_cases hst
      have hinst := entryInstalls_iff.1 ⟨st₁, hst⟩
      rw [hempty] at hinst
      refine ih h ?_ (fun g hg => ?_) (hkeep hcase)
      · cases hcase <;> exact hu
      · obtain ⟨before, after, hfiles, hbefore⟩ := hg
        refine hsame g ⟨file :: before, after, by rw [hfiles]; rfl, ?_⟩
        exact List.forall_mem_cons.2 ⟨hinst, hbefore⟩

/-! ### The flag -/

/-- The flag, once written, is found again. -/
theorem flagMissing_written {d : Disk} : flagMissing P
    (Function.update d LUA_CHECK_INTEGRITY_FILE (some (toLe32 LUA_INTEGRITY_FLAG))) = false := by
  have htake : (toLe32 LUA_INTEGRITY_FLAG).take 4 = toLe32 LUA_INTEGRITY_FLAG := by decide
  have hover : overlay P 4 (toLe32 LUA_INTEGRITY_FLAG) = toLe32 LUA_INTEGRITY_FLAG := by
    rw [overlay, List.take_append_of_le_length (by decide), htake]
  rw [flagMissing, Function.update_self]
  dsimp only
  rw [htake, hover, le32_toLe32 (by decide)]
  decide

theorem flagMissing_congr {d d' : Disk}
    (h : d' LUA_CHECK_INTEGRITY_FILE = d LUA_CHECK_INTEGRITY_FILE) :
    flagMissing P d' = flagMissing P d := by
  rw [flagMissing, flagMissing, h]

/-! ### Boots after the update -/

/-- The files `G` are on the disk. -/
def Disk.Holds (d : Disk) (G : Path → Bytes → Prop) : Prop := ∀ p c, G p c → d p = some c

/-- The state between boots once the update is installed and gone: its files are there, and so is the
integrity flag. -/
structure Updated (P : Platform) (G : Path → Bytes → Prop) (d : Disk) : Prop where
  gone : d LUA_UPDATE_FILE = none
  flag : flagMissing P d = false
  holds : d.Holds G

/-- Without an update, a boot is its second part. -/
theorem bootStep_of_none (h : d LUA_UPDATE_FILE = none) : bootStep P d = romStep P none {} d := by
  rw [bootStep, updateStep, h]
  rfl

/-- A ROM image that is not forced leaves the disk's files. -/
theorem parsePass_keeps_present {σ : StdioState} {r : (ℤ × Bool) × StdioState × Disk} {p : Path}
    {c : Bytes} (h : parsePass P img false .flash σ d = some r) (hp : d p = some c) :
    r.2.2 p = some c := by
  rcases parsePass_eq_some_iff.1 h with ⟨out, err, st, -, hpass, rfl⟩ | ⟨err, -, rfl⟩ <;>
    rw [exitStep_flash]
  · exact pass_keeps_present hpass hp
  · exact hp

/-- The ROM image leaves the update's table alone. -/
theorem parsePass_flash_update {override : Bool} {σ : StdioState}
    {r : (ℤ × Bool) × StdioState × Disk} (h : parsePass P img override .flash σ d = some r) :
    r.2.1.pUpdateFileTable = σ.pUpdateFileTable := by
  rcases parsePass_eq_some_iff.1 h with ⟨out, err, st, -, hpass, rfl⟩ | ⟨err, -, rfl⟩ <;>
    rw [exitStep_flash]
  exact (pass_flash_update hpass).1

/-- A boot keeps what an update has installed. -/
theorem Updated.step {G : Path → Bytes → Prop} {r : BootResult} {σ : StdioState} {d' : Disk}
    (h : Updated P G d) (hboot : bootStep P d = some (r, σ, d')) :
    Updated P G d' ∧ σ.Lua ∧ σ.pUpdateFileTable = [] := by
  rw [bootStep_of_none h.gone] at hboot
  have hgone := (romStep_some hboot).2.2 (Or.inl rfl)
  simp only [romStep, rejects, Option.any_none, h.flag, Bool.or_self, Bool.false_eq_true, ↓reduceIte,
    Option.map_eq_some_iff] at hboot
  obtain ⟨⟨rom, σ', d₂⟩, hparse, heq⟩ := hboot
  cases heq
  refine ⟨⟨hgone.trans h.gone, ?_, fun p c hp => ?_⟩, StdioState.Lua.init.parsePass hparse,
    parsePass_flash_update hparse⟩
  · rw [← h.flag]
    exact flagMissing_congr (parsePass_frame hparse not_underLua_integrity (Or.inl rfl))
  · exact parsePass_keeps_present hparse (h.holds p c hp)

/-! ### The boot that installs the update -/

/-- The updates that take precedence: accepted, and all their entries are `.zip` files with names of 9 to
240 bytes and distinct paths. -/
structure UpdateDomain (P : Platform) (c : Bytes) (out : Decoded) : Prop where
  accepts : Accepts P (updateImage c) out
  length_name : ∀ f ∈ out.files, 9 ≤ f.name.length ∧ f.name.length ≤ 240
  zip : ∀ f ∈ out.files, isZip f.name
  distinct : out.files.Pairwise fun f g => installPath f.name ≠ installPath g.name

/-- What an update provides. -/
def Provides (P : Platform) (c : Bytes) (out : Decoded) (p : Path) (content : Bytes) : Prop :=
  ∃ f ∈ out.files, installPath f.name = p ∧ payload P (updateImage c) f = some content

/-- The ROM image has nothing else for the update's paths, as far as a forced write phase comes. -/
def NoConflict (P : Platform) (c : Bytes) (out : Decoded) : Prop :=
  ∀ rom, decode P.alloc P.rom = .ok rom → ∀ g, Reached P P.rom rom.files g →
    ∀ p content, Provides P c out p content → FsPath g p → entryContent P P.rom g = some content

namespace UpdateDomain

variable {c : Bytes} {out : Decoded}

theorem classified (h : UpdateDomain P c out) {f : DbFileInfo} (hf : f ∈ out.files) :
    f.Classified := by
  obtain ⟨h9, h240⟩ := h.length_name f hf
  exact classify_long (safeName_of_length h9 h240) (by omega) (by omega)

theorem not_staysInImage (h : UpdateDomain P c out) {f : DbFileInfo} (hf : f ∈ out.files) :
    ¬ staysInImage f := fun hstay => hstay.1 (h.zip f hf)

theorem fsPath (h : UpdateDomain P c out) {f : DbFileInfo} (hf : f ∈ out.files) :
    FsPath f (installPath f.name) := (h.classified hf).fsPath (h.not_staysInImage hf)

theorem any_nonZip (h : UpdateDomain P c out) : out.files.any nonZip = false := by
  rw [List.any_eq_false]
  intro f hf
  have hcl := h.classified hf
  rw [DbFileInfo.Classified, if_pos (h.zip f hf)] at hcl
  simp [nonZip, hcl]

theorem entryContent_eq (h : UpdateDomain P c out) {f : DbFileInfo} (hf : f ∈ out.files) :
    entryContent P (updateImage c) f = payload P (updateImage c) f :=
  (h.classified hf).entryContent_eq (h.not_staysInImage hf)

/-- An accepted update has its payloads, and they can be written. -/
theorem exists_payload (h : UpdateDomain P c out) {f : DbFileInfo} (hf : f ∈ out.files) :
    ∃ content, payload P (updateImage c) f = some content ∧
      fwriteReport content.length = content.length := by
  obtain ⟨tabled, hinst⟩ := h.accepts.2.entry hf
  have hcl := h.classified hf
  rw [DbFileInfo.Classified, if_pos (h.zip f hf)] at hcl
  cases hinst with
  | skip hcl' => rw [hcl] at hcl'; cases hcl'
  | table hq => rw [TablePath, hcl] at hq; cases hq
  | stored _ _ hc hrep => exact ⟨_, h.entryContent_eq hf ▸ hc, hrep⟩
  | hidden hcl' => rw [hcl] at hcl'; cases hcl'

theorem provides_eq (h : UpdateDomain P c out) {p : Path} {content : Bytes}
    (hp : Provides P c out p content) :
    UnderLua p ∧ lastContent P (updateImage c) p out.files = some content ∧
      fwriteReport content.length = content.length := by
  obtain ⟨f, hf, rfl, hc⟩ := hp
  refine ⟨underLua_installPath _, ?_, ?_⟩
  · refine lastContent_eq ⟨f, hf, h.fsPath hf⟩ fun g hg hfs => ?_
    have hgf : g = f := by
      by_contra hne
      have : Std.Symm fun f g : DbFileInfo => installPath f.name ≠ installPath g.name :=
        ⟨fun _ _ h => h.symm⟩
      exact List.Pairwise.forall h.distinct hg hf hne (fsPath_unique (h.fsPath hg) hfs)
    rw [hgf, h.entryContent_eq hf, hc]
  · obtain ⟨content', hc', hrep⟩ := h.exists_payload hf
    rw [hc] at hc'
    cases hc'
    exact hrep

/-- What the update pass does. -/
theorem updateStep_eq (h : UpdateDomain P c out) (hd : d LUA_UPDATE_FILE = some c)
    {u : Option (ℤ × Bool)} {σ : StdioState} {d₁ : Disk} (hu : updateStep P d = some (u, σ, d₁)) :
    u = some (LUADB_ERR_NONE, true) ∧ σ = {} ∧ d₁.Holds (Provides P c out) ∧
      d₁ LUA_UPDATE_FILE = none ∧
      d₁ LUA_CHECK_INTEGRITY_FILE = d LUA_CHECK_INTEGRITY_FILE := by
  obtain ⟨r, rfl, hcase⟩ := updateStep_some hd hu
  cases hcase with
  | rejected _ _ hno _ => exact absurd h.accepts (hno out)
  | noFiles hdec =>
    rw [h.accepts.1] at hdec
    cases hdec
  | removed hdec hpass _ =>
    have hout := h.accepts.1
    rw [hdec] at hout
    cases hout
    refine ⟨rfl, pass_zip_mem h.any_nonZip hpass, fun p content hp => ?_,
      Function.update_self _ _ _, ?_⟩
    · obtain ⟨hunder, hlast, -⟩ := h.provides_eq hp
      have hne : p ≠ LUA_UPDATE_FILE := by
        rintro rfl
        exact absurd hunder (by decide)
      rw [Function.update_of_ne hne, pass_lastContent h.any_nonZip hpass, hlast]
      rfl
    · rw [Function.update_of_ne (by decide)]
      exact (pass_frame hpass fun f hf hp =>
        not_underLua_integrity (underLua_entryPath hdec hf hp)).1
  | kept hdec _ hany =>
    have hout := h.accepts.1
    rw [hdec] at hout
    cases hout
    rw [h.any_nonZip] at hany
    cases hany

/-- The boot that installs the update asks for a restart, and leaves its files behind if the integrity
flag is there or the ROM image has nothing else for their paths. -/
theorem updated_of_boot (h : UpdateDomain P c out) (hd : d LUA_UPDATE_FILE = some c)
    (hcond : flagMissing P d = false ∨ NoConflict P c out) {r : BootResult} {σ : StdioState}
    {d' : Disk} (hboot : bootStep P d = some (r, σ, d')) :
    r.restart = true ∧ Updated P (Provides P c out) d' := by
  obtain ⟨u, σ₁, d₁, hu, hrom⟩ := bootStep_eq_some_iff.1 hboot
  obtain ⟨rfl, rfl, hholds, hgone, hflag⟩ := h.updateStep_eq hd hu
  have hgone' := (romStep_some hrom).2.2 (Or.inl rfl)
  have hmissing : flagMissing P d₁ = flagMissing P d := flagMissing_congr hflag
  have hrej : rejects (some (LUADB_ERR_NONE, true)) = false := rfl
  simp only [romStep, hrej, Bool.false_or, hmissing, Bool.false_eq_true, ↓reduceIte,
    Option.map_eq_some_iff] at hrom
  obtain ⟨⟨rom, σ', d₂⟩, hparse, heq⟩ := hrom
  have hkeep : d₂.Holds (Provides P c out) := fun p content hp => by
    cases hmiss : flagMissing P d with
    | false =>
      rw [hmiss] at hparse
      exact parsePass_keeps_present hparse (hholds p content hp)
    | true =>
      rw [hmiss] at hparse
      have hno := hcond.resolve_left (by simp [hmiss])
      rcases parsePass_eq_some_iff.1 hparse with ⟨rom, err, st, hdec, hpass, hexit⟩ |
        ⟨err, -, hexit⟩
      · rw [exitStep_flash] at hexit
        cases hexit
        exact pass_keeps_forced hpass rfl (h.provides_eq hp).2.2
          (fun g hg => hno rom hdec g hg p content hp) (hholds p content hp)
      · rw [exitStep_flash] at hexit
        cases hexit
        exact hholds p content hp
  cases heq
  refine ⟨by simp, hgone'.trans hgone, ?_, fun p content hp => ?_⟩
  · cases hmiss : flagMissing P d with
    | true => exact flagMissing_written
    | false =>
      have hframe := parsePass_frame hparse not_underLua_integrity (Or.inl rfl)
      simpa [hmissing, hmiss] using flagMissing_congr (P := P) hframe
  · have hne : p ≠ LUA_CHECK_INTEGRITY_FILE := by
      rintro rfl
      exact not_underLua_integrity (h.provides_eq hp).1
    dsimp only
    split_ifs
    · rw [Function.update_of_ne hne, hkeep p content hp]
    · exact hkeep p content hp

end UpdateDomain

/-- **Update precedence**: if the integrity flag is there when the update arrives, or the ROM image has
nothing else for its paths, then in every boot that asks for no restart, each path the update provides
is opened and read as the update has it. -/
theorem update_precedence {c : Bytes} {out : Decoded} (h : UpdateDomain P c out)
    (hd : d LUA_UPDATE_FILE = some c)
    (hcond : flagMissing P d = false ∨ NoConflict P c out) {n : ℕ} {d' d'' : Disk} {r : BootResult}
    {σ : StdioState} (hboots : boots P n d = some d')
    (hrun : MProg.run DevOp.handle (loadLuadb P) {} d' = some (r, σ, d''))
    (hsettled : r.restart = false) {f : DbFileInfo} (hf : f ∈ out.files) :
    ∃ content, payload P (updateImage c) f = some content ∧ ∀ k < 2 ^ 31,
      MProg.run DevOp.handle (openAndRead P (installPath f.name) k) σ d'' =
        some (some (fileView P (installPath f.name) content k), σ, d'') := by
  rw [run_loadLuadb] at hrun
  obtain ⟨content, hcontent, hrep⟩ := h.exists_payload hf
  have hp : Provides P c out (installPath f.name) content := ⟨f, hf, rfl, hcontent⟩
  refine ⟨content, hcontent, fun k hk => ?_⟩
  cases n with
  | zero =>
    cases hboots
    rw [(h.updated_of_boot hd hcond hrun).1] at hsettled
    cases hsettled
  | succ n =>
    rw [boots_succ] at hboots
    obtain ⟨⟨r₁, σ₁, d₁⟩, hboot, hboots⟩ := Option.bind_eq_some_iff.1 hboots
    have hupd := boots_invariant (fun _ _ _ _ hI hb => (Updated.step hI hb).1)
      (h.updated_of_boot hd hcond hboot).2 hboots
    obtain ⟨hupd', hlua, htable⟩ := hupd.step hrun
    refine run_openAndRead_file hlua.idle (underLua_installPath _).length ?_ (hupd'.holds _ _ hp)
      ((fwriteReport_eq_iff (length_payload h.accepts.1 hf hcontent)).1 hrep).2 hk
    rintro ⟨item, hmem, -⟩
    rw [htable] at hmem
    cases hmem

/-- A ROM image with one file to copy, `hi.txt`. -/
def hiRom : Image where
  bytes := encodeImage 0 [⟨ascii "hi.txt", [1, 2, 3]⟩]
  size_lt := by decide

/-- An update of it. -/
def hiUpdate : Bytes := encodeImage 0 [⟨ascii "hi.txt.zip", hiStream⟩]

def hiDecoded : Decoded := ⟨layout 23 [⟨ascii "hi.txt.zip", hiStream⟩], hiUpdate.length⟩

/-- The update on a disk that holds nothing else, or the integrity flag. -/
def hiDisk (flag : Bool) : Disk := fun p =>
  if p = LUA_UPDATE_FILE then some hiUpdate
  else if flag ∧ p = LUA_CHECK_INTEGRITY_FILE then some (toLe32 LUA_INTEGRITY_FLAG)
  else none

theorem hiUpdate_domain : UpdateDomain (samplePlatform hiRom) hiUpdate hiDecoded where
  accepts := (accepts_iff (d := fun _ => none) (by decide)).2 ⟨_, rfl⟩
  length_name := by decide
  zip := by decide
  distinct := by decide

/-- Without the flag, the ROM image is forced over the update. -/
theorem not_update_precedence_hi : ¬ ∀ (P : Platform) (c : Bytes) (out : Decoded) (d : Disk),
    UpdateDomain P c out → d LUA_UPDATE_FILE = some c →
    ∀ (n : ℕ) (d' d'' : Disk) (r : BootResult) (σ : StdioState), boots P n d = some d' →
      MProg.run DevOp.handle (loadLuadb P) {} d' = some (r, σ, d'') → r.restart = false →
      ∀ f ∈ out.files, ∃ content, payload P (updateImage c) f = some content ∧ ∀ k < 2 ^ 31,
        MProg.run DevOp.handle (openAndRead P (installPath f.name) k) σ d'' =
          some (some (fileView P (installPath f.name) content k), σ, d'') := by
  intro h
  obtain ⟨r₁, σ₁, d₁, r₂, σ₂, d₂, h1, h2, hr, hσ, hd⟩ : ∃ r₁ σ₁ d₁ r₂ σ₂ d₂,
      bootStep (samplePlatform hiRom) (hiDisk false) = some (r₁, σ₁, d₁) ∧
      bootStep (samplePlatform hiRom) d₁ = some (r₂, σ₂, d₂) ∧ r₂.restart = false ∧ σ₂ = {} ∧
      d₂ (ascii "/ldata/hi.txt") = some [1, 2, 3] :=
    ⟨_, _, _, _, _, _, rfl, rfl, rfl, rfl, rfl⟩
  subst hσ
  have hboots : boots (samplePlatform hiRom) 1 (hiDisk false) = some d₁ := by rw [boots_one, h1]; rfl
  obtain ⟨content, hcontent, hread⟩ := h _ _ _ _ hiUpdate_domain rfl 1 d₁ d₂ r₂ {} hboots
    (run_loadLuadb.trans h2) hr _ List.mem_cons_self
  have hhi : ∀ f ∈ hiDecoded.files,
      payload (samplePlatform hiRom) (updateImage hiUpdate) f = some (ascii "hi") := by decide
  cases (hhi _ List.mem_cons_self).symm.trans hcontent
  have hrom := run_openAndRead_file (P := samplePlatform hiRom) (n := 2) StdioState.idle_init
    (by decide) (by decide) hd (by decide) (by decide)
  cases hrom.symm.trans (hread 2 (by decide))

/-- With it, the update stays. -/
theorem update_precedence_hi : ∃ d' d'' r σ, boots (samplePlatform hiRom) 1 (hiDisk true) = some d' ∧
    MProg.run DevOp.handle (loadLuadb (samplePlatform hiRom)) {} d' = some (r, σ, d'') ∧
    ∀ f ∈ hiDecoded.files, ∃ content,
      payload (samplePlatform hiRom) (updateImage hiUpdate) f = some content ∧ ∀ k < 2 ^ 31,
      MProg.run DevOp.handle (openAndRead (samplePlatform hiRom) (installPath f.name) k) σ d'' =
        some (some (fileView (samplePlatform hiRom) (installPath f.name) content k), σ, d'') := by
  obtain ⟨r₁, σ₁, d₁, r₂, σ₂, d₂, h1, h2, hr⟩ : ∃ r₁ σ₁ d₁ r₂ σ₂ d₂,
      bootStep (samplePlatform hiRom) (hiDisk true) = some (r₁, σ₁, d₁) ∧
      bootStep (samplePlatform hiRom) d₁ = some (r₂, σ₂, d₂) ∧ r₂.restart = false :=
    ⟨_, _, _, _, _, _, rfl, rfl, rfl⟩
  have hboots : boots (samplePlatform hiRom) 1 (hiDisk true) = some d₁ := by rw [boots_one, h1]; rfl
  have hrun := run_loadLuadb.trans h2
  exact ⟨d₁, d₂, r₂, σ₂, hboots, hrun, fun f hf =>
    update_precedence hiUpdate_domain rfl (Or.inl (by decide)) hboots hrun hr hf⟩

end OsdCore
