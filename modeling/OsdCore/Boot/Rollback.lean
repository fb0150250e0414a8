import OsdCore.Boot.Precedence

/-!
# What is left of a rejected update

The boot that rejects an update removes everything and extracts the ROM image by force.  The update's
table may hide some of the ROM image's paths from it; the next boot has no such table, and extracts
what is missing.

* `OnlyRom` : under the two directories, and in `/luazip`, there are only complete files of the ROM
  image.  The ROM image keeps this, forced or not.
* `rollback` : in every boot that asks for no restart, the file system and the tables are those of a
  fresh install.
-/

namespace OsdCore

open Stdio

variable {P : Platform} {rom : Decoded} {d : Disk}

/-! ### Nothing but the ROM image's files -/

/-- In the directories that are removed, the disk holds only complete files of the ROM image. -/
def OnlyRom (P : Platform) (rom : Decoded) (d : Disk) : Prop :=
  ∀ p, Wiped p → d p = none ∨ ∃ f ∈ rom.files, FsPath f p ∧ Complete P P.rom f d p

namespace OnlyRom

theorem empty : OnlyRom P rom fun _ => none := fun _ _ => Or.inl rfl

theorem wipe : OnlyRom P rom d.wipe := fun _ hp => Or.inl (if_pos hp)

theorem update (h : OnlyRom P rom d) {q : Path} {x : Option Bytes}
    (hx : Wiped q → x = d q ∨ x = none ∨ ∃ f ∈ rom.files, FsPath f q ∧
      ∃ c, entryContent P P.rom f = some c ∧ x = some c ∧ fwriteReport c.length = c.length) :
    OnlyRom P rom (Function.update d q x) := by
  intro p hp
  unfold Complete
  by_cases hpq : p = q
  · subst hpq
    rw [Function.update_self]
    rcases hx hp with hx | hx | ⟨f, hf, hfs, c, hc, hx, hrep⟩
    · rw [hx]
      exact h p hp
    · exact Or.inl hx
    · exact Or.inr ⟨f, hf, hfs, c, hc, hx, hrep⟩
  · rw [Function.update_of_ne hpq]
    exact h p hp

theorem entry {override : Bool} {nSection : TableSection} {f : DbFileInfo} {st st' : PassState}
    {err : ℤ} (h : OnlyRom P rom st.disk) (hf : f ∈ rom.files)
    (hcase : EntryCase P P.rom override nSection f st err st') : OnlyRom P rom st'.disk := by
  cases hcase with
  | stored hp _ _ hc hrep => exact h.update fun _ => Or.inr (Or.inr ⟨f, hf, hp, _, hc, rfl, hrep⟩)
  | failed _ _ _ hx => exact h.update fun _ => hx.imp id Or.inl
  | skip => exact h
  | table => exact h
  | noItem => exact h
  | kept => exact h
  | hidden => exact h

theorem parsePass {override : Bool} {σ : StdioState} {r : (ℤ × Bool) × StdioState × Disk}
    (hdec : decode P.alloc P.rom = .ok rom) (h : OnlyRom P rom d)
    (hr : parsePass P P.rom override .flash σ d = some r) : OnlyRom P rom r.2.2 := by
  rw [parsePass_flash hdec, Option.map_eq_some_iff] at hr
  obtain ⟨⟨err, st⟩, hpass, rfl⟩ := hr
  exact pass_invariant (I := fun st => OnlyRom P rom st.disk)
    (fun f hf st st' err hI hcase => hI.entry hf hcase) h hpass

/-- The update image is not among them. -/
theorem gone (hdec : decode P.alloc P.rom = .ok rom) (h : OnlyRom P rom d) :
    d LUA_UPDATE_FILE = none := by
  refine (h _ (by decide)).resolve_right ?_
  rintro ⟨f, hf, hp, -⟩
  exact absurd (underLua_entryPath hdec hf hp.entryPath) (by decide)

/-- The ROM image can be installed on such a disk, forced or not. -/
theorem ready (hdec : decode P.alloc P.rom = .ok rom) (hdist : DistinctPaths rom.files)
    (h : OnlyRom P rom d) (override : Bool) :
    Ready P P.rom override rom.files ⟨{}, d, {}⟩ where
  update := rfl
  flash _ _ _ _ := rfl
  disk _ f hf p hp := by
    refine (h p (Or.inl (underLua_entryPath hdec hf hp.entryPath))).imp id ?_
    rintro ⟨g, hg, hgp, hcomplete⟩
    rwa [hdist.unique hf hg hp.entryPath hgp.entryPath]

/-- Two such disks with all files of the ROM image agree. -/
theorem eq_of_installed {d₁ d₂ : Disk} {σ₁ σ₂ : StdioState} (h₁ : OnlyRom P rom d₁)
    (h₂ : OnlyRom P rom d₂) (hinst₁ : ∀ f ∈ rom.files, Installed P P.rom f σ₁ d₁)
    (hinst₂ : ∀ f ∈ rom.files, Installed P P.rom f σ₂ d₂) {p : Path} (hp : Wiped p) :
    d₁ p = d₂ p := by
  by_cases hex : ∃ f ∈ rom.files, FsPath f p
  · obtain ⟨f, hf, hfs⟩ := hex
    obtain ⟨c₁, hc₁, hd₁, -⟩ := (hinst₁ f hf).1 p hfs
    obtain ⟨c₂, hc₂, hd₂, -⟩ := (hinst₂ f hf).1 p hfs
    cases hc₁.symm.trans hc₂
    rw [hd₁, hd₂]
  · have hno : ∀ {d : Disk}, OnlyRom P rom d → d p = none := fun h =>
      (h p hp).resolve_right fun ⟨f, hf, hfs, _⟩ => hex ⟨f, hf, hfs⟩
    rw [hno h₁, hno h₂]

end OnlyRom

/-! ### The boots after the update was rejected -/

/-- The state between boots once a rejected update is removed. -/
structure RolledBack (P : Platform) (rom : Decoded) (d : Disk) : Prop where
  onlyRom : OnlyRom P rom d
  flag : flagMissing P d = false

/-- A ROM image that installs without error on an empty file system, with distinct paths. -/
structure FreshInstall (P : Platform) (rom : Decoded) (σ₀ : StdioState) (d₀ : Disk) : Prop where
  decode_rom : decode P.alloc P.rom = .ok rom
  distinct : DistinctPaths rom.files
  run : ∃ restart, MProg.run DevOp.handle (parseLuadbData P P.rom true .flash) {} (fun _ => none) =
    some ((LUADB_ERR_NONE, restart), σ₀, d₀)

/-- A file of the ROM image opens, and reads as the image has it.  A file that stays in the image has
to lie in its first 2 GiB. -/
def ReadsRom (P : Platform) (σ : StdioState) (d : Disk) (f : DbFileInfo) : Prop :=
  (¬ staysInImage f → ∃ c, payload P P.rom f = some c) ∧
    ∀ c, payload P P.rom f = some c →
      (staysInImage f → c.length < 2 ^ 31 ∧ (c ≠ [] → f.offset < 2 ^ 31)) →
      ∀ k < 2 ^ 31, MProg.run DevOp.handle (openAndRead P (installPath f.name) k) σ d =
        some (some (fileView P (installPath f.name) c k), σ, d)

namespace FreshInstall

variable {σ₀ : StdioState} {d₀ : Disk}

theorem pass (h : FreshInstall P rom σ₀ d₀) : ∃ fl, OsdCore.pass P P.rom true .flash rom.files
    ⟨{}, fun _ => none, {}⟩ = some (LUADB_ERR_NONE, ⟨σ₀, d₀, fl⟩) := by
  obtain ⟨restart, hrun⟩ := h.run
  exact ((run_rom_iff h.decode_rom).1 hrun).2

theorem installs (h : FreshInstall P rom σ₀ d₀) :
    ∀ f ∈ rom.files, EntryInstalls P P.rom (fun _ => False) f := by
  obtain ⟨fl, hpass⟩ := h.pass
  rw [← init_inUpdate]
  exact installs_flash_iff.1 (pass_none_iff.1 ⟨_, hpass⟩)

/-- A forced ROM image, on a disk that was wiped, has defined behaviour whatever the update's table
lists. -/
theorem romStep_rejected (h : FreshInstall P rom σ₀ d₀) {u : Option (ℤ × Bool)} {σ : StdioState}
    (hrej : rejects u = true) : ∃ r σ' d', romStep P u σ d = some (r, σ', d') ∧ r.restart = true ∧
      RolledBack P rom d' := by
  obtain ⟨r, hpass⟩ := @pass_isSome P P.rom .flash rom.files h.installs ⟨σ, d.wipe, {}⟩
  have hparse : parsePass P P.rom true .flash σ d.wipe =
      some ((r.1, false), r.2.mem, r.2.disk) := by
    rw [parsePass_flash h.decode_rom, hpass]
    rfl
  refine ⟨⟨u, (r.1, false), true⟩, r.2.mem, Function.update r.2.disk LUA_CHECK_INTEGRITY_FILE
    (some (toLe32 LUA_INTEGRITY_FLAG)), ?_, rfl, ?_, flagMissing_written⟩
  · simp [romStep, hrej, hparse]
  · exact (OnlyRom.parsePass h.decode_rom OnlyRom.wipe hparse).update fun hw => absurd hw (by decide)

/-- A boot on a state that is rolled back asks for no restart, and leaves what a fresh install does. -/
theorem boot_rolledBack (h : FreshInstall P rom σ₀ d₀) (hd : RolledBack P rom d) :
    ∃ r d', bootStep P d = some (r, σ₀, d') ∧ r.restart = false ∧ RolledBack P rom d' ∧
      (∀ p, Wiped p → d' p = d₀ p) ∧ ∀ f ∈ rom.files, Installed P P.rom f σ₀ d' := by
  obtain ⟨fl, hfresh⟩ := h.pass
  have hready := hd.onlyRom.ready h.decode_rom h.distinct false
  obtain ⟨st, hpass⟩ := pass_of_ready h.distinct hready h.installs
  have hmem : st.mem = σ₀ := (pass_mem hpass).trans (pass_mem hfresh).symm
  have hparse : parsePass P P.rom false .flash {} d =
      some ((LUADB_ERR_NONE, false), st.mem, st.disk) := by
    rw [parsePass_flash h.decode_rom, hpass]
    rfl
  have honly := OnlyRom.parsePass h.decode_rom hd.onlyRom hparse
  have hinst := pass_contents h.distinct hready hpass
  rw [hmem] at hparse hinst
  refine ⟨⟨none, (LUADB_ERR_NONE, false), false⟩, st.disk, ?_, rfl, ⟨honly, ?_⟩, fun p hp => ?_, hinst⟩
  · rw [bootStep_of_none (hd.onlyRom.gone h.decode_rom)]
    simp [romStep, rejects, hd.flag, hparse]
  · rw [← hd.flag]
    exact flagMissing_congr (parsePass_frame hparse not_underLua_integrity (Or.inl rfl))
  · have hempty : Ready P P.rom true rom.files ⟨{}, fun _ => none, {}⟩ :=
      OnlyRom.empty.ready h.decode_rom h.distinct true
    refine honly.eq_of_installed ?_ hinst (pass_contents h.distinct hempty hfresh) hp
    exact pass_invariant (I := fun st => OnlyRom P rom st.disk)
      (fun f hf st st' err hI hcase => hI.entry hf hcase) OnlyRom.empty hfresh

/-- On a state like that of a fresh install, the ROM image's files read as the image has them. -/
theorem readsRom (h : FreshInstall P rom σ₀ d₀) (honly : OnlyRom P rom d)
    (hinst : ∀ f ∈ rom.files, Installed P P.rom f σ₀ d) {f : DbFileInfo} (hf : f ∈ rom.files)
    (h4 : 4 < f.name.length) : ReadsRom P σ₀ d f := by
  have h255 := (decode_fits h.decode_rom f hf).name_le
  have hcl : f.Classified := by
    have hsome : classify f.name ≠ none := by
      cases h.installs f hf with
      | skip hcl => simp [hcl]
      | table hp => rw [hp]; simp
      | stored hp => rcases hp with hp | hp <;> simp [hp]
      | hidden hcl => simp [hcl]
    rw [classify_eq h255] at hsome
    split_ifs at hsome with hsafe
    · exact classify_long hsafe h4 h255
    · exact absurd rfl hsome
  obtain ⟨fl, hpass⟩ := h.pass
  obtain ⟨hidle, hu⟩ := idle_of_pass hpass
  refine ⟨?_, ?_⟩
  · intro hstay
    obtain ⟨c, hc, -⟩ := read_installed_fs (k := 0) h.decode_rom hf hcl hstay (hinst f hf) hidle
      (hu _) (by decide)
    exact ⟨c, hc⟩
  · intro c hc hrange k hk
    by_cases hstay : staysInImage f
    · have htab := hcl.tablePath hstay
      have hnone : d (installPath f.name) = none := by
        refine (honly _ (Or.inl (underLua_installPath _))).resolve_right ?_
        rintro ⟨g, hg, hgp, -⟩
        obtain rfl := h.distinct.unique hf hg htab.entryPath hgp.entryPath
        exact htab.not_fsPath hgp
      obtain ⟨hlt, hoffset⟩ := hrange hstay
      exact read_installed_table h.decode_rom hf hstay ((hinst f hf).2 _ htab).2 hnone hidle (hu _)
        hc hlt hoffset hk
    · obtain ⟨c', hc', hread⟩ := read_installed_fs h.decode_rom hf hcl hstay (hinst f hf) hidle
        (hu _) hk
      cases hc.symm.trans hc'
      exact hread

end FreshInstall

/-- **Rollback**: after an update is rejected, at whatever stage, the next boot asks for no restart;
and in every boot that asks for none, the directories are those of a fresh install of the ROM
image, the update image is gone, the tables are those of a fresh install, and every ROM file whose
name is not too short opens with its contents. -/
theorem rollback {σ₀ σ₁ : StdioState} {d₀ d₁ : Disk} {err : ℤ} {restart : Bool}
    (h : FreshInstall P rom σ₀ d₀)
    (hrun : MProg.run DevOp.handle (updatePass P) {} d = some (some (err, restart), σ₁, d₁))
    (herr : err ≠ LUADB_ERR_NONE) :
    (∃ d' r σ d'', boots P 1 d = some d' ∧
      MProg.run DevOp.handle (loadLuadb P) {} d' = some (r, σ, d'') ∧ r.restart = false) ∧
    ∀ n d' r σ d'', boots P n d = some d' →
      MProg.run DevOp.handle (loadLuadb P) {} d' = some (r, σ, d'') → r.restart = false →
      σ = σ₀ ∧ (∀ p, Wiped p → d'' p = d₀ p) ∧ d'' LUA_UPDATE_FILE = none ∧
        ∀ f ∈ rom.files, 4 < f.name.length → ReadsRom P σ d'' f := by
  have hrej : rejects (some (err, restart)) = true := by simp [rejects, herr]
  obtain ⟨r₁, σ₂, d₂, hrom, hrestart, hback⟩ := h.romStep_rejected (d := d₁) (σ := σ₁) hrej
  have hboot : bootStep P d = some (r₁, σ₂, d₂) :=
    bootStep_eq_some_iff.2 ⟨_, _, _, run_updatePass.symm.trans hrun, hrom⟩
  refine ⟨?_, fun n d' r σ d'' hboots hrun' hsettled => ?_⟩
  · obtain ⟨r, d', hnext, hr, -⟩ := h.boot_rolledBack hback
    exact ⟨d₂, r, σ₀, d', by rw [boots_one, hboot]; rfl, run_loadLuadb.trans hnext, hr⟩
  · rw [run_loadLuadb] at hrun'
    cases n with
    | zero =>
      cases hboots
      cases hboot.symm.trans hrun'
      rw [hrestart] at hsettled
      cases hsettled
    | succ n =>
      rw [boots_succ, hboot] at hboots
      have hback' : RolledBack P rom d' := by
        refine boots_invariant (fun d r σ d' hI hb => ?_) hback hboots
        obtain ⟨_, _, hb', -, hI', -⟩ := h.boot_rolledBack hI
        cases hb.symm.trans hb'
        exact hI'
      obtain ⟨_, _, hb, -, hI, hsame, hinst⟩ := h.boot_rolledBack hback'
      cases hb.symm.trans hrun'
      exact ⟨rfl, hsame, hI.onlyRom.gone h.decode_rom, fun f hf h4 =>
        h.readsRom hI.onlyRom hinst hf h4⟩

/-- The ROM image is rolled back to in full: `rollback` without its conditions on the ROM image. -/
def RollsBackInFull (P : Platform) : Prop :=
  ∀ (rom : Decoded) (σ₀ σ₁ : StdioState) (d d₀ d₁ : Disk) (err : ℤ) (restart₀ restart₁ : Bool),
    decode P.alloc P.rom = .ok rom →
    MProg.run DevOp.handle (parseLuadbData P P.rom true .flash) {} (fun _ => none) =
      some ((LUADB_ERR_NONE, restart₀), σ₀, d₀) →
    MProg.run DevOp.handle (updatePass P) {} d = some (some (err, restart₁), σ₁, d₁) →
    err ≠ LUADB_ERR_NONE →
    ∀ n d' r σ d'', boots P n d = some d' →
      MProg.run DevOp.handle (loadLuadb P) {} d' = some (r, σ, d'') → r.restart = false →
      (∀ p, Wiped p → d'' p = d₀ p) ∧ d'' LUA_UPDATE_FILE = none ∧
        ∀ f ∈ rom.files, ∃ c, payload P P.rom f = some c ∧ ∀ k < 2 ^ 31,
          MProg.run DevOp.handle (openAndRead P (installPath f.name) k) σ d'' =
            some (some (fileView P (installPath f.name) c k), σ, d'')

/-- An image with two files for one path. -/
def twiceImage : Image where
  bytes := encodeImage 0 [⟨ascii "hi.txt.zip", hiStream⟩, ⟨ascii "hi.txt", [1, 2, 3]⟩]
  size_lt := by decide

/-- An update that is not a LuaDB image. -/
def noDbUpdate : Disk := fun p => if p = LUA_UPDATE_FILE then some [0, 0] else none

theorem updatePass_noDbUpdate :
    MProg.run DevOp.handle (updatePass P) {} noDbUpdate =
      some (some (LUADB_ERR_NOT_DBDATA, false), {}, noDbUpdate) :=
  run_updatePass.trans rfl

/-- A file with too short a name is never there; and of two files for one path only one can be. -/
theorem not_rollsBackInFull : ¬ RollsBackInFull (samplePlatform shortNameImage) ∧
    ¬ RollsBackInFull (samplePlatform twiceImage) := by
  constructor
  · intro h
    have hdec : decode (fun _ => true) shortNameImage =
        .ok ⟨layout 23 [⟨ascii "a", [7]⟩], shortNameImage.length⟩ := by decide
    obtain ⟨r₁, σ₁, d₁, r₂, d₂, h1, h2, hr, hd⟩ : ∃ r₁ σ₁ d₁ r₂ d₂,
        bootStep (samplePlatform shortNameImage) noDbUpdate = some (r₁, σ₁, d₁) ∧
        bootStep (samplePlatform shortNameImage) d₁ = some (r₂, {}, d₂) ∧ r₂.restart = false ∧
        d₂ (ascii "/ldata/a") = none :=
      ⟨_, _, _, _, _, rfl, rfl, rfl, rfl⟩
    have hboots : boots (samplePlatform shortNameImage) 1 noDbUpdate = some d₁ := by
      rw [boots_one, h1]
      rfl
    obtain ⟨-, -, hall⟩ := h _ _ _ _ _ _ _ _ _ hdec ((run_parseLuadbData StdioState.idle_init).trans rfl)
      updatePass_noDbUpdate (by decide) 1 d₁ r₂ {} d₂ hboots (run_loadLuadb.trans h2) hr
    obtain ⟨c, -, hread⟩ := hall _ List.mem_cons_self
    have hno : ¬ ({} : StdioState).Present d₂ (ascii "/ldata/a") := by
      simp [StdioState.Present, StdioState.InUpdate, StdioState.InFlash, hd]
    cases (run_openAndRead_none (P := samplePlatform shortNameImage) (n := 0) StdioState.idle_init
      (by decide) hno).symm.trans (hread 0 (by decide))
  · intro h
    have hdec : decode (fun _ => true) twiceImage =
        .ok ⟨layout 23 [⟨ascii "hi.txt.zip", hiStream⟩, ⟨ascii "hi.txt", [1, 2, 3]⟩],
          twiceImage.length⟩ := by decide
    obtain ⟨r₁, σ₁, d₁, r₂, d₂, h1, h2, hr, hd⟩ : ∃ r₁ σ₁ d₁ r₂ d₂,
        bootStep (samplePlatform twiceImage) noDbUpdate = some (r₁, σ₁, d₁) ∧
        bootStep (samplePlatform twiceImage) d₁ = some (r₂, {}, d₂) ∧ r₂.restart = false ∧
        d₂ (ascii "/ldata/hi.txt") = some [1, 2, 3] :=
      ⟨_, _, _, _, _, rfl, rfl, rfl, rfl⟩
    have hboots : boots (samplePlatform twiceImage) 1 noDbUpdate = some d₁ := by
      rw [boots_one, h1]
      rfl
    obtain ⟨-, -, hall⟩ := h _ _ _ _ _ _ _ _ _ hdec ((run_parseLuadbData StdioState.idle_init).trans rfl)
      updatePass_noDbUpdate (by decide) 1 d₁ r₂ {} d₂ hboots (run_loadLuadb.trans h2) hr
    obtain ⟨c, hc, hread⟩ := hall _ List.mem_cons_self
    have hhi : ∀ f ∈ layout 23 [⟨ascii "hi.txt.zip", hiStream⟩], payload (samplePlatform twiceImage)
        twiceImage f = some (ascii "hi") := by decide
    cases (hhi _ List.mem_cons_self).symm.trans hc
    cases (run_openAndRead_file (P := samplePlatform twiceImage) (n := 2) StdioState.idle_init
      (by decide) (by decide) hd (by decide) (by decide)).symm.trans (hread 2 (by decide))

/-- The ROM image with `hi.txt`, freshly installed. -/
theorem freshInstall_hi : FreshInstall (samplePlatform hiRom)
    ⟨layout 23 [⟨ascii "hi.txt", [1, 2, 3]⟩], hiRom.length⟩ {}
    (Function.update (fun _ => none) (ascii "/ldata/hi.txt") (some [1, 2, 3])) where
  decode_rom := by decide
  distinct := List.pairwise_singleton _ _
  run := ⟨false, (run_parseLuadbData StdioState.idle_init).trans rfl⟩

theorem rollback_hi :
    (∃ d' r σ d'', boots (samplePlatform hiRom) 1 noDbUpdate = some d' ∧
      MProg.run DevOp.handle (loadLuadb (samplePlatform hiRom)) {} d' = some (r, σ, d'') ∧
      r.restart = false) ∧
    ∀ n d' r σ d'', boots (samplePlatform hiRom) n noDbUpdate = some d' →
      MProg.run DevOp.handle (loadLuadb (samplePlatform hiRom)) {} d' = some (r, σ, d'') →
      r.restart = false →
      σ = {} ∧ (∀ p, Wiped p → d'' p =
          Function.update (fun _ => none) (ascii "/ldata/hi.txt") (some [1, 2, 3]) p) ∧
        d'' LUA_UPDATE_FILE = none ∧
        ∀ f ∈ layout 23 [⟨ascii "hi.txt", [1, 2, 3]⟩], 4 < f.name.length →
          ReadsRom (samplePlatform hiRom) σ d'' f :=
  rollback freshInstall_hi updatePass_noDbUpdate (by decide)

end OsdCore
