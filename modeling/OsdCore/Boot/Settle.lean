import OsdCore.Boot.Spec
import OsdCore.Luadb.Update

/-!
# Whether the boots settle

Boots follow each other, each on the file system the one before has left, until one of them does not
ask for a restart.

* `settles_iff` : the boots settle exactly when they have defined behaviour and the update is not one
  that is installed without being removed, and asks for a restart all the same: a `RestartLoop`.
-/

namespace OsdCore

open Stdio

variable {P : Platform} {d : Disk}

/-! ### Runs of boots -/

/-- The file system after `n` boots without faults; `none` if one of them has no defined behaviour. -/
def boots (P : Platform) : ℕ → Disk → Option Disk
  | 0, d => some d
  | n + 1, d => (MProg.run DevOp.handle (loadLuadb P) {} d).bind fun r => boots P n r.2.2

/-- In a boot on this file system, neither call of `parse_luadb_data` sets its `pRestart`. -/
def Quiet (P : Platform) (d : Disk) : Prop :=
  ∃ r σ d', MProg.run DevOp.handle (loadLuadb P) {} d = some (r, σ, d') ∧
    r.update.any (·.2) = false ∧ r.rom.2 = false

/-- The boots reach, after finitely many, one in which `pRestart` is not set. -/
def Settles (P : Platform) (d : Disk) : Prop := ∃ n d', boots P n d = some d' ∧ Quiet P d'

theorem boots_succ {n : ℕ} : boots P (n + 1) d = (bootStep P d).bind fun r => boots P n r.2.2 := by
  rw [boots, run_loadLuadb]

theorem boots_one : boots P 1 d = (bootStep P d).map (·.2.2) := by
  rw [boots_succ]
  cases bootStep P d <;> rfl

/-- What every boot keeps, a run of boots keeps. -/
theorem boots_invariant {I : Disk → Prop} (hstep : ∀ d r σ d', I d → bootStep P d = some (r, σ, d') → I d')
    {n : ℕ} {d' : Disk} (hI : I d) (h : boots P n d = some d') : I d' := by
  induction n generalizing d with
  | zero => cases h; exact hI
  | succ n ih =>
    rw [boots_succ] at h
    obtain ⟨⟨r, σ, d₁⟩, hboot, h⟩ := Option.bind_eq_some_iff.1 h
    exact ih (hstep d r σ d₁ hI hboot) h

/-! ### Which updates ask for a restart -/

/-- The update is accepted, lists a file that is not a `.zip` file, so that it stays, and lists a file
for the file system, so that a restart is asked for. -/
def RestartLoop (P : Platform) (d : Disk) : Prop :=
  ∃ c out, d LUA_UPDATE_FILE = some c ∧ Accepts P (updateImage c) out ∧
    out.files.any nonZip = true ∧ out.files.any isFs = true

/-- The update is accepted and lists only `.zip` files, or it has no files at all; it is removed. -/
def DeletesPackage (P : Platform) (d : Disk) : Prop :=
  ∃ c, d LUA_UPDATE_FILE = some c ∧ Removes P (updateImage c)

/-- The update step, when there is an update. -/
theorem updateStep_some {c : Bytes} {u : Option (ℤ × Bool)} {σ : StdioState} {d₁ : Disk}
    (hd : d LUA_UPDATE_FILE = some c) (h : updateStep P d = some (u, σ, d₁)) :
    ∃ r, u = some r ∧ UpdateCase P (updateImage c) d r σ d₁ := by
  simp only [updateStep, hd, Option.map_eq_some_iff] at h
  obtain ⟨⟨r, σ', d'⟩, hparse, heq⟩ := h
  cases heq
  exact ⟨r, rfl, updateCase_of_parsePass hparse⟩

/-- An update asks for a restart exactly if it is removed, or is a `RestartLoop`. -/
theorem restart_iff {u : Option (ℤ × Bool)} {σ : StdioState} {d₁ : Disk}
    (h : updateStep P d = some (u, σ, d₁)) :
    u.any (·.2) = true ↔ RestartLoop P d ∨ DeletesPackage P d := by
  cases hd : d LUA_UPDATE_FILE with
  | none =>
    rw [updateStep, hd] at h
    cases h
    simp [RestartLoop, DeletesPackage, hd]
  | some c =>
    obtain ⟨r, rfl, hcase⟩ := updateStep_some hd h
    simp only [RestartLoop, DeletesPackage, Removes, hd, Option.some.injEq, exists_and_left,
      exists_eq_left', Option.any_some]
    cases hcase with
    | rejected _ hno hacc _ =>
      simp only [Bool.false_eq_true, hno, false_or, false_iff, not_or, not_exists, not_and]
      exact ⟨fun out h => absurd h (hacc out), fun out h => absurd h (hacc out)⟩
    | noFiles hdec => simp [hdec]
    | removed hdec hpass hany =>
      have hacc := (accepts_iff hdec).2 ⟨_, hpass⟩
      exact iff_of_true rfl (Or.inr (Or.inr ⟨_, hacc, hany⟩))
    | @kept out st hdec hpass hany =>
      have hacc := (accepts_iff hdec).2 ⟨_, hpass⟩
      have huniq : ∀ out', Accepts P (updateImage c) out' → out' = out := fun out' h => by
        have := h.1
        rw [hdec] at this
        cases this
        rfl
      constructor
      · exact fun hfs => Or.inl ⟨out, hacc, hany, hfs⟩
      · rintro (⟨out', hacc', -, hfs⟩ | hdec' | ⟨out', hacc', hno⟩)
        · rw [← huniq out' hacc']
          exact hfs
        · rw [hdec] at hdec'
          cases hdec'
        · rw [huniq out' hacc', hany] at hno
          cases hno

/-! ### One boot -/

theorem exitStep_flash (err : ℤ) (st : PassState) :
    exitStep .flash err st = ((err, false), st.mem, st.disk) := by
  simp [exitStep]

/-- What the ROM image cannot do: ask for a restart, or touch the update. -/
theorem romStep_some {u : Option (ℤ × Bool)} {σ σ' : StdioState} {d' : Disk} {r : BootResult}
    (h : romStep P u σ d = some (r, σ', d')) : r.update = u ∧ r.rom.2 = false ∧
      (rejects u = false ∨ d LUA_UPDATE_FILE = none → d' LUA_UPDATE_FILE = d LUA_UPDATE_FILE) := by
  have hne : LUA_UPDATE_FILE ≠ LUA_CHECK_INTEGRITY_FILE := by decide
  simp only [romStep, Option.map_eq_some_iff] at h
  obtain ⟨⟨⟨e, restart⟩, σ₂, d₂⟩, hparse, heq⟩ := h
  cases heq
  refine ⟨rfl, ?_, fun hkeep => ?_⟩
  · rcases parsePass_eq_some_iff.1 hparse with ⟨_, _, _, _, _, hexit⟩ | ⟨_, _, hexit⟩ <;>
      rw [exitStep_flash] at hexit <;> cases hexit <;> rfl
  · have hframe := parsePass_frame hparse (p := LUA_UPDATE_FILE) (by decide) (Or.inl rfl)
    have hd₂ : d₂ LUA_UPDATE_FILE = d LUA_UPDATE_FILE := by
      refine hframe.trans ?_
      split_ifs with hrej
      · rw [hkeep.resolve_left (by simp [hrej])]
        rfl
      · rfl
    dsimp only
    split_ifs
    · rw [Function.update_of_ne hne, hd₂]
    · exact hd₂

theorem bootStep_eq_some_iff {r : BootResult} {σ : StdioState} {d' : Disk} :
    bootStep P d = some (r, σ, d') ↔ ∃ u σ₁ d₁, updateStep P d = some (u, σ₁, d₁) ∧
      romStep P u σ₁ d₁ = some (r, σ, d') := by
  simp [bootStep, Option.bind_eq_some_iff]

/-- A boot is quiet if it has defined behaviour and the update asks for nothing. -/
theorem quiet_iff :
    Quiet P d ↔ (bootStep P d).isSome ∧ ¬ RestartLoop P d ∧ ¬ DeletesPackage P d := by
  unfold Quiet
  simp only [run_loadLuadb]
  constructor
  · rintro ⟨r, σ, d', hboot, hu, -⟩
    obtain ⟨u, σ₁, d₁, hupd, hrom⟩ := bootStep_eq_some_iff.1 hboot
    rw [(romStep_some hrom).1] at hu
    rw [← not_or, ← restart_iff hupd, hu, hboot]
    simp
  · rintro ⟨hsome, hloop, hdel⟩
    obtain ⟨⟨r, σ, d'⟩, hboot⟩ := Option.isSome_iff_exists.1 hsome
    obtain ⟨u, σ₁, d₁, hupd, hrom⟩ := bootStep_eq_some_iff.1 hboot
    obtain ⟨hu, hrom2, -⟩ := romStep_some hrom
    refine ⟨r, σ, d', hboot, ?_, hrom2⟩
    rw [hu, ← Bool.not_eq_true, restart_iff hupd, not_or]
    exact ⟨hloop, hdel⟩

/-- A restart loop goes on. -/
theorem RestartLoop.step {r : BootResult} {σ : StdioState} {d' : Disk} (h : RestartLoop P d)
    (hboot : bootStep P d = some (r, σ, d')) : RestartLoop P d' := by
  obtain ⟨c, out, hd, hacc, hany, hfs⟩ := h
  obtain ⟨u, σ₁, d₁, hupd, hrom⟩ := bootStep_eq_some_iff.1 hboot
  obtain ⟨r', rfl, hcase⟩ := updateStep_some hd hupd
  have hout : ∀ {out'}, decode P.alloc (updateImage c) = .ok out' → out' = out := fun h => by
    rw [hacc.1] at h
    cases h
    rfl
  have hkept : rejects (some r') = false ∧ d₁ LUA_UPDATE_FILE = some c := by
    cases hcase with
    | rejected _ _ hno _ => exact absurd hacc (hno out)
    | noFiles hdec =>
      rw [hacc.1] at hdec
      cases hdec
    | removed hdec _ hno =>
      rw [hout hdec, hany] at hno
      cases hno
    | kept hdec hpass _ => exact ⟨rfl, (pass_keeps_update hdec hpass).trans hd⟩
  obtain ⟨-, -, hkeep⟩ := romStep_some hrom
  exact ⟨c, out, (hkeep (Or.inl hkept.1)).trans hkept.2, hacc, hany, hfs⟩

/-- A package that is removed is gone in the next boot. -/
theorem DeletesPackage.step {r : BootResult} {σ : StdioState} {d' : Disk} (h : DeletesPackage P d)
    (hboot : bootStep P d = some (r, σ, d')) : d' LUA_UPDATE_FILE = none := by
  obtain ⟨c, hd, hdel⟩ := h
  obtain ⟨u, σ₁, d₁, hupd, hrom⟩ := bootStep_eq_some_iff.1 hboot
  obtain ⟨r', rfl, hcase⟩ := updateStep_some hd hupd
  have hgone : d₁ LUA_UPDATE_FILE = none := by
    cases hcase with
    | rejected _ hno hacc _ =>
      rcases hdel with hdec | ⟨out, hacc', -⟩
      · exact absurd hdec hno
      · exact absurd hacc' (hacc out)
    | noFiles => exact Function.update_self _ _ _
    | removed => exact Function.update_self _ _ _
    | kept hdec _ hany =>
      rcases hdel with hdec' | ⟨out, hacc, hno⟩
      · rw [hdec] at hdec'
        cases hdec'
      · have hout := hacc.1
        rw [hdec] at hout
        cases hout
        rw [hany] at hno
        cases hno
  obtain ⟨-, -, hkeep⟩ := romStep_some hrom
  exact (hkeep (Or.inr hgone)).trans hgone

/-! ### The boots -/

/-- **The boots settle exactly when** the update is not a `RestartLoop`, the first boot has defined
behaviour, and so has the second if the first removes the package. -/
theorem settles_iff : Settles P d ↔ ¬ RestartLoop P d ∧
    ∃ d₁, boots P 1 d = some d₁ ∧ (DeletesPackage P d → (boots P 1 d₁).isSome) := by
  constructor
  · rintro ⟨n, d', hboots, hquiet⟩
    obtain ⟨hsome, hloop, -⟩ := quiet_iff.1 hquiet
    refine ⟨fun h => hloop (boots_invariant (fun _ _ _ _ => RestartLoop.step) h hboots), ?_⟩
    cases n with
    | zero =>
      cases hboots
      obtain ⟨⟨r, σ, d₁⟩, hboot⟩ := Option.isSome_iff_exists.1 hsome
      exact ⟨d₁, by rw [boots_one, hboot]; rfl, fun hdel => absurd hdel (quiet_iff.1 hquiet).2.2⟩
    | succ n =>
      rw [boots_succ] at hboots
      obtain ⟨⟨r, σ, d₁⟩, hboot, hboots⟩ := Option.bind_eq_some_iff.1 hboots
      refine ⟨d₁, by rw [boots_one, hboot]; rfl, fun _ => ?_⟩
      rw [boots_one, Option.isSome_map]
      cases n with
      | zero => cases hboots; exact hsome
      | succ n =>
        rw [boots_succ] at hboots
        obtain ⟨_, hboot₁, -⟩ := Option.bind_eq_some_iff.1 hboots
        rw [hboot₁]
        rfl
  · rintro ⟨hloop, d₁, hboots, hsecond⟩
    have hfirst := hboots
    rw [boots_one, Option.map_eq_some_iff] at hfirst
    obtain ⟨⟨r, σ, d'⟩, hboot, rfl⟩ := hfirst
    by_cases hdel : DeletesPackage P d
    · have hgone := hdel.step hboot
      have hsome := hsecond hdel
      rw [boots_one, Option.isSome_map] at hsome
      refine ⟨1, d', hboots, quiet_iff.2 ⟨hsome, ?_, ?_⟩⟩
      · rintro ⟨c, out, hd, -⟩
        rw [hgone] at hd
        cases hd
      · rintro ⟨c, hd, -⟩
        rw [hgone] at hd
        cases hd
    · exact ⟨0, d, rfl, quiet_iff.2 ⟨by rw [hboot]; rfl, hloop, hdel⟩⟩

/-- A ROM image without files. -/
def noFilesImage : Image where
  bytes := encodeImage 0 []
  size_lt := by decide

/-- An update with one file to copy, `notes.txt`. -/
def plainUpdate : Bytes := encodeImage 0 [⟨ascii "notes.txt", [1, 2, 3]⟩]

/-- `plainUpdate` is installed, and a restart asked for, in every boot that finds it. -/
theorem updateStep_plain (h : d LUA_UPDATE_FILE = some plainUpdate) :
    updateStep (samplePlatform noFilesImage) d = some (some (LUADB_ERR_NONE, true), {},
      Function.update d (ascii "/ldata/notes.txt") (some [1, 2, 3])) := by
  rw [updateStep, h]
  rfl

/-- `plainUpdate` stays in the file system, and no boot is quiet, although all are defined. -/
theorem not_settles_plain : ¬ ∀ (P : Platform) (d : Disk),
    (∀ n, (boots P n d).isSome) → Settles P d := by
  have hloop : ∀ {d : Disk}, d LUA_UPDATE_FILE = some plainUpdate →
      RestartLoop (samplePlatform noFilesImage) d := fun hd => by
    refine ⟨plainUpdate, ⟨layout 23 [⟨ascii "notes.txt", [1, 2, 3]⟩], 53⟩, hd, ?_, by decide, by decide⟩
    exact (accepts_iff (d := fun _ => none) (by decide)).2 ⟨_, rfl⟩
  have hboot : ∀ {d : Disk}, d LUA_UPDATE_FILE = some plainUpdate →
      ∃ r σ d', bootStep (samplePlatform noFilesImage) d = some (r, σ, d') ∧
        d' LUA_UPDATE_FILE = some plainUpdate := fun {d} hd => by
    have hrom : ∃ r, romStep (samplePlatform noFilesImage) (some (LUADB_ERR_NONE, true)) {}
        (Function.update d (ascii "/ldata/notes.txt") (some [1, 2, 3])) = some r := ⟨_, rfl⟩
    obtain ⟨⟨r, σ, d'⟩, hrom⟩ := hrom
    refine ⟨r, σ, d', bootStep_eq_some_iff.2 ⟨_, _, _, updateStep_plain hd, hrom⟩, ?_⟩
    obtain ⟨-, -, hkeep⟩ := romStep_some hrom
    rw [hkeep (Or.inl rfl), Function.update_of_ne (by decide), hd]
  intro h
  have hall : ∀ n {d : Disk}, d LUA_UPDATE_FILE = some plainUpdate →
      (boots (samplePlatform noFilesImage) n d).isSome := by
    intro n
    induction n with
    | zero => exact fun _ => rfl
    | succ n ih =>
      intro d hd
      obtain ⟨r, σ, d', hstep, hd'⟩ := hboot hd
      rw [boots_succ, hstep]
      exact ih hd'
  have hd : (Function.update (fun _ => none) LUA_UPDATE_FILE (some plainUpdate) : Disk)
      LUA_UPDATE_FILE = some plainUpdate := Function.update_self _ _ _
  obtain ⟨n, d', hboots, hquiet⟩ := h _ _ fun n => hall n hd
  exact (quiet_iff.1 hquiet).2.1 (boots_invariant (fun _ _ _ _ => RestartLoop.step) (hloop hd) hboots)

end OsdCore
