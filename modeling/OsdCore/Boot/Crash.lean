import OsdCore.Boot.Precedence

/-!
# Power failures and failed writes

Boots follow each other; each may be cut by a power failure at any step of the file system, and some
of its writes may fail.  Between them, update images arrive.

* `wpc_loadLuadb` : what a boot leaves at a path of the ROM image, wherever it ends, unless it is cut
  while the integrity flag is there; `wpc_loadLuadb_kept` : such a boot, if it has nothing to extract
  to the path.
* `crash_safe` : in a run whose steps all meet the condition `Event.Meets`, whenever the integrity flag is
  there, the files of the ROM image are complete.
-/

namespace OsdCore

open Stdio

variable {P : Platform} {F : Faults} {A : Bytes → Prop} {C : Disk → Prop} {σ : StdioState} {d : Disk}
  {p : Path} {img : Image}

/-! ### Complete files -/

/-- An image lists an entry for the file system with this path and these contents. -/
def Lists (P : Platform) (img : Image) (p : Path) (c : Bytes) : Prop :=
  ∃ out, decode (fun _ => true) img = .ok out ∧
    ∃ f ∈ out.files, FsPath f p ∧ entryContent P img f = some c

/-- The target path of an entry of the ROM image for the file system. -/
def RomPath (P : Platform) (p : Path) : Prop :=
  ∃ out, decode (fun _ => true) P.rom = .ok out ∧ ∃ f ∈ out.files, FsPath f p

/-- The contents of an entry of the ROM image, or of one of the updates in `A`. -/
def Genuine (P : Platform) (A : Bytes → Prop) (p : Path) (c : Bytes) : Prop :=
  Lists P P.rom p c ∨ ∃ u, A u ∧ Lists P (updateImage u) p c

/-- The file at this path, if there is one, is complete. -/
def OkAt (P : Platform) (A : Bytes → Prop) (d : Disk) (p : Path) : Prop :=
  ∀ c, d p = some c → Genuine P A p c

theorem RomPath.underLua (h : RomPath P p) : UnderLua p := by
  obtain ⟨out, hdec, f, hf, hp⟩ := h
  obtain ⟨t, hcl, ht⟩ := Option.bind_eq_some_iff.1 hp.entryPath
  exact classify_path (decode_fits hdec f hf).name_le hcl ht

theorem Genuine.mono {A' : Bytes → Prop} {c : Bytes} (h : Genuine P A p c)
    (hA : ∀ u, A u → A' u) : Genuine P A' p c := by
  rcases h with h | ⟨u, hu, hl⟩
  · exact Or.inl h
  · exact Or.inr ⟨u, hA u hu, hl⟩

theorem lists_of_entry {out : Decoded} (hdec : decode P.alloc img = .ok out) {f : DbFileInfo}
    (hf : f ∈ out.files) {c : Bytes} (hp : FsPath f p) (hc : entryContent P img f = some c) :
    Lists P img p c :=
  ⟨out, decode_alloc_mono hdec, f, hf, hp, hc⟩

namespace OkAt

theorem mono {A' : Bytes → Prop} (h : OkAt P A d p) (hA : ∀ u, A u → A' u) : OkAt P A' d p :=
  fun c hc => (h c hc).mono hA

theorem congr {d' : Disk} (h : OkAt P A d p) (hd : d' p = d p) : OkAt P A d' p :=
  fun c hc => h c (hd ▸ hc)

theorem of_none (h : d p = none) : OkAt P A d p := fun c hc => by
  rw [h] at hc
  cases hc

theorem update {q : Path} {x : Option Bytes} (h : OkAt P A d p)
    (hx : p = q → ∀ c, x = some c → Genuine P A p c) : OkAt P A (Function.update d q x) p := by
  intro c hc
  by_cases hpq : p = q
  · subst hpq
    rw [Function.update_self] at hc
    exact hx rfl c hc
  · rw [Function.update_of_ne hpq] at hc
    exact h c hc

theorem remove {q : Path} (h : OkAt P A d p) : OkAt P A (Function.update d q none) p :=
  h.update fun _ _ hc => by cases hc

/-- What an entry stores is complete. -/
theorem entry {override : Bool} {nSection : TableSection} {f : DbFileInfo} {st st' : PassState}
    {err : ℤ} (h : OkAt P A st.disk p)
    (hgen : ∀ c, FsPath f p → entryContent P img f = some c → Genuine P A p c)
    (hcase : EntryCase P img override nSection f st err st') : OkAt P A st'.disk p := by
  cases hcase with
  | stored hq _ _ hc =>
    refine h.update fun hpq c' hc' => ?_
    cases hc'
    exact hgen _ (hpq ▸ hq) hc
  | failed hq _ _ hx =>
    rcases hx with rfl | rfl
    · exact h.update fun hpq c hc => h c (hpq ▸ hc)
    · exact h.remove
  | skip => exact h
  | table => exact h
  | noItem => exact h
  | kept => exact h
  | hidden => exact h

theorem pass {override : Bool} {nSection : TableSection} {files : List DbFileInfo}
    {st st' : PassState} {err : ℤ} (h : OkAt P A st.disk p)
    (hgen : ∀ f ∈ files, ∀ c, FsPath f p → entryContent P img f = some c → Genuine P A p c)
    (hpass : OsdCore.pass P img override nSection files st = some (err, st')) :
    OkAt P A st'.disk p :=
  pass_invariant (I := fun st => OkAt P A st.disk p)
    (fun f hf _ _ _ hI hcase => hI.entry (hgen f hf) hcase) h hpass

end OkAt

theorem genuine_rom {out : Decoded} (hdec : decode P.alloc P.rom = .ok out) :
    ∀ f ∈ out.files, ∀ c, FsPath f p → entryContent P P.rom f = some c → Genuine P A p c :=
  fun _ hf _ hp hc => Or.inl (lists_of_entry hdec hf hp hc)

/-! ### The update -/

/-- The update that is there, if there is one, is rejected. -/
def Rejected (P : Platform) (d : Disk) : Prop :=
  ∃ c, d LUA_UPDATE_FILE = some c ∧ decode P.alloc (updateImage c) ≠ .error (.exit LUADB_ERR_NONE) ∧
    ∀ out, ¬ Accepts P (updateImage c) out

/-- The update that is there is accepted. -/
def AcceptedUpdate (P : Platform) (d : Disk) (c : Bytes) : Prop :=
  d LUA_UPDATE_FILE = some c ∧ ∃ out, Accepts P (updateImage c) out

/-- The table of the update that is there lists the path, if the update is accepted. -/
def UpdateTable (P : Platform) (d : Disk) (p : Path) : Prop :=
  ∃ c out, d LUA_UPDATE_FILE = some c ∧ Accepts P (updateImage c) out ∧ ∃ f ∈ out.files, TablePath f p

/-- The update that is there lists this entry. -/
def UpdateEntry (P : Platform) (d : Disk) (f : DbFileInfo) : Prop :=
  ∃ c out, d LUA_UPDATE_FILE = some c ∧ decode P.alloc (updateImage c) = .ok out ∧ f ∈ out.files

/-- The paths of the update's table after a successful write phase. -/
theorem pass_inUpdate {override : Bool} {files : List DbFileInfo} {st st' : PassState}
    (h : OsdCore.pass P img override .update files st = some (LUADB_ERR_NONE, st')) :
    st'.mem.InUpdate p ↔ st.mem.InUpdate p ∨ ∃ f ∈ files, TablePath f p := by
  induction files generalizing st with
  | nil => cases h; simp
  | cons file files ih =>
    rcases pass_cons_iff.1 h with ⟨hne, -⟩ | ⟨st₁, hst, h⟩
    · exact absurd rfl hne
    · rw [ih h, inUpdate_of_case (entryStep_cases hst) rfl]
      simp [addTabled, or_assoc]

/-- An update that is rejected is rejected. -/
theorem rejects_of_rejected {r : Option (ℤ × Bool)} {d₁ : Disk} (h : Rejected P d)
    (hr : updateStep P d = some (r, σ, d₁)) : rejects r = true := by
  obtain ⟨c, hd, hno, hacc⟩ := h
  obtain ⟨r, rfl, hcase⟩ := updateStep_some hd hr
  cases hcase with
  | rejected hne => simp [rejects, hne]
  | noFiles hdec => exact absurd hdec hno
  | removed hdec hpass => exact absurd ((accepts_iff hdec).2 ⟨_, hpass⟩) (hacc _)
  | kept hdec hpass => exact absurd ((accepts_iff hdec).2 ⟨_, hpass⟩) (hacc _)

/-- **The update step**: an update that is not rejected leaves complete files, and its table. -/
theorem updateStep_okAt {r : Option (ℤ × Bool)} {d₁ : Disk}
    (hA : ∀ c, AcceptedUpdate P d c → A c) (hr : updateStep P d = some (r, σ, d₁))
    (hrej : rejects r = false) :
    (OkAt P A d p → OkAt P A d₁ p) ∧ (σ.InUpdate p ↔ UpdateTable P d p) := by
  cases hd : d LUA_UPDATE_FILE with
  | none =>
    rw [updateStep, hd] at hr
    cases hr
    simp [init_inUpdate, UpdateTable, hd]
  | some c =>
    obtain ⟨r, rfl, hcase⟩ := updateStep_some hd hr
    have hpass : ∀ {out st}, decode P.alloc (updateImage c) = .ok out →
        OsdCore.pass P (updateImage c) true .update out.files ⟨{}, d, {}⟩ =
          some (LUADB_ERR_NONE, st) →
        (OkAt P A d p → OkAt P A st.disk p) ∧ (st.mem.InUpdate p ↔ UpdateTable P d p) := by
      intro out st hdec hpass
      have hacc := (accepts_iff hdec).2 ⟨_, hpass⟩
      refine ⟨fun h => OkAt.pass h (fun f hf x hfs hx => Or.inr ⟨c, hA c ⟨hd, _, hacc⟩,
        lists_of_entry hdec hf hfs hx⟩) hpass, ?_⟩
      rw [pass_inUpdate hpass, init_inUpdate, false_or]
      constructor
      · rintro ⟨f, hf, ht⟩
        exact ⟨c, out, hd, hacc, f, hf, ht⟩
      · rintro ⟨c', out', hd', hacc', hf⟩
        cases hd.symm.trans hd'
        have hdec' := hacc'.1
        rw [hdec] at hdec'
        cases hdec'
        exact hf
    cases hcase with
    | rejected hne => simp [rejects, hne] at hrej
    | noFiles hdec =>
      refine ⟨OkAt.remove, ?_⟩
      rw [init_inUpdate, false_iff]
      rintro ⟨c', out, hd', hacc, -⟩
      cases hd.symm.trans hd'
      rw [hacc.1] at hdec
      cases hdec
    | removed hdec hst => exact ⟨fun h => ((hpass hdec hst).1 h).remove, (hpass hdec hst).2⟩
    | kept hdec hst => exact hpass hdec hst

/-- What `parse_luadb_data` keeps, if every extracted file keeps it. -/
theorem parsePass_keeps {J : Disk → Prop} {override : Bool} {nSection : TableSection}
    {r : (ℤ × Bool) × StdioState × Disk}
    (hfile : ∀ out, decode P.alloc img = .ok out → ∀ f ∈ out.files, ∀ q, FsPath f q → ∀ m x, J m →
      J (Function.update m q x))
    (hremove : nSection = .update → ∀ m, J m → J (Function.update m LUA_UPDATE_FILE none))
    (hJ : J d) (h : parsePass P img override nSection σ d = some r) : J r.2.2 := by
  have hexit : ∀ {err : ℤ} {st : PassState}, J st.disk → J (exitStep nSection err st).2.2 :=
    fun hst => by
      unfold exitStep
      split_ifs with hcond
      · exact hremove hcond.2.2 _ hst
      · exact hst
  rcases parsePass_eq_some_iff.1 h with ⟨out, err, st, hdec, hpass, rfl⟩ | ⟨err, -, rfl⟩
  · refine hexit (pass_invariant (I := fun st => J st.disk) (fun f hf _ _ _ hI hcase => ?_) hJ hpass)
    rcases hcase.disk with hsame | ⟨q, x, hq, -, hdisk⟩
    · rwa [hsame]
    · rw [hdisk]
      exact hfile out hdec f hf q hq _ x hI
  · exact hexit hJ

/-- **The update pass**: it keeps what its files keep; and it ends as `updateStep` says, or the update
is rejected, by itself or after a failed write. -/
theorem wpc_updatePass {J : Disk → Prop} {Q : Option (ℤ × Bool) → StdioState → Disk → Prop}
    (hF : ¬ F.other) (hJC : ∀ m, J m → C m) (hJ : J d)
    (hfile : ∀ f, UpdateEntry P d f → ∀ q, FsPath f q → ∀ m x, J m → J (Function.update m q x))
    (hremove : ∀ m, J m → J (Function.update m LUA_UPDATE_FILE none))
    (hQ : ∀ r σ d₁, σ.Lua → J d₁ → (rejects r = false → updateStep P d = some (r, σ, d₁)) →
      (rejects r = true → Rejected P d ∨ F.write ∧ ∃ f q, UpdateEntry P d f ∧ FsPath f q) →
      Q r σ d₁) :
    MProg.wpc (device F) C True (updatePass P) Q {} d := by
  refine Prog.wpc_mono (C := J) ?_ hJC fun r m _ h => h
  change MProg.wpc (device F) J True (updatePass P) Q {} d
  unfold updatePass
  rw [MProg.wpc_bind]
  refine wpc_readUpdate hF hJ ?_
  cases hd : d LUA_UPDATE_FILE with
  | none =>
    exact ⟨hJ, hQ none {} d .init hJ (fun _ => by rw [updateStep, hd]) fun h => by cases h⟩
  | some c =>
    simp only [Option.map_some, MProg.wpc_bind, MProg.wpc_pure]
    have hentry : ∀ {out}, decode P.alloc (updateImage c) = .ok out → ∀ f ∈ out.files,
        UpdateEntry P d f := fun hdec f hf => ⟨c, _, hd, hdec, hf⟩
    have hstep : ∀ {r σ d₁}, parsePass P (updateImage c) true .update {} d = some (r, σ, d₁) →
        updateStep P d = some (some r, σ, d₁) := fun h => by rw [updateStep, hd]; simp [h]
    refine MProg.wpc_mono (Q := fun r σ d₁ => Q (some r) σ d₁) ?_ fun r σ d₁ h1 h2 => ⟨h1, h2⟩
    refine wpc_parseLuadbData (I := fun σ m => σ.Lua ∧ J m) ?_ ?_ (fun _ => hremove) ?_ ?_
      (fun ho => absurd ho hF) ⟨.init, hJ⟩ (fun _ => trivial) ?_
    · exact fun σ m hI => ⟨hI.1.idle, hI.2, fun ho => absurd ho hF⟩
    · exact fun out hdec σ m hI f hf q hq _ x => hfile f (hentry hdec f hf) q hq m x hI.2
    · intro out hdec σ m hI f hf fl st hst
      have hcase := entryStep_cases hst
      refine ⟨hI.1.entry (decode_fits hdec f hf) hcase, ?_⟩
      rcases hcase.disk with hsame | ⟨q, x, hq, -, hdisk⟩
      · rw [hsame]
        exact hI.2
      · rw [hdisk]
        exact hfile f (hentry hdec f hf) q hq _ x hI.2
    · -- a write has failed
      intro hfault out hdec σ m hI f hf q hq err x herr hx
      have hrej : rejects (some (err, false)) = true := by simp [rejects, herr]
      exact hQ _ _ _ hI.1 (hfile f (hentry hdec f hf) q hq m x hI.2) (fun h => by simp [hrej] at h)
        fun _ => Or.inr ⟨hfault.resolve_right hF, f, q, hentry hdec f hf, hq⟩
    · intro r σ d₁ hr
      refine hQ _ _ _ (StdioState.Lua.init.parsePass hr) (parsePass_keeps (fun out hdec f hf =>
        hfile f (hentry hdec f hf)) (fun _ => hremove) hJ hr) (fun _ => hstep hr) fun hrej => ?_
      have hcase := updateCase_of_parsePass hr
      cases hcase with
      | rejected _ hno hacc => exact Or.inl ⟨c, hd, hno, hacc⟩
      | noFiles => cases hrej
      | removed => cases hrej
      | kept => cases hrej

/-! ### The image in ROM -/

/-- A forced write phase comes to an entry for the path and stores it, `tabled` being the paths of the
update's table. -/
inductive Rewrites (P : Platform) (img : Image) (tabled : Path → Prop) (p : Path) :
    List DbFileInfo → Prop
  | here {file : DbFileInfo} {files : List DbFileInfo} : FsPath file p → ¬ tabled p →
      EntryInstalls P img tabled file → Rewrites P img tabled p (file :: files)
  | later {file : DbFileInfo} {files : List DbFileInfo} : EntryInstalls P img tabled file →
      Rewrites P img tabled p files → Rewrites P img tabled p (file :: files)

/-- A forced ROM image stores an entry for the path. -/
def RomRewrites (P : Platform) (tabled : Path → Prop) (p : Path) : Prop :=
  ∃ rom, decode P.alloc P.rom = .ok rom ∧ Rewrites P P.rom tabled p rom.files

/-- An entry that is stored is complete. -/
theorem OkAt.of_stored {nSection : TableSection} {f : DbFileInfo} {st st' : PassState} {err : ℤ}
    (hgen : ∀ c, FsPath f p → entryContent P img f = some c → Genuine P A p c) (hp : FsPath f p)
    (hu : ¬ st.mem.InUpdate p) (hcase : EntryCase P img true nSection f st err st')
    (herr : err = LUADB_ERR_NONE) : OkAt P A st'.disk p := by
  cases hcase with
  | stored hq _ _ hc =>
    obtain rfl := fsPath_unique hp hq
    intro c' hc'
    rw [show c' = _ from Option.some.inj (hc'.symm.trans (Function.update_self _ _ _))]
    exact hgen _ hp hc
  | skip hcl => rcases hp with hp | hp <;> rw [hcl] at hp <;> cases hp
  | table ht => exact absurd hp ht.not_fsPath
  | noItem ht => exact absurd hp ht.not_fsPath
  | kept _ hex => exact absurd (Or.inl rfl) hex
  | hidden hcl _ hin =>
    obtain rfl := fsPath_unique hp (Or.inr hcl)
    exact absurd hin hu
  | failed _ _ hne => exact absurd herr hne

/-- **A write phase that rewrites the path** leaves a complete file there, whatever there was. -/
theorem OkAt.of_rewrites {files : List DbFileInfo} {st st' : PassState} {err : ℤ}
    (hgen : ∀ f ∈ files, ∀ c, FsPath f p → entryContent P img f = some c → Genuine P A p c)
    (h : Rewrites P img st.mem.InUpdate p files)
    (hpass : OsdCore.pass P img true .flash files st = some (err, st')) : OkAt P A st'.disk p := by
  induction files generalizing st with
  | nil => cases h
  | cons file files ih =>
    obtain ⟨hfile, hrest⟩ := List.forall_mem_cons.1 hgen
    have hinst : EntryInstalls P img st.mem.InUpdate file := by cases h <;> assumption
    obtain ⟨st₁, hst⟩ := (@entryInstalls_iff P img .flash file st).2 hinst
    have hcase := entryStep_cases hst
    rcases pass_cons_iff.1 hpass with ⟨hne, hst'⟩ | ⟨st₁', hst', hpass⟩ <;> cases hst.symm.trans hst'
    · exact absurd rfl hne
    · cases h with
      | here hp hu => exact OkAt.pass (OkAt.of_stored hfile hp hu hcase rfl) hrest hpass
      | later _ h =>
        refine ih hrest ?_ hpass
        rwa [inUpdate_of_case hcase rfl, addTabled_flash]

/-- The ROM image leaves complete files, or rewrites what is not. -/
theorem OkAt.romStep {override : Bool} {r : (ℤ × Bool) × StdioState × Disk}
    (h : OkAt P A d p ∨ override = true ∧ RomRewrites P σ.InUpdate p)
    (hr : parsePass P P.rom override .flash σ d = some r) : OkAt P A r.2.2 p := by
  rcases parsePass_eq_some_iff.1 hr with ⟨out, err, st, hdec, hpass, rfl⟩ | ⟨err, hdec, rfl⟩ <;>
    rw [exitStep_flash]
  · rcases h with h | ⟨rfl, rom, hrom, hrew⟩
    · exact OkAt.pass h (genuine_rom hdec) hpass
    · cases hdec.symm.trans hrom
      exact OkAt.of_rewrites (genuine_rom hdec) hrew hpass
  · rcases h with h | ⟨-, rom, hrom, -⟩
    · exact h
    · rw [hdec] at hrom
      cases hrom

/-- **The ROM image, away from the flag**: failed writes or not, it ends with a complete file at the
path, if there was one, or if it rewrites the path and no write fails. -/
theorem wpc_parseRom {override : Bool} {Q : ℤ × Bool → StdioState → Disk → Prop} (hF : ¬ F.other)
    (hσ : σ.Lua)
    (hC : ∀ m, m LUA_CHECK_INTEGRITY_FILE = d LUA_CHECK_INTEGRITY_FILE → C m)
    (hok : OkAt P A d p ∨ ¬ F.write ∧ override = true ∧ RomRewrites P σ.InUpdate p)
    (hQ : ∀ r σ' d', σ'.Lua → OkAt P A d' p → Q r σ' d') :
    MProg.wpc (device F) C True (parseLuadbData P P.rom override .flash) Q σ d := by
  have hne : ∀ {out}, decode P.alloc P.rom = .ok out → ∀ f ∈ out.files, ∀ q, FsPath f q →
      LUA_CHECK_INTEGRITY_FILE ≠ q := fun hdec f hf q hq heq =>
    not_underLua_integrity (heq ▸ underLua_entryPath hdec hf hq.entryPath)
  refine wpc_parseLuadbData (I := fun σ m => σ.Lua ∧
    m LUA_CHECK_INTEGRITY_FILE = d LUA_CHECK_INTEGRITY_FILE ∧ (F.write → OkAt P A m p))
    (fun σ m hI => ⟨hI.1.idle, hC m hI.2.1, fun ho => absurd ho hF⟩) ?_ (fun h => by cases h) ?_ ?_
    (fun ho => absurd ho hF) ⟨hσ, rfl, fun hw => hok.resolve_right fun h => h.1 hw⟩ (fun _ => trivial) ?_
  · intro out hdec σ m hI f hf q hq _ x
    exact hC _ ((Function.update_of_ne (hne hdec f hf q hq) _ _).trans hI.2.1)
  · intro out hdec σ m hI f hf fl st hst
    have hcase := entryStep_cases hst
    refine ⟨hI.1.entry (decode_fits hdec f hf) hcase, ?_, fun hw =>
      OkAt.entry (hI.2.2 hw) (genuine_rom hdec f hf) hcase⟩
    rcases hcase.disk with hsame | ⟨q, x, hq, -, hdisk⟩
    · rw [hsame]
      exact hI.2.1
    · rw [hdisk]
      exact (Function.update_of_ne (hne hdec f hf q hq) _ _).trans hI.2.1
  · intro hfault out hdec σ m hI f hf q hq err x _ hx
    rw [hx hF]
    exact hQ _ _ _ hI.1 (hI.2.2 (hfault.resolve_right hF)).remove
  · intro r σ' d' hr
    exact hQ r σ' d' (hσ.parsePass hr) (OkAt.romStep (hok.imp id And.right) hr)

/-- **The ROM image, when there is nothing to extract to the path.** -/
theorem wpc_parseRom_kept {Q : ℤ × Bool → StdioState → Disk → Prop} (hF : ¬ F.other) (hσ : σ.Lua)
    (hok : OkAt P A d p) (hpres : (d p).isSome ∨ σ.InUpdate p) (hC : ∀ m, OkAt P A m p → C m)
    (hQ : ∀ r σ' d', C d' → Q r σ' d') :
    MProg.wpc (device F) C True (parseLuadbData P P.rom false .flash) Q σ d := by
  have hkeep : ∀ {σ : StdioState} {m : Disk} {q : Path}, ((m p).isSome ∨ σ.InUpdate p) →
      Extracts false σ m q → p ≠ q := by
    rintro σ m q hpres hex rfl
    exact hex.resolve_left (by decide) (hpres.elim (fun h => Or.inr (Or.inr h)) Or.inl)
  refine MProg.wpc_mono (Q := fun _ _ _ => True) ?_ fun r σ' d' h _ => hQ r σ' d' h
  refine wpc_parseLuadbData
    (I := fun σ m => σ.Lua ∧ OkAt P A m p ∧ ((m p).isSome ∨ σ.InUpdate p))
    (fun σ m hI => ⟨hI.1.idle, hC m hI.2.1, fun ho => absurd ho hF⟩) ?_ (fun h => by cases h) ?_
    (fun _ _ _ _ _ _ _ _ _ _ _ _ _ _ => trivial) (fun ho => absurd ho hF) ⟨hσ, hok, hpres⟩
    (fun _ => trivial) fun _ _ _ _ => trivial
  · intro out hdec σ m hI f hf q hq hex x
    exact hC _ (hI.2.1.update fun hpq => absurd hpq (hkeep hI.2.2 hex))
  · intro out hdec σ m hI f hf fl st hst
    have hcase := entryStep_cases hst
    have hdisk : st.disk p = m p := by
      rcases hcase.disk with hsame | ⟨q, x, -, hex, hdisk⟩
      · rw [hsame]
      · rw [hdisk, Function.update_of_ne (hkeep hI.2.2 hex)]
    refine ⟨hI.1.entry (decode_fits hdec f hf) hcase, hI.2.1.congr hdisk, ?_⟩
    rw [hdisk, inUpdate_of_case hcase rfl, addTabled_flash]
    exact hI.2.2

/-! ### A boot -/

/-- **The second part of a boot**, wherever it ends: a complete file at the path, if there was one, or
if the ROM image rewrites it; or if the update was rejected and everything removed. -/
theorem wpc_romPass {update : Option (ℤ × Bool)} (hF : ¬ F.other) (hσ : σ.Lua) (hp : UnderLua p)
    (hC : ∀ m, m LUA_CHECK_INTEGRITY_FILE = d LUA_CHECK_INTEGRITY_FILE → C m)
    (hC' : ∀ m, OkAt P A m p → C m)
    (hok : rejects update = false →
      OkAt P A d p ∨ ¬ F.write ∧ flagMissing P d = true ∧ RomRewrites P σ.InUpdate p) :
    MProg.wpc (device F) C True (romPass P update) (fun _ _ d' => OkAt P A d' p) σ d := by
  have hu := not_underLua_integrity
  have hne : p ≠ LUA_CHECK_INTEGRITY_FILE := fun heq => hu (heq ▸ hp)
  have hCd := hC d rfl
  have hwrite : ∀ {σ' : StdioState} {d' : Disk}, σ'.Lua → OkAt P A d' p →
      MProg.wpc (device F) C True writeIntegrity (fun _ _ d' => OkAt P A d' p) σ' d' :=
    fun {σ' d'} hσ' hok => by
      have hupd : ∀ x, OkAt P A (Function.update d' LUA_CHECK_INTEGRITY_FILE x) p := fun x =>
        hok.update fun heq => absurd heq hne
      exact wpc_writeIntegrity hF hσ'.idle (hσ'.not_inUpdate hu) (hC' _ hok)
        (fun k => hC' _ (hupd _)) (hupd _) fun _ k => hupd _
  unfold romPass
  cases hrej : rejects update with
  | true =>
    have hrej' : (update.any fun r => decide (r.1 ≠ LUADB_ERR_NONE)) = true := hrej
    simp only [hrej', ↓reduceIte, MProg.wpc_bind, MProg.wpc_pure]
    have hwipes : ∀ m, d.WipesSome m →
        m LUA_CHECK_INTEGRITY_FILE = d LUA_CHECK_INTEGRITY_FILE := fun m hm =>
      (hm _).resolve_right fun hw => absurd hw.1 (by decide)
    have hflag : d.wipe LUA_CHECK_INTEGRITY_FILE = d LUA_CHECK_INTEGRITY_FILE :=
      if_neg (by decide)
    have hgone : OkAt P A d.wipe p := OkAt.of_none (if_pos (Or.inl hp))
    refine wpc_removeLuaDir hF (fun m hm => hC m (hwipes m hm)) ⟨hC _ hflag, ?_⟩
    refine wpc_parseRom hF hσ (fun m hm => hC m (hm.trans hflag)) (Or.inl hgone)
      fun r σ' d' hσ' hok' => ?_
    exact MProg.wpc_mono (hwrite hσ' hok') fun _ _ _ hCm hok => ⟨hCm, hok⟩
  | false =>
    have hrej' : (update.any fun r => decide (r.1 ≠ LUADB_ERR_NONE)) = false := hrej
    simp only [hrej', Bool.false_eq_true, ↓reduceIte, MProg.wpc_bind]
    refine wpc_checkIntegrity hF hσ.idle (hσ.not_inUpdate hu) (hσ.not_inFlash hu) hCd ?_
    refine wpc_parseRom hF hσ hC (hok hrej) fun r σ' d' hσ' hok' => ?_
    cases flagMissing P d with
    | false => exact ⟨hC' _ hok', hok'⟩
    | true =>
      simp only [↓reduceIte, MProg.wpc_bind]
      exact MProg.wpc_mono (hwrite hσ' hok') fun _ _ _ hCm hok => ⟨hCm, hok⟩

/-- The second part of a boot with the flag, when there is nothing to extract to the path. -/
theorem wpc_romPass_kept {update : Option (ℤ × Bool)} (hF : ¬ F.other) (hσ : σ.Lua)
    (hrej : rejects update = false) (hflag : flagMissing P d = false) (hok : OkAt P A d p)
    (hpres : (d p).isSome ∨ σ.InUpdate p) (hC : ∀ m, OkAt P A m p → C m) :
    MProg.wpc (device F) C True (romPass P update) (fun _ _ _ => True) σ d := by
  have hu := not_underLua_integrity
  have hrej' : (update.any fun r => decide (r.1 ≠ LUADB_ERR_NONE)) = false := hrej
  unfold romPass
  simp only [hrej', Bool.false_eq_true, ↓reduceIte, MProg.wpc_bind]
  refine wpc_checkIntegrity hF hσ.idle (hσ.not_inUpdate hu) (hσ.not_inFlash hu) (hC d hok) ?_
  rw [hflag]
  exact wpc_parseRom_kept hF hσ hok hpres hC fun r σ' d' hCm => ⟨hCm, trivial⟩

/-- **A boot, wherever it ends.** -/
theorem wpc_loadLuadb (hF : ¬ F.other) (hp : UnderLua p) (hA : ∀ c, AcceptedUpdate P d c → A c)
    (hC : ∀ m, m LUA_CHECK_INTEGRITY_FILE = d LUA_CHECK_INTEGRITY_FILE → C m)
    (hC' : ∀ m, OkAt P A m p → C m)
    (hok : Rejected P d ∨ OkAt P A d p ∨
      ¬ F.write ∧ flagMissing P d = true ∧ RomRewrites P (UpdateTable P d) p) :
    MProg.wpc (device F) C True (loadLuadb P) (fun _ _ d' => OkAt P A d' p) {} d := by
  unfold loadLuadb
  rw [MProg.wpc_bind]
  refine wpc_updatePass (J := fun m => m LUA_CHECK_INTEGRITY_FILE = d LUA_CHECK_INTEGRITY_FILE) hF
    hC rfl ?_ ?_ fun r σ d₁ hσ hint hstep _ =>
      wpc_romPass hF hσ hp (fun m hm => hC m (hm.trans hint)) hC' fun hrej => ?_
  · rintro f ⟨c, out, hd, hdec, hf⟩ q hq m x hm
    have hne : LUA_CHECK_INTEGRITY_FILE ≠ q := fun heq =>
      not_underLua_integrity (heq ▸ underLua_entryPath hdec hf hq.entryPath)
    exact (Function.update_of_ne hne _ _).trans hm
  · exact fun m hm => (Function.update_of_ne (by decide) _ _).trans hm
  · have hr := hstep hrej
    rcases hok with hreject | hok | ⟨hw, hmiss, hrew⟩
    · rw [rejects_of_rejected hreject hr] at hrej
      cases hrej
    · exact Or.inl ((updateStep_okAt hA hr hrej).1 hok)
    · have htable : σ.InUpdate = UpdateTable P d :=
        funext fun q => propext (updateStep_okAt (p := q) hA hr hrej).2
      rw [htable, flagMissing_congr hint]
      exact Or.inr ⟨hw, hmiss, hrew⟩

/-- A boot has nothing to extract to the path: the update is not rejected, by itself or after a failed
write, and has no entry for it, and the path is there. -/
structure KeptAt (P : Platform) (failing : Prop) (d : Disk) (p : Path) : Prop where
  not_rejected : ¬ Rejected P d
  update : ∀ f, UpdateEntry P d f → ∀ q, FsPath f q → ¬ failing ∧ q ≠ p
  present : (d p).isSome ∨ UpdateTable P d p

/-- **A boot with the flag that has nothing to extract to the path.** -/
theorem wpc_loadLuadb_kept (hF : ¬ F.other) (hp : UnderLua p) (hflag : flagMissing P d = false)
    (hok : OkAt P A d p) (hkept : KeptAt P F.write d p) (hC : ∀ m, OkAt P A m p → C m) :
    MProg.wpc (device F) C True (loadLuadb P) (fun _ _ _ => True) {} d := by
  have hne : p ≠ LUA_UPDATE_FILE := by
    rintro rfl
    exact absurd hp (by decide)
  unfold loadLuadb
  rw [MProg.wpc_bind]
  refine wpc_updatePass (J := fun m => m p = d p ∧
      m LUA_CHECK_INTEGRITY_FILE = d LUA_CHECK_INTEGRITY_FILE) hF
    (fun m hm => hC m (hok.congr hm.1)) ⟨rfl, rfl⟩ ?_ ?_ fun r σ d₁ hσ hd₁ hstep hwhy => ?_
  · rintro f hf q hq m x ⟨hmp, hmint⟩
    have hpq := (hkept.update f hf q hq).2
    obtain ⟨c, out, hd, hdec, hmem⟩ := hf
    have hint : LUA_CHECK_INTEGRITY_FILE ≠ q := fun heq =>
      not_underLua_integrity (heq ▸ underLua_entryPath hdec hmem hq.entryPath)
    exact ⟨(Function.update_of_ne hpq.symm _ _).trans hmp, (Function.update_of_ne hint _ _).trans hmint⟩
  · exact fun m hm => ⟨(Function.update_of_ne hne _ _).trans hm.1,
      (Function.update_of_ne (by decide) _ _).trans hm.2⟩
  · have hrej : rejects r = false := by
      by_contra hrej
      rcases hwhy (by simpa using hrej) with h | ⟨hw, f, q, hf, hq⟩
      · exact hkept.not_rejected h
      · exact (hkept.update f hf q hq).1 hw
    refine wpc_romPass_kept hF hσ hrej (by rw [flagMissing_congr hd₁.2, hflag]) (hok.congr hd₁.1) ?_ hC
    have htable := (updateStep_okAt (p := p) (A := AcceptedUpdate P d) (fun c hc => hc)
      (hstep hrej) hrej).2
    rw [hd₁.1, htable]
    exact hkept.present

/-! ### Runs -/

/-- The device between boots: its files, and the updates that it has accepted so far. -/
structure World where
  disk : Disk
  accepted : Bytes → Prop

/-- A new device. -/
def World.fresh : World := ⟨fun _ => none, fun _ => False⟩

/-- The updates a boot has accepted when it is through with the one that is there. -/
def World.seen (P : Platform) (w : World) : Bytes → Prop := fun c =>
  w.accepted c ∨ AcceptedUpdate P w.disk c

/-- What can happen: an update image arrives, or is taken away; a boot; or a boot that is cut by a power
failure.  Some of the writes of a boot may fail. -/
inductive Event where
  | deliver (update : Option Bytes)
  | boot (failing : Bool)
  | cut (failing : Bool)

/-- The faults of a boot: no operation but the writes may fail. -/
def faultsOf (failing : Bool) : Faults := ⟨failing = true, False⟩

/-- What an event does. -/
def Event.Step (P : Platform) : Event → World → World → Prop
  | deliver update, w, w' => w' = ⟨Function.update w.disk LUA_UPDATE_FILE update, w.accepted⟩
  | boot failing, w, w' => w'.accepted = w.seen P ∧ ∃ r,
      (loadLuadb P {}).Finishes (device (faultsOf failing)) w.disk r w'.disk
  | cut failing, w, w' => w'.accepted = w.seen P ∧
      (loadLuadb P {}).Visits (device (faultsOf failing)) w.disk w'.disk

/-- Whenever the integrity flag is there, every file at a target path of the ROM image is complete. -/
def Safe (P : Platform) (w : World) : Prop :=
  flagMissing P w.disk = false → ∀ p, RomPath P p → OkAt P w.accepted w.disk p

/-- Without the flag, the path comes to hold a complete file, or none: the update is rejected, so that
everything is removed; or the path is in order already; or no write fails and the ROM image
rewrites the path. -/
def Recovers (P : Platform) (failing : Prop) (w : World) (p : Path) : Prop :=
  Rejected P w.disk ∨ OkAt P w.accepted w.disk p ∨
    ¬ failing ∧ RomRewrites P (UpdateTable P w.disk) p

/-- **The condition on a step**: without the flag, every path recovers; and with it, a boot that is cut
has nothing to extract. -/
def Event.Meets (P : Platform) : Event → World → Prop
  | deliver _, _ => True
  | boot failing, w => flagMissing P w.disk = true → ∀ p, RomPath P p → Recovers P failing w p
  | cut failing, w =>
    (flagMissing P w.disk = true → ∀ p, RomPath P p → Recovers P failing w p) ∧
      (flagMissing P w.disk = false → ∀ p, RomPath P p → KeptAt P failing w.disk p)

/-- One step keeps the files in order. -/
theorem Safe.step {e : Event} {w w' : World} (h : Safe P w) (hmeets : e.Meets P w)
    (hstep : e.Step P w w') : Safe P w' := by
  have hmono : ∀ {p}, OkAt P w.accepted w.disk p → OkAt P (w.seen P) w.disk p := fun h =>
    h.mono fun _ => Or.inl
  have hA : ∀ c, AcceptedUpdate P w.disk c → w.seen P c := fun c => Or.inr
  have hok : ∀ {failing : Bool} {p : Path}, flagMissing P w.disk = true → Recovers P failing w p →
      Rejected P w.disk ∨ OkAt P (w.seen P) w.disk p ∨ ¬ (faultsOf failing).write ∧
        flagMissing P w.disk = true ∧ RomRewrites P (UpdateTable P w.disk) p := fun hmiss hrec =>
    hrec.imp id fun hrec => hrec.imp hmono fun hrew => ⟨hrew.1, hmiss, hrew.2⟩
  cases e with
  | deliver update =>
    cases hstep
    have hflag : Function.update w.disk LUA_UPDATE_FILE update LUA_CHECK_INTEGRITY_FILE =
        w.disk LUA_CHECK_INTEGRITY_FILE := Function.update_of_ne (by decide) _ _
    intro hmiss p hp
    rw [flagMissing_congr hflag] at hmiss
    refine (h hmiss p hp).update ?_
    rintro rfl
    exact absurd hp.underLua (by decide)
  | boot failing =>
    obtain ⟨hacc, r, hfin⟩ := hstep
    intro _ p hp
    rw [hacc]
    refine (Prog.wpc_finishes (wpc_loadLuadb (C := fun _ => True) id hp.underLua hA
      (fun _ _ => trivial) (fun _ _ => trivial) ?_) hfin).2
    cases hmiss : flagMissing P w.disk with
    | true => exact hmiss ▸ hok hmiss (hmeets hmiss p hp)
    | false => exact Or.inr (Or.inl (hmono (h hmiss p hp)))
  | cut failing =>
    obtain ⟨hacc, hvis⟩ := hstep
    intro hflag p hp
    rw [hacc]
    cases hmiss : flagMissing P w.disk with
    | true =>
      refine Prog.wpc_visits (wpc_loadLuadb
        (C := fun m => flagMissing P m = false → OkAt P (w.seen P) m p) id hp.underLua hA
        (fun m hm hno => ?_) (fun _ hm _ => hm) (hok hmiss (hmeets.1 hmiss p hp))) hvis hflag
      rw [flagMissing_congr hm, hmiss] at hno
      cases hno
    | false =>
      have hkept := wpc_loadLuadb_kept (F := faultsOf failing) id hp.underLua hmiss
        (hmono (h hmiss p hp)) (hmeets.2 hmiss p hp) fun _ hm => hm
      exact Prog.wpc_visits (C := fun m => OkAt P (w.seen P) m p) hkept hvis

/-- **Crash safety**: in every state that a run reaches whose steps all meet the condition, if the
integrity flag is there then every file at a target path of the ROM image holds the complete
contents of an entry of the ROM image, or of an accepted update, for that path. -/
theorem crash_safe {w w' : World} (h : Safe P w)
    (hrun : Relation.ReflTransGen (fun w w' => ∃ e : Event, e.Meets P w ∧ e.Step P w w') w w') :
    Safe P w' := by
  induction hrun with
  | refl => exact h
  | tail _ hstep ih =>
    obtain ⟨e, hmeets, hstep⟩ := hstep
    exact ih.step hmeets hstep

theorem safe_fresh : Safe P .fresh := fun h => absurd h (by simp [flagMissing, World.fresh])

/-- The device on which no write to one path stores anything. -/
def failsAt (q : Path) : (o : DevOp) → Disk → o.Resp × Disk
  | .writeFile fd buf, d =>
    if fd.path = q ∧ 0 < buf.length ∧ buf.length < 2 ^ 31 then ((0, fd), d.write fd (buf.take 0))
    else (DevOp.writeFile fd buf).handle d
  | o, d => o.handle d

theorem device_step_failsAt (q : Path) (o : DevOp) (d : Disk) :
    (device (faultsOf true)).step o d (failsAt q o d).1 (failsAt q o d).2 := by
  cases o with
  | writeFile fd buf =>
    simp only [failsAt]
    split_ifs with h
    · exact Or.inr (.writeFile (show true = true from rfl) h.2.2 (by omega))
    · exact device_step_handle _ _ _
  | openFile => exact device_step_handle _ _ _
  | closeFile => exact device_step_handle _ _ _
  | readFile => exact device_step_handle _ _ _
  | seekFile => exact device_step_handle _ _ _
  | deleteFile => exact device_step_handle _ _ _
  | removeDir => exact device_step_handle _ _ _

theorem decode_hiRom : decode (fun _ => true) hiRom =
    .ok ⟨layout 23 [⟨ascii "hi.txt", [1, 2, 3]⟩], hiRom.length⟩ := by decide

theorem romPath_hi : RomPath (samplePlatform hiRom) (ascii "/ldata/hi.txt") :=
  ⟨_, decode_hiRom, _, List.mem_cons_self, Or.inr (by decide)⟩

/-- A boot in which the only file cannot be written leaves the flag all the same.  The next one is cut
after it has opened the file, and from then on the file is there, empty, with the flag. -/
theorem not_crash_safe_hi : ¬ ∀ (P : Platform) (w : World),
    Relation.ReflTransGen (fun w w' => ∃ e : Event, e.Step P w w') .fresh w → Safe P w := by
  intro h
  obtain ⟨r, d₁, d₂, hboot, hcut, hflag, hfile, hgone⟩ : ∃ r d₁ d₂,
      (loadLuadb (samplePlatform hiRom) {}).run (failsAt (ascii "/ldata/hi.txt")) (fun _ => none) =
        some (r, d₁) ∧
      (loadLuadb (samplePlatform hiRom) {}).runFor DevOp.handle 9 d₁ = d₂ ∧
      flagMissing (samplePlatform hiRom) d₂ = false ∧ d₂ (ascii "/ldata/hi.txt") = some [] ∧
      d₁ LUA_UPDATE_FILE = none :=
    ⟨_, _, _, rfl, rfl, rfl, rfl, rfl⟩
  have hfirst : (Event.boot true).Step (samplePlatform hiRom) .fresh
      ⟨d₁, World.fresh.seen (samplePlatform hiRom)⟩ :=
    ⟨rfl, r, Prog.finishes_of_run hboot (device_step_failsAt _)⟩
  have hsecond : (Event.cut false).Step (samplePlatform hiRom)
      ⟨d₁, World.fresh.seen (samplePlatform hiRom)⟩
      ⟨d₂, World.seen (samplePlatform hiRom) ⟨d₁, World.fresh.seen (samplePlatform hiRom)⟩⟩ :=
    ⟨rfl, hcut ▸ Prog.visits_runFor (device_step_handle _) 9⟩
  have hsafe := h _ _ ((Relation.ReflTransGen.single ⟨_, hfirst⟩).tail ⟨_, hsecond⟩) hflag _
    romPath_hi [] hfile
  rcases hsafe with ⟨out, hdec, f, hf, -, hc⟩ | ⟨u, hu, -⟩
  · cases decode_hiRom.symm.trans hdec
    have hall : ∀ f ∈ layout 23 [⟨ascii "hi.txt", [1, 2, 3]⟩],
        entryContent (samplePlatform hiRom) hiRom f ≠ some [] := by decide
    exact hall f hf hc
  · rcases hu with (hu | ⟨hu, -⟩) | ⟨hu, -⟩
    · exact hu
    · cases hu
    · cases hgone.symm.trans hu

/-- The first boot is cut when it has opened the file, and the second rewrites it. -/
theorem crash_safe_hi : ∃ d, Safe (samplePlatform hiRom) d ∧
    flagMissing (samplePlatform hiRom) d.disk = false ∧
    d.disk (ascii "/ldata/hi.txt") = some [1, 2, 3] := by
  obtain ⟨d₁, r, d₂, hcut, hboot, hflag, hfile, hgone⟩ : ∃ d₁ r d₂,
      (loadLuadb (samplePlatform hiRom) {}).runFor DevOp.handle 4 (fun _ => none) = d₁ ∧
      (loadLuadb (samplePlatform hiRom) {}).run DevOp.handle d₁ = some (r, d₂) ∧
      flagMissing (samplePlatform hiRom) d₂ = false ∧ d₂ (ascii "/ldata/hi.txt") = some [1, 2, 3] ∧
      d₁ LUA_UPDATE_FILE = none :=
    ⟨_, _, _, rfl, rfl, rfl, rfl, rfl⟩
  let w₁ : World := ⟨d₁, World.fresh.seen (samplePlatform hiRom)⟩
  have hcut' : (Event.cut false).Step (samplePlatform hiRom) .fresh w₁ :=
    ⟨rfl, by subst hcut; exact Prog.visits_runFor (device_step_handle _) 4⟩
  have hboot' : (Event.boot false).Step (samplePlatform hiRom) w₁
      ⟨d₂, w₁.seen (samplePlatform hiRom)⟩ :=
    ⟨rfl, r, Prog.finishes_of_run hboot (device_step_handle _)⟩
  have hmeets : (Event.cut false).Meets (samplePlatform hiRom) .fresh :=
    ⟨fun _ p _ => Or.inr (Or.inl (OkAt.of_none rfl)), fun hmiss => absurd hmiss (by decide)⟩
  have hmeets' : (Event.boot false).Meets (samplePlatform hiRom) w₁ := by
    rintro - p ⟨out, hdec, f, hf, hp⟩
    cases decode_hiRom.symm.trans hdec
    have hno : ¬ UpdateTable (samplePlatform hiRom) d₁ p := by
      rintro ⟨c, _, hc, -⟩
      cases hgone.symm.trans hc
    refine Or.inr (Or.inr ⟨by decide, _, decode_hiRom, ?_⟩)
    cases List.mem_singleton.1 hf
    exact .here hp hno (.stored hp hno rfl (by decide))
  exact ⟨_, crash_safe safe_fresh (.tail (.single ⟨_, hmeets, hcut'⟩) ⟨_, hmeets', hboot'⟩), hflag,
    hfile⟩

end OsdCore
