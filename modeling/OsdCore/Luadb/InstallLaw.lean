import Mathlib.Data.List.TakeWhile
import OsdCore.Luadb.Contents
import OsdCore.Stdio.OpenRead

/-!
# The install law

The image in ROM, forced onto an empty file system that takes every write, should install without an
error, and every listed file should then read back as its payload.

* `installLaw_iff` : for images with well-behaved names, that is so exactly when every entry is
  `Installable`; an empty file of the file system is not.
-/

namespace OsdCore

open Stdio

/-- The payload of a listed file: its data, decompressed if the name ends with `.zip`. -/
def payload (P : Platform) (img : Image) (file : DbFileInfo) : Option Bytes :=
  if isZip file.name then
    match lzmaDecode P (img.bytes.drop file.data) file.length with
    | some (.ok c) => some c
    | _ => none
  else memcpyFrom (img.bytes.drop file.data) 0 file.length

/-- The images the law is about. -/
structure LawDomain (P : Platform) (out : Decoded) : Prop where
  decode_rom : decode P.alloc P.rom = .ok out
  length_name : ∀ f ∈ out.files, 9 ≤ f.name.length ∧ f.name.length ≤ 240
  name_nul : ∀ f ∈ out.files, 0 ∉ f.name
  not_luae : ∀ f ∈ out.files, ¬ ascii ".luae" <:+ f.name ∧
    (isZip f.name → ¬ ascii ".luae" <:+ withoutZip f.name)
  distinct : out.files.Pairwise fun f g => installPath f.name ≠ installPath g.name
  zip : ∀ f ∈ out.files, isZip f.name →
    ∃ c, lzmaDecode P (P.rom.bytes.drop f.data) f.length = some (.ok c)

/-- **The install law**: `parse_luadb_data` installs the image in ROM on an empty disk without an
error, and every listed file then reads back as its payload, by an `fread` of its length or of any
smaller or larger number of bytes below 2 GiB. -/
def InstallLaw (P : Platform) (out : Decoded) : Prop :=
  ∃ restart σ d, MProg.run DevOp.handle (parseLuadbData P P.rom true .flash) {} (fun _ => none) =
      some ((LUADB_ERR_NONE, restart), σ, d) ∧
    ∀ f ∈ out.files, ∃ c, payload P P.rom f = some c ∧ ∀ n, n < 2 ^ 31 ∨ n = c.length →
      MProg.run DevOp.handle (openAndRead P (installPath f.name) n) σ d = some (some (c.take n), σ, d)

/-- The file stays in its image. -/
def staysInImage (file : DbFileInfo) : Prop := ¬ isZip file.name ∧ isTable file.name

instance (file : DbFileInfo) : Decidable (staysInImage file) := inferInstanceAs (Decidable (_ ∧ _))

/-- **The entries the law holds of**: the payload is there and smaller than 2 GiB; a file that stays in
its image has memory for its item and begins below 2 GiB; any other file is not empty. -/
def Installable (P : Platform) (file : DbFileInfo) : Prop :=
  ∃ c, payload P P.rom file = some c ∧ c.length < 2 ^ 31 ∧
    if staysInImage file then
      allocItem P (installPath file.name) = true ∧ (c ≠ [] → file.offset < 2 ^ 31)
    else c ≠ []

/-! ### Names of the domain -/

theorem cstr_eq_self {b : Bytes} (h : 0 ∉ b) : cstr b = b := by
  refine List.takeWhile_eq_self_iff.2 fun x hx => ?_
  simpa using fun h0 : x = 0 => h (h0 ▸ hx)

theorem length_cstr_le (b : Bytes) : (cstr b).length ≤ b.length :=
  (List.takeWhile_prefix _).length_le

theorem length_pathOf_le (name : Bytes) : (pathOf name).length ≤ 7 + name.length := by
  have := length_cstr_le name
  unfold pathOf
  split_ifs <;> simp [LUA_DIR, LUA_DATA_DIR, ascii] <;> omega

/-- A name of the domain is handled inside the buffers. -/
theorem safeName_of_length {name : Bytes} (h9 : 9 ≤ name.length) (h240 : name.length ≤ 240) :
    SafeName name := by
  have h1 := length_pathOf_le name
  have h2 := length_pathOf_le (withoutZip name)
  have h3 := length_withoutZip name
  intro _
  split_ifs
  · exact ⟨Or.inl (by omega), by omega⟩
  · omega

theorem classify_long {name : Bytes} (hsafe : SafeName name) (h4 : 4 < name.length)
    (h255 : name.length ≤ 255) : classify name =
      some (if isZip name then .zip (installPath name)
        else if isTable name then .table (installPath name) else .plain (installPath name)) := by
  rw [classify_eq h255, if_pos hsafe, targetOf, if_neg (by omega)]
  unfold installPath
  split_ifs <;> rfl

/-- A name that does not end with `.luae` stands for a path that does not. -/
theorem not_luae_pathOf {name : Bytes} (h5 : 5 ≤ name.length) (hnul : 0 ∉ name)
    (h : ¬ ascii ".luae" <:+ name) : ¬ ascii ".luae" <:+ pathOf name := by
  unfold pathOf
  rw [cstr_eq_self hnul]
  intro hs
  exact h (List.suffix_of_suffix_length_le hs (List.suffix_append _ _) (by simpa [ascii] using h5))

theorem underLua_installPath (name : Bytes) : UnderLua (installPath name) := by
  unfold installPath
  split_ifs <;> exact pathOf_underLua _

variable {P : Platform} {out : Decoded}

/-- The name of the file is handled by its ending. -/
def DbFileInfo.Classified (f : DbFileInfo) : Prop :=
  classify f.name = some (if isZip f.name then .zip (installPath f.name)
    else if isTable f.name then .table (installPath f.name) else .plain (installPath f.name))

namespace DbFileInfo.Classified

variable {f : DbFileInfo} {img : Image} {c : Bytes}

theorem tablePath (h : f.Classified) (hstay : staysInImage f) : TablePath f (installPath f.name) := by
  rw [TablePath, h, if_neg hstay.1, if_pos hstay.2]

theorem fsPath (h : f.Classified) (hstay : ¬ staysInImage f) : FsPath f (installPath f.name) := by
  unfold FsPath
  rw [h]
  by_cases hzip : isZip f.name
  · simp [hzip]
  · simp [hzip, show ¬ isTable f.name from fun ht => hstay ⟨hzip, ht⟩]

theorem entryPath_eq (h : f.Classified) : entryPath f = some (installPath f.name) := by
  by_cases hstay : staysInImage f
  · exact (h.tablePath hstay).entryPath
  · exact (h.fsPath hstay).entryPath

/-- What goes to the file system is the payload. -/
theorem entryContent_eq (h : f.Classified) (hstay : ¬ staysInImage f) :
    entryContent P img f = payload P img f := by
  unfold entryContent payload
  rw [h]
  by_cases hzip : isZip f.name
  · rcases lzmaDecode P (img.bytes.drop f.data) f.length with _ | _ | _ <;>
      simp only [hzip, ↓reduceIte]
  · simp [hzip, show ¬ isTable f.name from fun ht => hstay ⟨hzip, ht⟩]

end DbFileInfo.Classified

/-- The payload of a file that stays in its image, by its offset. -/
theorem payload_table {img : Image} {f : DbFileInfo} {c : Bytes} (hdec : decode P.alloc img = .ok out)
    (hf : f ∈ out.files) (hstay : staysInImage f) (hc : payload P img f = some c) :
    c.length = f.length ∧ memcpyFrom img.bytes f.offset f.length = some c := by
  obtain ⟨-, hle, hoffset⟩ := decode_data hdec f hf
  unfold Image.length at hle
  rw [payload, if_neg hstay.1] at hc
  have hin := memcpyFrom_bounds hc
  unfold memcpyFrom at hc
  rw [if_pos hin] at hc
  rw [List.length_drop] at hin
  cases hc
  simp only [slice, Int.toNat_zero, List.drop_zero, List.length_take, List.length_drop]
  refine ⟨by omega, ?_⟩
  rw [memcpyFrom, if_pos (by omega), hoffset]
  rfl

/-- A payload is smaller than 4 GiB. -/
theorem length_payload {img : Image} {f : DbFileInfo} {c : Bytes} (hdec : decode P.alloc img = .ok out)
    (hf : f ∈ out.files) (hc : payload P img f = some c) : c.length < sizeEOF := by
  have hsize := img.size_lt
  obtain ⟨hpos, -, -⟩ := decode_data hdec f hf
  unfold sizeEOF
  unfold payload at hc
  split_ifs at hc with hzip
  · split at hc
    · next hlz =>
      cases hc
      have := length_lzmaDecode hlz
      omega
    · cases hc
  · have hin := memcpyFrom_bounds hc
    unfold memcpyFrom at hc
    rw [if_pos hin] at hc
    cases hc
    rw [List.length_drop] at hin
    simp only [slice, Int.toNat_zero, List.length_take, List.length_drop]
    omega

/-! ### Reading what is installed -/

section

variable {σ : StdioState} {d : Disk} {f : DbFileInfo} {c : Bytes} {k : ℕ}

/-- A file of the file system reads as its payload. -/
theorem read_installed_fs (hdec : decode P.alloc P.rom = .ok out) (hf : f ∈ out.files)
    (hcl : f.Classified) (hstay : ¬ staysInImage f) (hinst : Installed P P.rom f σ d) (hidle : σ.Idle)
    (hu : ¬ σ.InUpdate (installPath f.name)) (hk : k < 2 ^ 31) :
    ∃ c, payload P P.rom f = some c ∧
      MProg.run DevOp.handle (openAndRead P (installPath f.name) k) σ d =
        some (some (fileView P (installPath f.name) c k), σ, d) := by
  obtain ⟨c, hc, hd, hrep⟩ := hinst.1 _ (hcl.fsPath hstay)
  rw [hcl.entryContent_eq hstay] at hc
  have hlt := ((fwriteReport_eq_iff (length_payload hdec hf hc)).1 hrep).2
  exact ⟨c, hc, run_openAndRead_file hidle (underLua_installPath _).length hu hd hlt hk⟩

/-- A file that stays in its image, below 2 GiB, reads as its payload. -/
theorem read_installed_table (hdec : decode P.alloc P.rom = .ok out) (hf : f ∈ out.files)
    (hstay : staysInImage f) (hitem : σ.flashItem (installPath f.name) =
      some (tableItem f (installPath f.name))) (hd : d (installPath f.name) = none) (hidle : σ.Idle)
    (hu : ¬ σ.InUpdate (installPath f.name)) (hc : payload P P.rom f = some c)
    (hlt : c.length < 2 ^ 31) (hoffset : c ≠ [] → f.offset < 2 ^ 31) (hk : k < 2 ^ 31) :
    MProg.run DevOp.handle (openAndRead P (installPath f.name) k) σ d =
      some (some (fileView P (installPath f.name) c k), σ, d) := by
  obtain ⟨hsize, hrom⟩ := payload_table hdec hf hstay hc
  refine run_openAndRead_table hidle (underLua_installPath _).length hu hd hitem
    ⟨hlt, ?_, fun hne => ?_⟩ hk
  · simp only [tableItem, hsize, toInt32_of_lt (show f.length < 2 ^ 31 by omega)]
  · rw [tableItem, toInt32_of_lt (hoffset hne), hsize]
    exact hrom

end

namespace LawDomain

theorem classified (h : LawDomain P out) {f : DbFileInfo} (hf : f ∈ out.files) : f.Classified := by
  obtain ⟨h9, h240⟩ := h.length_name f hf
  exact classify_long (safeName_of_length h9 h240) (by omega) (by omega)

theorem distinctPaths (h : LawDomain P out) : DistinctPaths out.files := by
  refine h.distinct.imp_of_mem fun {f g} hf hg hne p hp hq => hne ?_
  rw [(h.classified hf).entryPath_eq, Option.some_inj] at hp
  rw [(h.classified hg).entryPath_eq, Option.some_inj] at hq
  rw [hp, hq]

theorem not_luae_path (h : LawDomain P out) {f : DbFileInfo} (hf : f ∈ out.files) :
    ¬ ascii ".luae" <:+ installPath f.name := by
  obtain ⟨h9, -⟩ := h.length_name f hf
  have hnul := h.name_nul f hf
  obtain ⟨hplain, hzip⟩ := h.not_luae f hf
  unfold installPath
  split_ifs with hz
  · have hlen := length_withoutZip f.name
    exact not_luae_pathOf (by omega) (fun h0 => hnul (List.mem_of_mem_take h0)) (hzip hz)
  · exact not_luae_pathOf (by omega) hnul hplain

/-- Which entries of the domain a forced write phase installs. -/
theorem entryInstalls_iff (h : LawDomain P out) {f : DbFileInfo} (hf : f ∈ out.files) :
    EntryInstalls P P.rom (fun _ => False) f ↔
      if staysInImage f then allocItem P (installPath f.name) = true
      else ∃ c, payload P P.rom f = some c ∧ c ≠ [] ∧ c.length < 2 ^ 31 := by
  have hreport : ∀ {c : Bytes}, payload P P.rom f = some c →
      (fwriteReport c.length = c.length ↔ c ≠ [] ∧ c.length < 2 ^ 31) := fun hc => by
    rw [fwriteReport_eq_iff (length_payload h.decode_rom hf hc), List.length_pos_iff]
  split_ifs with hstay
  · have htab := (h.classified hf).tablePath hstay
    refine ⟨fun hinst => ?_, .table htab⟩
    cases hinst with
    | skip hcl => rw [TablePath, hcl] at htab; cases htab
    | table hp halloc =>
      have hpath := htab.entryPath
      rw [hp.entryPath, Option.some_inj] at hpath
      rwa [← hpath]
    | stored hp => exact absurd hp htab.not_fsPath
    | hidden hcl => exact absurd (Or.inr hcl) htab.not_fsPath
  · have hfs := (h.classified hf).fsPath hstay
    rw [← (h.classified hf).entryContent_eq hstay] at hreport ⊢
    constructor
    · intro hinst
      cases hinst with
      | skip hcl => rcases hfs with hfs | hfs <;> rw [hcl] at hfs <;> cases hfs
      | table hp => exact absurd hfs hp.not_fsPath
      | stored _ _ hc hrep => exact ⟨_, hc, (hreport hc).1 hrep⟩
      | hidden _ hno => exact absurd hno id
    · rintro ⟨c, hc, hcond⟩
      exact .stored hfs id hc ((hreport hc).2 hcond)

end LawDomain

/-! ### The law -/

/-- The run of the write phase on the empty disk. -/
theorem run_rom_iff (h : decode P.alloc P.rom = .ok out) {restart : Bool} {σ : StdioState} {d : Disk} :
    MProg.run DevOp.handle (parseLuadbData P P.rom true .flash) {} (fun _ => none) =
        some ((LUADB_ERR_NONE, restart), σ, d) ↔
      restart = false ∧ ∃ fl, pass P P.rom true .flash out.files ⟨{}, fun _ => none, {}⟩ =
        some (LUADB_ERR_NONE, ⟨σ, d, fl⟩) := by
  rw [run_parseLuadbData StdioState.idle_init, parsePass_flash h, Option.map_eq_some_iff]
  constructor
  · rintro ⟨⟨err, σ', d', fl⟩, hpass, heq⟩
    cases heq
    exact ⟨rfl, fl, hpass⟩
  · rintro ⟨rfl, fl, hpass⟩
    exact ⟨_, hpass, rfl⟩

section

variable {σ : StdioState} {d : Disk} {fl : PassFlags} {f : DbFileInfo} {c : Bytes}

/-- After the write phase there is a slot for a stream, and nothing in the update's table. -/
theorem idle_of_pass (hpass : pass P P.rom true .flash out.files ⟨{}, fun _ => none, {}⟩ =
    some (LUADB_ERR_NONE, ⟨σ, d, fl⟩)) : σ.Idle ∧ ∀ p, ¬ σ.InUpdate p := by
  obtain ⟨hupd, hopen⟩ := pass_flash_update hpass
  refine ⟨?_, ?_⟩
  · rw [StdioState.Idle, hopen]
    decide
  · rintro p ⟨item, hmem, -⟩
    rw [hupd] at hmem
    cases hmem

/-- After the write phase, everything is installed. -/
theorem installed_of_pass (h : LawDomain P out)
    (hpass : pass P P.rom true .flash out.files ⟨{}, fun _ => none, {}⟩ =
      some (LUADB_ERR_NONE, ⟨σ, d, fl⟩)) (hf : f ∈ out.files) : Installed P P.rom f σ d :=
  pass_contents h.distinctPaths ⟨rfl, fun _ _ _ _ => rfl, fun h => absurd h (by decide)⟩ hpass f hf

/-- A file of the file system reads back. -/
theorem read_of_pass_fs (h : LawDomain P out)
    (hpass : pass P P.rom true .flash out.files ⟨{}, fun _ => none, {}⟩ =
      some (LUADB_ERR_NONE, ⟨σ, d, fl⟩)) (hf : f ∈ out.files) (hstay : ¬ staysInImage f)
    (hc : payload P P.rom f = some c) {n : ℕ} (hn : n < 2 ^ 31) :
    MProg.run DevOp.handle (openAndRead P (installPath f.name) n) σ d =
      some (some (c.take n), σ, d) := by
  obtain ⟨hidle, hu⟩ := idle_of_pass hpass
  obtain ⟨c', hc', hread⟩ := read_installed_fs h.decode_rom hf (h.classified hf) hstay
    (installed_of_pass h hpass hf) hidle (hu _) hn
  cases hc.symm.trans hc'
  rw [hread, fileView, if_neg (h.not_luae_path hf)]

/-- A file that stays in its image is found in the table only. -/
theorem item_of_pass (h : LawDomain P out)
    (hpass : pass P P.rom true .flash out.files ⟨{}, fun _ => none, {}⟩ =
      some (LUADB_ERR_NONE, ⟨σ, d, fl⟩)) (hf : f ∈ out.files) (hstay : staysInImage f) :
    d (installPath f.name) = none ∧
      σ.flashItem (installPath f.name) = some (tableItem f (installPath f.name)) := by
  have htab := (h.classified hf).tablePath hstay
  refine ⟨pass_frame_disk hpass fun g hg hp => ?_, ((installed_of_pass h hpass hf).2 _ htab).2⟩
  obtain rfl := h.distinctPaths.unique hf hg htab.entryPath hp.entryPath
  exact htab.not_fsPath hp

/-- A file that stays in its image reads back if its length and offset fit an `int`, and only then. -/
theorem read_of_pass_table_iff (h : LawDomain P out)
    (hpass : pass P P.rom true .flash out.files ⟨{}, fun _ => none, {}⟩ =
      some (LUADB_ERR_NONE, ⟨σ, d, fl⟩)) (hf : f ∈ out.files) (hstay : staysInImage f)
    (hc : payload P P.rom f = some c) :
    (∀ n, n < 2 ^ 31 ∨ n = c.length → MProg.run DevOp.handle (openAndRead P (installPath f.name) n) σ d =
      some (some (c.take n), σ, d)) ↔ c.length < 2 ^ 31 ∧ (c ≠ [] → f.offset < 2 ^ 31) := by
  have h5 := (underLua_installPath f.name).length
  have henc := h.not_luae_path hf
  obtain ⟨hidle, hu⟩ := idle_of_pass hpass
  obtain ⟨hd, hitem⟩ := item_of_pass h hpass hf hstay
  obtain ⟨hsize, hrom⟩ := payload_table h.decode_rom hf hstay hc
  have hlen := length_payload h.decode_rom hf hc
  unfold sizeEOF at hlen
  have hoff : f.offset < 2 ^ 32 := by
    have hin := memcpyFrom_bounds hrom
    have := P.rom.size_lt
    omega
  constructor
  · intro hread
    rcases eq_or_ne c [] with rfl | hne
    · exact ⟨by decide, fun h => absurd rfl h⟩
    have hpos := List.length_pos_iff.2 hne
    have hfull : toU32 (toInt32 f.length) = c.length := by
      unfold toU32 toInt32
      split_ifs <;> omega
    have hrun := fun n hn => (run_openAndRead_item (P := P) (n := n) h5 hidle (hu _) hd hitem henc hn)
    simp only [tableItem, hfull] at hrun
    have hlt : c.length < 2 ^ 31 := by
      -- an `fread` of 2 GiB or more gives nothing
      by_contra hge
      have hall := hread c.length (Or.inr rfl)
      have hneg : toInt32 c.length ≤ 0 := by
        have := (toInt32_nonneg_iff (n := c.length) (by omega)).not.2 hge
        omega
      rw [hrun _ ⟨hpos, by omega⟩, if_pos (le_refl _), if_pos hneg, List.take_length] at hall
      cases hall
      exact hne rfl
    refine ⟨hlt, fun _ => (toInt32_nonneg_iff hoff).1 ?_⟩
    have hone := hread 1 (Or.inl (by decide))
    rw [hrun 1 ⟨by decide, by decide⟩, if_pos (show c.length ≥ 1 from hpos), if_neg (by decide)] at hone
    obtain ⟨buf, hbuf, -⟩ := Option.map_eq_some_iff.1 hone
    exact (memcpyFrom_bounds hbuf).1
  · rintro ⟨hlt, hoffset⟩ n hn
    rw [read_installed_table h.decode_rom hf hstay hitem hd hidle (hu _) hc hlt hoffset (by omega),
      fileView, if_neg henc]

end

/-- **The install law holds exactly of the images whose entries are all `Installable`.** -/
theorem installLaw_iff (h : LawDomain P out) :
    InstallLaw P out ↔ ∀ f ∈ out.files, Installable P f := by
  have hempty : (({} : StdioState).InUpdate) = fun _ => False := by
    funext p
    simp [StdioState.InUpdate]
  constructor
  · rintro ⟨restart, σ, d, hrun, hread⟩ f hf
    obtain ⟨-, fl, hpass⟩ := (run_rom_iff h.decode_rom).1 hrun
    have hinst := installs_flash_iff.1 (pass_none_iff.1 ⟨_, hpass⟩) f hf
    rw [hempty, h.entryInstalls_iff hf] at hinst
    obtain ⟨c, hc, hread⟩ := hread f hf
    unfold Installable
    by_cases hstay : staysInImage f
    · rw [if_pos hstay] at hinst
      obtain ⟨hlt, hoff⟩ := (read_of_pass_table_iff h hpass hf hstay hc).1 hread
      exact ⟨c, hc, hlt, by rw [if_pos hstay]; exact ⟨hinst, hoff⟩⟩
    · rw [if_neg hstay] at hinst
      obtain ⟨c, hc, hne, hlt⟩ := hinst
      exact ⟨c, hc, hlt, by rwa [if_neg hstay]⟩
  · intro hall
    have hinst : Installs P P.rom .flash ({} : StdioState).InUpdate out.files :=
      installs_flash_iff.2 fun f hf => by
        rw [hempty, h.entryInstalls_iff hf]
        obtain ⟨c, hc, hlt, hcond⟩ := hall f hf
        split_ifs at hcond ⊢
        · exact hcond.1
        · exact ⟨c, hc, hcond, hlt⟩
    obtain ⟨⟨σ, d, fl⟩, hpass⟩ : ∃ st, pass P P.rom true .flash out.files ⟨{}, fun _ => none, {}⟩ =
        some (LUADB_ERR_NONE, st) := pass_none_iff.2 hinst
    refine ⟨false, σ, d, (run_rom_iff h.decode_rom).2 ⟨rfl, fl, hpass⟩, fun f hf => ?_⟩
    obtain ⟨c, hc, hlt, hcond⟩ := hall f hf
    refine ⟨c, hc, ?_⟩
    by_cases hstay : staysInImage f
    · rw [if_pos hstay] at hcond
      exact (read_of_pass_table_iff h hpass hf hstay hc).2 ⟨hlt, hcond.2⟩
    · exact fun n hn => read_of_pass_fs h hpass hf hstay hc (by omega)

/-! ### Sample images -/

/-- The LZMA stream of `hi`. -/
def hiStream : Bytes :=
  [93, 0, 16, 0, 0, 2, 0, 0, 0, 0, 0, 0, 0, 0, 52, 26, 92, 255, 255, 255, 255, 240, 0, 0, 0]

/-- A platform with memory to spare and no encryption, whose decoder knows one stream. -/
def samplePlatform (rom : Image) : Platform where
  rom := rom
  alloc _ := true
  lzmaDec props src size :=
    if props ++ src = hiStream.take 5 ++ hiStream.drop 13 ∧ size = 2 then some ⟨ascii "hi", 12⟩
    else none
  cipher := ⟨id, fun _ => rfl⟩
  junk _ := 0

/-- An image with one empty file, `empty.txt`. -/
def emptyFileImage : Image where
  bytes := encodeImage 0 [⟨ascii "empty.txt", []⟩]
  size_lt := by decide

/-- An empty file cannot be installed: `fwrite` reports an error for 0 bytes. -/
theorem not_installLaw_emptyFile :
    ¬ ∀ (P : Platform) (out : Decoded), LawDomain P out → InstallLaw P out := by
  intro h
  have hzip : ∀ f ∈ layout 23 [⟨ascii "empty.txt", []⟩], ¬ isZip f.name := by decide
  have hdom : LawDomain (samplePlatform emptyFileImage) ⟨layout 23 [⟨ascii "empty.txt", []⟩], 50⟩ :=
    ⟨by decide, by decide, by decide, by decide, by decide, fun f hf hz => absurd hz (hzip f hf)⟩
  have herr : (parsePass (samplePlatform emptyFileImage) emptyFileImage true .flash {}
      fun _ => none).map (·.1.1) = some LUADB_ERR_WRITE_FILE := by decide
  obtain ⟨restart, σ, d, hrun, -⟩ := h _ _ hdom
  rw [run_parseLuadbData StdioState.idle_init] at hrun
  exact absurd (herr.symm.trans (congrArg (Option.map (·.1.1)) hrun)) (by simp; decide)

/-- An image with one file of each kind. -/
def lawFiles : List LuadbFile :=
  [⟨ascii "hi.txt.zip", hiStream⟩, ⟨ascii "notes.txt", [1, 2, 3]⟩, ⟨ascii "start.lua", [4]⟩]

set_option maxRecDepth 2000 in
def lawImage : Image where
  bytes := encodeImage 0 lawFiles
  size_lt := by decide

set_option maxRecDepth 2000 in
theorem installLaw_iff_sample :
    InstallLaw (samplePlatform lawImage) ⟨layout 23 lawFiles, lawImage.length⟩ ↔
      ∀ f ∈ layout 23 lawFiles, Installable (samplePlatform lawImage) f := by
  have hzip : ∀ f ∈ layout 23 lawFiles, isZip f.name → lzmaDecode (samplePlatform lawImage)
      (lawImage.bytes.drop f.data) f.length = some (.ok (ascii "hi")) := by decide
  exact installLaw_iff ⟨by decide, by decide, by decide, by decide, by decide,
    fun f hf hz => ⟨_, hzip f hf hz⟩⟩

end OsdCore
