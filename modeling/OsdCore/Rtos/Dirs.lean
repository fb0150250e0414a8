import Mathlib.Data.List.DropRight
import Mathlib.Data.List.GetD
import OsdCore.Device.Disk
import OsdCore.Format.CString

/-!
# Making and removing directories: `platform_rtos.c`

The path comes from `luaL_checklstring`: it is the storage of an interned string, its length is a
`size_t` that is passed on as an `int`.

* `platformMakeDir`, `platformRemoveDir` : the same guard before two calls of the operating system.
* `namedDir` : the directory that a path names, whatever slashes follow it.
* `DirCall.Guarded` : what the guard is for.
* `dirs_guarded_iff` : the paths for which it does that.
-/

namespace OsdCore

/-! ### The functions -/

/-- What a call does with its path. -/
structure DirCall where
  /-- The path that the operating system is given. -/
  passed : Option Bytes
  /-- The caller's storage afterwards. -/
  string : Bytes
  /-- How many bytes from `pDir` on are read. -/
  reach : ℕ
  ret : Bool
deriving DecidableEq, Repr

/-- `sysDir`. -/
def sysDir : List Bytes :=
  [ascii "/", ascii "/lua", ascii "/ldata", ascii "/luazip", ascii "/RecDir"]

/-- The loop over `sysDir`: whether an entry is the path, and how far `memcmp` reads it. -/
def sysDirLoop (pDir : Bytes) (length : ℤ) : List Bytes → Bool × ℕ
  | [] => (false, 0)
  | dir :: dirs =>
    if pDir.take dir.length = dir ∧ (dir.length : ℤ) = length % 2 ^ 32 then (true, dir.length)
    else ((sysDirLoop pDir length dirs).1, max dir.length (sysDirLoop pDir length dirs).2)

/-- The common body: `os` is the call of the operating system. -/
def guardedDir (os : Bytes → Bool) (pDir : Bytes) (len : ℤ) : DirCall :=
  if len = 0 then { passed := none, string := pDir, reach := 0, ret := false }
  else
    let strip := decide (1 < len ∧ pDir.getD (len - 1).toNat 0 = slash)
    let length := if strip then len - 1 else len
    let string := if strip then pDir.set (len - 1).toNat 0 else pDir
    let scan := sysDirLoop string length sysDir
    let reach := max len.toNat scan.2
    if scan.1 then { passed := none, string := string, reach := reach, ret := false }
    else { passed := some (cstr string), string := string, reach := reach, ret := os (cstr string) }

/-- `platform_make_dir`. -/
def platformMakeDir (makeDir : Bytes → ℤ → ℤ) (pDir : Bytes) (len : ℤ) : DirCall :=
  guardedDir (fun path => decide (makeDir path 0 = 0)) pDir len

/-- `platform_remove_dir`. -/
def platformRemoveDir (removeDir : Bytes → ℤ) (pDir : Bytes) (len : ℤ) : DirCall :=
  guardedDir (fun path => decide (removeDir path = 0)) pDir len

/-- `l_make_dir`. -/
def lMakeDir (makeDir : Bytes → ℤ → ℤ) (s : LuaString) : DirCall :=
  platformMakeDir makeDir s.storage (toInt32 s.bytes.length)

/-- `l_remove_dir`. -/
def lRemoveDir (removeDir : Bytes → ℤ) (s : LuaString) : DirCall :=
  platformRemoveDir removeDir s.storage (toInt32 s.bytes.length)

/-! ### What they are for -/

/-- The path without its trailing slashes; a path of slashes only is the root. -/
def namedDir (path : Bytes) : Bytes :=
  if path.rdropWhile (· = slash) = [] then ascii "/" else path.rdropWhile (· = slash)

/-- The path names one of the system's directories. -/
def Protected (path : Bytes) : Prop := path ≠ [] ∧ namedDir path ∈ sysDir

/-- What the guard is for.  The empty string is no path: it is refused. -/
structure DirCall.Guarded (s : LuaString) (call : DirCall) : Prop where
  denies : ∀ path, call.passed = some path → ¬ Protected path
  passes : s.bytes ≠ [] → ¬ Protected s.bytes → call.passed = some (namedDir s.bytes)
  reads : call.reach ≤ s.storage.length
  keeps : call.string = s.storage

/-- The paths that the guard treats so: without a NUL, without a trailing slash, and not shorter than
the storage that the longest entry of `sysDir` is compared with, unless an earlier entry is found. -/
def DirArgument (s : Bytes) : Prop :=
  s = [] ∨ 0 ∉ s ∧
    (s = ascii "/" ∨ s = ascii "/lua" ∨ 6 ≤ s.length ∧ s.getLast? ≠ some slash)

/-! ### What the loop finds -/

/-- The loop as a search for the path itself. -/
def scan (path : Bytes) : List Bytes → Bool × ℕ
  | [] => (false, 0)
  | dir :: dirs =>
    if path = dir then (true, dir.length)
    else ((scan path dirs).1, max dir.length (scan path dirs).2)

theorem sysDirLoop_eq {path rest : Bytes} {length : ℤ} (h : length % 2 ^ 32 = path.length)
    (dirs : List Bytes) : sysDirLoop (path ++ rest) length dirs = scan path dirs := by
  induction dirs with
  | nil => rfl
  | cons dir dirs ih =>
    have hfound : ((path ++ rest).take dir.length = dir ∧ (dir.length : ℤ) = length % 2 ^ 32) ↔
        path = dir := by
      rw [h]
      constructor
      · rintro ⟨htake, hlen⟩
        rwa [List.take_left' (by omega)] at htake
      · rintro rfl
        exact ⟨List.take_left, rfl⟩
    rw [sysDirLoop, scan, ih]
    simp only [hfound]

theorem scan_fst (path : Bytes) (dirs : List Bytes) : (scan path dirs).1 = decide (path ∈ dirs) := by
  induction dirs with
  | nil => rfl
  | cons dir dirs ih =>
    by_cases h : path = dir
    · simp [scan, h]
    · simp [scan, h, ih]

/-- Where the entries get no shorter, the search stops within the path that it finds. -/
theorem scan_snd_of_mem {path : Bytes} {dirs : List Bytes}
    (hs : dirs.Pairwise fun a b => a.length ≤ b.length) (h : path ∈ dirs) :
    (scan path dirs).2 = path.length := by
  induction dirs with
  | nil => cases h
  | cons dir dirs ih =>
    obtain ⟨hle, hs⟩ := List.pairwise_cons.1 hs
    by_cases hp : path = dir
    · simp [scan, hp]
    · have hmem : path ∈ dirs := (List.mem_cons.1 h).resolve_left hp
      rw [scan, if_neg hp]
      simp only [ih hs hmem]
      exact max_eq_right (hle path hmem)

theorem scan_snd_of_notMem {path : Bytes} {dirs : List Bytes} (h : path ∉ dirs) :
    (scan path dirs).2 = dirs.foldr (fun dir n => max dir.length n) 0 := by
  induction dirs with
  | nil => rfl
  | cons dir dirs ih =>
    rw [List.mem_cons, not_or] at h
    rw [scan, if_neg h.1, ih h.2, List.foldr_cons]

/-! ### One call -/

theorem toInt32_emod (s : LuaString) : toInt32 s.bytes.length % 2 ^ 32 = s.bytes.length := by
  have hlt := s.length_lt
  unfold toInt32
  split <;> omega

theorem toInt32_le (s : LuaString) : (toInt32 s.bytes.length).toNat ≤ s.bytes.length := by
  have hlt := s.length_lt
  unfold toInt32
  split <;> omega

theorem toInt32_of_pos {s : LuaString} (h : 0 < toInt32 s.bytes.length) :
    toInt32 s.bytes.length = s.bytes.length := by
  have hlt := s.length_lt
  unfold toInt32 at h ⊢
  split_ifs at h ⊢ <;> omega

theorem toInt32_eq_zero {s : LuaString} : toInt32 s.bytes.length = 0 ↔ s.bytes = [] := by
  have hlt := s.length_lt
  rw [← List.length_eq_zero_iff]
  unfold toInt32
  split <;> omega

/-- The guard cuts the last byte off. -/
def LuaString.Stripped (s : LuaString) : Prop :=
  1 < toInt32 s.bytes.length ∧ s.bytes.getLast? = some slash

theorem getD_last {s : LuaString} (h : 1 < toInt32 s.bytes.length) :
    s.storage.getD (toInt32 s.bytes.length - 1).toNat 0 = slash ↔
      s.bytes.getLast? = some slash := by
  have hlen := @toInt32_of_pos s (by omega)
  have hidx : (toInt32 s.bytes.length - 1).toNat = s.bytes.length - 1 := by omega
  have hlt : s.bytes.length - 1 < s.bytes.length := by omega
  rw [hidx, LuaString.storage, List.getD_append _ _ _ _ hlt, List.getLast?_eq_getElem?,
    List.getD_eq_getElem _ _ hlt, List.getElem?_eq_getElem hlt, Option.some_inj]

/-- A trailing slash is overwritten in the caller's string. -/
theorem guardedDir_stripped {os : Bytes → Bool} {s : LuaString} (h : s.Stripped) :
    (guardedDir os s.storage (toInt32 s.bytes.length)).string ≠ s.storage := by
  obtain ⟨hlen, hlast⟩ := h
  have heq := @toInt32_of_pos s (by omega)
  have hset : s.storage.set (toInt32 s.bytes.length - 1).toNat 0 ≠ s.storage := by
    intro hs
    have hget := (getD_last hlen).2 hlast
    rw [← hs, List.getD_eq_getElem _ _ (by simp [LuaString.storage]; omega),
      List.getElem_set_self] at hget
    exact absurd hget (by decide)
  have hstrip : decide (1 < toInt32 s.bytes.length ∧
      s.storage.getD (toInt32 s.bytes.length - 1).toNat 0 = slash) = true :=
    decide_eq_true ⟨hlen, (getD_last hlen).2 hlast⟩
  simp only [guardedDir, if_neg (show ¬ toInt32 s.bytes.length = 0 by omega), hstrip, if_true]
  split <;> exact hset

/-- Any other string is looked up as it is. -/
theorem guardedDir_kept {os : Bytes → Bool} {s : LuaString} (hs : s.bytes ≠ []) (h : ¬ s.Stripped) :
    guardedDir os s.storage (toInt32 s.bytes.length) =
      { passed := if s.bytes ∈ sysDir then none else some (cstr s.storage)
        string := s.storage
        reach := max (toInt32 s.bytes.length).toNat (scan s.bytes sysDir).2
        ret := if s.bytes ∈ sysDir then false else os (cstr s.storage) } := by
  have hstrip : decide (1 < toInt32 s.bytes.length ∧
      s.storage.getD (toInt32 s.bytes.length - 1).toNat 0 = slash) = false :=
    decide_eq_false fun hd => h ⟨hd.1, (getD_last hd.1).1 hd.2⟩
  have hloop : sysDirLoop s.storage (toInt32 s.bytes.length) sysDir = scan s.bytes sysDir :=
    sysDirLoop_eq (toInt32_emod s) sysDir
  simp only [guardedDir, mt toInt32_eq_zero.1 hs, hstrip, hloop, scan_fst, if_false,
    Bool.false_eq_true, decide_eq_true_eq]
  split <;> rfl

theorem guardedDir_nil {os : Bytes → Bool} {s : LuaString} (hs : s.bytes = []) :
    guardedDir os s.storage (toInt32 s.bytes.length) =
      { passed := none, string := s.storage, reach := 0, ret := false } := by
  rw [guardedDir, if_pos (toInt32_eq_zero.2 hs)]

/-! ### The paths for which the guard does what it is for -/

theorem sysDir_sorted : sysDir.Pairwise fun a b => a.length ≤ b.length := by decide

theorem zero_notMem_sysDir : ∀ dir ∈ sysDir, (0 : UInt8) ∉ dir := by decide

theorem cstr_storage {s : LuaString} (h : 0 ∉ s.bytes) : cstr s.storage = s.bytes := by
  rw [cstr, LuaString.storage, List.takeWhile_append_of_pos]
  · simp
  · intro b hb
    simp only [ne_eq, decide_eq_true_eq]
    rintro rfl
    exact h hb

theorem zero_notMem_cstr (b : Bytes) : 0 ∉ cstr b := by
  intro h
  have hb := List.mem_takeWhile_imp h
  simp at hb

/-- No slash is a NUL: what names a directory without a NUL has none itself. -/
theorem zero_notMem_of_namedDir {path : Bytes} (h : 0 ∉ namedDir path) : 0 ∉ path := by
  intro hz
  rw [← List.rdropWhile_append_rtakeWhile (p := (· = slash)) (l := path), List.mem_append] at hz
  rcases hz with hz | hz
  · unfold namedDir at h
    split_ifs at h with hnil
    · rw [hnil] at hz
      cases hz
    · exact h hz
  · have hslash := List.mem_rtakeWhile_imp hz
    exact absurd (of_decide_eq_true hslash) (by decide)

theorem namedDir_of_last {path : Bytes} (hp : path ≠ []) (h : path.getLast? ≠ some slash) :
    namedDir path = path := by
  have hself : path.rdropWhile (· = slash) = path := by
    rw [List.rdropWhile_eq_self_iff]
    intro hl hlast
    rw [List.getLast?_eq_some_getLast hl] at h
    exact h (congrArg some (of_decide_eq_true hlast))
  rw [namedDir, hself, if_neg hp]

theorem not_stripped_of_argument {s : LuaString} (h : DirArgument s.bytes) : ¬ s.Stripped := by
  rintro ⟨hlen, hlast⟩
  rcases h with hs | ⟨-, hs | hs | ⟨-, hs⟩⟩
  · rw [hs] at hlast
    cases hlast
  · rw [hs] at hlen
    exact absurd hlen (by decide)
  · rw [hs] at hlast
    exact absurd hlast (by decide)
  · exact hs hlast

/-- A path that is not refused is compared with the longest entries. -/
theorem scan_unlisted {path : Bytes} (h : path ∉ sysDir) : (scan path sysDir).2 = 7 := by
  rw [scan_snd_of_notMem h]
  rfl

/-- An entry of `sysDir` names itself. -/
theorem protected_of_mem : ∀ path ∈ sysDir, Protected path := by
  unfold Protected
  decide

theorem guarded_of_argument {os : Bytes → Bool} {s : LuaString} (h : DirArgument s.bytes) :
    (guardedDir os s.storage (toInt32 s.bytes.length)).Guarded s := by
  by_cases hs : s.bytes = []
  · rw [guardedDir_nil hs]
    refine ⟨fun _ hp => ?_, fun hne => absurd hs hne, Nat.zero_le _, rfl⟩
    cases hp
  · rw [guardedDir_kept hs (not_stripped_of_argument h)]
    have hlen := toInt32_le s
    have hstorage : s.storage.length = s.bytes.length + 1 := by simp [LuaString.storage]
    obtain ⟨hzero, harg⟩ := h.resolve_left hs
    by_cases hmem : s.bytes ∈ sysDir
    · constructor
      · intro path hp
        rw [if_pos hmem] at hp
        cases hp
      · intro _ hprot
        exact absurd (protected_of_mem _ hmem) hprot
      · simp only [scan_snd_of_mem sysDir_sorted hmem, hstorage]
        omega
      · rfl
    · have hlong : 6 ≤ s.bytes.length ∧ s.bytes.getLast? ≠ some slash := by
        rcases harg with hp | hp | hp
        · exact absurd (by rw [hp]; decide) hmem
        · exact absurd (by rw [hp]; decide) hmem
        · exact hp
      have hnamed := namedDir_of_last hs hlong.2
      have hpass : (if s.bytes ∈ sysDir then none else some (cstr s.storage)) =
          some (namedDir s.bytes) := by
        rw [if_neg hmem, cstr_storage hzero, hnamed]
      constructor
      · intro path hp hprot
        simp only [hpass, Option.some_inj, hnamed] at hp
        subst hp
        exact hmem (hnamed ▸ hprot.2)
      · intro _ _
        exact hpass
      · simp only [scan_unlisted hmem, hstorage]
        omega
      · rfl

theorem argument_of_guarded {os : Bytes → Bool} {s : LuaString}
    (h : (guardedDir os s.storage (toInt32 s.bytes.length)).Guarded s) : DirArgument s.bytes := by
  by_cases hs : s.bytes = []
  · exact .inl hs
  have hstrip : ¬ s.Stripped := fun hstrip => guardedDir_stripped hstrip h.keeps
  rw [guardedDir_kept hs hstrip] at h
  have hstorage : s.storage.length = s.bytes.length + 1 := by simp [LuaString.storage]
  have hreads := h.reads
  by_cases hmem : s.bytes ∈ sysDir
  · -- The entries that do not end with a slash are long enough, but for `/lua`.
    have hall : ∀ dir ∈ sysDir, DirArgument dir := by
      unfold DirArgument
      decide
    exact hall _ hmem
  · simp only [scan_unlisted hmem, hstorage] at hreads
    have hnotProt : ¬ Protected s.bytes := by
      intro hprot
      have hzero := zero_notMem_of_namedDir (zero_notMem_sysDir _ hprot.2)
      exact h.denies s.bytes (by simp only [if_neg hmem, cstr_storage hzero]) hprot
    have hpass := h.passes hs hnotProt
    simp only [if_neg hmem, Option.some_inj] at hpass
    have hzero : 0 ∉ s.bytes := zero_notMem_of_namedDir (hpass ▸ zero_notMem_cstr _)
    refine .inr ⟨hzero, .inr (.inr ⟨by omega, ?_⟩)⟩
    intro hlast
    rw [cstr_storage hzero] at hpass
    unfold namedDir at hpass
    split_ifs at hpass with hnil
    · exact hmem (hpass ▸ by decide)
    · have hself := List.rdropWhile_eq_self_iff.1 hpass.symm hs
      rw [List.getLast?_eq_some_getLast hs, Option.some_inj] at hlast
      exact hself (decide_eq_true hlast)

/-- **Protected directories.**  Both functions refuse the system's directories, pass on every other
path without its trailing slashes, read the caller's string only and leave it as it is, exactly for the
paths of `DirArgument`. -/
theorem dirs_guarded_iff (makeDir : Bytes → ℤ → ℤ) (removeDir : Bytes → ℤ) (s : LuaString) :
    ((lMakeDir makeDir s).Guarded s ↔ DirArgument s.bytes) ∧
      ((lRemoveDir removeDir s).Guarded s ↔ DirArgument s.bytes) := by
  unfold lMakeDir platformMakeDir lRemoveDir platformRemoveDir
  constructor
  · exact ⟨argument_of_guarded, guarded_of_argument⟩
  · exact ⟨argument_of_guarded, guarded_of_argument⟩

/-- Two slashes behind `/lua`: one of them is overwritten in the caller's string, and the operating
system is asked to make `/lua/`. -/
theorem dirs_passes_lua :
    let s : LuaString := ⟨ascii "/lua//", by decide⟩
    (lMakeDir (fun _ _ => 0) s).passed = some (ascii "/lua/") ∧ Protected (ascii "/lua/") ∧
      (lMakeDir (fun _ _ => 0) s).string = ascii "/lua/" ++ [0, 0] ∧
      ¬ (lMakeDir (fun _ _ => 0) s).Guarded s := by
  have hprot : Protected (ascii "/lua/") := by
    unfold Protected
    decide
  have hpass : (lMakeDir (fun _ _ => 0) ⟨ascii "/lua//", by decide⟩).passed =
      some (ascii "/lua/") := by decide
  exact ⟨hpass, hprot, by decide, fun h => h.denies _ hpass hprot⟩

end OsdCore
