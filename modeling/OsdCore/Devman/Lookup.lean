import OsdCore.Devman.Basic

/-!
# What a path resolves to

* `FirstComponent` : a path is cut at its second slash.
* `ResolvesTo` : the device with the name of the first component and the rest of the path, or else the root
  device and the path without its slash.
* `resolved_iff` : `find_dm_entry` resolves a path so if and only if its first component, with its slash, has
  between 2 and `DM_MAX_DEV_NAME` characters, or there is none.
-/

namespace OsdCore

variable {t : DmTable} {name tempname preal path comp c rest p file : Bytes} {dev : DmDevice} {i : ℕ}

/-! ### The loop -/

/-- Where the loop stops at a device. -/
theorem scanDevices_found {devs : List DmDevice} {root : Option ℕ}
    (h : ∃ dev ∈ devs, SameName tempname dev.name) :
    ∃ k dev root', scanDevices tempname devs i root = (i + k, root') ∧ devs[k]? = some dev ∧
      SameName tempname dev.name := by
  induction devs generalizing i root with
  | nil =>
    obtain ⟨dev, hdev, -⟩ := h
    cases hdev
  | cons pdev devs ih =>
    rw [scanDevices]
    by_cases hsame : SameName tempname pdev.name
    · rw [if_pos hsame]
      exact ⟨0, pdev, root, rfl, rfl, hsame⟩
    · rw [if_neg hsame]
      obtain ⟨dev, hdev, hname⟩ := h
      rcases List.mem_cons.1 hdev with rfl | hdev
      · exact absurd hname hsame
      · obtain ⟨k, dev, root', hscan, hk, hdev⟩ := ih ⟨dev, hdev, hname⟩
        refine ⟨k + 1, dev, root', ?_, by rw [List.getElem?_cons_succ, hk], hdev⟩
        rw [hscan, Nat.add_assoc, Nat.add_comm 1]

/-- Where it stops at the end, and the root device that it has seen last. -/
theorem scanDevices_notFound {devs : List DmDevice} {root : Option ℕ}
    (h : ∀ dev ∈ devs, ¬ SameName tempname dev.name) :
    ∃ root', scanDevices tempname devs i root = (i + devs.length, root') ∧
      (root' = none → root = none ∧ ∀ dev ∈ devs, dev.name ≠ [slash]) ∧
      ∀ r, root' = some r → root = some r ∨
        ∃ k dev, r = i + k ∧ devs[k]? = some dev ∧ dev.name = [slash] := by
  induction devs generalizing i root with
  | nil => exact ⟨root, rfl, fun hr => ⟨hr, nofun⟩, fun r hr => .inl hr⟩
  | cons pdev devs ih =>
    rw [scanDevices, if_neg (h pdev List.mem_cons_self), List.length_cons]
    obtain ⟨root', hscan, hnone, hsome⟩ := @ih (i + 1) (if pdev.name = [slash] then some i else root)
      fun dev hdev => h dev (List.mem_cons_of_mem _ hdev)
    refine ⟨root', by rw [hscan, Nat.add_assoc, Nat.add_comm 1], ?_, ?_⟩
    · intro hr
      obtain ⟨hroot, hdevs⟩ := hnone hr
      by_cases hslash : pdev.name = [slash]
      · rw [if_pos hslash] at hroot
        cases hroot
      · rw [if_neg hslash] at hroot
        exact ⟨hroot, List.forall_mem_cons.2 ⟨hslash, hdevs⟩⟩
    · intro r hr
      rcases hsome r hr with hroot | ⟨k, dev, rfl, hk, hdev⟩
      · by_cases hslash : pdev.name = [slash]
        · rw [if_pos hslash] at hroot
          exact .inr ⟨0, pdev, (Option.some.inj hroot).symm, rfl, hslash⟩
        · rw [if_neg hslash] at hroot
          exact .inl hroot
      · exact .inr ⟨k + 1, dev, by rw [Nat.add_assoc, Nat.add_comm 1],
          by rw [List.getElem?_cons_succ, hk], hdev⟩

/-! ### One device -/

/-- A device with this name is found. -/
theorem findDevice_found (h : ∃ dev ∈ t.dmList, SameName tempname dev.name) :
    ∃ i dev, findDevice t path tempname preal = fileName i preal ∧ t.dmList[i]? = some dev ∧
      SameName tempname dev.name := by
  obtain ⟨k, dev, root', hscan, hk, hname⟩ := @scanDevices_found tempname 0 t.dmList none h
  refine ⟨k, dev, ?_, hk, hname⟩
  have hlt : k < t.dmNumDevs := (List.getElem?_eq_some_iff.1 hk).1
  simp only [findDevice, hscan, Nat.zero_add, if_neg hlt.ne]

/-- The table has the root device. -/
def HasRoot (t : DmTable) : Prop := ∃ dev ∈ t.dmList, dev.name = [slash]

instance (t : DmTable) : Decidable (HasRoot t) :=
  inferInstanceAs (Decidable (∃ dev ∈ t.dmList, dev.name = [slash]))

/-- Else the root device takes the whole path. -/
theorem findDevice_root (hroot : HasRoot t) (h : ∀ dev ∈ t.dmList, ¬ SameName tempname dev.name) :
    ∃ i dev, findDevice t path tempname preal = fileName i path ∧ t.dmList[i]? = some dev ∧
      dev.name = [slash] := by
  obtain ⟨root', hscan, hnone, hsome⟩ := @scanDevices_notFound tempname 0 t.dmList none h
  rw [Nat.zero_add] at hscan
  cases root' with
  | none =>
    obtain ⟨dev, hdev, hname⟩ := hroot
    exact absurd hname ((hnone rfl).2 dev hdev)
  | some r =>
    rcases hsome r rfl with hr | ⟨k, dev, rfl, hk, hname⟩
    · cases hr
    · rw [Nat.zero_add] at hscan
      exact ⟨k, dev, by simp only [findDevice, hscan, DmTable.dmNumDevs, if_true], hk, hname⟩

/-- Without a root device there is nothing then. -/
theorem findDevice_none (hroot : ¬ HasRoot t) (h : ∀ dev ∈ t.dmList, ¬ SameName tempname dev.name) :
    findDevice t path tempname preal = none := by
  obtain ⟨root', hscan, -, hsome⟩ := @scanDevices_notFound tempname 0 t.dmList none h
  rw [Nat.zero_add] at hscan
  cases root' with
  | none => simp only [findDevice, hscan, DmTable.dmNumDevs, if_true]
  | some r =>
    rcases hsome r rfl with hr | ⟨k, dev, -, hk, hname⟩
    · cases hr
    · exact absurd ⟨dev, List.mem_of_getElem? hk, hname⟩ hroot

theorem fileName_cons {b : UInt8} (h : file ≠ []) : fileName i (b :: file) = some (i, file) := if_neg h

/-! ### The first component of a path -/

theorem idxOf?_slash (h : slash ∉ c) : (c ++ slash :: rest).idxOf? slash = some c.length := by
  induction c with
  | nil => rfl
  | cons b c ih =>
    obtain ⟨hb, hc⟩ := not_or.1 (mt List.mem_cons.2 h)
    rw [List.cons_append, List.idxOf?_cons, if_neg (by simpa using Ne.symm hb), ih hc]
    rfl

/-- A path with a second slash. -/
theorem findDmEntry_component (h : slash ∉ c) :
    findDmEntry t (some (slash :: c ++ slash :: rest)) =
      if c.length + 1 > DM_MAX_DEV_NAME ∨ c.length + 1 = 1 then none
      else findDevice t (slash :: c ++ slash :: rest) (slash :: c) (slash :: rest) := by
  have hidx : ((slash :: c ++ slash :: rest).drop 1).idxOf? slash = some c.length := idxOf?_slash h
  have htake : (slash :: c ++ slash :: rest).take (c.length + 1) = slash :: c :=
    List.take_left' (List.length_cons ..)
  have hdrop : (slash :: c ++ slash :: rest).drop (c.length + 1) = slash :: rest :=
    List.drop_left' (List.length_cons ..)
  rw [findDmEntry, if_neg (by simp), hidx]
  simp only [htake, hdrop]

/-- A path without one. -/
theorem findDmEntry_file (h : slash ∉ p) :
    findDmEntry t (some (slash :: p)) = findDevice t (slash :: p) [slash] (slash :: p) := by
  have hidx : ((slash :: p).drop 1).idxOf? slash = none := List.idxOf?_eq_none_iff.2 h
  rw [findDmEntry, if_neg (by simp), hidx]

/-- The first component of a path, with its slash, and what is behind the second slash. -/
def FirstComponent (path comp rest : Bytes) : Prop :=
  ∃ c, comp = slash :: c ∧ slash ∉ c ∧ path = comp ++ slash :: rest

/-- There is one at most. -/
theorem FirstComponent.unique {comp' rest' : Bytes} (h : FirstComponent path comp rest)
    (h' : FirstComponent path comp' rest') : comp = comp' ∧ rest = rest' := by
  obtain ⟨c, rfl, hc, rfl⟩ := h
  obtain ⟨c', rfl, hc', heq⟩ := h'
  rw [List.cons_append, List.cons_append, List.cons_inj_right] at heq
  have hlen : c.length = c'.length := by
    have hidx := congrArg (List.idxOf? slash) heq
    rwa [idxOf?_slash hc, idxOf?_slash hc', Option.some_inj] at hidx
  obtain ⟨rfl, htail⟩ := List.append_inj heq hlen
  exact ⟨rfl, (List.cons.inj htail).2⟩

/-- A path without a second slash has none. -/
theorem not_firstComponent (h : slash ∉ p) : ¬ FirstComponent (slash :: p) comp rest := by
  rintro ⟨c, rfl, -, heq⟩
  rw [List.cons_append, List.cons_inj_right] at heq
  rw [heq] at h
  exact h (List.mem_append_right _ List.mem_cons_self)

/-! ### What a path stands for -/

/-- The device of a path, and the name of the file on it. -/
inductive ResolvesTo (t : DmTable) (path : Bytes) : DmDevice → Bytes → Prop
  | device {comp rest : Bytes} {dev : DmDevice} : FirstComponent path comp rest → dev ∈ t.dmList →
      SameName comp dev.name → ResolvesTo t path dev rest
  | root {dev : DmDevice} :
      (∀ comp rest, FirstComponent path comp rest → ∀ dev ∈ t.dmList, ¬ SameName comp dev.name) →
      dev ∈ t.dmList → dev.name = [slash] → ResolvesTo t path dev (path.drop 1)

/-- An absolute path with a name of a file. -/
def NamesFile (t : DmTable) (path : Bytes) : Prop :=
  path.head? = some slash ∧ ∃ dev file, ResolvesTo t path dev file ∧ file ≠ []

/-- The code finds the device and the name of the file. -/
def Resolved (t : DmTable) (path : Bytes) : Prop :=
  ∃ i dev file, findDmEntry t (some path) = some (i, file) ∧ t.dmList[i]? = some dev ∧
    ResolvesTo t path dev file

/-- A path without a second slash is one of the root device. -/
theorem resolved_file (hroot : HasRoot t) (h : slash ∉ p) (hp : p ≠ []) : Resolved t (slash :: p) := by
  obtain ⟨dev, hdev, hname⟩ := hroot
  obtain ⟨i, dev, hfind, hi, hname⟩ :=
    @findDevice_found t [slash] (slash :: p) (slash :: p) ⟨dev, hdev, SameName.slash_iff.2 hname⟩
  refine ⟨i, dev, p, ?_, hi, .root ?_ (List.mem_of_getElem? hi) (SameName.slash_iff.1 hname)⟩
  · rw [findDmEntry_file h, hfind, fileName_cons hp]
  · intro comp rest hcomp
    exact absurd hcomp (not_firstComponent h)

/-- One with a component that is not too short or too long is resolved. -/
theorem resolved_component (hroot : HasRoot t) (hc : slash ∉ c) (hlen : 2 ≤ c.length + 1)
    (hlen' : c.length + 1 ≤ DM_MAX_DEV_NAME) (hfile : NamesFile t (slash :: c ++ slash :: rest)) :
    Resolved t (slash :: c ++ slash :: rest) := by
  have hcomp : FirstComponent (slash :: c ++ slash :: rest) (slash :: c) rest := ⟨c, rfl, hc, rfl⟩
  have hlook := @findDmEntry_component t c rest hc
  rw [if_neg (by omega)] at hlook
  by_cases hdev : ∃ dev ∈ t.dmList, SameName (slash :: c) dev.name
  · have hrest : rest ≠ [] := by
      obtain ⟨-, dev', file, hres, hne⟩ := hfile
      cases hres with
      | device hcomp' _ _ =>
        obtain ⟨-, rfl⟩ := hcomp.unique hcomp'
        exact hne
      | root hno _ _ =>
        obtain ⟨dev, hmem, hname⟩ := hdev
        exact absurd hname (hno _ _ hcomp dev hmem)
    obtain ⟨i, dev, hfind, hi, hname⟩ :=
      @findDevice_found t (slash :: c) (slash :: rest) (slash :: c ++ slash :: rest) hdev
    refine ⟨i, dev, rest, ?_, hi, .device hcomp (List.mem_of_getElem? hi) hname⟩
    rw [hlook, hfind, fileName_cons hrest]
  · have hno : ∀ dev ∈ t.dmList, ¬ SameName (slash :: c) dev.name :=
      fun dev hmem hname => hdev ⟨dev, hmem, hname⟩
    obtain ⟨i, dev, hfind, hi, hname⟩ :=
      @findDevice_root t (slash :: c) (slash :: rest) (slash :: c ++ slash :: rest) hroot hno
    refine ⟨i, dev, c ++ slash :: rest, ?_, hi, .root ?_ (List.mem_of_getElem? hi) hname⟩
    · rw [hlook, hfind, List.cons_append,
        fileName_cons (List.append_ne_nil_of_right_ne_nil _ (List.cons_ne_nil _ _))]
    · intro comp rest' hcomp'
      obtain ⟨rfl, -⟩ := hcomp.unique hcomp'
      exact hno

/-- **A path is resolved if and only if its first component has the length of a name.** -/
theorem resolved_iff (hroot : HasRoot t) (hfile : NamesFile t path) :
    Resolved t path ↔
      ∀ comp rest, FirstComponent path comp rest → 2 ≤ comp.length ∧ comp.length ≤ DM_MAX_DEV_NAME := by
  cases path with
  | nil => cases hfile.1
  | cons b p =>
    obtain rfl : b = slash := Option.some.inj hfile.1
    by_cases hslash : slash ∈ p
    · obtain ⟨c, rest, rfl, hc⟩ := List.eq_append_cons_of_mem hslash
      have hcomp : FirstComponent (slash :: c ++ slash :: rest) (slash :: c) rest := ⟨c, rfl, hc, rfl⟩
      constructor
      · rintro ⟨i, dev, file, hfind, -⟩ comp rest' hcomp'
        obtain ⟨rfl, -⟩ := hcomp.unique hcomp'
        rw [← List.cons_append, findDmEntry_component hc] at hfind
        split_ifs at hfind with hlen
        rw [List.length_cons]
        omega
      · intro hlen
        have hlen' := hlen _ _ hcomp
        rw [List.length_cons] at hlen'
        exact resolved_component hroot hc hlen'.1 hlen'.2 hfile
    · refine iff_of_true (resolved_file hroot hslash ?_) ?_
      · rintro rfl
        obtain ⟨-, dev, file, hres, hne⟩ := hfile
        cases hres with
        | device hcomp _ _ => exact not_firstComponent hslash hcomp
        | root _ _ _ => exact hne rfl
      · intro comp rest hcomp
        exact absurd hcomp (not_firstComponent hslash)

/-- A table with the root device and one for the scripts. -/
def ldbTable : DmTable := ⟨[⟨1, ascii "/"⟩, ⟨2, ascii "/ldb"⟩], by decide⟩

/-- `/LDB/a` is the file `a` of the device `/ldb`. -/
theorem resolved_ldb :
    Resolved ldbTable (ascii "/LDB/a") ↔
      ∀ comp rest, FirstComponent (ascii "/LDB/a") comp rest →
        2 ≤ comp.length ∧ comp.length ≤ DM_MAX_DEV_NAME := by
  have hcomp : FirstComponent (ascii "/LDB/a") (ascii "/LDB") (ascii "a") :=
    ⟨ascii "LDB", by decide, by decide, by decide⟩
  have hres : ResolvesTo ldbTable (ascii "/LDB/a") ⟨2, ascii "/ldb"⟩ (ascii "a") :=
    .device hcomp (by decide) (by decide)
  exact resolved_iff (by decide) ⟨rfl, _, _, hres, by decide⟩

/-- A file of a directory with a long name is a file of the root device, and is not found. -/
theorem not_resolved_directory :
    HasRoot ldbTable ∧ NamesFile ldbTable (ascii "/applications/a") ∧
      ¬ Resolved ldbTable (ascii "/applications/a") := by
  have hcomp : FirstComponent (ascii "/applications/a") (ascii "/applications") (ascii "a") :=
    ⟨ascii "applications", by decide, by decide, by decide⟩
  refine ⟨by decide, ⟨rfl, ⟨1, ascii "/"⟩, _, .root ?_ (by decide) (by decide), by decide⟩, ?_⟩
  · intro comp rest hcomp'
    obtain ⟨rfl, -⟩ := hcomp.unique hcomp'
    decide
  · rintro ⟨i, dev, file, hfind, -⟩
    have hnone : findDmEntry ldbTable (some (ascii "/applications/a")) = none := by decide
    rw [hnone] at hfind
    cases hfind

end OsdCore
