import OsdCore.Format.CString

/-!
# The device table: `devman.c`, and the lookup of `stubs.c`

`dm_list` is modelled by its first `dm_num_devs` entries: no loop reads behind them, and `dm_register` writes an
entry before it counts it.  A `DM_DEVICE*` is the device it points to; the object itself is a number, so that
two devices of one name are not the same.

* `dmRegister`, `dmUnregister` : the two calls that change the table.
* `findDmEntry` : from a path to the index of a device, and to the name of the file on it.
-/

namespace OsdCore

def DM_MAX_DEVICES : ℕ := 16
def DM_MAX_DEV_NAME : ℕ := 12

def DM_ERR_ALREADY_REGISTERED : ℤ := -1
def DM_ERR_NOT_REGISTERED : ℤ := -2
def DM_ERR_NO_SPACE : ℤ := -3
def DM_ERR_INVALID_NAME : ℤ := -4
def DM_OK : ℤ := 0

/-- `tolower` in the C locale. -/
def tolower (c : UInt8) : UInt8 := if 0x41 ≤ c ∧ c ≤ 0x5A then c + 0x20 else c

/-- `strcasecmp(s, t) == 0`. -/
def SameName (s t : Bytes) : Prop := s.map tolower = t.map tolower

instance (s t : Bytes) : Decidable (SameName s t) :=
  inferInstanceAs (Decidable (s.map tolower = t.map tolower))

/-- `DM_DEVICE`. -/
structure DmDevice where
  object : ℕ
  name : Bytes
deriving DecidableEq, Repr

/-- `dm_list` as far as `dm_num_devs`. -/
structure DmTable where
  dmList : List DmDevice
  length_le : dmList.length ≤ DM_MAX_DEVICES
deriving DecidableEq, Repr

namespace DmTable

/-- `dm_num_devs`. -/
def dmNumDevs (t : DmTable) : ℕ := t.dmList.length

/-- The table before `dm_init`. -/
def empty : DmTable := ⟨[], Nat.zero_le _⟩

end DmTable

/-- The tests on a name that both calls begin with. -/
def InvalidName (name : Bytes) : Prop := name.head? ≠ some slash ∨ DM_MAX_DEV_NAME < name.length

instance (name : Bytes) : Decidable (InvalidName name) :=
  inferInstanceAs (Decidable (name.head? ≠ some slash ∨ DM_MAX_DEV_NAME < name.length))

/-- `dm_register`; `none` is the null pointer. -/
def dmRegister (t : DmTable) : Option DmDevice → ℤ × DmTable
  | none => (DM_ERR_INVALID_NAME, t)
  | some pdev =>
    if InvalidName pdev.name then (DM_ERR_INVALID_NAME, t)
    else if ∃ dev ∈ t.dmList, SameName pdev.name dev.name then (DM_ERR_ALREADY_REGISTERED, t)
    else if h : t.dmNumDevs = DM_MAX_DEVICES then (DM_ERR_NO_SPACE, t)
    else
      (t.dmNumDevs, ⟨t.dmList ++ [pdev], by
        have hle := t.length_le
        rw [DmTable.dmNumDevs] at h
        rw [List.length_append, List.length_singleton]
        omega⟩)

/-- The entries after one has been removed: `memmove` copies one pointer from the next entry, unless it was
the last one, and then there is one entry less. -/
def removeEntry (devs : List DmDevice) (i : ℕ) : List DmDevice :=
  match devs[i + 1]? with
  | none => devs.dropLast
  | some next => (devs.set i next).dropLast

theorem length_removeEntry (devs : List DmDevice) (i : ℕ) :
    (removeEntry devs i).length = devs.length - 1 := by
  rw [removeEntry]
  split
  · exact List.length_dropLast
  · rw [List.length_dropLast, List.length_set]

/-- `dm_unregister`. -/
def dmUnregister (t : DmTable) : Option Bytes → ℤ × DmTable
  | none => (DM_ERR_INVALID_NAME, t)
  | some name =>
    if InvalidName name then (DM_ERR_INVALID_NAME, t)
    else if ∃ dev ∈ t.dmList, SameName name dev.name then
      (DM_OK, ⟨removeEntry t.dmList (t.dmList.findIdx fun dev => SameName name dev.name),
        (length_removeEntry _ _).trans_le ((Nat.sub_le _ _).trans t.length_le)⟩)
    else (DM_ERR_NOT_REGISTERED, t)

/-! ### The lookup -/

/-- The loop of `find_dm_entry`: `i` and `devrootIndex` when it ends. -/
def scanDevices (tempname : Bytes) : List DmDevice → ℕ → Option ℕ → ℕ × Option ℕ
  | [], i, devrootIndex => (i, devrootIndex)
  | pdev :: devs, i, devrootIndex =>
    if SameName tempname pdev.name then (i, devrootIndex)
    else scanDevices tempname devs (i + 1) (if pdev.name = [slash] then some i else devrootIndex)

/-- The end of `find_dm_entry`: the first character of the name itself, behind the slash that `preal` is at. -/
def fileName (i : ℕ) (preal : Bytes) : Option (ℕ × Bytes) :=
  if preal.drop 1 = [] then none else some (i, preal.drop 1)

/-- `find_dm_entry`, from where it looks for the device; `preal` is the rest of the path from its slash on. -/
def findDevice (t : DmTable) (name tempname preal : Bytes) : Option (ℕ × Bytes) :=
  let (i, devrootIndex) := scanDevices tempname t.dmList 0 none
  if i = t.dmNumDevs then
    match devrootIndex with
    | none => none
    | some root => fileName root name
  else fileName i preal

/-- `find_dm_entry`: the index of a device and `*pactname`, or `none` for -1. -/
def findDmEntry (t : DmTable) : Option Bytes → Option (ℕ × Bytes)
  | none => none
  | some name =>
    if name.head? ≠ some slash then none
    else
      match (name.drop 1).idxOf? slash with
      | none => findDevice t name [slash] name
      | some k =>
        if k + 1 > DM_MAX_DEV_NAME ∨ k + 1 = 1 then none
        else findDevice t name (name.take (k + 1)) (name.drop (k + 1))

/-! ### Names -/

theorem tolower_eq_slash {c : UInt8} : tolower c = slash ↔ c = slash := by
  revert c
  apply forall_byte
  decide +kernel

namespace SameName

variable {s t u : Bytes}

theorem refl (s : Bytes) : SameName s s := rfl

theorem symm (h : SameName s t) : SameName t s := Eq.symm h

theorem trans (h : SameName s t) (h' : SameName t u) : SameName s u := Eq.trans h h'

theorem length_eq (h : SameName s t) : s.length = t.length := by
  simpa using congrArg List.length h

/-- The same name has its slashes in the same places. -/
theorem mem_drop_iff {k : ℕ} (h : SameName s t) : slash ∈ t.drop k ↔ slash ∈ s.drop k := by
  have hmap : ∀ u : Bytes, slash ∈ u ↔ slash ∈ u.map tolower := by
    intro u
    simp only [List.mem_map, tolower_eq_slash, exists_eq_right]
  rw [hmap, hmap (s.drop k), List.map_drop, List.map_drop, h]

theorem invalidName (h : SameName s t) (hs : InvalidName s) : InvalidName t := by
  rcases hs with hhead | hlen
  · refine .inl fun ht => hhead ?_
    obtain ⟨t', rfl⟩ := List.head?_eq_some_iff.1 ht
    cases s with
    | nil => cases h
    | cons b s =>
      rw [SameName, List.map_cons, List.map_cons, List.cons.injEq, tolower_eq_slash.2 rfl] at h
      rw [tolower_eq_slash.1 h.1, List.head?_cons]
  · exact .inr (h.length_eq ▸ hlen)

/-- Only `/` has the name `/`. -/
theorem slash_iff : SameName [slash] s ↔ s = [slash] := by
  rw [SameName]
  constructor
  · intro h
    have hlen : s.length = 1 := (length_eq h).symm
    obtain ⟨c, rfl⟩ := List.length_eq_one_iff.1 hlen
    rw [List.map_singleton, List.map_singleton, List.singleton_inj, tolower_eq_slash.2 rfl] at h
    rw [tolower_eq_slash.1 h.symm]
  · rintro rfl
    exact refl _

end SameName

end OsdCore
