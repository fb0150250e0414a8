import OsdCore.Stdio.Objects

/-!
# Which file a path is

An open for reading should give the entry of the update's table if there is one, else the file of the
file system if it opens, else the entry of the flash table; and an open for writing should give a file
of the file system or nothing.

* `resolves_iff` : which opens do.  `fopen_ext` never looks at the mode, and with all slots in use no
  entry of the flash table is opened.
-/

namespace OsdCore

open Stdio (findUncompressFileItem sflags)

/-- What a mode asks for. -/
inductive Access where
  | read | write
deriving DecidableEq, Repr

/-- By its first letter; any other mode asks for nothing. -/
def Access.ofMode : Bytes → Option Access
  | [] => none
  | c :: _ =>
    if c = 'r'.toUInt8 then some read
    else if c = 'w'.toUInt8 ∨ c = 'a'.toUInt8 then some write
    else none

/-- The flags of which a stream has one if it allows that. -/
def Access.flags : Access → BitVec 16
  | read => SRD ||| SRW
  | write => SWR ||| SRW

/-- The entry of a path in a table.  The empty string is no path. -/
def tableEntry (table : List UncompressFileItem) (file : Path) : Option UncompressFileItem :=
  if file = [] then none else table.find? (·.pFile = file)

variable {S : Type} {f : (o : DevOp) → S → DevOp.Resp o × S} {m m' : Memory} {s s' : S}
variable {file : Path} {mode : Bytes} {below : Bool} {r : Option Handle}

/-- The file system opens the path: there is a slot, and the device gives a descriptor. -/
def fileOpened (f : (o : DevOp) → S → DevOp.Resp o × S) (m : Memory) (s : S) (file : Path)
    (mode : Bytes) : Option Descriptor :=
  (sflags mode).bind fun x => m.freeSlot.bind fun _ => (f (.openFile file x.2) s).1

/-- The pointer is a stream over a table entry. -/
def IsEntry (m : Memory) (r : Option Handle) (nSection : TableSection) (item : UncompressFileItem) :
    Prop :=
  ∃ h fp, r = some h ∧ m.deref h = some fp ∧ fp.isUncompress = true ∧ fp.flags = nSection.toFlags ∧
    fp.cookie = some item

/-- The pointer is a stream over a file of the file system, with one of the flags. -/
def IsFile (m : Memory) (r : Option Handle) (flags : BitVec 16) (fd : Descriptor) : Prop :=
  ∃ h fp, r = some h ∧ m.deref h = some fp ∧ fp.isUncompress = false ∧ fp.file = fd ∧
    fp.flags &&& flags ≠ 0

/-- What an open for reading should give. -/
def ReadResolves (f : (o : DevOp) → S → DevOp.Resp o × S) (m : Memory) (s : S) (file : Path)
    (mode : Bytes) (r : Option Handle) (m' : Memory) : Prop :=
  match tableEntry m.tables.pUpdateFileTable file with
  | some item => IsEntry m' r .update item
  | none => match fileOpened f m s file mode with
    | some fd => IsFile m' r Access.read.flags fd
    | none => match tableEntry m.tables.pFlashFileTable file with
      | some item => IsEntry m' r .flash item
      | none => r = none

/-- What an open for writing should give. -/
def WriteResolves (f : (o : DevOp) → S → DevOp.Resp o × S) (m : Memory) (s : S) (file : Path)
    (mode : Bytes) (r : Option Handle) (m' : Memory) : Prop :=
  r = none ∨ ∃ fd, fileOpened f m s file mode = some fd ∧ IsFile m' r Access.write.flags fd

/-- What an open should give. -/
def Resolves (f : (o : DevOp) → S → DevOp.Resp o × S) (m : Memory) (s : S) (file : Path)
    (mode : Bytes) (r : Option Handle) (m' : Memory) : Prop :=
  match Access.ofMode mode with
  | some .read => ReadResolves f m s file mode r m'
  | some .write => WriteResolves f m s file mode r m'
  | none => True

/-- **The opens that give it.**  For reading, a path of the flash table that is not in the update's
needs a slot; for writing, the path is not in the update's table, and if it is in the flash table and
there is a slot, the file system opens it. -/
def ResolveOk (f : (o : DevOp) → S → DevOp.Resp o × S) (m : Memory) (s : S) (file : Path)
    (mode : Bytes) : Prop :=
  match Access.ofMode mode with
  | some .read => tableEntry m.tables.pUpdateFileTable file = none →
      (tableEntry m.tables.pFlashFileTable file).isSome → m.freeSlot.isSome
  | some .write => tableEntry m.tables.pUpdateFileTable file = none ∧
      ((tableEntry m.tables.pFlashFileTable file).isSome → m.freeSlot.isSome →
        (fileOpened f m s file mode).isSome)
  | none => True

/-! ### The lookups -/

theorem findUncompressFileItem_eq (σ : StdioState) (file : Path) :
    findUncompressFileItem σ file =
      ((tableEntry σ.pUpdateFileTable file).map fun item => (.update, item)).or
        ((tableEntry σ.pFlashFileTable file).map fun item => (.flash, item)) := by
  unfold findUncompressFileItem tableEntry
  by_cases h : file = []
  · rw [if_pos h, if_pos h, if_pos h]
    rfl
  · rw [if_neg h, if_neg h, if_neg h]
    cases σ.pUpdateFileTable.find? (·.pFile = file) <;> rfl

theorem find_eq_update_iff {σ : StdioState} {item : UncompressFileItem} :
    findUncompressFileItem σ file = some (.update, item) ↔
      tableEntry σ.pUpdateFileTable file = some item := by
  rw [findUncompressFileItem_eq]
  cases tableEntry σ.pUpdateFileTable file with
  | none => simp
  | some x => simp

theorem find_of_no_update {σ : StdioState}
    (h : ∀ item, findUncompressFileItem σ file ≠ some (.update, item)) :
    tableEntry σ.pUpdateFileTable file = none ∧
      findUncompressFileItem σ file =
        (tableEntry σ.pFlashFileTable file).map fun item => (.flash, item) := by
  have hnone : tableEntry σ.pUpdateFileTable file = none :=
    Option.eq_none_iff_forall_ne_some.2 fun item hitem => h item (find_eq_update_iff.2 hitem)
  exact ⟨hnone, by rw [findUncompressFileItem_eq, hnone, Option.map_none, Option.none_or]⟩

/-- With a mode and a slot, the device decides. -/
theorem fileOpened_eq {flags : BitVec 16} {oflags i : ℕ} (hmode : sflags mode = some (flags, oflags))
    (hslot : m.freeSlot = some i) :
    fileOpened f m s file mode = (f (.openFile file oflags) s).1 := by
  simp only [fileOpened, hmode, hslot, Option.bind_some]

/-- The flags of a mode allow what it asks for. -/
theorem sflags_of_access {a : Access} (h : Access.ofMode mode = some a) :
    ∃ flags oflags, sflags mode = some (flags, oflags) ∧
      flags &&& a.flags ≠ 0 := by
  cases mode with
  | nil => cases h
  | cons c mode =>
    simp only [Access.ofMode] at h
    simp only [sflags]
    generalize (decide (mode.take 1 = ascii "+") || decide (mode.take 2 = ascii "b+")) = plus
    split_ifs at h with hr hw
    · cases h
      rw [if_pos hr]
      cases plus
      · exact ⟨_, _, rfl, by decide⟩
      · exact ⟨_, _, rfl, by decide⟩
    · cases h
      rw [if_neg hr]
      rcases hw with rfl | rfl
      · cases plus
        · exact ⟨_, _, rfl, by decide⟩
        · exact ⟨_, _, rfl, by decide⟩
      · cases plus
        · exact ⟨_, _, rfl, by decide⟩
        · exact ⟨_, _, rfl, by decide⟩

/-! ### What is returned -/

/-- The object of `fopen_ext` is the entry. -/
theorem isEntry_object {nSection : TableSection} {item : UncompressFileItem}
    (h : findUncompressFileItem m.tables file = some (nSection, item)) :
    IsEntry (m.withObject file below) (m.objectOf file) nSection item := by
  refine ⟨.object m.objects.length, Memory.tableFile file below (nSection, item), ?_, ?_,
    Slots.isUncompress_tableFile _ _ _, rfl, rfl⟩
  · rw [Memory.objectOf, h]
    rfl
  · simp [Memory.deref, Memory.withObject, h]

/-- An entry is no file. -/
theorem not_isFile_of_isEntry {nSection : TableSection} {item : UncompressFileItem}
    {flags : BitVec 16} {fd : Descriptor} (h : IsEntry m r nSection item) : ¬ IsFile m r flags fd := by
  obtain ⟨p, fp, rfl, hfp, hkind, -⟩ := h
  rintro ⟨p', fp', hp, hfp', hkind', -⟩
  cases hp
  rw [hfp] at hfp'
  cases hfp'
  rw [hkind] at hkind'
  cases hkind'

theorem IsEntry.ne_none {nSection : TableSection} {item : UncompressFileItem}
    (h : IsEntry m r nSection item) : r ≠ none := by
  obtain ⟨p, fp, rfl, -⟩ := h
  exact Option.some_ne_none p

/-- The slot that was opened is the file. -/
theorem isFile_slot {i oflags : ℕ} {flags mask : BitVec 16} {fd : Descriptor}
    (hslot : m.freeSlot = some i) (hmode : sflags mode = some (flags, oflags))
    (hmask : flags &&& mask ≠ 0) :
    IsFile ((m.withObject file below).modify (.slot i) fun fp =>
        { fp with file := fd, flags := flags,
                  type := if Slots.isLuae file below then ENC_FILE else COMMON_FILE })
      (some (.slot i)) mask fd := by
  obtain ⟨fp, hfp, -⟩ := Slots.freeSlot_eq_some hslot
  have hget : (m.withObject file below).slots[i]? = some fp := hfp
  have hset := @modeSet_open file mode below flags oflags fd hmode fp
  refine ⟨_, _, rfl, ?_, hset.isUncompress, rfl, hmask⟩
  simp only [Memory.deref, Memory.modify, List.getElem?_modify_eq, hget]
  rfl

/-- An entry of the update's table is what is opened. -/
theorem Slots.OpenCase.isEntry_update {item : UncompressFileItem}
    (h : OpenCase f m s file mode below r m' s')
    (hitem : tableEntry m.tables.pUpdateFileTable file = some item) : IsEntry m' r .update item := by
  rw [← find_eq_update_iff] at hitem
  cases h with
  | update => exact isEntry_object hitem
  | refused hno => exact absurd hitem (hno item)
  | fallback hno => exact absurd hitem (hno item)
  | opened hno => exact absurd hitem (hno item)

/-- `fopen` for reading. -/
theorem Slots.OpenCase.readResolves_iff (h : OpenCase f m s file mode below r m' s')
    {flags : BitVec 16} {oflags : ℕ} (hmode : sflags mode = some (flags, oflags))
    (hflags : flags &&& Access.read.flags ≠ 0) :
    ReadResolves f m s file mode r m' ↔ (tableEntry m.tables.pUpdateFileTable file = none →
      (tableEntry m.tables.pFlashFileTable file).isSome → m.freeSlot.isSome) := by
  unfold ReadResolves
  cases h with
  | update hitem =>
    rw [find_eq_update_iff.1 hitem]
    exact iff_of_true (isEntry_object hitem) fun hno => by cases hno
  | refused hno hwhy =>
    -- the mode is one, so what is missing is a slot
    have hslot : m.freeSlot = none := hwhy.resolve_left (by rw [hmode]; simp)
    have hopened : fileOpened f m s file mode = none := by simp [fileOpened, hmode, hslot]
    obtain ⟨hupdate, -⟩ := find_of_no_update hno
    rw [hupdate, hopened, hslot]
    cases tableEntry m.tables.pFlashFileTable file with
    | none => exact iff_of_true rfl fun _ h => by cases h
    | some item =>
      refine iff_of_false (fun hentry => hentry.ne_none rfl) fun hok => ?_
      cases hok rfl rfl
  | fallback hno hmode' hslot hopen =>
    obtain ⟨rfl, rfl⟩ := Prod.mk.inj (Option.some.inj (hmode.symm.trans hmode'))
    have hopened := (fileOpened_eq hmode hslot).trans hopen
    obtain ⟨hupdate, hfind⟩ := find_of_no_update hno
    rw [hupdate, hopened, hslot]
    refine iff_of_true ?_ fun _ _ => rfl
    cases hflash : tableEntry m.tables.pFlashFileTable file with
    | none =>
      rw [hflash] at hfind
      simp only [Memory.objectOf, hfind]
      rfl
    | some item =>
      rw [hflash] at hfind
      exact isEntry_object hfind
  | opened hno hmode' hslot hopen =>
    obtain ⟨rfl, rfl⟩ := Prod.mk.inj (Option.some.inj (hmode.symm.trans hmode'))
    have hopened := (fileOpened_eq hmode hslot).trans hopen
    obtain ⟨hupdate, -⟩ := find_of_no_update hno
    rw [hupdate, hopened, hslot]
    exact iff_of_true (isFile_slot hslot hmode hflags) fun _ _ => rfl

/-- `fopen` for writing. -/
theorem Slots.OpenCase.writeResolves_iff (h : OpenCase f m s file mode below r m' s')
    {flags : BitVec 16} {oflags : ℕ} (hmode : sflags mode = some (flags, oflags))
    (hflags : flags &&& Access.write.flags ≠ 0) :
    WriteResolves f m s file mode r m' ↔ (tableEntry m.tables.pUpdateFileTable file = none ∧
      ((tableEntry m.tables.pFlashFileTable file).isSome → m.freeSlot.isSome →
        (fileOpened f m s file mode).isSome)) := by
  -- A stream over an entry is never what a writer should get.
  have hentry : ∀ {m r nSection item}, IsEntry m r nSection item →
      ¬ WriteResolves f m' s file mode r m := by
    rintro m r nSection item hentry (hnone | ⟨fd, -, hfile⟩)
    · exact hentry.ne_none hnone
    · exact not_isFile_of_isEntry hentry hfile
  cases h with
  | update hitem =>
    rw [find_eq_update_iff.1 hitem]
    exact iff_of_false (hentry (isEntry_object hitem)) fun hok => by cases hok.1
  | refused hno hwhy =>
    have hslot : m.freeSlot = none := hwhy.resolve_left (by rw [hmode]; simp)
    rw [hslot]
    exact iff_of_true (Or.inl rfl) ⟨(find_of_no_update hno).1, fun _ h => by cases h⟩
  | fallback hno hmode' hslot hopen =>
    obtain ⟨rfl, rfl⟩ := Prod.mk.inj (Option.some.inj (hmode.symm.trans hmode'))
    have hopened := (fileOpened_eq hmode hslot).trans hopen
    obtain ⟨hupdate, hfind⟩ := find_of_no_update hno
    rw [hupdate, hopened, hslot]
    cases hflash : tableEntry m.tables.pFlashFileTable file with
    | none =>
      rw [hflash] at hfind
      refine iff_of_true (Or.inl ?_) ⟨rfl, fun h => by cases h⟩
      rw [Memory.objectOf, hfind]
      rfl
    | some item =>
      rw [hflash] at hfind
      exact iff_of_false (hentry (isEntry_object hfind)) fun hok => by cases hok.2 rfl rfl
  | opened hno hmode' hslot hopen =>
    obtain ⟨rfl, rfl⟩ := Prod.mk.inj (Option.some.inj (hmode.symm.trans hmode'))
    have hopened := (fileOpened_eq hmode hslot).trans hopen
    rw [hopened]
    exact iff_of_true (Or.inr ⟨_, hopened, isFile_slot hslot hmode hflags⟩)
      ⟨(find_of_no_update hno).1, fun _ _ => rfl⟩

theorem Slots.OpenCase.gives_iff (h : OpenCase f m s file mode below r m' s') :
    Resolves f m s file mode r m' ↔ ResolveOk f m s file mode := by
  unfold Resolves ResolveOk
  cases haccess : Access.ofMode mode with
  | none => exact Iff.rfl
  | some a =>
    obtain ⟨flags, oflags, hmode, hflags⟩ := sflags_of_access haccess
    cases a with
    | read => exact h.readResolves_iff hmode hflags
    | write => exact h.writeResolves_iff hmode hflags

/-- **Which opens resolve the path.**  Every open returns, from any memory and any device. -/
theorem resolves_iff (f : (o : DevOp) → S → DevOp.Resp o × S) (m : Memory) (s : S) (file : Path)
    (mode : Bytes) (below : Bool) :
    ∃ r m' s', MProg.run f (Slots.fopen file mode below) m s = some (r, m', s') ∧
      (Resolves f m s file mode r m' ↔ ResolveOk f m s file mode) := by
  obtain ⟨r, m', s', hrun, hcase⟩ :=
    @Slots.run_fopen S f m s file mode below
  exact ⟨r, m', s', hrun, hcase.gives_iff⟩

/-- Nothing is open, and the file is in the update's table. -/
def updateMemory : Memory := .init { pUpdateFileTable := [⟨textFile, 0, 8⟩] }

/-- It is opened for writing: the entry is returned, which can only be read. -/
theorem not_resolves_update : ∃ r m' s',
    MProg.run DevOp.handle (Slots.fopen textFile (ascii "wb") false) updateMemory textDisk =
        some (r, m', s') ∧
      IsEntry m' r .update ⟨textFile, 0, 8⟩ ∧
      ¬ Resolves DevOp.handle updateMemory textDisk textFile (ascii "wb") r m' := by
  obtain ⟨r, m', s', hrun, hcase⟩ := @Slots.run_fopen Disk DevOp.handle updateMemory textDisk textFile
    (ascii "wb") false
  have hupdate : tableEntry updateMemory.tables.pUpdateFileTable textFile = some ⟨textFile, 0, 8⟩ := by
    decide
  refine ⟨r, m', s', hrun, hcase.isEntry_update hupdate, fun hres => ?_⟩
  have hok : tableEntry updateMemory.tables.pUpdateFileTable textFile = none :=
    (hcase.gives_iff.1 hres).1
  rw [hupdate] at hok
  cases hok

end OsdCore
