import OsdCore.Stdio.Encrypted
import OsdCore.Stdio.FileCalls

/-!
# The table of streams

A `FILE *` points into the static array of 20 streams, of which three are the standard ones, or to an
object that `fopen_ext` has allocated for a table entry.  `fopen` finds a slot by its zero flags,
reserves it, and gives it back if the file cannot be opened; `fclose` gives a slot back or frees an
object.

A `System` is the library with the streams that are held open by its callers, over a device that is
any function of any state, so that it may answer anything.  Its callers open, close and use streams in
any order (`runCalls`).

* `slots_accounted` : the slots in use are those of the standard streams and of the open files.
-/

namespace OsdCore

/-- A `FILE *`. -/
inductive Handle where
  /-- A static stream. -/
  | slot (i : ℕ)
  /-- An object, by the order of allocation. -/
  | object (a : ℕ)
deriving DecidableEq, Repr

def SNBF : BitVec 16 := 0x0002

/-- The memory of the library. -/
structure Memory where
  /-- `__sF` and `usual`. -/
  slots : List FILE
  /-- The objects that `fopen_ext` has allocated; a freed one is `none`. -/
  objects : List (Option FILE)
  tables : StdioState

namespace Memory

/-- The memory at the start. -/
def init (σ : StdioState) : Memory where
  slots := [{ flags := SRD }, { flags := SWR }, { flags := SWR ||| SNBF }] ++
    List.replicate fopenMax { flags := 0 }
  objects := []
  tables := σ

/-- The stream behind a pointer. -/
def deref (m : Memory) : Handle → Option FILE
  | .slot i => m.slots[i]?
  | .object a => m.objects[a]?.join

/-- Change it. -/
def modify (m : Memory) (h : Handle) (g : FILE → FILE) : Memory :=
  match h with
  | .slot i => { m with slots := m.slots.modify i g }
  | .object a => { m with objects := m.objects.modify a (Option.map g) }

/-- `free`. -/
def free (m : Memory) (a : ℕ) : Memory := { m with objects := m.objects.set a none }

end Memory

/-- Programs over this memory and the file system. -/
abbrev SlotM := MProg Memory DevOp DevOp.Resp

namespace Slots

open Stdio (findUncompressFileItem isLuaeFile sflags)

/-- Call the platform's vector table. -/
def callDevice (o : DevOp) : SlotM o.Resp := MProg.op o

def openFile (path : Path) (flags : ℕ) : SlotM (Option Descriptor) := callDevice (.openFile path flags)

def closeFile (fd : Descriptor) : SlotM ℤ := callDevice (.closeFile fd)

/-- The test for `.luae`.  For a name of fewer than 5 bytes it looks at the memory in front of the
name, and `below` is what it finds. -/
def isLuae (file : Path) (below : Bool) : Bool := (isLuaeFile file).getD below

/-- Allocate a stream for an entry of the tables; `calloc` is taken to succeed. -/
def fopenExt (file : Path) (below : Bool) : SlotM (Option (ℕ × FILE)) := do
  let m ← get
  match findUncompressFileItem m.tables file with
  | none => pure none
  | some (nSection, item) => do
    let fp : FILE := { flags := nSection.toFlags, cookie := some item,
                       type := LUA_UNCOMPRESS_FILE ||| if isLuae file below then ENC_FILE else 0 }
    set { m with objects := m.objects ++ [some fp] }
    pure (some (m.objects.length, fp))

/-- `__sfp` : find a slot and reserve it. -/
def sfp : SlotM (Option ℕ) := do
  let m ← get
  match m.slots.findIdx? (·.flags = 0) with
  | none => pure none
  | some i => do
    set (m.modify (.slot i) fun fp => { fp with flags := 1 })
    pure (some i)

/-- Open a stream.  What a slot still holds of its last stream, but for its file, its flags and its
type, stays there. -/
def fopen (file : Path) (mode : Bytes) (below : Bool) : SlotM (Option Handle) := do
  let pFile ← fopenExt file below
  -- the flags of an entry are its section, and 0 is the update's
  if pFile.any (·.2.flags = 0) then pure (pFile.map fun a => .object a.1)
  else match sflags mode with
    | none => pure none
    | some (flags, oflags) => do
      match ← sfp with
      | none => pure none
      | some i => do
        match ← openFile file oflags with
        -- the slot is given back, and the entry of the flash table is the answer
        | none => do
          modify fun m => m.modify (.slot i) fun fp => { fp with flags := 0 }
          pure (pFile.map fun a => .object a.1)
        | some fd => do
          modify fun m => m.modify (.slot i) fun fp =>
            { fp with file := fd, flags := flags,
                      type := if isLuae file below then ENC_FILE else COMMON_FILE }
          pure (some (.slot i))

/-- Close a stream.  Only an object can be freed. -/
def fclose (h : Handle) : SlotM ℤ := do
  let m ← get
  match m.deref h with
  | none => MProg.stuck
  | some fp =>
    if fp.isUncompress then
      match h with
      | .slot _ => MProg.stuck
      | .object a => do
        set (m.free a)
        pure 0
    else if fp.flags = 0 then pure (-1)
    else do
      let r ← closeFile fp.file
      modify fun m => m.modify h fun fp => { fp with flags := 0 }
      pure (if r ≠ 0 then -1 else 0)

end Slots

/-! ### Callers -/

/-- The library, the streams its callers hold, and the device. -/
structure System (S : Type) where
  mem : Memory
  held : List Handle
  dev : S

/-- No stream is open. -/
def System.init {S : Type} (σ : StdioState) (s : S) : System S := ⟨.init σ, [], s⟩

/-- What a caller may do. -/
inductive SystemCall where
  | fopen (file : Path) (mode : Bytes) (below : Bool)
  | fclose (h : Handle)
  /-- Use an open stream of the file system. -/
  | use (i : ℕ) (c : FileCall)
deriving DecidableEq, Repr

variable {S : Type} {f : (o : DevOp) → S → DevOp.Resp o × S} {P : Platform}

/-- Do it; `none` if the stream is not held, or if the behaviour is not defined. -/
def SystemCall.step (f : (o : DevOp) → S → DevOp.Resp o × S) (P : Platform) (c : SystemCall)
    (st : System S) : Option (System S) :=
  match c with
  | fopen file mode below =>
    (MProg.run f (Slots.fopen file mode below) st.mem st.dev).map fun r =>
      ⟨r.2.1, r.1.toList ++ st.held, r.2.2⟩
  | fclose h =>
    if h ∈ st.held then
      (MProg.run f (Slots.fclose h) st.mem st.dev).map fun r => ⟨r.2.1, st.held.erase h, r.2.2⟩
    else none
  | use i c =>
    if .slot i ∈ st.held then
      st.mem.slots[i]?.bind fun fp =>
        (MProg.run f (c.run P fp) st.mem.tables st.dev).map fun r =>
          ⟨{ st.mem with slots := st.mem.slots.set i r.1, tables := r.2.1 }, st.held, r.2.2⟩
    else none

/-- Do one thing after the other. -/
def runCalls (f : (o : DevOp) → S → DevOp.Resp o × S) (P : Platform) :
    List SystemCall → System S → Option (System S)
  | [], st => some st
  | c :: cs, st => (c.step f P st).bind (runCalls f P cs)

/-! ### What the library's functions do -/

namespace Memory

variable (m : Memory)

/-- The first free slot. -/
def freeSlot : Option ℕ := m.slots.findIdx? (·.flags = 0)

/-- The object that `fopen_ext` would allocate. -/
def tableFile (file : Path) (below : Bool) (r : TableSection × UncompressFileItem) : FILE where
  flags := r.1.toFlags
  cookie := some r.2
  type := LUA_UNCOMPRESS_FILE ||| if Slots.isLuae file below then ENC_FILE else 0

/-- The memory after it has. -/
def withObject (file : Path) (below : Bool) : Memory where
  slots := m.slots
  objects := m.objects ++
    ((Stdio.findUncompressFileItem m.tables file).map fun r => some (tableFile file below r)).toList
  tables := m.tables

/-- Its pointer. -/
def objectOf (file : Path) : Option Handle :=
  (Stdio.findUncompressFileItem m.tables file).map fun _ => .object m.objects.length

end Memory

namespace Slots

variable {m : Memory} {s : S} {file : Path} {mode : Bytes} {below : Bool}

theorem run_get {M : Type} {σ : M} :
    MProg.run f (get : MProg M DevOp DevOp.Resp M) σ s = some (σ, σ, s) := rfl

theorem run_fopenExt : MProg.run f (fopenExt file below) m s =
    some ((Stdio.findUncompressFileItem m.tables file).map fun r =>
      (m.objects.length, Memory.tableFile file below r), m.withObject file below, s) := by
  rw [fopenExt, MProg.run_bind, run_get, Option.bind_some]
  unfold Memory.withObject
  cases Stdio.findUncompressFileItem m.tables file with
  | none => simp
  | some r => rfl

/-- A slot that `__sfp` finds is free. -/
theorem freeSlot_eq_some {i : ℕ} (h : m.freeSlot = some i) :
    ∃ fp, m.slots[i]? = some fp ∧ fp.flags = 0 := by
  obtain ⟨hi, hp, -⟩ := List.findIdx?_eq_some_iff_getElem.1 h
  exact ⟨_, List.getElem?_eq_getElem hi, by simpa using hp⟩

theorem modify_modify (i : ℕ) (g g' : FILE → FILE) :
    (m.modify (.slot i) g).modify (.slot i) g' = m.modify (.slot i) (g' ∘ g) := by
  simp only [Memory.modify, List.modify_modify_eq]

/-- Reserving a free slot and giving it back changes nothing. -/
theorem modify_release {i : ℕ} (h : m.freeSlot = some i) :
    (m.modify (.slot i) fun fp => { fp with flags := 1 }).modify (.slot i)
      (fun fp => { fp with flags := 0 }) = m := by
  obtain ⟨fp, hfp, h0⟩ := freeSlot_eq_some h
  have hslots : m.slots.modify i (fun fp => { fp with flags := 0 }) = m.slots := by
    refine List.ext_getElem? fun j => ?_
    by_cases hij : i = j
    · subst hij
      rw [List.getElem?_modify_eq, hfp]
      change some { fp with flags := 0 } = some fp
      rw [← h0]
    · rw [List.getElem?_modify_ne _ _ hij]
  rw [modify_modify]
  change Memory.mk (m.slots.modify i fun fp => { fp with flags := 0 }) m.objects m.tables = m
  rw [hslots]

theorem run_sfp : MProg.run f sfp m s = some (m.freeSlot,
    match m.freeSlot with
      | none => m
      | some i => m.modify (.slot i) fun fp => { fp with flags := 1 }, s) := by
  rw [sfp, MProg.run_bind, run_get, Option.bind_some]
  unfold Memory.freeSlot
  cases m.slots.findIdx? (·.flags = 0) <;> rfl

/-- How `fopen` ends: the pointer, the memory and the device. -/
inductive OpenCase (f : (o : DevOp) → S → DevOp.Resp o × S) (m : Memory) (s : S) (file : Path)
    (mode : Bytes) (below : Bool) : Option Handle → Memory → S → Prop
  /-- An entry of the update's table. -/
  | update {item : UncompressFileItem} :
      Stdio.findUncompressFileItem m.tables file = some (.update, item) →
      OpenCase f m s file mode below (m.objectOf file) (m.withObject file below) s
  /-- The mode is not one, or no slot is free. -/
  | refused : (∀ item, Stdio.findUncompressFileItem m.tables file ≠ some (.update, item)) →
      Stdio.sflags mode = none ∨ m.freeSlot = none →
      OpenCase f m s file mode below none (m.withObject file below) s
  /-- The file system does not open the path. -/
  | fallback {flags : BitVec 16} {oflags i : ℕ} :
      (∀ item, Stdio.findUncompressFileItem m.tables file ≠ some (.update, item)) →
      Stdio.sflags mode = some (flags, oflags) → m.freeSlot = some i →
      (f (.openFile file oflags) s).1 = none →
      OpenCase f m s file mode below (m.objectOf file) (m.withObject file below)
        (f (.openFile file oflags) s).2
  /-- It does. -/
  | opened {flags : BitVec 16} {oflags i : ℕ} {fd : Descriptor} :
      (∀ item, Stdio.findUncompressFileItem m.tables file ≠ some (.update, item)) →
      Stdio.sflags mode = some (flags, oflags) → m.freeSlot = some i →
      (f (.openFile file oflags) s).1 = some fd →
      OpenCase f m s file mode below (some (.slot i))
        ((m.withObject file below).modify (.slot i) fun fp =>
          { fp with file := fd, flags := flags,
                    type := if isLuae file below then ENC_FILE else COMMON_FILE })
        (f (.openFile file oflags) s).2

theorem objectOf_eq : ((Stdio.findUncompressFileItem m.tables file).map fun r =>
    (m.objects.length, Memory.tableFile file below r)).map (fun a => Handle.object a.1) =
      m.objectOf file := by
  rw [Option.map_map]
  rfl

/-- **`fopen` ends in one of these ways.** -/
theorem run_fopen : ∃ r m' s', MProg.run f (fopen file mode below) m s = some (r, m', s') ∧
    OpenCase f m s file mode below r m' s' := by
  simp only [fopen, MProg.run_bind, run_fopenExt, Option.bind_some]
  have hfree : (m.withObject file below).freeSlot = m.freeSlot := rfl
  -- the order of the source: the update's table, the mode, a slot, the device
  by_cases hu : ∃ item, Stdio.findUncompressFileItem m.tables file = some (.update, item)
  · obtain ⟨item, hitem⟩ := hu
    have hany : (((Stdio.findUncompressFileItem m.tables file).map fun r =>
        (m.objects.length, Memory.tableFile file below r)).any (·.2.flags = 0)) = true := by
      simp [hitem, Memory.tableFile, TableSection.toFlags]
    rw [if_pos hany, objectOf_eq]
    exact ⟨_, _, _, rfl, .update hitem⟩
  have hany : ¬ (((Stdio.findUncompressFileItem m.tables file).map fun r =>
      (m.objects.length, Memory.tableFile file below r)).any (·.2.flags = 0)) = true := by
    rcases hfind : Stdio.findUncompressFileItem m.tables file with _ | ⟨nSection, item⟩
    · simp
    · cases nSection with
      | update => exact absurd ⟨item, hfind⟩ hu
      | flash => simp [Memory.tableFile, TableSection.toFlags]
  rw [not_exists] at hu
  rw [if_neg hany]
  cases hmode : Stdio.sflags mode with
  | none => exact ⟨_, _, _, rfl, .refused hu (Or.inl hmode)⟩
  | some r =>
    obtain ⟨flags, oflags⟩ := r
    simp only [MProg.run_bind, run_sfp, Option.bind_some, hfree]
    cases hslot : m.freeSlot with
    | none => exact ⟨_, _, _, rfl, .refused hu (Or.inr hslot)⟩
    | some i =>
      simp only [MProg.run_bind]
      have hop : ∀ m, MProg.run f (openFile file oflags) m s =
          some ((f (.openFile file oflags) s).1, m, (f (.openFile file oflags) s).2) := fun _ => rfl
      rw [hop, Option.bind_some]
      cases hfd : (f (.openFile file oflags) s).1 with
      | none =>
        -- what was reserved for the open that failed is as it was
        have hrelease : (((m.withObject file below).modify (.slot i) _).modify (.slot i) _) =
          m.withObject file below := modify_release hslot
        refine ⟨_, _, _, rfl, ?_⟩
        dsimp only
        rw [objectOf_eq, hrelease]
        exact .fallback hu hmode hslot hfd
      | some fd =>
        refine ⟨_, _, _, rfl, ?_⟩
        dsimp only
        rw [modify_modify]
        exact .opened hu hmode hslot hfd

/-- `fclose` of an open file gives its slot back, whether the device closes it or not. -/
theorem run_fclose_slot {i : ℕ} {fp : FILE} (hfp : m.slots[i]? = some fp)
    (hkind : fp.isUncompress = false) (hflags : fp.flags ≠ 0) :
    MProg.run f (fclose (.slot i)) m s =
      some (if (f (.closeFile fp.file) s).1 ≠ 0 then -1 else 0,
        m.modify (.slot i) fun fp => { fp with flags := 0 }, (f (.closeFile fp.file) s).2) := by
  have hderef : m.deref (.slot i) = some fp := hfp
  have hop : MProg.run f (closeFile fp.file) m s =
      some ((f (.closeFile fp.file) s).1, m, (f (.closeFile fp.file) s).2) := rfl
  simp only [fclose, MProg.run_bind, run_get, Option.bind_some, hderef, hkind, hflags,
    Bool.false_eq_true, ↓reduceIte, hop]
  rfl

/-- `fclose` of a table entry frees its object. -/
theorem run_fclose_object {a : ℕ} {fp : FILE} (hfp : m.objects[a]? = some (some fp))
    (hkind : fp.isUncompress = true) :
    MProg.run f (fclose (.object a)) m s = some (0, m.free a, s) := by
  have hderef : m.deref (.object a) = some fp := by
    simp only [Memory.deref, hfp]
    rfl
  simp only [fclose, MProg.run_bind, run_get, Option.bind_some, hderef, hkind, ↓reduceIte]
  rfl

theorem isUncompress_tableFile (file : Path) (below : Bool) (r : TableSection × UncompressFileItem) :
    (Memory.tableFile file below r).isUncompress = true := by
  unfold FILE.isUncompress Memory.tableFile
  split_ifs <;> simp [LUA_UNCOMPRESS_FILE, ENC_FILE]

end Slots

/-! ### The invariant -/

open Stdio (ModeSet)

/-- **Every slot and every object that is held is accounted for.** -/
structure Accounted (m : Memory) (held : List Handle) : Prop where
  length : m.slots.length = fopenMax + 3
  /-- The slots in use. -/
  used : ∀ (i : ℕ) (fp : FILE), m.slots[i]? = some fp → (fp.flags ≠ 0 ↔ i < 3 ∨ .slot i ∈ held)
  /-- A stream that is held is not a standard one. -/
  usual : ∀ i, .slot i ∈ held → 3 ≤ i ∧ i < fopenMax + 3
  kind : ∀ (i : ℕ) (fp : FILE), m.slots[i]? = some fp → fp.isUncompress = false
  mode : ∀ (i : ℕ) (fp : FILE), m.slots[i]? = some fp → .slot i ∈ held → ModeSet fp
  object : ∀ a, .object a ∈ held → ∃ fp, m.objects[a]? = some (some fp) ∧ fp.isUncompress = true
  nodup : held.Nodup

namespace Accounted

variable {m : Memory} {held : List Handle} {file : Path} {below : Bool}

theorem init (σ : StdioState) : Accounted (.init σ) [] where
  length := by simp [Memory.init]
  used i fp h := by
    simp only [List.not_mem_nil, or_false]
    rcases i with _ | _ | _ | i
    · simp only [Memory.init, List.cons_append, List.getElem?_cons_zero] at h
      cases h
      decide
    · simp only [Memory.init, List.cons_append, List.getElem?_cons_succ, List.getElem?_cons_zero] at h
      cases h
      decide
    · simp only [Memory.init, List.cons_append, List.getElem?_cons_succ, List.getElem?_cons_zero] at h
      cases h
      decide
    -- behind the three standard streams, all are free
    · have hmem : fp ∈ List.replicate fopenMax { flags := 0 } := List.mem_of_getElem? h
      rw [List.eq_of_mem_replicate hmem]
      simp
  usual i h := absurd h List.not_mem_nil
  kind i fp h := by
    have hmem := List.mem_of_getElem? h
    simp only [Memory.init, List.mem_append, List.mem_cons, List.not_mem_nil, or_false,
      List.mem_replicate] at hmem
    rcases hmem with (rfl | rfl | rfl) | ⟨-, rfl⟩ <;> decide
  mode i fp _ h := absurd h List.not_mem_nil
  object a h := absurd h List.not_mem_nil
  nodup := List.nodup_nil

variable (h : Accounted m held)

include h

/-- An allocation changes nothing that is held. -/
theorem withObject (file : Path) (below : Bool) : Accounted (m.withObject file below) held where
  length := h.length
  used := h.used
  usual := h.usual
  kind := h.kind
  mode := h.mode
  object a ha := by
    obtain ⟨fp, hfp, hkind⟩ := h.object a ha
    refine ⟨fp, ?_, hkind⟩
    rw [Memory.withObject, List.getElem?_append_left, hfp]
    exact (List.getElem?_eq_some_iff.1 hfp).1
  nodup := h.nodup

theorem objectOf {p : Handle} (hp : m.objectOf file = some p) (below : Bool) :
    Accounted (m.withObject file below) (p :: held) := by
  obtain ⟨r, hr, rfl⟩ := Option.map_eq_some_iff.1 hp
  have hslot : ∀ i, Handle.slot i ∈ Handle.object m.objects.length :: held ↔ .slot i ∈ held := by
    simp
  have hwith := h.withObject file below
  refine ⟨h.length, ?_, fun i hi => h.usual i ((hslot i).1 hi), h.kind,
    fun i fp hfp hi => h.mode i fp hfp ((hslot i).1 hi), ?_, List.nodup_cons.2 ⟨?_, h.nodup⟩⟩
  · intro i fp hfp
    rw [hslot]
    exact h.used i fp hfp
  · intro a ha
    rcases List.mem_cons.1 ha with ha | ha
    · cases ha
      exact ⟨Memory.tableFile file below r, by simp [Memory.withObject, hr],
        Slots.isUncompress_tableFile _ _ _⟩
    · exact hwith.object a ha
  · intro hmem
    obtain ⟨fp, hfp, -⟩ := h.object _ hmem
    simp at hfp

/-- One slot changes, and whether it is held. -/
theorem update {m' : Memory} {held' : List Handle} {i : ℕ} (hi : 3 ≤ i ∧ i < fopenMax + 3)
    (hobjects : m'.objects = m.objects) (hlen : m'.slots.length = m.slots.length)
    (hslots : ∀ j, j ≠ i → m'.slots[j]? = m.slots[j]?)
    (hheld : ∀ p, p ≠ .slot i → (p ∈ held' ↔ p ∈ held)) (hnodup : held'.Nodup)
    (hnew : ∀ fp, m'.slots[i]? = some fp → fp.isUncompress = false ∧
      (.slot i ∈ held' → ModeSet fp) ∧ (.slot i ∉ held' → fp.flags = 0)) : Accounted m' held' := by
  have hother : ∀ {j : ℕ}, j ≠ i → (Handle.slot j ∈ held' ↔ .slot j ∈ held) := fun hj =>
    hheld _ fun heq => hj (Handle.slot.inj heq)
  refine ⟨hlen.trans h.length, ?_, ?_, ?_,
    ?_, ?_, hnodup⟩
  · intro j fp hfp
    by_cases hji : j = i
    · subst hji
      obtain ⟨-, hin, hout⟩ := hnew fp hfp
      by_cases hmem : .slot j ∈ held'
      · exact iff_of_true (hin hmem).flags_ne (Or.inr hmem)
      · refine iff_of_false (fun hne => hne (hout hmem)) fun hor => ?_
        rcases hor with hlt | hmem'
        · omega
        · exact hmem hmem'
    · rw [hother hji]
      exact h.used j fp (hslots j hji ▸ hfp)
  · intro j hj
    by_cases hji : j = i
    · rwa [hji]
    · exact h.usual j ((hother hji).1 hj)
  · intro j fp hfp
    by_cases hji : j = i
    · subst hji
      exact (hnew fp hfp).1
    · exact h.kind j fp (hslots j hji ▸ hfp)
  · intro j fp hfp hj
    by_cases hji : j = i
    · subst hji
      exact (hnew fp hfp).2.1 hj
    · exact h.mode j fp (hslots j hji ▸ hfp) ((hother hji).1 hj)
  · intro a ha
    rw [hobjects]
    exact h.object a ((hheld _ (by simp)).1 ha)

/-- A slot that was free is held. -/
theorem acquire {i : ℕ} {g : FILE → FILE} (hi : m.freeSlot = some i) (hg : ∀ fp, ModeSet (g fp)) :
    Accounted (m.modify (.slot i) g) (.slot i :: held) := by
  obtain ⟨fp₀, hfp₀, h0⟩ := Slots.freeSlot_eq_some hi
  -- a free slot is neither a standard one nor held, by its zero flags
  have hfree : ¬ (i < 3 ∨ .slot i ∈ held) := fun hin => (h.used i fp₀ hfp₀).2 hin h0
  have hlt := (List.getElem?_eq_some_iff.1 hfp₀).1
  have hlen := h.length
  rw [not_or] at hfree
  refine h.update (i := i) ⟨by omega, by omega⟩ rfl (List.length_modify _ _ _)
    (fun j hj => List.getElem?_modify_ne _ _ hj.symm) (fun p hp => by simp [hp])
    (List.nodup_cons.2 ⟨hfree.2, h.nodup⟩) fun fp hfp => ?_
  obtain ⟨fp', -, rfl⟩ : ∃ fp', m.slots[i]? = some fp' ∧ g fp' = fp := by
    simpa [Memory.modify] using hfp
  exact ⟨(hg fp').isUncompress, fun _ => hg fp', fun hno => absurd List.mem_cons_self hno⟩

/-- A slot that is held is given back. -/
theorem release {i : ℕ} (hi : .slot i ∈ held) :
    Accounted (m.modify (.slot i) fun fp => { fp with flags := 0 }) (held.erase (.slot i)) := by
  refine h.update (h.usual i hi) rfl (List.length_modify _ _ _)
    (fun j hj => List.getElem?_modify_ne _ _ hj.symm)
    (fun p hp => List.mem_erase_of_ne hp) (h.nodup.erase _) fun fp hfp => ?_
  obtain ⟨fp', hfp', rfl⟩ : ∃ fp', m.slots[i]? = some fp' ∧ { fp' with flags := 0 } = fp := by
    simpa [Memory.modify] using hfp
  exact ⟨h.kind i fp' hfp', fun hmem => absurd rfl (h.nodup.mem_erase_iff.1 hmem).1, fun _ => rfl⟩

/-- A stream that is held is used. -/
theorem use {i : ℕ} {fp' : FILE} (hi : .slot i ∈ held) (hmode : ModeSet fp') (σ : StdioState) :
    Accounted { m with slots := m.slots.set i fp', tables := σ } held := by
  refine h.update (h.usual i hi) rfl List.length_set (fun j hj => List.getElem?_set_ne hj.symm)
    (fun p _ => Iff.rfl) h.nodup fun fp hfp => ?_
  obtain rfl : fp' = fp := by
    change (m.slots.set i fp')[i]? = some fp at hfp
    rw [List.getElem?_set_self'] at hfp
    obtain ⟨_, -, heq⟩ := Option.map_eq_some_iff.1 hfp
    exact heq
  exact ⟨hmode.isUncompress, fun _ => hmode, fun hno => absurd hi hno⟩

/-- An object is freed. -/
theorem free (a : ℕ) : Accounted (m.free a) (held.erase (.object a)) := by
  have hslot : ∀ j, Handle.slot j ∈ held.erase (.object a) ↔ .slot j ∈ held := fun j =>
    List.mem_erase_of_ne (by simp)
  refine ⟨h.length, ?_, fun j hj => h.usual j ((hslot j).1 hj), h.kind,
    fun j fp hfp hj => h.mode j fp hfp ((hslot j).1 hj), ?_, h.nodup.erase _⟩
  · intro j fp hfp
    rw [hslot]
    exact h.used j fp hfp
  · intro b hb
    obtain ⟨hne, hb⟩ := h.nodup.mem_erase_iff.1 hb
    obtain ⟨fp, hfp, hkind⟩ := h.object b hb
    refine ⟨fp, ?_, hkind⟩
    rw [Memory.free, List.getElem?_set_ne, hfp]
    rintro rfl
    exact hne rfl

end Accounted

/-! ### Runs -/

variable {st st' : System S} {c : SystemCall} {cs : List SystemCall}

/-- What an open changes. -/
theorem step_fopen {file : Path} {mode : Bytes} {below : Bool}
    (h : (SystemCall.fopen file mode below).step f P st = some st') :
    ∃ r, Slots.OpenCase f st.mem st.dev file mode below r st'.mem st'.dev ∧
      st'.held = r.toList ++ st.held := by
  obtain ⟨r, m', s', hrun, hcase⟩ := @Slots.run_fopen S f st.mem st.dev file mode below
  rw [SystemCall.step, hrun] at h
  cases h
  exact ⟨r, hcase, rfl⟩

/-- A mode lets a stream be read or written. -/
theorem sflags_flags {mode : Bytes} {flags : BitVec 16} {oflags : ℕ}
    (h : Stdio.sflags mode = some (flags, oflags)) : flags = SRD ∨ flags = SWR ∨ flags = SRW := by
  cases mode with
  | nil => cases h
  | cons c mode =>
    simp only [Stdio.sflags] at h
    generalize (decide (mode.take 1 = ascii "+") || decide (mode.take 2 = ascii "b+")) = plus at h
    cases plus <;> split_ifs at h <;> cases h <;> simp

theorem modeSet_open {file : Path} {mode : Bytes} {below : Bool} {flags : BitVec 16} {oflags : ℕ}
    {fd : Descriptor} (hmode : Stdio.sflags mode = some (flags, oflags)) (fp : FILE) :
    ModeSet { fp with file := fd, flags := flags,
                      type := if Slots.isLuae file below then ENC_FILE else COMMON_FILE } := by
  refine ⟨?_, ?_⟩
  · unfold FILE.isUncompress
    split_ifs <;> simp [LUA_UNCOMPRESS_FILE, ENC_FILE, COMMON_FILE]
  · change flags &&& (SRD ||| SWR ||| SRW) ≠ 0
    rcases sflags_flags hmode with rfl | rfl | rfl <;> decide

/-- What a call on an open file leaves of its stream. -/
theorem step_use {i : ℕ} {c : FileCall} {J : FILE → Prop} (hJ : Stdio.Stable (.ofFun f) J)
    (hfp : ∀ fp, .slot i ∈ st.held → st.mem.slots[i]? = some fp → J fp)
    (h : (SystemCall.use i c).step f P st = some st') :
    .slot i ∈ st.held ∧ st'.held = st.held ∧
      ∃ fp', J fp' ∧ st'.mem = { st.mem with slots := st.mem.slots.set i fp' } := by
  simp only [SystemCall.step] at h
  split_ifs at h with hheld
  obtain ⟨fp, hget, h⟩ := Option.bind_eq_some_iff.1 h
  obtain ⟨⟨fp', σ', s'⟩, hrun, rfl⟩ := Option.map_eq_some_iff.1 h
  have hkept := MProg.run_of_wpc (hJ.run (P := P) (σ := st.mem.tables) (s := st.dev) c
    (hfp fp hheld hget))
  rw [hrun] at hkept
  obtain ⟨a, σ'', s'', heq, hfp', rfl⟩ := hkept.resolve_right fun hno => by cases hno.1
  cases heq
  exact ⟨hheld, rfl, fp', hfp', rfl⟩

/-- What a close changes. -/
theorem step_fclose (h : Accounted st.mem st.held) {p : Handle}
    (hst : (SystemCall.fclose p).step f P st = some st') :
    p ∈ st.held ∧ st'.held = st.held.erase p ∧
      ((∃ i, p = .slot i ∧ st'.mem = st.mem.modify p fun fp => { fp with flags := 0 }) ∨
        ∃ a, p = .object a ∧ st'.mem = st.mem.free a) := by
  simp only [SystemCall.step] at hst
  split_ifs at hst with hheld
  cases p with
  | slot i =>
    have hlt := (h.usual i hheld).2
    rw [← h.length] at hlt
    have hfp : st.mem.slots[i]? = some st.mem.slots[i] := List.getElem?_eq_getElem hlt
    rw [Slots.run_fclose_slot hfp (h.kind _ _ hfp) (h.mode _ _ hfp hheld).flags_ne] at hst
    cases hst
    exact ⟨hheld, rfl, Or.inl ⟨i, rfl, rfl⟩⟩
  | object a =>
    obtain ⟨fp, hfp, hkind⟩ := h.object a hheld
    rw [Slots.run_fclose_object hfp hkind] at hst
    cases hst
    exact ⟨hheld, rfl, Or.inr ⟨a, rfl, rfl⟩⟩

/-- Every step keeps the account. -/
theorem Accounted.step (h : Accounted st.mem st.held) (hst : c.step f P st = some st') :
    Accounted st'.mem st'.held := by
  cases c with
  | fopen file mode below =>
    obtain ⟨r, hcase, hheld⟩ := step_fopen hst
    rw [hheld]
    generalize st'.mem = m', st'.dev = s' at hcase
    have hobject : Accounted (st.mem.withObject file below)
        ((st.mem.objectOf file).toList ++ st.held) := by
      cases hp : st.mem.objectOf file with
      | none => exact h.withObject file below
      | some p => exact h.objectOf hp below
    cases hcase with
    | update => exact hobject
    | refused => exact h.withObject file below
    | fallback => exact hobject
    | opened _ hmode hslot => exact (h.withObject file below).acquire hslot (modeSet_open hmode)
  | fclose p =>
    obtain ⟨hp, hheld, ⟨i, rfl, hmem⟩ | ⟨a, rfl, hmem⟩⟩ := step_fclose h hst
    · rw [hmem, hheld]
      exact h.release hp
    · rw [hmem, hheld]
      exact h.free a
  | use i c =>
    obtain ⟨hheld, hsame, fp', hmode, hmem⟩ := step_use (Stdio.stable_modeSet _)
      (fun fp hheld hfp => h.mode _ _ hfp hheld) hst
    rw [hmem, hsame]
    exact h.use hheld hmode _

theorem Accounted.runCalls (h : Accounted st.mem st.held) (hrun : runCalls f P cs st = some st') :
    Accounted st'.mem st'.held := by
  induction cs generalizing st with
  | nil =>
    cases hrun
    exact h
  | cons c cs ih =>
    obtain ⟨st₁, hst, hrun⟩ := Option.bind_eq_some_iff.1 hrun
    exact ih (h.step hst) hrun

/-- A held stream can be closed. -/
theorem Accounted.run_fclose (h : Accounted st.mem st.held) {p : Handle} (hp : p ∈ st.held) :
    ∃ r m' s', MProg.run f (Slots.fclose p) st.mem st.dev = some (r, m', s') := by
  cases p with
  | slot i =>
    have hlt := (h.usual i hp).2
    rw [← h.length] at hlt
    have hfp : st.mem.slots[i]? = some st.mem.slots[i] := List.getElem?_eq_getElem hlt
    exact ⟨_, _, _, Slots.run_fclose_slot hfp (h.kind _ _ hfp) (h.mode _ _ hfp hp).flags_ne⟩
  | object a =>
    obtain ⟨fp, hfp, hkind⟩ := h.object a hp
    exact ⟨_, _, _, Slots.run_fclose_object hfp hkind⟩

/-- `fopen` changes no slot but the one it returns. -/
theorem Slots.OpenCase.slots {m m' : Memory} {s s' : S} {file : Path} {mode : Bytes} {below : Bool}
    {r : Option Handle} (h : OpenCase f m s file mode below r m' s') (hr : ∀ i, r ≠ some (.slot i)) :
    m'.slots = m.slots := by
  cases h with
  | update => rfl
  | refused => rfl
  | fallback => rfl
  | opened => exact absurd rfl (hr _)

/-- **Slot accounting**: after any calls, the slots in use are those of the standard streams and of the
open files, each held once.  Opening a file always ends, and changes no slot unless it returns one;
and whatever is held can be closed. -/
theorem slots_accounted {σ : StdioState} {s : S} (h : runCalls f P cs (.init σ s) = some st) :
    st.mem.slots.length = fopenMax + 3 ∧
      (∀ i fp, st.mem.slots[i]? = some fp → (fp.flags ≠ 0 ↔ i < 3 ∨ .slot i ∈ st.held)) ∧
      (∀ i, .slot i ∈ st.held → 3 ≤ i ∧ i < fopenMax + 3) ∧ st.held.Nodup ∧
      (∀ file mode below, ∃ r m' s',
        MProg.run f (Slots.fopen file mode below) st.mem st.dev = some (r, m', s') ∧
          ((∀ i, r ≠ some (.slot i)) → m'.slots = st.mem.slots)) ∧
      ∀ p ∈ st.held, ∃ r m' s', MProg.run f (Slots.fclose p) st.mem st.dev = some (r, m', s') := by
  have hacc : Accounted st.mem st.held := (Accounted.init σ).runCalls h
  refine ⟨hacc.length, hacc.used, hacc.usual, hacc.nodup, fun file mode below => ?_,
    fun p hp => hacc.run_fclose hp⟩
  obtain ⟨r, m', s', hrun, hcase⟩ := @Slots.run_fopen S f st.mem st.dev file mode below
  exact ⟨r, m', s', hrun, hcase.slots⟩

/-- A disk with one file. -/
def textFile : Path := ascii "/ldata/a.txt"

def textDisk : Disk := fun p => if p = textFile then some (ascii "A") else none

/-- A file is opened, another one is not there, and the first is closed. -/
theorem slots_accounted_text : ∃ st, runCalls DevOp.handle (romPlatform eightBytes)
      [.fopen textFile (ascii "rb") false, .fopen encFile (ascii "rb") false, .fclose (.slot 3)]
      (.init {} textDisk) = some st ∧
    ∀ i fp, st.mem.slots[i]? = some fp → (fp.flags ≠ 0 ↔ i < 3 ∨ .slot i ∈ st.held) := by
  have hsome : (runCalls DevOp.handle (romPlatform eightBytes)
      [.fopen textFile (ascii "rb") false, .fopen encFile (ascii "rb") false, .fclose (.slot 3)]
      (.init {} textDisk)).isSome := by decide
  obtain ⟨st, hst⟩ := Option.isSome_iff_exists.1 hsome
  exact ⟨st, hst, (slots_accounted hst).2.1⟩

end OsdCore
