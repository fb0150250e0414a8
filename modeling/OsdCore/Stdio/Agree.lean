import OsdCore.Stdio.Slots

/-!
# Streams as values

The other modules pass a `FILE` by value, and the library's memory only counts the slots in use.  Here
that is what the table of streams refines: `Memory.Refines` relates the two memories, and `FILE.Like` a
stream in a slot, in which the offset and the cookie of the last stream are left, to the value.

* `fopen_refines`, `fclose_refines` : the functions on slots and objects do what those on values do.
-/

namespace OsdCore

variable {S : Type} {f : (o : DevOp) → S → DevOp.Resp o × S} {m : Memory} {σ : StdioState} {s : S}

/-- The slots that are in use are counted. -/
structure Memory.Refines (m : Memory) (σ : StdioState) : Prop where
  length : m.slots.length = fopenMax + 3
  used : m.slots.countP (·.flags ≠ 0) = σ.openFiles + 3
  update : m.tables.pUpdateFileTable = σ.pUpdateFileTable
  flash : m.tables.pFlashFileTable = σ.pFlashFileTable

/-- The streams are the same, but for what a slot still holds of its last stream. -/
structure FILE.Like (fp fp' : FILE) : Prop where
  flags : fp.flags = fp'.flags
  file : fp.file = fp'.file
  type : fp.type = fp'.type
  table : fp.isUncompress = true → fp = fp'

theorem FILE.Like.refl (fp : FILE) : fp.Like fp := ⟨rfl, rfl, rfl, fun _ => rfl⟩

theorem FILE.Like.isUncompress {fp fp' : FILE} (h : fp.Like fp') :
    fp.isUncompress = fp'.isUncompress := by
  unfold FILE.isUncompress
  rw [h.type]

/-- The streams that two opens return. -/
def SameStream (m : Memory) (r : Option Handle) (fp : Option FILE) : Prop :=
  Option.Rel (fun p fp' => ∃ fp, m.deref p = some fp ∧ fp.Like fp') r fp

/-! ### Counting slots -/

/-- How the number of slots in use changes with one of them. -/
theorem countP_modify {α : Type} {p : α → Bool} {g : α → α} {l : List α} {i : ℕ} {a : α}
    (h : l[i]? = some a) :
    (l.modify i g).countP p + (if p a then 1 else 0) = l.countP p + if p (g a) then 1 else 0 := by
  induction l generalizing i with
  | nil => cases h
  | cons b l ih =>
    cases i with
    | zero =>
      cases h
      simp only [List.modify_zero_cons, List.countP_cons]
      omega
    | succ i =>
      have hrest := ih (i := i) h
      simp only [List.modify_succ_cons, List.countP_cons]
      omega

namespace Memory.Refines

variable (h : m.Refines σ)

include h

/-- There is a free slot as long as not all are counted. -/
theorem freeSlot_eq_none_iff : m.freeSlot = none ↔ ¬ σ.openFiles < fopenMax := by
  have hle := List.countP_le_length (p := (·.flags ≠ 0)) (l := m.slots)
  have hlen := h.length
  have hused := h.used
  unfold Memory.freeSlot
  rw [List.findIdx?_eq_none_iff]
  constructor
  · intro hnone
    have hall : m.slots.countP (·.flags ≠ 0) = m.slots.length :=
      List.countP_eq_length.2 fun fp hfp => by simpa using hnone fp hfp
    omega
  · intro hfull fp hfp
    have hall : m.slots.countP (·.flags ≠ 0) = m.slots.length := by
      unfold fopenMax at *
      omega
    simpa using List.countP_eq_length.1 hall fp hfp

/-- A free slot is taken. -/
theorem acquire {i : ℕ} {g : FILE → FILE} (hi : m.freeSlot = some i)
    (hg : ∀ fp, (g fp).flags ≠ 0) : (m.modify (.slot i) g).Refines σ.acquire := by
  obtain ⟨fp, hfp, h0⟩ := Slots.freeSlot_eq_some hi
  have hcount := countP_modify (p := (·.flags ≠ 0)) (g := g) hfp
  rw [if_neg (by simp [h0]), if_pos (decide_eq_true (hg fp)), h.used] at hcount
  refine ⟨(List.length_modify _ _ _).trans h.length, ?_, h.update, h.flash⟩
  change (m.slots.modify i g).countP _ = σ.openFiles + 1 + 3
  omega

end Memory.Refines

/-! ### Opening -/

section

variable {file : Path} {mode : Bytes} {below : Bool}

/-- Allocating an object does not change the slots. -/
theorem Memory.Refines.withObject (h : m.Refines σ) : (m.withObject file below).Refines σ :=
  ⟨h.length, h.used, h.update, h.flash⟩

theorem Memory.Refines.find_eq (h : m.Refines σ) :
    Stdio.findUncompressFileItem m.tables file = Stdio.findUncompressFileItem σ file := by
  unfold Stdio.findUncompressFileItem
  rw [h.update, h.flash]

/-- For a name of 5 bytes or more, the memory in front of it is not looked at. -/
theorem Slots.isLuae_eq (h5 : 5 ≤ file.length) :
    Slots.isLuae file below = decide (ascii ".luae" <:+ file) := by
  rw [Slots.isLuae, Stdio.isLuaeFile_eq h5]
  rfl

theorem Memory.tableFile_eq (h5 : 5 ≤ file.length) (r : TableSection × UncompressFileItem) :
    Memory.tableFile file below r = Stdio.tableStream r.1 file r.2 := by
  rw [Memory.tableFile, Slots.isLuae_eq h5, Stdio.tableStream]
  simp only [decide_eq_true_eq]

/-- The object of `fopen_ext` is the stream of the entry. -/
theorem sameStream_object (h : m.Refines σ) (h5 : 5 ≤ file.length) :
    SameStream (m.withObject file below) (m.objectOf file) (Stdio.tableOpen σ file) := by
  unfold SameStream Memory.objectOf Stdio.tableOpen
  rw [h.find_eq]
  cases hfind : Stdio.findUncompressFileItem σ file with
  | none => exact .none
  | some r =>
    refine .some ⟨Memory.tableFile file below r, ?_, ?_⟩
    · simp [Memory.deref, Memory.withObject, h.find_eq, hfind]
    · rw [Memory.tableFile_eq h5]
      exact .refl _

theorem run_fopenExt_value (h5 : 5 ≤ file.length) :
    MProg.run f (Stdio.fopenExt file) σ s = some (Stdio.tableOpen σ file, σ, s) := by
  rw [Stdio.fopenExt, MProg.run_bind, Slots.run_get, Option.bind_some]
  unfold Stdio.tableOpen
  cases Stdio.findUncompressFileItem σ file with
  | none => rfl
  | some r =>
    simp only [Stdio.isLuaeFile_eq h5, Option.map_some, Stdio.tableStream, Stdio.defined_some_bind,
      decide_eq_true_eq]
    rfl

/-- An entry of the update's table is returned at once. -/
theorem run_fopen_value_update {item : UncompressFileItem} (h5 : 5 ≤ file.length)
    (hitem : Stdio.findUncompressFileItem σ file = some (.update, item)) :
    MProg.run f (Stdio.fopen file mode) σ s = some (Stdio.tableOpen σ file, σ, s) := by
  have hopen : Stdio.tableOpen σ file = some (Stdio.tableStream .update file item) := by
    rw [Stdio.tableOpen, hitem]
    rfl
  rw [Stdio.fopen, MProg.run_bind, run_fopenExt_value h5, Option.bind_some, hopen]
  rfl

/-- Otherwise, the mode is looked at. -/
theorem run_fopen_value (h5 : 5 ≤ file.length)
    (hno : ∀ item, Stdio.findUncompressFileItem σ file ≠ some (.update, item)) :
    MProg.run f (Stdio.fopen file mode) σ s = (Stdio.sflags mode).elim (some (none, σ, s)) fun x =>
      MProg.run f (Stdio.openSlot file (Stdio.tableOpen σ file) x.1 x.2) σ s := by
  have hflags : ¬ ((Stdio.tableOpen σ file).isSome ∧
      (Stdio.tableOpen σ file).map (·.flags) = some 0) := by
    rintro ⟨-, h0⟩
    unfold Stdio.tableOpen at h0
    rcases hfind : Stdio.findUncompressFileItem σ file with _ | ⟨nSection, item⟩
    · rw [hfind] at h0
      cases h0
    · cases nSection with
      | update => exact hno item hfind
      | flash =>
        rw [hfind] at h0
        cases h0
  rw [Stdio.fopen, MProg.run_bind, run_fopenExt_value h5, Option.bind_some]
  dsimp only
  rw [if_neg hflags]
  cases Stdio.sflags mode <;> rfl

/-- Without a slot, nothing is opened. -/
theorem run_openSlot_full {flags : BitVec 16} {oflags : ℕ} {pFile : Option FILE}
    (hfull : ¬ σ.openFiles < fopenMax) :
    MProg.run f (Stdio.openSlot file pFile flags oflags) σ s = some (none, σ, s) := by
  rw [Stdio.openSlot, MProg.run_bind, Slots.run_get, Option.bind_some]
  dsimp only
  rw [if_neg hfull]
  rfl

/-- With one, the device is asked. -/
theorem run_openSlot {flags : BitVec 16} {oflags : ℕ} {pFile : Option FILE} (h5 : 5 ≤ file.length)
    (hroom : σ.openFiles < fopenMax) :
    MProg.run f (Stdio.openSlot file pFile flags oflags) σ s =
      some ((f (.openFile file oflags) s).1.elim (pFile, σ, (f (.openFile file oflags) s).2) fun fd =>
        (some { Stdio.fileStream flags file with file := fd }, σ.acquire,
          (f (.openFile file oflags) s).2)) := by
  have hop : MProg.run f (Stdio.openFile file oflags) σ.acquire s =
      some ((f (.openFile file oflags) s).1, σ.acquire, (f (.openFile file oflags) s).2) := rfl
  have hset : MProg.run f (set { σ with openFiles := σ.openFiles + 1 } : StdioM PUnit) σ s =
      some (⟨⟩, σ.acquire, s) := rfl
  rw [Stdio.openSlot, MProg.run_bind, Slots.run_get, Option.bind_some]
  dsimp only
  rw [if_pos hroom, MProg.run_bind, hset, Option.bind_some, MProg.run_bind, hop, Option.bind_some]
  cases (f (.openFile file oflags) s).1 with
  | none => rfl
  | some fd =>
    simp only [Stdio.isLuaeFile_eq h5, Stdio.defined_some_bind, Stdio.fileStream, decide_eq_true_eq]
    rfl

/-- **`fopen` on slots does what it does on values.** -/
theorem fopen_refines (h : m.Refines σ) (h5 : 5 ≤ file.length) : ∃ r m' s' fp σ',
    MProg.run f (Slots.fopen file mode below) m s = some (r, m', s') ∧
      MProg.run f (Stdio.fopen file mode) σ s = some (fp, σ', s') ∧
      m'.Refines σ' ∧ SameStream m' r fp := by
  obtain ⟨r, m', s', hrun, hcase⟩ := @Slots.run_fopen S f m s file mode below
  refine ⟨r, m', s', ?_⟩
  rw [hrun]
  have hobject := @sameStream_object m σ file below h h5
  cases hcase with
  | update hitem =>
    rw [h.find_eq] at hitem
    exact ⟨_, _, rfl, run_fopen_value_update h5 hitem, h.withObject, hobject⟩
  | refused hno hwhy =>
    rw [h.find_eq] at hno
    refine ⟨none, σ, rfl, ?_, h.withObject, .none⟩
    rw [run_fopen_value h5 hno]
    rcases hwhy with hmode | hslot
    · rw [hmode]
      rfl
    · cases Stdio.sflags mode with
      | none => rfl
      | some x => exact run_openSlot_full (h.freeSlot_eq_none_iff.1 hslot)
  | fallback hno hmode hslot hopen =>
    rw [h.find_eq] at hno
    have hroom : σ.openFiles < fopenMax := by
      by_contra hfull
      rw [h.freeSlot_eq_none_iff.2 hfull] at hslot
      cases hslot
    refine ⟨Stdio.tableOpen σ file, σ, rfl, ?_, h.withObject, hobject⟩
    rw [run_fopen_value h5 hno, hmode, Option.elim_some, run_openSlot h5 hroom, hopen]
    rfl
  | @opened flags oflags i fd hno hmode hslot hopen =>
    rw [h.find_eq] at hno
    have hroom : σ.openFiles < fopenMax := by
      by_contra hfull
      rw [h.freeSlot_eq_none_iff.2 hfull] at hslot
      cases hslot
    -- what the slot still holds of its last stream does not show
    have hset : ∀ fp : FILE, Stdio.ModeSet { fp with
        file := fd, flags := flags,
        type := if Slots.isLuae file below then ENC_FILE else COMMON_FILE } := modeSet_open hmode
    obtain ⟨fp₀, hfp₀, -⟩ := Slots.freeSlot_eq_some hslot
    refine ⟨some { Stdio.fileStream flags file with file := fd }, σ.acquire, rfl, ?_,
      h.withObject.acquire hslot fun fp => (hset fp).flags_ne, .some ?_⟩
    · rw [run_fopen_value h5 hno, hmode, Option.elim_some, run_openSlot h5 hroom, hopen]
      rfl
    · refine ⟨{ fp₀ with
        file := fd, flags := flags,
        type := if Slots.isLuae file below then ENC_FILE else COMMON_FILE }, ?_, rfl, rfl, ?_, ?_⟩
      · have hget : (m.withObject file below).slots[i]? = some fp₀ := hfp₀
        simp only [Memory.deref, Memory.modify, List.getElem?_modify_eq, hget]
        rfl
      · rw [Slots.isLuae_eq h5]
        simp only [decide_eq_true_eq, Stdio.fileStream]
      · intro htable
        rw [(hset fp₀).isUncompress] at htable
        cases htable

end

/-! ### Closing -/

variable {held : List Handle}

/-- A file that is held is counted. -/
theorem Accounted.openFiles_pos (hacc : Accounted m held) (h : m.Refines σ) {i : ℕ}
    (hi : .slot i ∈ held) : 0 < σ.openFiles := by
  obtain ⟨h3, hlt⟩ := hacc.usual i hi
  have hlen := hacc.length
  have hsplit : m.slots.countP (·.flags ≠ 0) =
      (m.slots.take 3).countP (·.flags ≠ 0) + (m.slots.drop 3).countP (·.flags ≠ 0) := by
    rw [← List.countP_append, List.take_append_drop]
  -- the three standard streams, and the file that is held
  have husual : (m.slots.take 3).countP (·.flags ≠ 0) = 3 := by
    have hall : ∀ fp ∈ m.slots.take 3, decide (fp.flags ≠ 0) = true := by
      intro fp hfp
      obtain ⟨j, hj, rfl⟩ := List.mem_iff_getElem.1 hfp
      rw [List.length_take] at hj
      rw [List.getElem_take, decide_eq_true_eq]
      exact (hacc.used j _ (List.getElem?_eq_getElem (by omega))).2 (Or.inl (by omega))
    rw [List.countP_eq_length.2 hall, List.length_take]
    omega
  have hheld : 0 < (m.slots.drop 3).countP (·.flags ≠ 0) := by
    have hlt : i < m.slots.length := by omega
    have hget : (m.slots.drop 3)[i - 3]? = some m.slots[i] := by
      rw [List.getElem?_drop, Nat.add_sub_cancel' h3, List.getElem?_eq_getElem hlt]
    refine List.countP_pos_iff.2 ⟨_, List.mem_of_getElem? hget, ?_⟩
    rw [decide_eq_true_eq]
    exact (hacc.used i _ (List.getElem?_eq_getElem (by omega))).2 (Or.inr hi)
  have hused := h.used
  omega

/-- A slot that is held is given back. -/
theorem Memory.Refines.release (h : m.Refines σ) (hacc : Accounted m held) {i : ℕ} {fp : FILE}
    (hi : .slot i ∈ held) (hfp : m.slots[i]? = some fp) :
    (m.modify (.slot i) fun fp => { fp with flags := 0 }).Refines
      { σ with openFiles := σ.openFiles - 1 } := by
  have hne : fp.flags ≠ 0 := (hacc.used i fp hfp).2 (Or.inr hi)
  have hpos := hacc.openFiles_pos h hi
  have hcount := countP_modify (p := (·.flags ≠ 0)) (g := fun fp => { fp with flags := 0 }) hfp
  rw [if_pos (decide_eq_true hne), if_neg (by simp), h.used] at hcount
  refine ⟨(List.length_modify _ _ _).trans h.length, ?_, h.update, h.flash⟩
  change (m.slots.modify i _).countP _ = σ.openFiles - 1 + 3
  omega

/-- **`fclose` of a stream that is held does what it does on values.** -/
theorem fclose_refines (h : m.Refines σ) (hacc : Accounted m held) {p : Handle} {fp fp' : FILE}
    (hp : p ∈ held) (hfp : m.deref p = some fp) (hlike : fp.Like fp') : ∃ r m' s' σ',
    MProg.run f (Slots.fclose p) m s = some (r, m', s') ∧
      MProg.run f (Stdio.fclose fp') σ s = some (r, σ', s') ∧ m'.Refines σ' := by
  cases p with
  | slot i =>
    have hget : m.slots[i]? = some fp := hfp
    have hkind := hacc.kind i fp hget
    have hflags := (hacc.mode i fp hget hp).flags_ne
    refine ⟨_, _, _, _, Slots.run_fclose_slot hget hkind hflags, ?_, h.release hacc hp hget⟩
    have hop : MProg.run f (Stdio.closeFile fp.file) σ s =
        some ((f (.closeFile fp.file) s).1, σ, (f (.closeFile fp.file) s).2) := rfl
    rw [hlike.isUncompress] at hkind
    rw [hlike.flags] at hflags
    simp only [Stdio.fclose, hkind, hflags, Bool.false_eq_true, ↓reduceIte, MProg.run_bind, ← hlike.file,
      hop, Option.bind_some]
    rfl
  | object a =>
    obtain ⟨fp₀, hfp₀, hkind⟩ := hacc.object a hp
    obtain rfl : fp₀ = fp := by
      simp only [Memory.deref, hfp₀] at hfp
      exact Option.some.inj hfp
    refine ⟨_, _, _, σ, Slots.run_fclose_object hfp₀ hkind, ?_, ⟨h.length, h.used, h.update, h.flash⟩⟩
    rw [hlike.isUncompress] at hkind
    rw [Stdio.fclose, if_pos hkind]
    rfl

end OsdCore
