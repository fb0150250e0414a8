import OsdCore.Stdio.Slots

/-!
# The objects of the file tables

`fopen_ext` allocates an object for every path that a table lists, and `fopen` may then return another
stream or none.  The object should be held by a caller or freed.

* `tidy_iff` : after any calls that is so exactly if each `fopen` of an entry of the flash table
  returned it.
-/

namespace OsdCore

variable {S : Type} {f : (o : DevOp) → S → DevOp.Resp o × S} {P : Platform}
variable {st st' : System S} {c : SystemCall} {cs : List SystemCall}

/-- **Every object that is allocated and not freed is held.** -/
def System.Tidy (st : System S) : Prop :=
  ∀ a fp, st.mem.objects[a]? = some (some fp) → .object a ∈ st.held

/-- The call does not lose an object: the mode is one, a slot is free, and the file system does not
open the path. -/
def SystemCall.KeepsObject (f : (o : DevOp) → S → DevOp.Resp o × S) (c : SystemCall) (st : System S) :
    Prop :=
  match c with
  | fopen file mode _ => ∀ item,
      Stdio.findUncompressFileItem st.mem.tables file = some (.flash, item) →
        ∃ flags oflags, Stdio.sflags mode = some (flags, oflags) ∧ st.mem.freeSlot.isSome ∧
          (f (.openFile file oflags) st.dev).1 = none
  | fclose _ | use _ _ => True

/-- So do all the calls, each where it is made. -/
def AllKeepObject (f : (o : DevOp) → S → DevOp.Resp o × S) (P : Platform) :
    List SystemCall → System S → Prop
  | [], _ => True
  | c :: cs, st => c.KeepsObject f st ∧ ∀ st', c.step f P st = some st' → AllKeepObject f P cs st'

/-! ### One call -/

section

variable {m m' : Memory} {held : List Handle} {s s' : S} {file : Path} {mode : Bytes} {below : Bool}
variable {r : Option Handle}

/-- The objects after `fopen_ext`. -/
theorem getElem?_withObject {a : ℕ} {fp : FILE} :
    (m.withObject file below).objects[a]? = some (some fp) ↔ m.objects[a]? = some (some fp) ∨
      a = m.objects.length ∧ ∃ x, Stdio.findUncompressFileItem m.tables file = some x ∧
        Memory.tableFile file below x = fp := by
  unfold Memory.withObject
  cases Stdio.findUncompressFileItem m.tables file with
  | none => simp
  | some x =>
    rcases lt_trichotomy a m.objects.length with hlt | rfl | hgt
    · simp only [List.getElem?_append_left hlt, hlt.ne, false_and, or_false]
    · simp
    · rw [List.getElem?_eq_none (by simp; omega), List.getElem?_eq_none hgt.le]
      simp [hgt.ne']

/-- `fopen` does not touch the objects that are there. -/
theorem Slots.OpenCase.objects (h : OpenCase f m s file mode below r m' s') :
    m'.objects = (m.withObject file below).objects := by
  cases h <;> rfl

/-- It returns the new object, a slot or nothing. -/
theorem Slots.OpenCase.mem_object (h : OpenCase f m s file mode below r m' s') {a : ℕ}
    (ha : .object a ∈ r.toList) : a = m.objects.length := by
  have hobject : .object a ∈ (m.objectOf file).toList → a = m.objects.length := by
    unfold Memory.objectOf
    cases Stdio.findUncompressFileItem m.tables file <;> simp
  cases h with
  | update => exact hobject ha
  | refused => cases ha
  | fallback => exact hobject ha
  | opened => simp at ha

/-- The object is returned exactly if the call does not lose it. -/
theorem Slots.OpenCase.returns_iff (h : OpenCase f m s file mode below r m' s') :
    (∀ x, Stdio.findUncompressFileItem m.tables file = some x → r = some (.object m.objects.length)) ↔
      (SystemCall.fopen file mode below).KeepsObject f ⟨m, held, s⟩ := by
  have hobject : ∀ x, Stdio.findUncompressFileItem m.tables file = some x →
      m.objectOf file = some (.object m.objects.length) := fun x hx => by
    rw [Memory.objectOf, hx]
    rfl
  have hsection : (∀ item, Stdio.findUncompressFileItem m.tables file ≠ some (.update, item)) →
      ∀ x, Stdio.findUncompressFileItem m.tables file = some x →
        ∃ item, Stdio.findUncompressFileItem m.tables file = some (.flash, item) := by
    rintro hno ⟨nSection, item⟩ hx
    cases nSection with
    | update => exact absurd hx (hno item)
    | flash => exact ⟨item, hx⟩
  cases h with
  | update hitem =>
    refine iff_of_true hobject fun item hflash => ?_
    change Stdio.findUncompressFileItem m.tables file = _ at hflash
    rw [hitem] at hflash
    cases hflash
  | refused hno hwhy =>
    refine ⟨fun hret item hflash => absurd (hret _ hflash) (by simp), fun hkeep x hx => ?_⟩
    obtain ⟨item, hflash⟩ := hsection hno x hx
    obtain ⟨flags, oflags, hmode, hslot, -⟩ := hkeep item hflash
    change m.freeSlot.isSome = true at hslot
    rcases hwhy with hwhy | hwhy
    · rw [hwhy] at hmode
      cases hmode
    · rw [hwhy] at hslot
      cases hslot
  | fallback hno hmode hslot hopen =>
    refine iff_of_true hobject fun item _ => ⟨_, _, hmode, ?_, hopen⟩
    change m.freeSlot.isSome = true
    rw [hslot]
    rfl
  | opened hno hmode hslot hopen =>
    refine ⟨fun hret item hflash => absurd (hret _ hflash) (by simp), fun hkeep x hx => ?_⟩
    obtain ⟨item, hflash⟩ := hsection hno x hx
    obtain ⟨flags, oflags, hmode', -, hopen'⟩ := hkeep item hflash
    obtain ⟨rfl, rfl⟩ := Prod.mk.inj (Option.some.inj (hmode.symm.trans hmode'))
    exact absurd (hopen.symm.trans hopen') (by simp)

end

/-- **What a call does to the account**: it stays in order exactly if the call loses nothing. -/
theorem tidy_step_iff (h : Accounted st.mem st.held) (hst : c.step f P st = some st') :
    st'.Tidy ↔ st.Tidy ∧ c.KeepsObject f st := by
  cases c with
  | fopen file mode below =>
    obtain ⟨r, hcase, hheld⟩ := step_fopen hst
    rw [← @Slots.OpenCase.returns_iff _ _ _ _ st.held _ _ _ _ _ _ hcase]
    -- the new object is not held already, as all that is held was allocated before
    have hnew : Handle.object st.mem.objects.length ∉ st.held := fun hmem => by
      obtain ⟨fp, hfp, -⟩ := h.object _ hmem
      simp at hfp
    simp only [System.Tidy, hheld, hcase.objects, getElem?_withObject, List.mem_append]
    constructor
    · refine fun htidy => ⟨fun a fp hfp => ?_, fun x hx => ?_⟩
      · refine (htidy a fp (Or.inl hfp)).resolve_left fun hmem => ?_
        rw [hcase.mem_object hmem] at hfp
        simp at hfp
      · have hmem := (htidy _ _ (Or.inr ⟨rfl, x, hx, rfl⟩)).resolve_right hnew
        simpa using hmem
    · rintro ⟨htidy, hret⟩ a fp (hfp | ⟨rfl, x, hx, -⟩)
      · exact Or.inr (htidy a fp hfp)
      · rw [hret x hx]
        exact Or.inl (by simp)
  | fclose p =>
    obtain ⟨hp, hheld, ⟨i, rfl, hmem⟩ | ⟨a, rfl, hmem⟩⟩ := step_fclose h hst
    -- closing a file takes no object from its holder
    · have herase : ∀ b, Handle.object b ∈ st.held.erase (.slot i) ↔ .object b ∈ st.held := fun b =>
        List.mem_erase_of_ne (by simp)
      simp only [System.Tidy, hmem, hheld, herase]
      exact (and_iff_left trivial).symm
    -- the object that is given up is the one that is freed
    · simp only [System.Tidy, hmem, hheld, h.nodup.mem_erase_iff, Memory.free]
      refine ⟨fun htidy => ⟨fun b fp hfp => ?_, trivial⟩, fun htidy b fp hfp => ?_⟩
      · by_cases hab : a = b
        · exact hab ▸ hp
        · exact (htidy b fp (by rwa [List.getElem?_set_ne hab])).2
      · have hab : a ≠ b := by
          rintro rfl
          rw [List.getElem?_set_self'] at hfp
          obtain ⟨_, -, heq⟩ := Option.map_eq_some_iff.1 hfp
          cases heq
        rw [List.getElem?_set_ne hab] at hfp
        exact ⟨fun heq => hab (Handle.object.inj heq).symm, htidy.1 b fp hfp⟩
  | use i c =>
    obtain ⟨hheld, hsame, fp', hmode, hmem⟩ := step_use (Stdio.stable_modeSet _)
      (fun fp hheld hfp => h.mode _ _ hfp hheld) hst
    rw [System.Tidy, hmem, hsame]
    exact (and_iff_left trivial).symm

theorem tidy_runCalls_iff (h : Accounted st.mem st.held) (hrun : runCalls f P cs st = some st') :
    st'.Tidy ↔ st.Tidy ∧ AllKeepObject f P cs st := by
  induction cs generalizing st with
  | nil =>
    cases hrun
    exact (and_iff_left trivial).symm
  | cons c cs ih =>
    obtain ⟨st₁, hst, hrun⟩ := Option.bind_eq_some_iff.1 hrun
    rw [ih (h.step hst) hrun, tidy_step_iff h hst, and_assoc]
    refine and_congr_right fun _ => and_congr_right fun _ => ⟨fun hall st₂ hst₂ => ?_, fun hall => hall _ hst⟩
    rw [hst] at hst₂
    cases hst₂
    exact hall

/-- **Table entries are accounted for** after any calls, exactly if no call lost one. -/
theorem tidy_iff {σ : StdioState} {s : S} (h : runCalls f P cs (.init σ s) = some st) :
    st.Tidy ↔ AllKeepObject f P cs (.init σ s) := by
  rw [tidy_runCalls_iff (Accounted.init σ) h]
  exact and_iff_right fun a fp hfp => by cases hfp

/-- Then nothing is allocated any more once every stream is closed. -/
theorem System.Tidy.freed (h : st.Tidy) (hheld : st.held = []) (a : ℕ) (fp : FILE) :
    st.mem.objects[a]? ≠ some (some fp) := by
  intro hfp
  have hmem := h a fp hfp
  rw [hheld] at hmem
  cases hmem

/-! ### Samples -/

/-- The file is in the flash table, too. -/
def textTables : StdioState := { pFlashFileTable := [⟨textFile, 0, 8⟩] }

/-- A file is opened and closed, and then the table entry that it hid, as it is gone. -/
theorem tidy_iff_text : ∃ st, runCalls DevOp.handle (romPlatform eightBytes)
      [.fopen textFile (ascii "rb") false, .fclose (.object 0)] (.init textTables fun _ => none) =
        some st ∧
    (st.Tidy ↔ AllKeepObject DevOp.handle (romPlatform eightBytes)
      [.fopen textFile (ascii "rb") false, .fclose (.object 0)] (.init textTables fun _ => none)) := by
  have hsome : (runCalls DevOp.handle (romPlatform eightBytes)
      [.fopen textFile (ascii "rb") false, .fclose (.object 0)]
      (.init textTables fun _ => none)).isSome := by decide
  obtain ⟨st, hst⟩ := Option.isSome_iff_exists.1 hsome
  exact ⟨st, hst, tidy_iff hst⟩

/-- A file that hides a table entry is opened and closed: nothing is held, and one object is left. -/
theorem not_tidy_text : ∃ st, runCalls DevOp.handle (romPlatform eightBytes)
      [.fopen textFile (ascii "rb") false, .fclose (.slot 3)] (.init textTables textDisk) = some st ∧
    st.held = [] ∧ ¬ st.Tidy := by
  have hrun : (runCalls DevOp.handle (romPlatform eightBytes)
      [.fopen textFile (ascii "rb") false, .fclose (.slot 3)] (.init textTables textDisk)).map
        (fun st => (st.held, st.mem.objects.map Option.isSome)) = some ([], [true]) := by decide
  obtain ⟨st, hst, heq⟩ := Option.map_eq_some_iff.1 hrun
  obtain ⟨hheld, hobjects⟩ := Prod.mk.inj heq
  refine ⟨st, hst, hheld, fun htidy => ?_⟩
  obtain ⟨x, hx, hsome⟩ := List.map_eq_singleton_iff.1 hobjects
  obtain ⟨fp, rfl⟩ := Option.isSome_iff_exists.1 hsome
  exact htidy.freed hheld 0 fp (by rw [hx]; rfl)

end OsdCore
