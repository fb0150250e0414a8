import OsdCore.Stdio.Slots

/-!
# The known offset

`__SOFF` in the flags of a stream says that `_offset` is the position of the device, so that `ftell`
need not ask.

* `known_offset` : so it is, for every stream that is held after any calls, over a device that reads
  where it is; a slot that is used again may hold any offset, but not the flag.
-/

namespace OsdCore

open Stdio (Stable or_and_of_disjoint and_not_and_of_disjoint)

variable {S : Type} {f : (o : DevOp) → S → DevOp.Resp o × S} {P : Platform}
variable {st st' : System S} {c : SystemCall} {cs : List SystemCall}

/-- **The device reads at its own position.**  A read moves it by the bytes that it gives, and a
failing one does not; a seek that succeeds answers where it is; and a seek by nothing stays there.
Writes may leave it anywhere. -/
structure OwnPosition (f : (o : DevOp) → S → DevOp.Resp o × S) : Prop where
  read : ∀ fd n s, (f (.readFile fd n) s).1.2.pos = fd.pos + ((f (.readFile fd n) s).1.1.getD []).length
  seek : ∀ fd offset whence s, 0 ≤ (f (.seekFile fd offset whence) s).1.1 →
    ((f (.seekFile fd offset whence) s).1.2.pos : ℤ) = (f (.seekFile fd offset whence) s).1.1
  tell : ∀ fd s, 0 ≤ (f (.seekFile fd 0 .SEEK_CUR) s).1.1 →
    (f (.seekFile fd 0 .SEEK_CUR) s).1.1 = fd.pos

/-- The flag is right. -/
def FILE.KnownOffset (fp : FILE) : Prop := fp.flags &&& SOFF ≠ 0 → fp.offset = fp.file.pos

/-- A stream of the file system whose flag is right. -/
structure FILE.Known (fp : FILE) : Prop where
  isUncompress : fp.isUncompress = false
  offset : fp.KnownOffset

theorem FILE.KnownOffset.of_flags {fp fp' : FILE} (h : fp.KnownOffset)
    (hflags : fp'.flags &&& SOFF = fp.flags &&& SOFF) (hoffset : fp'.offset = fp.offset)
    (hfile : fp'.file = fp.file) : fp'.KnownOffset := by
  unfold FILE.KnownOffset
  rw [hflags, hoffset, hfile]
  exact h

theorem FILE.KnownOffset.of_clear {fp : FILE} (h : fp.flags &&& SOFF = 0) : fp.KnownOffset :=
  fun hne => absurd h hne

/-- Every change of a stream keeps the flag right. -/
theorem stable_known (hf : OwnPosition f) : Stable (.ofFun f) FILE.Known where
  isUncompress _ h := h.isUncompress
  read fp n s r s' h hst := by
    have hread := hf.read fp.file n s
    change (r, s') = f (.readFile fp.file n) s at hst
    rw [← hst] at hread
    refine ⟨h.isUncompress, fun hoff => ?_⟩
    change fp.offset + ((r.1.getD []).length : ℤ) = r.2.pos
    -- both move by the bytes that were given
    rw [h.offset hoff, hread]
    push_cast
    rfl
  seek fp offset whence s r s' h hst h0 := by
    have hseek := hf.seek fp.file offset whence s
    change (r, s') = f (.seekFile fp.file offset whence) s at hst
    rw [← hst] at hseek
    exact ⟨h.isUncompress, fun _ => (hseek h0).symm⟩
  forget fp fd h := ⟨h.isUncompress, .of_clear (by
    change (fp.flags &&& ~~~SOFF) &&& SOFF = 0
    rw [BitVec.and_assoc, BitVec.not_and_self]
    exact BitVec.and_zero)⟩
  mark fp x h hx := ⟨h.isUncompress, h.offset.of_flags (by
    rcases hx with rfl | rfl <;> exact or_and_of_disjoint (by decide)) rfl rfl⟩
  clear fp h := ⟨h.isUncompress, h.offset.of_flags (and_not_and_of_disjoint (by decide)) rfl rfl⟩

/-- What a slot holds after `fopen`: the flags of the mode, or what it held. -/
theorem Slots.OpenCase.getElem?_slots {m m' : Memory} {s s' : S} {file : Path} {mode : Bytes}
    {below : Bool} {r : Option Handle} (h : OpenCase f m s file mode below r m' s') {j : ℕ} {fp : FILE}
    (hfp : m'.slots[j]? = some fp) :
    (r = some (.slot j) ∧ (fp.flags = SRD ∨ fp.flags = SWR ∨ fp.flags = SRW)) ∨
      (r ≠ some (.slot j) ∧ m.slots[j]? = some fp) := by
  have hobject : m.objectOf file ≠ some (.slot j) := by
    unfold Memory.objectOf
    cases Stdio.findUncompressFileItem m.tables file <;> simp
  cases h with
  | update => exact Or.inr ⟨hobject, hfp⟩
  | refused => exact Or.inr ⟨by simp, hfp⟩
  | fallback => exact Or.inr ⟨hobject, hfp⟩
  | @opened flags oflags i fd _ hmode =>
    by_cases hij : i = j
    · subst hij
      simp only [Memory.modify, List.getElem?_modify_eq, Option.map_eq_map,
        Option.map_eq_some_iff] at hfp
      obtain ⟨fp', -, rfl⟩ := hfp
      exact Or.inl ⟨rfl, sflags_flags hmode⟩
    · simp only [Memory.modify, List.getElem?_modify_ne _ _ hij] at hfp
      exact Or.inr ⟨by simpa using hij, hfp⟩

/-- The flag of every stream that is held is right. -/
def System.Known (st : System S) : Prop :=
  ∀ i fp, .slot i ∈ st.held → st.mem.slots[i]? = some fp → fp.KnownOffset

/-- Every step keeps it right. -/
theorem System.Known.step (h : st.Known) (hf : OwnPosition f) (hacc : Accounted st.mem st.held)
    (hst : c.step f P st = some st') : st'.Known := by
  cases c with
  | fopen file mode below =>
    obtain ⟨r, hcase, hheld⟩ := step_fopen hst
    intro i fp hi hfp
    rcases hcase.getElem?_slots hfp with ⟨-, hflags⟩ | ⟨hr, hfp⟩
    · -- whatever offset the slot still holds
      refine .of_clear ?_
      rcases hflags with hflags | hflags | hflags <;> rw [hflags] <;> decide
    · rw [hheld, List.mem_append, Option.mem_toList] at hi
      exact h i fp (hi.resolve_left hr) hfp
  | fclose p =>
    obtain ⟨hp, hheld, hmem⟩ := step_fclose hacc hst
    intro i fp hi hfp
    rw [hheld, hacc.nodup.mem_erase_iff] at hi
    refine h i fp hi.2 ?_
    rcases hmem with ⟨j, rfl, hmem⟩ | ⟨a, rfl, hmem⟩
    · have hij : j ≠ i := fun heq => hi.1 (by rw [heq])
      rwa [hmem, Memory.modify, List.getElem?_modify_ne _ _ hij] at hfp
    · rwa [hmem] at hfp
  | use j c =>
    obtain ⟨hheld, hsame, fp', hfp', hmem⟩ := step_use (stable_known hf)
      (fun fp hheld hfp => ⟨hacc.kind j fp hfp, h j fp hheld hfp⟩) hst
    intro i fp hi hfp
    rw [hsame] at hi
    rw [hmem] at hfp
    change (st.mem.slots.set j fp')[i]? = some fp at hfp
    -- the stream that is used, and the others
    by_cases hij : j = i
    · subst hij
      rw [List.getElem?_set_self'] at hfp
      obtain ⟨_, -, rfl⟩ := Option.map_eq_some_iff.1 hfp
      exact hfp'.offset
    · rw [List.getElem?_set_ne hij] at hfp
      exact h i fp hi hfp

theorem System.Known.runCalls (h : st.Known) (hf : OwnPosition f) (hacc : Accounted st.mem st.held)
    (hrun : runCalls f P cs st = some st') : st'.Known := by
  induction cs generalizing st with
  | nil =>
    cases hrun
    exact h
  | cons c cs ih =>
    obtain ⟨st₁, hst, hrun⟩ := Option.bind_eq_some_iff.1 hrun
    exact ih (h.step hf hacc hst) (hacc.step hst) hrun

/-- `ftell` on a stream whose flag is right. -/
theorem FILE.Known.run_ftell {fp : FILE} (h : fp.Known) (hf : OwnPosition f) (σ : StdioState) (s : S) :
    ∃ r fp' s', MProg.run f (Stdio.ftell fp) σ s = some ((r, fp'), σ, s') ∧
      (r = fp.file.pos ∨ (r = -1 ∧ (f (.seekFile fp.file 0 .SEEK_CUR) s).1.1 < 0)) := by
  unfold Stdio.ftell
  rw [if_neg (by rw [h.isUncompress]; exact Bool.false_ne_true)]
  -- the cached offset, or the device's own answer
  by_cases hoff : fp.flags &&& SOFF ≠ 0
  · rw [if_pos hoff]
    exact ⟨_, _, _, rfl, Or.inl (h.offset hoff)⟩
  · rw [if_neg hoff]
    have hop : MProg.run f (Stdio.seekFile fp.file 0 .SEEK_CUR) σ s =
        some ((f (.seekFile fp.file 0 .SEEK_CUR) s).1, σ, (f (.seekFile fp.file 0 .SEEK_CUR) s).2) := rfl
    rw [Stdio.sseek, MProg.run_bind, hop, Option.bind_some]
    by_cases hneg : (f (.seekFile fp.file 0 .SEEK_CUR) s).1.1 < 0
    · simp only [hneg, ↓reduceIte]
      exact ⟨_, _, _, rfl, Or.inr ⟨rfl, trivial⟩⟩
    · simp only [hneg, ↓reduceIte]
      exact ⟨_, _, _, rfl, Or.inl (hf.tell _ _ (by omega))⟩

/-- **The known offset**: after any calls, an open file whose flags hold `__SOFF` has the position of
the device as its offset, and `ftell` gives the position, or the device's error. -/
theorem known_offset (hf : OwnPosition f) {σ : StdioState} {s : S}
    (h : runCalls f P cs (.init σ s) = some st) {i : ℕ} {fp : FILE} (hi : .slot i ∈ st.held)
    (hfp : st.mem.slots[i]? = some fp) :
    (fp.flags &&& SOFF ≠ 0 → fp.offset = fp.file.pos) ∧
      ∃ r fp' s', MProg.run f (Stdio.ftell fp) st.mem.tables st.dev =
          some ((r, fp'), st.mem.tables, s') ∧
        (r = fp.file.pos ∨ (r = -1 ∧ (f (.seekFile fp.file 0 .SEEK_CUR) st.dev).1.1 < 0)) := by
  have hacc : Accounted st.mem st.held := (Accounted.init σ).runCalls h
  have hknown : st.Known :=
    System.Known.runCalls (fun i fp hi _ => absurd hi List.not_mem_nil) hf (Accounted.init σ) h
  have hfpk : fp.Known := ⟨hacc.kind i fp hfp, hknown i fp hi hfp⟩
  exact ⟨hfpk.offset, hfpk.run_ftell hf _ _⟩

/-! ### Samples -/

/-- The file system without faults reads at its own position. -/
theorem ownPosition_handle : OwnPosition DevOp.handle where
  read fd n d := by
    simp only [DevOp.handle]
    split_ifs <;> rfl
  seek fd offset whence d h := by
    simp only [DevOp.handle] at h ⊢
    by_cases hin : 0 ≤ seekPos d fd offset whence ∧ seekPos d fd offset whence < 2 ^ 31
    · rw [if_pos hin]
      exact Int.toNat_of_nonneg hin.1
    · rw [if_neg hin] at h
      have h1 : (0 : ℤ) ≤ -1 := h
      omega
  tell fd d h := by
    have hpos : seekPos d fd 0 .SEEK_CUR = fd.pos := add_zero _
    simp only [DevOp.handle, hpos] at h ⊢
    by_cases hin : 0 ≤ (fd.pos : ℤ) ∧ (fd.pos : ℤ) < 2 ^ 31
    · rw [if_pos hin]
    · rw [if_neg hin] at h
      have h1 : (0 : ℤ) ≤ -1 := h
      omega

/-- A file is opened and its position asked for, and then a byte is read. -/
theorem known_offset_text : ∃ st fp, runCalls DevOp.handle (romPlatform eightBytes)
      [.fopen textFile (ascii "rb") false, .use 3 .ftell, .use 3 (.fread 1 1)] (.init {} textDisk) =
        some st ∧
    st.mem.slots[3]? = some fp ∧ (fp.flags &&& SOFF ≠ 0 ∧ fp.offset = 1) ∧
    (fp.flags &&& SOFF ≠ 0 → fp.offset = fp.file.pos) ∧
      ∃ r fp' s', MProg.run DevOp.handle (Stdio.ftell fp) st.mem.tables st.dev =
          some ((r, fp'), st.mem.tables, s') ∧
        (r = fp.file.pos ∨ (r = -1 ∧ (DevOp.handle (.seekFile fp.file 0 .SEEK_CUR) st.dev).1.1 < 0)) := by
  have hrun : (runCalls DevOp.handle (romPlatform eightBytes)
      [.fopen textFile (ascii "rb") false, .use 3 .ftell, .use 3 (.fread 1 1)] (.init {} textDisk)).map
        (fun st => (st.held, st.mem.slots[3]?.map fun fp => (decide (fp.flags &&& SOFF ≠ 0), fp.offset))) =
          some ([.slot 3], some (true, 1)) := by decide +kernel
  obtain ⟨st, hst, heq⟩ := Option.map_eq_some_iff.1 hrun
  obtain ⟨hheld, hslot⟩ := Prod.mk.inj heq
  obtain ⟨fp, hfp, hflag⟩ := Option.map_eq_some_iff.1 hslot
  obtain ⟨hoff, hoffset⟩ := Prod.mk.inj hflag
  have hmem : .slot 3 ∈ st.held := by
    rw [hheld]
    exact List.mem_singleton_self _
  exact ⟨st, fp, hst, hfp, ⟨of_decide_eq_true hoff, hoffset⟩,
    known_offset ownPosition_handle hst hmem hfp⟩

end OsdCore
