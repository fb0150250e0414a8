import OsdCore.Luadb.Decode

/-!
# What the decode phase reads, and the ranges it accepts

* `decode_inBounds_iff` : the decode phase stays inside the image exactly when every run of records
  it enters ends there (`RunsClosed`).
* `rangesInside_iff` : the ranges of an accepted image lie inside it, in order and disjoint, exactly
  when no file's declared end wraps.
-/

namespace OsdCore

open TlvFormat

/-! ### The checksum loop -/

theorem rd_of_lt {d : Bytes} {i : ℕ} (h : i < d.length) : rd d i = .ok d[i] := by
  simp [rd, h]

theorem calcCheckCodeLoop_eq {data : Bytes} {n sum : ℕ} (h : n ≤ data.length) :
    calcCheckCodeLoop data n sum = .ok ((sum + byteSum (data.take n)) % 2 ^ 16) := by
  induction n generalizing sum with
  | zero => simp [calcCheckCodeLoop]
  | succ n ih =>
    have hn : n < data.length := h
    have htake : data.take (n + 1) = data.take n ++ [data[n]] := by simp
    simp only [calcCheckCodeLoop, rd_of_lt hn, bind, Except.bind, ih hn.le, htake, byteSum_append,
      byteSum_cons, byteSum_nil]
    congr 1
    omega

/-- `calcCheckCode` is the 16-bit sum of the bytes below `n`. -/
theorem calcCheckCode_eq {data : Bytes} {n : ℕ} (h : n ≤ data.length) :
    calcCheckCode data n = .ok (checksum (data.take n)) := by
  simp [calcCheckCode, calcCheckCodeLoop_eq h, checksum]

/-! ### One header -/

theorem decodeHeadInfo_error {pData : Bytes} {e : Stop}
    (h : headFormat.scan pData (pData.length + 1) 0 {} = .error e) :
    decodeHeadInfo pData = .error e := by
  simp [decodeHeadInfo, h, bind, Except.bind]

theorem decodeHeadInfo_eq {pData : Bytes} {s : HeadScan} {pos : ℕ}
    (h : headFormat.scan pData (pData.length + 1) 0 {} = .ok (s, pos)) :
    decodeHeadInfo pData =
      if s.magic ≠ dbMagic then .error (.exit LUADB_ERR_MAGIC)
      else if checksum (pData.take (pos - 2)) ≠ s.checkCode then
        .error (.exit LUADB_ERR_CHECK_FAIL)
      else .ok s.toDbHeadInfo := by
  have hpos := scan_pos h
  have hsum : calcCheckCode pData (pos - 2) = .ok (checksum (pData.take (pos - 2))) :=
    calcCheckCode_eq (by omega)
  simp only [decodeHeadInfo, h, hsum, bind, Except.bind, pure, Except.pure]
  split_ifs <;> rfl

theorem decodeFile_error {img : Bytes} {offset : ℕ} {e : Stop}
    (h : fileFormat.scan (img.drop offset) ((img.drop offset).length + 1) 0 {} = .error e) :
    decodeFile img offset = .error e := by
  simp only [decodeFile, h, bind, Except.bind]

theorem decodeFile_eq {img : Bytes} {offset : ℕ} {s : FileScan} {pos : ℕ}
    (h : fileFormat.scan (img.drop offset) ((img.drop offset).length + 1) 0 {} = .ok (s, pos)) :
    decodeFile img offset =
      if s.magic ≠ dbMagic then .error (.exit LUADB_ERR_MAGIC)
      else if checksum ((img.drop offset).take (pos - 2)) ≠ s.checkCode then
        .error (.exit LUADB_ERR_CHECK_FAIL)
      else .ok ({ name := s.name, length := s.length, data := offset + pos,
                  offset := (offset + pos) % 2 ^ 32 },
                (offset + (pos + s.length) % 2 ^ 32) % 2 ^ 32) := by
  have hpos := scan_pos h
  have hsum : calcCheckCode (img.drop offset) (pos - 2) =
      .ok (checksum ((img.drop offset).take (pos - 2))) := calcCheckCode_eq (by omega)
  simp only [decodeFile, h, hsum, bind, Except.bind, pure, Except.pure]
  split_ifs <;> rfl

theorem decodeHeadInfo_oob_iff {pData : Bytes} :
    decodeHeadInfo pData = .error .oob ↔ ¬ headFormat.Closed {} pData := by
  rw [← scan_zero_oob_iff]
  cases h : headFormat.scan pData (pData.length + 1) 0 {} with
  | error e => rw [decodeHeadInfo_error h]; simp
  | ok r =>
    obtain ⟨s, pos⟩ := r
    rw [decodeHeadInfo_eq h]
    split_ifs <;> simp

theorem decodeHeadInfo_ne_fuel {pData : Bytes} : decodeHeadInfo pData ≠ .error .fuel := by
  have hne := scan_zero_ne_fuel headFormat pData {}
  cases h : headFormat.scan pData (pData.length + 1) 0 {} with
  | error e => rw [decodeHeadInfo_error h]; rw [h] at hne; simpa using hne
  | ok r =>
    obtain ⟨s, pos⟩ := r
    rw [decodeHeadInfo_eq h]
    split_ifs <;> simp

theorem decodeFile_oob_iff (img : Bytes) (offset : ℕ) :
    decodeFile img offset = .error .oob ↔ ¬ fileFormat.Closed {} (img.drop offset) := by
  rw [← scan_zero_oob_iff]
  cases h : fileFormat.scan (img.drop offset) ((img.drop offset).length + 1) 0 {} with
  | error e => rw [decodeFile_error h]; simp
  | ok r =>
    obtain ⟨s, pos⟩ := r
    rw [decodeFile_eq h]
    split_ifs <;> simp

theorem decodeFile_ne_fuel (img : Bytes) (offset : ℕ) :
    decodeFile img offset ≠ .error .fuel := by
  have hne := scan_zero_ne_fuel fileFormat (img.drop offset) {}
  cases h : fileFormat.scan (img.drop offset) ((img.drop offset).length + 1) 0 {} with
  | error e => rw [decodeFile_error h]; rw [h] at hne; simpa using hne
  | ok r =>
    obtain ⟨s, pos⟩ := r
    rw [decodeFile_eq h]
    split_ifs <;> simp

/-- An accepted file header, and where the cursor goes from it. -/
theorem decodeFile_ok {img : Bytes} {offset offset' : ℕ} {file : DbFileInfo}
    (h : decodeFile img offset = .ok (file, offset')) :
    ∃ pos, 2 ≤ pos ∧ offset + pos ≤ img.length ∧ file.data = offset + pos ∧
      file.offset = (offset + pos) % 2 ^ 32 ∧
      offset' = (offset + (pos + file.length) % 2 ^ 32) % 2 ^ 32 := by
  cases hs : fileFormat.scan (img.drop offset) ((img.drop offset).length + 1) 0 {} with
  | error e => rw [decodeFile_error hs] at h; cases h
  | ok r =>
    obtain ⟨s, pos⟩ := r
    rw [decodeFile_eq hs] at h
    have hpos := scan_pos hs
    rw [List.length_drop] at hpos
    split_ifs at h
    cases h
    exact ⟨pos, by omega, by omega, rfl, rfl, rfl⟩

/-- The fields of a listed file fit their types: `nameLen` is a `u8` and `length` a `u32`. -/
structure DbFileInfo.Fits (file : DbFileInfo) : Prop where
  name_le : file.name.length ≤ 255
  length_lt : file.length < 2 ^ 32

theorem decodeFile_fits {img : Bytes} {offset offset' : ℕ} {file : DbFileInfo}
    (h : decodeFile img offset = .ok (file, offset')) : file.Fits := by
  cases hs : fileFormat.scan (img.drop offset) ((img.drop offset).length + 1) 0 {} with
  | error e => rw [decodeFile_error hs] at h; cases h
  | ok r =>
    obtain ⟨s, pos⟩ := r
    have hfields : s.name.length ≤ 255 ∧ s.length < 2 ^ 32 := by
      refine scan_invariant (P := fun s : FileScan => s.name.length ≤ 255 ∧ s.length < 2 ^ 32) ?_ hs
        (by simp)
      intro s tag v hv hs
      simp only [fileFormat]
      split
      · exact hs
      · exact ⟨hv, hs.2⟩
      · exact ⟨hs.1, le32_lt v⟩
      · exact hs
      · exact hs
    rw [decodeFile_eq hs] at h
    split_ifs at h
    cases h
    exact ⟨hfields.1, hfields.2⟩

/-! ### The whole decode phase -/

/-- Every run of records that the file loop enters ends inside the image. -/
def FilesClosed (img : Bytes) (length : ℕ) : ℕ → ℕ → Prop
  | 0, _ => True
  | count + 1, offset => offset < length →
    fileFormat.Closed {} (img.drop offset) ∧
      ∀ file offset', decodeFile img offset = .ok (file, offset') →
        FilesClosed img length count offset'

/-- **Every run of records that the decode phase enters ends inside the image**: the image has the
two bytes that are looked at first, and if these admit it, the run of its header ends inside it, and
so does the run of every file header the file loop reaches. -/
def RunsClosed (alloc : ℕ → Bool) (img : Image) : Prop :=
  2 ≤ img.length ∧
    (img.bytes[0]? = some 0x01 ∨ img.bytes[1]? = some 0x04 →
      headFormat.Closed {} img.bytes ∧
        ∀ headInfo, decodeHeadInfo img.bytes = .ok headInfo →
          alloc (sizeofDbFileInfo * headInfo.filecount) →
          FilesClosed img.bytes img.length headInfo.filecount headInfo.length)

/-- The decode phase reads inside the image only, and ends. -/
def InBounds (alloc : ℕ → Bool) (img : Image) : Prop :=
  decode alloc img ≠ .error .oob ∧ decode alloc img ≠ .error .fuel

theorem decodeFiles_ne_fuel {img : Bytes} {length count offset : ℕ} :
    decodeFiles img length count offset ≠ .error .fuel := by
  induction count generalizing offset with
  | zero => simp [decodeFiles]
  | succ count ih =>
    simp only [decodeFiles]
    split_ifs
    · cases h : decodeFile img offset with
      | error e =>
        have := decodeFile_ne_fuel img offset
        rw [h] at this
        simpa [bind, Except.bind] using this
      | ok r =>
        obtain ⟨file, offset'⟩ := r
        cases h' : decodeFiles img length count offset' with
        | error e =>
          have := @ih offset'
          rw [h'] at this
          simpa [bind, Except.bind, h'] using this
        | ok out => simp [bind, Except.bind, h', pure, Except.pure]
    · simp

theorem decodeFiles_oob_iff {img : Bytes} {length count offset : ℕ} :
    decodeFiles img length count offset = .error .oob ↔
      ¬ FilesClosed img length count offset := by
  induction count generalizing offset with
  | zero => simp [decodeFiles, FilesClosed]
  | succ count ih =>
    simp only [decodeFiles, FilesClosed]
    split_ifs with hlt
    · simp only [hlt, true_imp_iff]
      cases h : decodeFile img offset with
      | error e =>
        have := decodeFile_oob_iff img offset
        rw [h] at this
        simpa [bind, Except.bind] using this
      | ok r =>
        obtain ⟨file, offset'⟩ := r
        have hc : fileFormat.Closed {} (img.drop offset) := by
          by_contra hc
          rw [(decodeFile_oob_iff img offset).2 hc] at h
          cases h
        have hiff := @ih offset'
        cases h' : decodeFiles img length count offset' with
        | error e =>
          rw [h'] at hiff
          simpa [bind, Except.bind, h', hc] using hiff
        | ok out =>
          rw [h'] at hiff
          simpa [bind, Except.bind, h', hc, pure, Except.pure] using hiff
    · simp [hlt]

theorem checkDbData_eq (b₀ b₁ : UInt8) (rest : Bytes) :
    checkDbData (b₀ :: b₁ :: rest) =
      if b₀ = 0x01 ∨ b₁ = 0x04 then .ok () else .error (.exit LUADB_ERR_NOT_DBDATA) := by
  have h0 : rd (b₀ :: b₁ :: rest) 0 = .ok b₀ := rd_of_drop rfl
  have h1 : rd (b₀ :: b₁ :: rest) 1 = .ok b₁ := rd_of_drop rfl
  simp only [checkDbData, h0, h1, bind, Except.bind]
  split_ifs <;> first | rfl | simp_all

/-- An image of fewer than two bytes is read past its end. -/
theorem decode_short (alloc : ℕ → Bool) {img : Image} (h : img.length < 2) :
    decode alloc img = .error .oob := by
  unfold Image.length at h
  unfold decode
  match hd : img.bytes with
  | [] => rfl
  | [b] =>
    have hhead := @decodeHeadInfo_error [b] _ (scan_singleton rfl 1)
    rw [hhead]
    by_cases hb : b = 0x01
    · simp [checkDbData, rd, hb, bind, Except.bind, pure, Except.pure]
    · simp [checkDbData, rd, hb, bind, Except.bind]
  | _ :: _ :: tail =>
    rw [hd, List.length_cons, List.length_cons] at h
    omega

/-- What the decode phase went through when it accepts. -/
theorem decode_ok {alloc : ℕ → Bool} {img : Image} {out : Decoded}
    (h : decode alloc img = .ok out) :
    ∃ headInfo, decodeHeadInfo img.bytes = .ok headInfo ∧
      alloc (sizeofDbFileInfo * headInfo.filecount) = true ∧
      decodeFiles img.bytes img.length headInfo.filecount headInfo.length = .ok out ∧
      out.offset ≤ img.length ∧ out.files.length = headInfo.filecount := by
  unfold decode at h
  cases hc : checkDbData img.bytes with
  | error e => rw [hc] at h; cases h
  | ok _ =>
    cases hh : decodeHeadInfo img.bytes with
    | error e => rw [hc, hh] at h; cases h
    | ok headInfo =>
      simp only [hc, hh, bind, Except.bind] at h
      split_ifs at h with ha
      · cases hf : decodeFiles img.bytes img.length headInfo.filecount headInfo.length with
        | error e => rw [hf] at h; cases h
        | ok out' =>
          simp only [hf] at h
          split_ifs at h with hoff hcount
          cases h
          exact ⟨headInfo, rfl, ha, hf, by omega, by omega⟩

/-- With more memory, the same files are found. -/
theorem decode_alloc_mono {alloc : ℕ → Bool} {img : Image} {out : Decoded}
    (h : decode alloc img = .ok out) : decode (fun _ => true) img = .ok out := by
  unfold decode at h ⊢
  cases hc : checkDbData img.bytes with
  | error e => rw [hc] at h; cases h
  | ok _ =>
    cases hh : decodeHeadInfo img.bytes with
    | error e => rw [hc, hh] at h; cases h
    | ok headInfo =>
      simp only [hc, hh, bind, Except.bind] at h ⊢
      split_ifs at h
      rw [if_pos trivial]
      exact h

/-- Past the first test, the decode phase goes wrong where the header or the file loop does. -/
theorem decode_error_iff (alloc : ℕ → Bool) {img : Image} {e : Stop}
    (hc : checkDbData img.bytes = .ok ()) (he : ∀ c, e ≠ .exit c) :
    decode alloc img = .error e ↔
      decodeHeadInfo img.bytes = .error e ∨
        ∃ headInfo, decodeHeadInfo img.bytes = .ok headInfo ∧
          alloc (sizeofDbFileInfo * headInfo.filecount) = true ∧
          decodeFiles img.bytes img.length headInfo.filecount headInfo.length = .error e := by
  unfold decode
  cases hh : decodeHeadInfo img.bytes with
  | error e' => simp [hc, bind, Except.bind]
  | ok headInfo =>
    have hne : ∀ c, Stop.exit c ≠ e := fun c h => he c h.symm
    simp only [hc, bind, Except.bind, reduceCtorEq, Except.ok.injEq, false_or, exists_eq_left']
    by_cases ha : alloc (sizeofDbFileInfo * headInfo.filecount) = true
    · simp only [ha, ↓reduceIte, true_and]
      cases hf : decodeFiles img.bytes img.length headInfo.filecount headInfo.length with
      | error e' => simp
      | ok out =>
        simp only [reduceCtorEq, iff_false]
        split_ifs <;> simp [throw, throwThe, MonadExceptOf.throw, pure, Except.pure, hne]
    · simp [ha, throw, throwThe, MonadExceptOf.throw, hne]

/-- **The decode phase stays inside the image, and ends, exactly when every run of records it enters
ends inside the image.** -/
theorem decode_inBounds_iff (alloc : ℕ → Bool) (img : Image) :
    InBounds alloc img ↔ RunsClosed alloc img := by
  unfold InBounds RunsClosed
  by_cases hlen : 2 ≤ img.length
  · simp only [hlen, true_and]
    obtain ⟨b₀, b₁, rest, himg⟩ : ∃ b₀ b₁ rest, img.bytes = b₀ :: b₁ :: rest := by
      unfold Image.length at hlen
      match hd : img.bytes with
      | [] => rw [hd] at hlen; simp at hlen
      | [_] => rw [hd] at hlen; simp at hlen
      | b₀ :: b₁ :: rest => exact ⟨b₀, b₁, rest, rfl⟩
    have hdb : (img.bytes[0]? = some 0x01 ∨ img.bytes[1]? = some 0x04) ↔
        (b₀ = 0x01 ∨ b₁ = 0x04) := by simp [himg]
    rw [hdb]
    have hcheck := checkDbData_eq b₀ b₁ rest
    rw [← himg] at hcheck
    by_cases hb : b₀ = 0x01 ∨ b₁ = 0x04
    · rw [if_pos hb] at hcheck
      have hoob := decode_error_iff alloc hcheck (e := .oob) (by simp)
      have hfuel := decode_error_iff alloc hcheck (e := .fuel) (by simp)
      simp only [decodeFiles_oob_iff, decodeHeadInfo_oob_iff] at hoob
      simp only [decodeFiles_ne_fuel, decodeHeadInfo_ne_fuel, and_false, exists_false, or_self,
        iff_false] at hfuel
      simp only [hb, true_imp_iff, ne_eq, hoob, hfuel, not_false_eq_true, and_true, not_or,
        not_not, not_exists, not_and]
    · rw [if_neg hb] at hcheck
      simp [hb, decode, hcheck, bind, Except.bind]
  · simp [hlen, decode_short alloc (Nat.lt_of_not_le hlen)]

/-- The bytes `01 04` are read past their end: the value of the magic number is not there. -/
theorem not_inBounds_truncated :
    ¬ ∀ (alloc : ℕ → Bool) (img : Image), InBounds alloc img := by
  intro h
  exact (h (fun _ => true) ⟨[0x01, 0x04], by decide⟩).1 (by decide)

/-! ### The ranges of an accepted image -/

/-- Every file's range lies inside the image, its data pointer is the image plus its offset, and the
ranges follow one another. -/
def RangesInside (img : Image) (files : List DbFileInfo) : Prop :=
  (∀ f ∈ files, f.offset + f.length ≤ img.length ∧ f.data = f.offset) ∧
    files.Pairwise fun f g => f.offset < g.offset ∧ f.offset + f.length ≤ g.offset

/-- The declared end of every file, counted without wrap from where its data begins, is a `u32`. -/
def EndsFit (files : List DbFileInfo) : Prop := ∀ f ∈ files, f.data + f.length < 2 ^ 32

/-- While no declared end wraps, the cursor only goes up and the files follow one another. -/
theorem decodeFiles_ranges {img : Bytes} {length count offset : ℕ} {out : Decoded}
    (h : decodeFiles img length count offset = .ok out) (hfit : EndsFit out.files) :
    offset ≤ out.offset ∧
      (∀ f ∈ out.files, offset < f.offset ∧ f.data = f.offset ∧ f.offset + f.length ≤ out.offset) ∧
      out.files.Pairwise fun f g => f.offset < g.offset ∧ f.offset + f.length ≤ g.offset := by
  induction count generalizing offset out with
  | zero => cases h; simp
  | succ count ih =>
    simp only [decodeFiles] at h
    split_ifs at h
    · cases hf : decodeFile img offset with
      | error e => rw [hf] at h; cases h
      | ok r =>
        obtain ⟨file, offset'⟩ := r
        cases hr : decodeFiles img length count offset' with
        | error e => simp only [hf, hr, bind, Except.bind] at h; cases h
        | ok rest =>
          simp only [hf, hr, bind, Except.bind, pure, Except.pure] at h
          cases h
          obtain ⟨pos, hpos, -, hdata, hoff, hoff'⟩ := decodeFile_ok hf
          have hfile := hfit file List.mem_cons_self
          have hlt : offset + pos < 2 ^ 32 := by omega
          rw [Nat.mod_eq_of_lt hlt] at hoff
          rw [Nat.mod_eq_of_lt (a := pos + file.length) (by omega),
            Nat.mod_eq_of_lt (by omega)] at hoff'
          obtain ⟨hle, hall, hpair⟩ := ih hr fun f hf => hfit f (List.mem_cons_of_mem _ hf)
          refine ⟨by simp only; omega, ?_, List.pairwise_cons.2 ⟨?_, hpair⟩⟩
          · intro f hmem
            rcases List.mem_cons.1 hmem with rfl | hmem
            · exact ⟨by omega, by omega, by simp only; omega⟩
            · obtain ⟨h1, h2, h3⟩ := hall f hmem
              exact ⟨by omega, h2, h3⟩
          · intro g hg
            have := (hall g hg).1
            omega
    · cases h; simp

/-- What holds of every file header that is accepted holds of every file of an accepted image. -/
theorem decode_forall {alloc : ℕ → Bool} {img : Image} {out : Decoded} {p : DbFileInfo → Prop}
    (hp : ∀ offset file offset', decodeFile img.bytes offset = .ok (file, offset') → p file)
    (h : decode alloc img = .ok out) : ∀ f ∈ out.files, p f := by
  obtain ⟨headInfo, -, -, hfiles, -, -⟩ := decode_ok h
  clear h
  generalize headInfo.length = offset at hfiles
  generalize headInfo.filecount = count at hfiles
  induction count generalizing offset out with
  | zero => cases hfiles; simp
  | succ count ih =>
    simp only [decodeFiles] at hfiles
    split_ifs at hfiles
    · cases hf : decodeFile img.bytes offset with
      | error e => rw [hf] at hfiles; cases hfiles
      | ok r =>
        obtain ⟨file, offset'⟩ := r
        cases hr : decodeFiles img.bytes img.length count offset' with
        | error e => simp only [hf, hr, bind, Except.bind] at hfiles; cases hfiles
        | ok rest =>
          simp only [hf, hr, bind, Except.bind, pure, Except.pure] at hfiles
          cases hfiles
          intro f hmem
          rcases List.mem_cons.1 hmem with rfl | hmem
          · exact hp _ _ _ hf
          · exact ih offset' hr f hmem
    · cases hfiles; simp

/-- The fields of an accepted image's files fit their types. -/
theorem decode_fits {alloc : ℕ → Bool} {img : Image} {out : Decoded}
    (h : decode alloc img = .ok out) : ∀ f ∈ out.files, f.Fits :=
  decode_forall (fun _ _ _ => decodeFile_fits) h

/-- The data of an accepted image's files begin inside it, behind a header. -/
theorem decode_data {alloc : ℕ → Bool} {img : Image} {out : Decoded}
    (h : decode alloc img = .ok out) :
    ∀ f ∈ out.files, 0 < f.data ∧ f.data ≤ img.length ∧ f.offset = f.data := by
  refine decode_forall (fun offset file offset' hf => ?_) h
  have hsize := img.size_lt
  obtain ⟨pos, hpos, hle, hdata, hoff, -⟩ := decodeFile_ok hf
  unfold Image.length
  exact ⟨by omega, by omega, by rw [hoff, hdata, Nat.mod_eq_of_lt (by omega)]⟩

/-- **An accepted image has its files inside it, in order and disjoint, exactly when no file's
declared end wraps.** -/
theorem rangesInside_iff {alloc : ℕ → Bool} {img : Image} {out : Decoded}
    (h : decode alloc img = .ok out) : RangesInside img out.files ↔ EndsFit out.files := by
  have hsize := img.size_lt
  obtain ⟨headInfo, -, -, hfiles, hend, -⟩ := decode_ok h
  unfold Image.length at hend
  constructor
  · intro hin f hf
    obtain ⟨h1, h2⟩ := hin.1 f hf
    unfold Image.length at h1
    omega
  · intro hfit
    obtain ⟨-, hall, hpair⟩ := decodeFiles_ranges hfiles hfit
    refine ⟨fun f hf => ?_, hpair⟩
    obtain ⟨-, h2, h3⟩ := hall f hf
    unfold Image.length
    exact ⟨by omega, h2⟩

/-- An image whose only file declares `2 ^ 32 - 16` bytes: the cursor goes once round and comes back
to the file's header. -/
def wrappingImage : Image where
  bytes := [0x01, 0x04, 0x5A, 0xA5, 0x5A, 0xA5,
    0x02, 0x02, 0x00, 0x00, 0x03, 0x04, 0x17, 0x00, 0x00, 0x00, 0x04, 0x01, 0x01,
    0xFE, 0x02, 0x2B, 0x03,
    0x01, 0x04, 0x5A, 0xA5, 0x5A, 0xA5,
    0x03, 0x04, 0xF0, 0xFF, 0xFF, 0xFF, 0xFE, 0x02, 0xF7, 0x06]
  size_lt := by decide

/-- What the decode phase finds in `wrappingImage`. -/
def wrappingDecoded : Decoded :=
  ⟨[{ length := 2 ^ 32 - 16, data := 39, offset := 39 }], 23⟩

/-- The image is accepted, and its file ends far behind it. -/
theorem not_rangesInside_wrapping :
    ¬ ∀ (alloc : ℕ → Bool) (img : Image) (out : Decoded), decode alloc img = .ok out →
      RangesInside img out.files := by
  intro h
  have hin := h (fun _ => true) wrappingImage wrappingDecoded (by decide)
  exact absurd (hin.1 _ List.mem_cons_self).1 (by decide)

theorem rangesInside_iff_wrapping :
    RangesInside wrappingImage wrappingDecoded.files ↔ EndsFit wrappingDecoded.files :=
  @rangesInside_iff (fun _ => true) wrappingImage wrappingDecoded (by decide)

end OsdCore
