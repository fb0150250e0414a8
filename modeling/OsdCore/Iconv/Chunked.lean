import OsdCore.Iconv.Accounting

/-!
# Converting in chunks

`Liconv` calls `iconv` with a buffer of `max(256, length)` bytes, and calls it again with what it has left
as long as the buffer is full.

* `liconvLoop_eq` : the loop ends, with what the converter gives in a buffer without end.
* `liconv_eq_single` : the text and the error are those of one call with space enough.
-/

namespace OsdCore

variable {T : Gb2312Tables} {endian : Endian} {cd : BuiltinIconvMap} {s : Bytes} {space : ℕ}

/-- The code that the script gets for the end of a conversion. -/
def IconvErrno.code : IconvErrno → LiconvError
  | .EINVAL => .ERROR_INCOMPLETE
  | .E2BIG => .ERROR_UNKNOWN

/-! ### What a converter leaves -/

@[simp] theorem IconvFct.leave_out (fct : IconvFct) (r : Transduced UInt8 UInt8) :
    (fct.leave s space r).out = r.out := by
  cases fct <;> rfl

@[simp] theorem IconvFct.leave_errno (fct : IconvFct) (r : Transduced UInt8 UInt8) :
    (fct.leave s space r).errno = r.ending.errno := by
  cases fct <;> rfl

@[simp] theorem IconvFct.leave_result (fct : IconvFct) (r : Transduced UInt8 UInt8) :
    (fct.leave s space r).result = if r.ending = .finished then 0 else -1 := by
  obtain ⟨ending, rest, out⟩ := r
  cases fct <;> cases ending <;> rfl

/-- The GB2312 encoder. -/
def IconvFct.EncodesGb2312 (fct : IconvFct) : Prop :=
  fct = .iconvUcs2ToGb2312 ∨ fct = .iconvUcs2beToGb2312

/-- The other converters leave the input that they have not used. -/
theorem IconvFct.leave_rest {fct : IconvFct} (space : ℕ) (hfct : ¬ fct.EncodesGb2312)
    (hlen : s.length < 2 ^ 32) {r : Transduced UInt8 UInt8} (hr : r.rest.length ≤ s.length)
    (hfull : r.ending = .full) :
    (fct.leave s space r).inbuf = s.length - r.rest.length ∧
      (fct.leave s space r).inbytesleft = r.rest.length := by
  have hsub : subSize s.length (s.length - r.rest.length) = r.rest.length := by
    rw [subSize_eq (Nat.sub_le _ _) hlen, Nat.sub_sub_self hr]
  unfold EncodesGb2312 at hfct
  cases fct with
  | iconvUcs2ToGb2312 => simp at hfct
  | iconvUcs2beToGb2312 => simp at hfct
  | iconvGb2312ToUcs2 => simp [leave, leaveAt, hfull]
  | iconvGb2312ToUcs2be => simp [leave, leaveAt, hfull]
  | iconvUtf8ToUcs2 => exact ⟨rfl, hsub⟩
  | iconvUtf8ToUcs2be => exact ⟨rfl, hsub⟩
  | iconvUcs2ToUtf8 => exact ⟨rfl, hsub⟩
  | iconvUcs2beToUtf8 => exact ⟨rfl, hsub⟩

/-! ### The space that is needed -/

theorem length_utf8Bytes_le (n : ℕ) : (utf8Bytes n).length ≤ 3 := by
  unfold utf8Bytes
  split_ifs <;> simp

theorem length_gb2312Bytes_le (u : UInt16) : (gb2312Bytes T u).length ≤ 2 := by
  unfold gb2312Bytes
  split_ifs <;> simp

/-- The GB2312 text is not longer than the UCS-2 text. -/
theorem expands_toGb2312 : (toGb2312Transducer T endian).Expands 1 where
  need_le {s} h := by
    rcases s with _ | ⟨a, _ | ⟨b, t⟩⟩
    · exact absurd rfl h
    · exact absurd rfl h
    · simp only [toGb2312Transducer, List.length_cons]
      omega
  piece_le {s piece size} h := by
    rcases s with _ | ⟨a, _ | ⟨b, t⟩⟩
    · cases h
    · cases h
    · cases h
      exact length_gb2312Bytes_le _

/-- No text becomes more than twice as long. -/
theorem IconvFct.expands (fct : IconvFct) : (fct.transducer T).Expands 2 := by
  have htwo : ∀ {t : Transducer UInt8 UInt8 Stop} {IsChar : Bytes → Prop}, Decodes t IsChar →
      t.move [] = .finish → t.Expands 2 := by
    intro t IsChar h hnil
    constructor
    · intro s hs
      have hne : s ≠ [] := fun h0 => hs (by rw [h0, hnil])
      have := List.length_pos_iff.2 hne
      rw [h.need_eq]
      omega
    · intro s piece size hmove
      have := t.size_pos hmove
      rw [(h.of_emit hmove).1]
      omega
  have hucs2 : ∀ endian, (ucs2Transducer endian).Expands 2 := by
    intro endian
    constructor
    · intro s h
      rcases s with _ | ⟨a, _ | ⟨b, t⟩⟩
      · exact absurd rfl h
      · exact absurd rfl h
      · have := length_utf8Bytes_le (endian.load a b)
        simp only [ucs2Transducer, List.length_cons]
        omega
    · intro s piece size h
      rcases s with _ | ⟨a, _ | ⟨b, t⟩⟩
      · cases h
      · cases h
      · cases h
        have := length_utf8Bytes_le (endian.load a b)
        omega
  have hgb : ∀ endian, (toGb2312Transducer T endian).Expands 2 := fun endian =>
    ⟨fun h => (expands_toGb2312.need_le h).trans (by omega),
      fun h => (expands_toGb2312.piece_le h).trans (by omega)⟩
  cases fct
  · exact hgb _
  · exact hgb _
  · exact htwo (decodes_gb2312 T _) rfl
  · exact htwo (decodes_gb2312 T _) rfl
  · exact htwo (decodes_utf8 _) rfl
  · exact htwo (decodes_utf8 _) rfl
  · exact hucs2 _
  · exact hucs2 _

/-- A buffer of 256 bytes has room for a character. -/
theorem IconvFct.need_le (fct : IconvFct) (s : Bytes) : (fct.transducer T).need s ≤ 3 := by
  have hucs2 : ∀ endian, (ucs2Transducer endian).need s ≤ 3 := by
    intro endian
    rcases s with _ | ⟨a, _ | ⟨b, t⟩⟩
    · exact Nat.zero_le _
    · exact Nat.zero_le _
    · exact length_utf8Bytes_le _
  cases fct
  case iconvUcs2ToUtf8 => exact hucs2 _
  case iconvUcs2beToUtf8 => exact hucs2 _
  all_goals exact show 2 ≤ 3 by decide

/-! ### The loop -/

theorem roomIn_of_le {m : ℕ} (h : m ≤ space) : roomIn space m = true := by
  rw [roomIn_iff]
  have := Nat.mod_le m (2 ^ 32)
  omega

/-- The GB2312 encoder does not fill a buffer that is as large as its input. -/
theorem IconvFct.not_encodesGb2312 {fct : IconvFct} {r : Transduced UInt8 UInt8} (hle : s.length ≤ space)
    (hrun : (fct.transducer T).run (roomIn space) s [] = .ok r) (hfull : r.ending = .full) :
    ¬ fct.EncodesGb2312 := by
  intro hgb
  have hexp : (fct.transducer T).Expands 1 := by
    rcases hgb with hgb | hgb
    · rw [hgb]
      exact expands_toGb2312
    · rw [hgb]
      exact expands_toGb2312
  have hroom : ∀ m ≤ ([] : Bytes).length + 1 * s.length, roomIn space m = true := by
    intro m hm
    rw [List.length_nil] at hm
    exact roomIn_of_le (by omega)
  exact Transducer.all_ending ((Transducer.run_eq_all hexp hroom).symm.trans hrun) hfull

/-- **The loop of `Liconv`** converts what is left, in however many rounds. -/
theorem liconvLoop_eq {obsize fuel pos : ℕ} {pushed : Bytes} (hlen : s.length < 2 ^ 32)
    (hob : 256 ≤ obsize) (hob' : s.length ≤ obsize) (hpos : pos ≤ s.length)
    (hfuel : s.length - pos < fuel) :
    liconvLoop T cd s obsize fuel pos (s.length - pos) pushed =
      ((cd.fct.transducer T).all (s.drop pos) []).map fun r =>
        (pushed ++ r.out, r.ending.errno.map IconvErrno.code) := by
  induction fuel generalizing pos pushed with
  | zero => omega
  | succ fuel ih =>
    have htake : (s.drop pos).take (s.length - pos) = s.drop pos :=
      List.take_of_length_le (by rw [List.length_drop])
    have hin : ¬ pos + (s.length - pos) > s.length := by omega
    rw [liconvLoop, if_neg hin, htake, iconv, cd.fct.call_eq]
    cases hrun : (cd.fct.transducer T).run (roomIn obsize) (s.drop pos) [] with
    | error e =>
      have hall := Transducer.run_not_full fun r hr => by rw [hrun] at hr; cases hr
      rw [← hall, hrun]
      rfl
    | ok r =>
      by_cases hfull : r.ending = .full
      · have hsuffix := Transducer.rest_suffix hrun
        have hle := hsuffix.length_le
        obtain ⟨hrest, hshorter⟩ := Transducer.run_full hrun hfull
        have hfct := IconvFct.not_encodesGb2312 (by rw [List.length_drop]; omega) hrun hfull
        have hroom : roomIn obsize (([] : Bytes).length + (cd.fct.transducer T).need (s.drop pos)) = true := by
          have hneed := cd.fct.need_le (T := T) (s.drop pos)
          exact roomIn_of_le (by rw [List.length_nil]; omega)
        have hlt := hshorter hroom
        rw [List.length_drop] at hle hlt
        have hdrop : (s.drop pos).length < 2 ^ 32 := by
          rw [List.length_drop]
          omega
        obtain ⟨hinbuf, hleft⟩ := IconvFct.leave_rest obsize hfct hdrop hsuffix.length_le hfull
        have hpos' : pos + ((s.drop pos).length - r.rest.length) = s.length - r.rest.length := by
          rw [List.length_drop]
          omega
        have hrest' : s.drop (s.length - r.rest.length) = r.rest :=
          (List.suffix_iff_eq_drop.1 (hsuffix.trans (List.drop_suffix _ _))).symm
        have hnext := @ih (s.length - r.rest.length) (pushed ++ r.out) (Nat.sub_le _ _) (by omega)
        rw [hrest', Nat.sub_sub_self (by omega)] at hnext
        have herrno : Ending.full.errno = some .E2BIG := rfl
        simp only [Except.map, bind, Except.bind, IconvFct.leave_result, IconvFct.leave_errno,
          IconvFct.leave_out, hfull, reduceCtorEq, ↓reduceIte, herrno, hinbuf, hleft, hpos']
        rw [hnext, hrest]
        cases (cd.fct.transducer T).all r.rest [] with
        | error e => rfl
        | ok r' => simp [Except.map, Transduced.after]
      · have hall := Transducer.run_not_full fun r' hr' => by
          rw [hrun] at hr'
          cases hr'
          exact hfull
        rw [← hall, hrun]
        obtain ⟨ending, rest, out⟩ := r
        cases ending with
        | full => exact absurd rfl hfull
        | finished => simp [Except.map, bind, Except.bind, Ending.errno]
        | refused => simp [Except.map, bind, Except.bind, Ending.errno, IconvErrno.code]

/-- One call with space enough. -/
theorem iconv_eq_all (hspace : 2 * s.length ≤ space) :
    iconv T cd s space =
      ((cd.fct.transducer T).all s []).map fun r => cd.fct.leave s space r := by
  have hroom : ∀ m ≤ ([] : Bytes).length + 2 * s.length, roomIn space m = true := by
    intro m hm
    rw [List.length_nil] at hm
    exact roomIn_of_le (by omega)
  rw [iconv, cd.fct.call_eq, Transducer.run_eq_all cd.fct.expands hroom]

/-- **`Liconv` gives what one call gives** that has space for all that can come, for any input: also when
that call reads behind it. -/
theorem liconv_eq {malloc : ℕ → Bool} (hmalloc : malloc (max 256 s.length) = true)
    (hspace : 2 * s.length ≤ space) (hsize : space < 2 ^ 32) :
    liconv T malloc cd s =
      (iconv T cd s space).map fun c => (c.out, c.errno.map IconvErrno.code) := by
  have hloop := @liconvLoop_eq T cd s (max 256 s.length) (s.length + 1) 0 [] (by omega)
    (Nat.le_max_left _ _) (Nat.le_max_right _ _) (Nat.zero_le _) (by omega)
  rw [Nat.sub_zero, List.drop_zero] at hloop
  rw [liconv, if_pos hmalloc, hloop, iconv_eq_all hspace]
  cases (cd.fct.transducer T).all s [] with
  | error e => rfl
  | ok r => simp [Except.map]

/-- The inputs that do not end inside a character.  A UTF-8 text must not end with the beginning of one,
UCS-2 text has whole code units, and GB2312 text consists of characters. -/
def IconvFct.Complete (s : Bytes) : IconvFct → Prop
  | iconvUtf8ToUcs2 | iconvUtf8ToUcs2be => ∀ tail, tail <:+ s → ¬ Utf8Tail tail
  | iconvUcs2ToUtf8 | iconvUcs2beToUtf8 | iconvUcs2ToGb2312 | iconvUcs2beToGb2312 => 2 ∣ s.length
  | iconvGb2312ToUcs2 | iconvGb2312ToUcs2be =>
    ∃ chars : List Bytes, s = chars.flatten ∧ ∀ c ∈ chars, Gb2312Char c

/-- A complete input is converted without reading behind it. -/
theorem IconvFct.Complete.exists_all {fct : IconvFct} (hs : fct.Complete s) :
    ∃ r, (fct.transducer T).all s [] = .ok r := by
  have hutf8 : ∀ endian, (∀ tail, tail <:+ s → ¬ Utf8Tail tail) →
      ∃ r, (utf8Transducer endian).all s [] = .ok r := by
    intro endian hs
    cases hrun : (utf8Transducer endian).all s [] with
    | ok r => exact ⟨r, rfl⟩
    | error e =>
      obtain ⟨tail, dst, hreach, -, hfault⟩ := Transducer.run_error_iff.1 hrun
      exact absurd (utf8_fault_iff.1 hfault).1 (hs tail hreach.suffix)
  cases fct
  · exact Transducer.exists_run (toGb2312_move_ne T _) _ s []
  · exact Transducer.exists_run (toGb2312_move_ne T _) _ s []
  · exact Transducer.exists_run (fromGb2312_move_ne T _) _ s []
  · exact Transducer.exists_run (fromGb2312_move_ne T _) _ s []
  · exact hutf8 _ hs
  · exact hutf8 _ hs
  · exact Transducer.exists_run (ucs2_move_ne _) _ s []
  · exact Transducer.exists_run (ucs2_move_ne _) _ s []

/-- **Chunked conversion** of a complete input: the loop ends, with the text and the error of one call
that has space enough. -/
theorem liconv_eq_single {malloc : ℕ → Bool} (hs : cd.fct.Complete s)
    (hmalloc : malloc (max 256 s.length) = true) (hspace : 2 * s.length ≤ space)
    (hsize : space < 2 ^ 32) :
    ∃ c, iconv T cd s space = .ok c ∧ c.errno ≠ some .E2BIG ∧
      liconv T malloc cd s = .ok (c.out, c.errno.map IconvErrno.code) := by
  obtain ⟨r, hall⟩ := hs.exists_all (T := T)
  have hcall : iconv T cd s space = .ok (cd.fct.leave s space r) := by
    rw [iconv_eq_all hspace, hall]
    rfl
  refine ⟨_, hcall, ?_, ?_⟩
  · have hending := Transducer.all_ending hall
    rw [IconvFct.leave_errno]
    cases hr : r.ending with
    | full => exact absurd hr hending
    | finished => exact fun h => by cases h
    | refused => exact fun h => by cases h
  · rw [liconv_eq hmalloc hspace hsize, hcall]
    rfl

/-- Two letters, in a buffer of 256 bytes and in one of four. -/
theorem liconv_letters : ∃ c,
    iconv zeroTables ⟨ascii "utf8", ascii "ucs2", .iconvUtf8ToUcs2⟩ [0x41, 0x42] 4 = .ok c ∧
      c.errno ≠ some .E2BIG ∧
      liconv zeroTables (fun _ => true) ⟨ascii "utf8", ascii "ucs2", .iconvUtf8ToUcs2⟩ [0x41, 0x42] =
        .ok (c.out, c.errno.map IconvErrno.code) :=
  liconv_eq_single (fun _ hsuffix => not_utf8Tail_letters hsuffix) rfl (by decide) (by decide)

end OsdCore
