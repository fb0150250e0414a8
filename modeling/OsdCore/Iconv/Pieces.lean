import OsdCore.Iconv.Gb2312
import OsdCore.Prog.Transducer

/-!
# The converters, piece by piece

The loops of the four converters keep their own cursors, in bytes or in code units, and write them back
in their own ways.  `IconvFct.transducer` says what each of them does with the rest of its input, and
`IconvFct.call_eq` that a call is a run of it: the loops differ only in the counts they leave
(`IconvFct.leave`).
-/

namespace OsdCore

variable {T : Gb2312Tables} {src dst s : Bytes} {i space : ℕ} {endian : Endian}

/-! ### One piece -/

theorem encGetUtf8Size_pos (b : UInt8) : 0 < encGetUtf8Size b := by
  unfold encGetUtf8Size
  split_ifs <;> omega

theorem rd_ok_lt {b : UInt8} (h : rd src i = .ok b) : i < src.length := by
  unfold rd at h
  split at h
  · exact (List.getElem?_eq_some_iff.1 ‹_›).1
  · cases h

theorem rd_drop (i j : ℕ) : rd (src.drop i) j = rd src (i + j) := by
  simp only [rd, List.getElem?_drop]

/-- A character is decoded from the rest of the input. -/
theorem encUtf8ToUnicodeOne_drop (src : Bytes) (i : ℕ) (endian : Endian) :
    encUtf8ToUnicodeOne (src.drop i) 0 endian = encUtf8ToUnicodeOne src i endian := by
  simp only [encUtf8ToUnicodeOne, rd_drop, Nat.add_zero, Nat.zero_add]

/-- All bytes of a character that is accepted are there. -/
theorem encUtf8ToUnicodeOne_le {b : UInt8} {t unit : Bytes}
    (h : encUtf8ToUnicodeOne (b :: t) 0 endian = .ok (some unit)) :
    encGetUtf8Size b ≤ (b :: t).length := by
  have hb : rd (b :: t) 0 = .ok b := rfl
  simp only [encUtf8ToUnicodeOne, hb, bind, Except.bind] at h
  split_ifs at h with h1 h2 h3
  · rw [h1, List.length_cons]
    omega
  · cases hr : rd (b :: t) (0 + 1) with
    | error e => simp [hr] at h
    | ok b2 =>
      have := rd_ok_lt hr
      omega
  · cases hr : rd (b :: t) (0 + 1) with
    | error e => simp [hr] at h
    | ok b2 =>
      cases hr' : rd (b :: t) (0 + 2) with
      | error e => simp [hr, hr'] at h
      | ok b3 =>
        have := rd_ok_lt hr'
        omega
  · cases h

/-- `enc_utf8_to_unicode`, by the rest of its input. -/
def utf8Transducer (endian : Endian) : Transducer UInt8 UInt8 Stop where
  need _ := 2
  move
    | [] => .finish
    | b :: t =>
      match encUtf8ToUnicodeOne (b :: t) 0 endian with
      | .error e => .fault e
      | .ok none => .refuse
      | .ok (some unit) => .emit unit (encGetUtf8Size b)
  size_pos {s} _ _ h := by
    cases s with
    | nil => cases h
    | cons b t =>
      simp only at h
      split at h <;> cases h
      exact encGetUtf8Size_pos b
  size_le {s} _ _ h := by
    cases s with
    | nil => cases h
    | cons b t =>
      simp only at h
      split at h <;> cases h
      exact encUtf8ToUnicodeOne_le ‹_›

/-- `enc_unicode_to_utf8`: a last odd byte is left. -/
def ucs2Transducer (endian : Endian) : Transducer UInt8 UInt8 Stop where
  need
    | a :: b :: _ => (utf8Bytes (endian.load a b)).length
    | _ => 0
  move
    | a :: b :: _ => .emit (utf8Bytes (endian.load a b)) 2
    | _ => .finish
  size_pos {s} _ _ h := by
    split at h
    · cases h
      exact Nat.two_pos
    · cases h
  size_le {s} _ _ h := by
    split at h
    · cases h
      simp only [List.length_cons]
      omega
    · cases h

/-- `iconv_ucs2_to_gb2312_endian`. -/
def toGb2312Transducer (T : Gb2312Tables) (endian : Endian) : Transducer UInt8 UInt8 Stop where
  need _ := 2
  move
    | a :: b :: _ => .emit (gb2312Bytes T (UInt16.ofNat (endian.load a b))) 2
    | _ => .finish
  size_pos {s} _ _ h := by
    split at h
    · cases h
      exact Nat.two_pos
    · cases h
  size_le {s} _ _ h := by
    split at h
    · cases h
      simp only [List.length_cons]
      omega
    · cases h

/-- `iconv_gb2312_to_ucs2_endian`. -/
def fromGb2312Transducer (T : Gb2312Tables) (endian : Endian) : Transducer UInt8 UInt8 Stop where
  need _ := 2
  move
    | [] => .finish
    | lead :: t =>
      if charToU16 lead < 0x80 then .emit (endian.storeUnit (charToU16 lead)) 1
      else match t with
        | trail :: _ => .emit (endian.storeUnit (T.gb2312ToUcs2Table (gb2312Offset lead trail))) 2
        | [] => .refuse
  size_pos {s} _ _ h := by
    rcases s with _ | ⟨lead, _ | ⟨trail, t⟩⟩ <;> simp only at h
    · cases h
    · split_ifs at h
      cases h
      exact Nat.one_pos
    · split_ifs at h <;> cases h
      · exact Nat.one_pos
      · exact Nat.two_pos
  size_le {s} _ _ h := by
    rcases s with _ | ⟨lead, _ | ⟨trail, t⟩⟩ <;> simp only at h
    · cases h
    · split_ifs at h
      cases h
      exact le_rfl
    · split_ifs at h <;> cases h <;> simp only [List.length_cons] <;> omega

/-- The room in a buffer, as the loops test it. -/
def roomIn (space m : ℕ) : Bool := decide (m % 2 ^ 32 ≤ space)

/-- The `errno` of a run. -/
def Ending.errno : Ending → Option IconvErrno
  | finished => none
  | full => some .E2BIG
  | refused => some .EINVAL

/-! ### The loops -/

/-- The end of a conversion that counts the bytes it has used. -/
def leaveBytes (src : Bytes) (space : ℕ) (r : Transduced UInt8 UInt8) : Conversion :=
  .exit src space r.ending.errno (src.length - r.rest.length) r.out

theorem leaveBytes_drop (ending : Ending) (hi : i ≤ src.length) :
    leaveBytes src space ⟨ending, src.drop i, dst⟩ = .exit src space ending.errno i dst := by
  rw [leaveBytes, List.length_drop, Nat.sub_sub_self hi]

/-- The end of a conversion, with the counts it leaves in `*_inbuf` and `*inbytesleft`. -/
def leaveAt (space inbuf inbytesleft : ℕ) (r : Transduced UInt8 UInt8) : Conversion where
  result := if r.ending = .finished then 0 else -1
  errno := r.ending.errno
  inbuf := inbuf
  inbytesleft := inbytesleft
  outbytesleft := subSize space r.out.length
  out := r.out

theorem roomIn_iff {m : ℕ} : roomIn space m = true ↔ ¬ m % 2 ^ 32 > space := by
  simp [roomIn]

theorem roomIn_eq_false {m : ℕ} : roomIn space m = false ↔ m % 2 ^ 32 > space := by
  simp [roomIn]

theorem drop_cons_of_lt (h : i < src.length) : ∃ b, src.drop i = b :: src.drop (i + 1) :=
  ⟨src[i], List.drop_eq_getElem_cons h⟩

/-- The loop of the UTF-8 decoder. -/
theorem utf8ToUnicodeLoop_eq {fuel : ℕ} (hi : i ≤ src.length) (hfuel : src.length - i < fuel) :
    utf8ToUnicodeLoop src space endian fuel i dst =
      ((utf8Transducer endian).run (roomIn space) (src.drop i) dst).map (leaveBytes src space) := by
  induction fuel generalizing i dst with
  | zero => omega
  | succ fuel ih =>
    rw [utf8ToUnicodeLoop]
    by_cases hlt : i < src.length
    · obtain ⟨b, hb⟩ := drop_cons_of_lt hlt
      have hone := encUtf8ToUnicodeOne_drop src i endian
      rw [hb] at hone
      have hmove : (utf8Transducer endian).move (src.drop i) ≠ .finish := by
        rw [hb]
        simp only [utf8Transducer]
        split <;> exact fun h => by cases h
      rw [if_pos hlt]
      split_ifs with hroom
      · rw [Transducer.run_no_room _ hmove (roomIn_eq_false.2 hroom), Except.map, leaveBytes_drop _ hi]
        rfl
      have hroom' : roomIn space (dst.length + (utf8Transducer endian).need (src.drop i)) = true :=
        roomIn_iff.2 hroom
      rw [rd_of_drop hb]
      cases hdec : encUtf8ToUnicodeOne src i endian with
      | error e =>
        rw [Transducer.run_fault _ (e := e) (by simp [utf8Transducer, hb, hone, hdec]) hroom']
        rfl
      | ok unit =>
        cases unit with
        | none =>
          rw [Transducer.run_refuse _ (by simp [utf8Transducer, hb, hone, hdec]) hroom', Except.map,
            leaveBytes_drop _ hi]
          rfl
        | some unit =>
          have hle := encUtf8ToUnicodeOne_le (hone.trans hdec)
          have hsize := encGetUtf8Size_pos b
          rw [← hb, List.length_drop] at hle
          have hemit : (utf8Transducer endian).move (src.drop i) = .emit unit (encGetUtf8Size b) := by
            simp [utf8Transducer, hb, hone, hdec]
          rw [Transducer.run_emit _ hemit hroom', List.drop_drop]
          exact ih (by omega) (by omega)
    · have hend : i = src.length := by omega
      have hfin : (utf8Transducer endian).move (src.drop i) = .finish := by
        rw [hend, List.drop_length]
        rfl
      rw [if_neg hlt, Transducer.run_finish _ hfin, Except.map, leaveBytes_drop _ hi]
      rfl

/-- The loop of the UTF-8 encoder. -/
theorem unicodeToUtf8Loop_eq {fuel : ℕ} (hi : i ≤ src.length) (hfuel : src.length - i < fuel) :
    unicodeToUtf8Loop src space endian fuel i dst =
      ((ucs2Transducer endian).run (roomIn space) (src.drop i) dst).map (leaveBytes src space) := by
  induction fuel generalizing i dst with
  | zero => omega
  | succ fuel ih =>
    rw [unicodeToUtf8Loop]
    by_cases hlt : i + 1 < src.length
    · obtain ⟨a, ha⟩ := drop_cons_of_lt (show i < src.length by omega)
      obtain ⟨b, hb⟩ := drop_cons_of_lt hlt
      have hd : src.drop i = a :: b :: src.drop (i + 1 + 1) := by rw [ha, hb]
      have hmove : (ucs2Transducer endian).move (src.drop i) =
          .emit (utf8Bytes (endian.load a b)) 2 := by rw [hd]; rfl
      have hneed : (ucs2Transducer endian).need (src.drop i) = (utf8Bytes (endian.load a b)).length := by
        rw [hd]; rfl
      rw [if_pos hlt, rd_of_drop ha, rd_of_drop hb]
      simp only [bind, Except.bind]
      split_ifs with hroom
      · rw [Transducer.run_no_room _ (by simp [hmove]) (by rw [hneed]; exact roomIn_eq_false.2 hroom),
          Except.map, leaveBytes_drop _ hi]
        rfl
      · rw [Transducer.run_emit _ hmove (by rw [hneed]; exact roomIn_iff.2 hroom), List.drop_drop]
        exact ih (by omega) (by omega)
    · have hfin : (ucs2Transducer endian).move (src.drop i) = .finish := by
        have hlen : (src.drop i).length < 2 := by
          rw [List.length_drop]
          omega
        rcases hd : src.drop i with _ | ⟨a, _ | ⟨b, t⟩⟩
        · rfl
        · rfl
        · rw [hd] at hlen
          simp only [List.length_cons] at hlen
          omega
      rw [if_neg hlt, Transducer.run_finish _ hfin, Except.map, leaveBytes_drop _ hi]
      rfl

/-- The loop of the GB2312 encoder: it counts code units. -/
theorem ucs2ToGb2312Loop_eq {inlen : ℕ} (hlen : (src.drop i).length / 2 = inlen) :
    ucs2ToGb2312Loop T src space endian inlen i dst =
      ((toGb2312Transducer T endian).run (roomIn space) (src.drop i) dst).map fun r =>
        leaveAt space 0 (r.rest.length / 2) r := by
  induction inlen generalizing i dst with
  | zero =>
    have hfin : (toGb2312Transducer T endian).move (src.drop i) = .finish := by
      rcases hd : src.drop i with _ | ⟨a, _ | ⟨b, t⟩⟩
      · rfl
      · rfl
      · rw [hd] at hlen
        simp only [List.length_cons] at hlen
        omega
    rw [ucs2ToGb2312Loop, Transducer.run_finish _ hfin]
    simp only [Except.map, leaveAt, hlen]
    rfl
  | succ inlen ih =>
    rcases hd : src.drop i with _ | ⟨a, _ | ⟨b, t⟩⟩
    · simp [hd] at hlen
    · simp [hd] at hlen
    have hmove : (toGb2312Transducer T endian).move (a :: b :: t) =
        .emit (gb2312Bytes T (UInt16.ofNat (endian.load a b))) 2 := rfl
    rw [ucs2ToGb2312Loop]
    split_ifs with hroom
    · rw [Transducer.run_no_room _ (by simp [hmove]) (roomIn_eq_false.2 hroom)]
      rw [hd] at hlen
      simp only [Except.map, leaveAt, hlen]
      rfl
    · rw [Transducer.run_emit _ hmove (roomIn_iff.2 hroom), rd_of_drop hd,
        rd_of_drop (drop_succ_of_drop hd)]
      have hrest : src.drop (i + 2) = (a :: b :: t).drop 2 := by rw [← hd, List.drop_drop]
      rw [← hrest]
      refine ih ?_
      rw [← List.drop_drop, List.length_drop]
      omega

/-- The loop of the GB2312 decoder. -/
theorem gb2312ToUcs2Loop_eq {inlen : ℕ} (hlen : (src.drop i).length = inlen) (hi : i ≤ src.length) :
    gb2312ToUcs2Loop T src space endian inlen i dst =
      ((fromGb2312Transducer T endian).run (roomIn space) (src.drop i) dst).map fun r =>
        leaveAt space (src.length - r.rest.length + if r.ending = .refused then 1 else 0)
          r.rest.length r := by
  induction inlen using Nat.strongRecOn generalizing i dst with
  | _ inlen ih =>
    have hpos : src.length - (src.drop i).length = i := by
      rw [List.length_drop]
      omega
    rcases hd : src.drop i with _ | ⟨lead, t⟩
    · have hfin : (fromGb2312Transducer T endian).move [] = .finish := rfl
      rw [hd] at hpos
      rw [← hlen, hd, List.length_nil, gb2312ToUcs2Loop, Transducer.run_finish _ hfin]
      simp [Except.map, leaveAt, Ending.errno, ← hpos]
    have hlen' : inlen = t.length + 1 := by rw [← hlen, hd, List.length_cons]
    have hmove : (fromGb2312Transducer T endian).move (lead :: t) ≠ .finish := by
      simp only [fromGb2312Transducer]
      split_ifs
      · exact fun h => by cases h
      · cases t <;> exact fun h => by cases h
    rw [hd] at hpos
    subst hlen'
    rw [gb2312ToUcs2Loop.eq_def]
    simp only
    split_ifs with hroom
    · rw [Transducer.run_no_room _ hmove (roomIn_eq_false.2 hroom)]
      rw [List.length_cons] at hpos
      simp [Except.map, leaveAt, Ending.errno, hpos]
    have hroom' : roomIn space (dst.length + (fromGb2312Transducer T endian).need (lead :: t)) = true :=
      roomIn_iff.2 hroom
    rw [rd_of_drop hd]
    simp only [bind, Except.bind]
    have hleft : src.length - i = t.length + 1 := by rw [← hlen, List.length_drop]
    split_ifs with hascii
    · -- one byte
      have hemit : (fromGb2312Transducer T endian).move (lead :: t) =
          .emit (endian.storeUnit (charToU16 lead)) 1 := if_pos hascii
      rw [Transducer.run_emit _ hemit hroom']
      have hrest : src.drop (i + 1) = (lead :: t).drop 1 := by rw [← hd, List.drop_drop]
      rw [← hrest]
      refine ih _ (Nat.lt_succ_self _) ?_ (by omega)
      rw [hrest]
      rfl
    · rw [List.length_cons] at hpos
      cases t with
      | nil =>
        rw [Transducer.run_refuse _ (by simp [fromGb2312Transducer, hascii]) hroom']
        simp [Except.map, leaveAt, Ending.errno, ← hpos]
      | cons trail t =>
        -- two bytes
        have hemit : (fromGb2312Transducer T endian).move (lead :: trail :: t) =
            .emit (endian.storeUnit (T.gb2312ToUcs2Table (gb2312Offset lead trail))) 2 := if_neg hascii
        rw [Transducer.run_emit _ hemit hroom']
        have hrest : src.drop (i + 2) = (lead :: trail :: t).drop 2 := by rw [← hd, List.drop_drop]
        simp only [List.length_cons, rd_of_drop (drop_succ_of_drop hd)]
        rw [← hrest]
        rw [List.length_cons] at hleft
        refine ih _ (by simp only [List.length_cons]; omega) ?_ (by omega)
        rw [hrest]
        rfl

/-! ### The registered converters -/

/-- The transducer of a converter. -/
def IconvFct.transducer (T : Gb2312Tables) : IconvFct → Transducer UInt8 UInt8 Stop
  | iconvUcs2ToGb2312 => toGb2312Transducer T .little
  | iconvUcs2beToGb2312 => toGb2312Transducer T .big
  | iconvGb2312ToUcs2 => fromGb2312Transducer T .little
  | iconvGb2312ToUcs2be => fromGb2312Transducer T .big
  | iconvUtf8ToUcs2 => utf8Transducer .little
  | iconvUtf8ToUcs2be => utf8Transducer .big
  | iconvUcs2ToUtf8 => ucs2Transducer .little
  | iconvUcs2beToUtf8 => ucs2Transducer .big

/-- The counts that a converter leaves. -/
def IconvFct.leave (src : Bytes) (space : ℕ) (r : Transduced UInt8 UInt8) : IconvFct → Conversion
  | iconvUcs2ToGb2312 | iconvUcs2beToGb2312 => leaveAt space 0 (r.rest.length / 2) r
  | iconvGb2312ToUcs2 | iconvGb2312ToUcs2be =>
    leaveAt space (src.length - r.rest.length + if r.ending = .refused then 1 else 0) r.rest.length r
  | iconvUtf8ToUcs2 | iconvUtf8ToUcs2be | iconvUcs2ToUtf8 | iconvUcs2beToUtf8 =>
    leaveBytes src space r

/-- **A call of a converter** is a run of its transducer. -/
theorem IconvFct.call_eq (fct : IconvFct) (T : Gb2312Tables) (src : Bytes) (space : ℕ) :
    fct.call T src space =
      ((fct.transducer T).run (roomIn space) src []).map fun r => fct.leave src space r := by
  have hutf8 : ∀ endian, encUtf8ToUnicode src space endian = _ := fun endian =>
    @utf8ToUnicodeLoop_eq src [] 0 space endian _ (Nat.zero_le _) (Nat.lt_succ_self _)
  have hucs2 : ∀ endian, encUnicodeToUtf8 src space endian = _ := fun endian =>
    @unicodeToUtf8Loop_eq src [] 0 space endian _ (Nat.zero_le _) (Nat.lt_succ_self _)
  have hgb : ∀ endian, iconvUcs2ToGb2312Endian T src space endian = _ := fun endian =>
    @ucs2ToGb2312Loop_eq T src [] 0 space endian _ rfl
  have hgb' : ∀ endian, iconvGb2312ToUcs2Endian T src space endian = _ := fun endian =>
    @gb2312ToUcs2Loop_eq T src [] 0 space endian _ rfl (Nat.zero_le _)
  cases fct
  · exact hgb .little
  · exact hgb .big
  · exact hgb' .little
  · exact hgb' .big
  · exact hutf8 .little
  · exact hutf8 .big
  · exact hucs2 .little
  · exact hucs2 .big

end OsdCore
