import OsdCore.Iconv.Pieces

/-!
# The input that `iconv` counts

A call accounts for its input if it reads no byte behind it and moves `*_inbuf` on by as many bytes as it
takes off `*inbytesleft` (`Accounts`).

* `utf8_fault_iff`, `gb2312_refuse_iff` : where the two decoders stumble, over a character that the input
  ends inside.
* `accounts_iff` : `iconv` accounts for its input exactly if the decoders do not get there
  (`EndsInside`), and the GB2312 encoder has none: it never moves `*_inbuf`.
-/

namespace OsdCore

variable {T : Gb2312Tables} {endian : Endian} {s src : Bytes} {space : ℕ}

/-! ### The moves of the UTF-8 decoder -/

/-- The size of a character, by ranges of its first byte. -/
theorem encGetUtf8Size_ranges (b : UInt8) :
    (encGetUtf8Size b = 1 ↔ b < 0xC0) ∧ (encGetUtf8Size b = 2 ↔ 0xC0 ≤ b ∧ b < 0xE0) ∧
      (encGetUtf8Size b = 3 ↔ 0xE0 ≤ b ∧ b < 0xF0) := by
  revert b
  apply forall_byte
  decide +kernel

section Moves

variable {b b1 b2 b3 : UInt8} {t : Bytes}

theorem utf8_move_one (h : b < 0xC0) :
    (utf8Transducer endian).move (b :: t) = .emit (endian.store 0 b) 1 := by
  have hsize := (encGetUtf8Size_ranges b).1.2 h
  have hb : rd (b :: t) 0 = .ok b := rfl
  simp [utf8Transducer, encUtf8ToUnicodeOne, hb, bind, Except.bind, hsize, pure, Except.pure]

theorem utf8_move_two (h : 0xC0 ≤ b1 ∧ b1 < 0xE0) :
    (utf8Transducer endian).move (b1 :: b2 :: t) =
      if b2 &&& 0xE0 = 0x80 then
        .emit (endian.store ((b1 >>> 2) &&& 0x07) ((b1 <<< 6) + (b2 &&& 0x3F))) 2
      else .refuse := by
  have hsize := (encGetUtf8Size_ranges b1).2.1.2 h
  have hb1 : rd (b1 :: b2 :: t) 0 = .ok b1 := rfl
  have hb2 : rd (b1 :: b2 :: t) (0 + 1) = .ok b2 := rfl
  by_cases hcont : b2 &&& 0xE0 = 0x80 <;>
    simp [utf8Transducer, encUtf8ToUnicodeOne, hb1, hb2, bind, Except.bind, hsize, pure, Except.pure,
      hcont]

theorem utf8_move_three (h : 0xE0 ≤ b1 ∧ b1 < 0xF0) :
    (utf8Transducer endian).move (b1 :: b2 :: b3 :: t) =
      if b2 &&& 0xC0 = 0x80 ∧ b3 &&& 0xC0 = 0x80 then
        .emit (endian.store ((b1 <<< 4) + ((b2 >>> 2) &&& 0x0F)) ((b2 <<< 6) + (b3 &&& 0x3F))) 3
      else .refuse := by
  have hsize := (encGetUtf8Size_ranges b1).2.2.2 h
  have hb1 : rd (b1 :: b2 :: b3 :: t) 0 = .ok b1 := rfl
  have hb2 : rd (b1 :: b2 :: b3 :: t) (0 + 1) = .ok b2 := rfl
  have hb3 : rd (b1 :: b2 :: b3 :: t) (0 + 2) = .ok b3 := rfl
  by_cases hcont : b2 &&& 0xC0 = 0x80 <;> by_cases hcont' : b3 &&& 0xC0 = 0x80 <;>
    simp [utf8Transducer, encUtf8ToUnicodeOne, hb1, hb2, hb3, bind, Except.bind, hsize, pure,
      Except.pure, hcont, hcont']

/-- The last bytes of a character are read behind the end. -/
theorem utf8_move_tail (h : (0xC0 ≤ b1 ∧ b1 < 0xE0) ∧ t = [] ∨ (0xE0 ≤ b1 ∧ b1 < 0xF0) ∧ t.length < 2) :
    (utf8Transducer endian).move (b1 :: t) = .fault .oob := by
  obtain ⟨-, h2, h3⟩ := encGetUtf8Size_ranges b1
  have hb1 : rd (b1 :: t) 0 = .ok b1 := rfl
  rcases h with ⟨hb, rfl⟩ | ⟨hb, hlen⟩
  · have hb2 : rd [b1] (0 + 1) = .error .oob := rfl
    simp [utf8Transducer, encUtf8ToUnicodeOne, hb1, hb2, bind, Except.bind, h2.2 hb]
  · have hb3 : rd (b1 :: t) (0 + 2) = .error .oob :=
      rd_of_drop_nil (List.drop_eq_nil_of_le (by rw [List.length_cons]; omega))
    cases hb2 : rd (b1 :: t) (0 + 1) with
    | error e =>
      have he : e = .oob := by
        unfold rd at hb2
        split at hb2
        · cases hb2
        · exact (Except.error.inj hb2).symm
      simp [utf8Transducer, encUtf8ToUnicodeOne, hb1, hb2, bind, Except.bind, h3.2 hb, he]
    | ok b2 => simp [utf8Transducer, encUtf8ToUnicodeOne, hb1, hb2, hb3, bind, Except.bind, h3.2 hb]

theorem utf8_move_high (h : 0xF0 ≤ b) : (utf8Transducer endian).move (b :: t) = .refuse := by
  obtain ⟨h1, h2, h3⟩ := encGetUtf8Size_ranges b
  have hb : rd (b :: t) 0 = .ok b := rfl
  simp only [UInt8.lt_iff_toNat_lt, UInt8.le_iff_toNat_le, UInt8.reduceToNat] at h h1 h2 h3
  have hsize : ¬ encGetUtf8Size b = 1 ∧ ¬ encGetUtf8Size b = 2 ∧ ¬ encGetUtf8Size b = 3 := by omega
  simp [utf8Transducer, encUtf8ToUnicodeOne, hb, bind, Except.bind, hsize, pure, Except.pure]

end Moves

/-! ### Characters -/

/-- The bytes that the UTF-8 decoder takes for a character. -/
def Utf8Char (c : Bytes) : Prop :=
  (∃ b, c = [b] ∧ b < 0xC0) ∨
    (∃ b1 b2, c = [b1, b2] ∧ (0xC0 ≤ b1 ∧ b1 < 0xE0) ∧ b2 &&& 0xE0 = 0x80) ∨
    ∃ b1 b2 b3, c = [b1, b2, b3] ∧ (0xE0 ≤ b1 ∧ b1 < 0xF0) ∧ b2 &&& 0xC0 = 0x80 ∧ b3 &&& 0xC0 = 0x80

/-- The beginning of a character of two or three bytes, of which the last are not there. -/
def Utf8Tail (s : Bytes) : Prop :=
  (∃ b1, s = [b1] ∧ 0xC0 ≤ b1 ∧ b1 < 0xF0) ∨ ∃ b1 b2, s = [b1, b2] ∧ 0xE0 ≤ b1 ∧ b1 < 0xF0

/-- The bytes that the GB2312 decoder takes for a character. -/
def Gb2312Char (c : Bytes) : Prop :=
  (∃ b, c = [b] ∧ b < 0x80) ∨ ∃ lead trail, c = [lead, trail] ∧ 0x80 ≤ lead

/-- The beginning of a character of two bytes. -/
def Gb2312Tail (s : Bytes) : Prop := ∃ lead, s = [lead] ∧ 0x80 ≤ lead

/-- A byte is in one of the ranges of first bytes. -/
theorem lead_range (b : UInt8) :
    b < 0xC0 ∨ (0xC0 ≤ b ∧ b < 0xE0) ∨ (0xE0 ≤ b ∧ b < 0xF0) ∨ 0xF0 ≤ b := by
  simp only [UInt8.lt_iff_toNat_lt, UInt8.le_iff_toNat_le, UInt8.reduceToNat]
  omega

/-- A transducer puts out two bytes for each character that it takes. -/
structure Decodes (t : Transducer UInt8 UInt8 Stop) (IsChar : Bytes → Prop) : Prop where
  need_eq : ∀ s, t.need s = 2
  of_emit : ∀ {s piece size}, t.move s = .emit piece size → piece.length = 2 ∧ IsChar (s.take size)
  emit : ∀ {c}, IsChar c → ∀ rest, ∃ piece, t.move (c ++ rest) = .emit piece c.length ∧ piece.length = 2

theorem decodes_utf8 (endian : Endian) : Decodes (utf8Transducer endian) Utf8Char where
  need_eq _ := rfl
  of_emit {s piece size} h := by
    rcases s with _ | ⟨b1, t⟩
    · cases h
    rcases lead_range b1 with hb | hb | hb | hb
    · rw [utf8_move_one hb] at h
      cases h
      exact ⟨Endian.length_store _ _, Or.inl ⟨b1, rfl, hb⟩⟩
    · rcases t with _ | ⟨b2, t⟩
      · cases (utf8_move_tail (Or.inl ⟨hb, rfl⟩)).symm.trans h
      rw [utf8_move_two hb] at h
      split_ifs at h with hcont
      cases h
      exact ⟨Endian.length_store _ _, Or.inr (Or.inl ⟨b1, b2, rfl, hb, hcont⟩)⟩
    · rcases t with _ | ⟨b2, _ | ⟨b3, t⟩⟩
      · cases (utf8_move_tail (Or.inr ⟨hb, by decide⟩)).symm.trans h
      · cases (utf8_move_tail (t := [b2]) (Or.inr ⟨hb, Nat.one_lt_two⟩)).symm.trans h
      rw [utf8_move_three hb] at h
      split_ifs at h with hcont
      cases h
      exact ⟨Endian.length_store _ _, Or.inr (Or.inr ⟨b1, b2, b3, rfl, hb, hcont⟩)⟩
    · rw [utf8_move_high hb] at h
      cases h
  emit := by
    rintro c (⟨b, rfl, hb⟩ | ⟨b1, b2, rfl, hb, hcont⟩ | ⟨b1, b2, b3, rfl, hb, hcont⟩) rest
    · exact ⟨_, utf8_move_one hb, Endian.length_store _ _⟩
    · refine ⟨_, (utf8_move_two hb).trans (if_pos hcont), Endian.length_store _ _⟩
    · refine ⟨_, (utf8_move_three hb).trans (if_pos hcont), Endian.length_store _ _⟩

theorem decodes_gb2312 (T : Gb2312Tables) (endian : Endian) :
    Decodes (fromGb2312Transducer T endian) Gb2312Char where
  need_eq _ := rfl
  of_emit {s piece size} h := by
    rcases s with _ | ⟨lead, t⟩
    · cases h
    simp only [fromGb2312Transducer, charToU16_lt_iff] at h
    split_ifs at h with hb
    · cases h
      exact ⟨Endian.length_store _ _, Or.inl ⟨lead, rfl, hb⟩⟩
    · cases t with
      | nil => cases h
      | cons trail t =>
        cases h
        exact ⟨Endian.length_store _ _, Or.inr ⟨lead, trail, rfl, UInt8.not_lt.1 hb⟩⟩
  emit := by
    rintro c (⟨b, rfl, hb⟩ | ⟨lead, trail, rfl, hb⟩) rest
    · exact ⟨_, if_pos ((charToU16_lt_iff b).2 hb), Endian.length_store _ _⟩
    · have hno : ¬ charToU16 lead < 0x80 := by
        rw [charToU16_lt_iff]
        exact UInt8.not_lt.2 hb
      exact ⟨_, if_neg hno, Endian.length_store _ _⟩

theorem utf8_fault_iff {e : Stop} : (utf8Transducer endian).move s = .fault e ↔ Utf8Tail s ∧ e = .oob := by
  constructor
  · intro h
    rcases s with _ | ⟨b1, t⟩
    · cases h
    rcases lead_range b1 with hb | hb | hb | hb
    · rw [utf8_move_one hb] at h
      cases h
    · rcases t with _ | ⟨b2, t⟩
      · rw [utf8_move_tail (Or.inl ⟨hb, rfl⟩)] at h
        cases h
        exact ⟨Or.inl ⟨b1, rfl, hb.1, UInt8.lt_trans hb.2 (by decide)⟩, rfl⟩
      · rw [utf8_move_two hb] at h
        split_ifs at h
    · rcases t with _ | ⟨b2, _ | ⟨b3, t⟩⟩
      · rw [utf8_move_tail (Or.inr ⟨hb, by decide⟩)] at h
        cases h
        exact ⟨Or.inl ⟨b1, rfl, UInt8.le_trans (by decide) hb.1, hb.2⟩, rfl⟩
      · rw [utf8_move_tail (t := [b2]) (Or.inr ⟨hb, Nat.one_lt_two⟩)] at h
        cases h
        exact ⟨Or.inr ⟨b1, b2, rfl, hb⟩, rfl⟩
      · rw [utf8_move_three hb] at h
        split_ifs at h
    · rw [utf8_move_high hb] at h
      cases h
  · rintro ⟨⟨b1, rfl, h1, h2⟩ | ⟨b1, b2, rfl, hb⟩, rfl⟩
    · by_cases hb : b1 < 0xE0
      · exact utf8_move_tail (Or.inl ⟨⟨h1, hb⟩, rfl⟩)
      · exact utf8_move_tail (Or.inr ⟨⟨UInt8.not_lt.1 hb, h2⟩, by decide⟩)
    · exact utf8_move_tail (t := [b2]) (Or.inr ⟨hb, Nat.one_lt_two⟩)

theorem gb2312_refuse_iff : (fromGb2312Transducer T endian).move s = .refuse ↔ Gb2312Tail s := by
  constructor
  · intro h
    rcases s with _ | ⟨lead, t⟩
    · cases h
    simp only [fromGb2312Transducer, charToU16_lt_iff] at h
    split_ifs at h with hb
    cases t with
    | nil => exact ⟨lead, rfl, UInt8.not_lt.1 hb⟩
    | cons trail t => cases h
  · rintro ⟨lead, rfl, hb⟩
    have hno : ¬ charToU16 lead < 0x80 := by
      rw [charToU16_lt_iff]
      exact UInt8.not_lt.2 hb
    exact if_neg hno

/-- The places that a decoder reaches with room for one more code unit. -/
theorem Decodes.reach_iff {t : Transducer UInt8 UInt8 Stop} {IsChar : Bytes → Prop}
    (h : Decodes t IsChar) {room : ℕ → Bool} {tail dst : Bytes} :
    (∃ dst', t.Reach room s dst tail dst' ∧ room (dst'.length + 2) = true) ↔
      ∃ chars : List Bytes, s = chars.flatten ++ tail ∧ (∀ c ∈ chars, IsChar c) ∧
        ∀ j ≤ chars.length, room (dst.length + (2 * j + 2)) = true := by
  constructor
  · rintro ⟨dst', hreach, hroom⟩
    induction hreach with
    | refl s dst => exact ⟨[], rfl, by simp, fun j hj => by simpa [Nat.le_zero.1 hj] using hroom⟩
    | @emit s tail dst dst' piece size hmove hroom' _ ih =>
      obtain ⟨chars, hs, hchars, hrooms⟩ := ih hroom
      obtain ⟨hlen, hchar⟩ := h.of_emit hmove
      refine ⟨s.take size :: chars, ?_, ?_, ?_⟩
      · rw [List.flatten_cons, List.append_assoc, ← hs, List.take_append_drop]
      · exact List.forall_mem_cons.2 ⟨hchar, hchars⟩
      · intro j hj
        cases j with
        | zero => rwa [h.need_eq] at hroom'
        | succ j =>
          have := hrooms j (Nat.le_of_succ_le_succ hj)
          rw [List.length_append, hlen] at this
          rwa [show dst.length + (2 * (j + 1) + 2) = dst.length + 2 + (2 * j + 2) by omega]
  · rintro ⟨chars, rfl, hchars, hrooms⟩
    induction chars generalizing dst with
    | nil => exact ⟨dst, .refl _ _, hrooms 0 le_rfl⟩
    | cons c chars ih =>
      obtain ⟨piece, hmove, hlen⟩ := h.emit (hchars c List.mem_cons_self) (chars.flatten ++ tail)
      obtain ⟨dst', hreach, hroom⟩ := @ih (dst ++ piece)
        (fun c hc => hchars c (List.mem_cons_of_mem _ hc)) fun j hj => by
          have := hrooms (j + 1) (Nat.succ_le_succ hj)
          rw [List.length_append, hlen]
          rwa [show dst.length + (2 * (j + 1) + 2) = dst.length + 2 + (2 * j + 2) by omega] at this
      rw [List.flatten_cons, List.append_assoc]
      refine ⟨dst', .emit hmove ?_ ?_, hroom⟩
      · rw [h.need_eq]
        exact hrooms 0 (Nat.zero_le _)
      · rwa [List.drop_left]

/-! ### The counts -/

/-- The input is accounted for: nothing is read behind it, no more is left than there was, and `*_inbuf`
is moved on by what is taken off `*inbytesleft`. -/
def Counted (src : Bytes) (x : Except Stop Conversion) : Prop :=
  ∃ c, x = .ok c ∧ c.inbytesleft ≤ src.length ∧ c.inbuf = src.length - c.inbytesleft

/-- **One call accounts for its input.** -/
def Accounts (T : Gb2312Tables) (cd : BuiltinIconvMap) (src : Bytes) (space : ℕ) : Prop :=
  Counted src (iconv T cd src space)

/-- Characters, for whose code units there is room, and behind them the beginning of one more, for whose
code unit there is room, too. -/
def EndsInside (IsChar IsTail : Bytes → Prop) (src : Bytes) (space : ℕ) : Prop :=
  ∃ (chars : List Bytes) (tail : Bytes), src = chars.flatten ++ tail ∧ (∀ c ∈ chars, IsChar c) ∧
    IsTail tail ∧ ∀ j ≤ chars.length, (2 * j + 2) % 2 ^ 32 ≤ space

/-- **The inputs that are accounted for.** -/
def IconvFct.CountsInput (src : Bytes) (space : ℕ) : IconvFct → Prop
  | iconvUcs2ToGb2312 | iconvUcs2beToGb2312 => src = []
  | iconvGb2312ToUcs2 | iconvGb2312ToUcs2be => ¬ EndsInside Gb2312Char Gb2312Tail src space
  | iconvUtf8ToUcs2 | iconvUtf8ToUcs2be => ¬ EndsInside Utf8Char Utf8Tail src space
  | iconvUcs2ToUtf8 | iconvUcs2beToUtf8 => True

theorem endsInside_iff {t : Transducer UInt8 UInt8 Stop} {IsChar IsTail : Bytes → Prop}
    (h : Decodes t IsChar) : EndsInside IsChar IsTail src space ↔
      ∃ tail dst, t.Reach (roomIn space) src [] tail dst ∧
        roomIn space (dst.length + t.need tail) = true ∧ IsTail tail := by
  have hreach : ∀ tail, _ := fun tail => @Decodes.reach_iff src t IsChar h (roomIn space) tail []
  simp only [List.length_nil, Nat.zero_add, roomIn_iff, Nat.not_lt] at hreach
  simp only [h.need_eq, roomIn_iff, Nat.not_lt]
  constructor
  · rintro ⟨chars, tail, hsrc, hchars, htail, hrooms⟩
    obtain ⟨dst, hr, hroom⟩ := (hreach tail).2 ⟨chars, hsrc, hchars, hrooms⟩
    exact ⟨tail, dst, hr, hroom, htail⟩
  · rintro ⟨tail, dst, hr, hroom, htail⟩
    obtain ⟨chars, hsrc, hchars, hrooms⟩ := (hreach tail).1 ⟨dst, hr, hroom⟩
    exact ⟨chars, tail, hsrc, hchars, htail, hrooms⟩

/-- The UTF-8 decoder reads behind its input exactly when that ends inside a character. -/
theorem endsInside_utf8_iff (endian : Endian) : EndsInside Utf8Char Utf8Tail src space ↔
    ∃ e, (utf8Transducer endian).run (roomIn space) src [] = .error e := by
  rw [endsInside_iff (decodes_utf8 endian)]
  simp only [Transducer.run_error_iff, utf8_fault_iff]
  constructor
  · rintro ⟨tail, dst, hreach, hroom, htail⟩
    exact ⟨.oob, tail, dst, hreach, hroom, htail, rfl⟩
  · rintro ⟨e, tail, dst, hreach, hroom, htail, -⟩
    exact ⟨tail, dst, hreach, hroom, htail⟩

/-- The GB2312 decoder refuses such an input. -/
theorem endsInside_gb2312_iff (T : Gb2312Tables) (endian : Endian) :
    EndsInside Gb2312Char Gb2312Tail src space ↔
      ∃ r, (fromGb2312Transducer T endian).run (roomIn space) src [] = .ok r ∧ r.ending = .refused := by
  rw [endsInside_iff (decodes_gb2312 T endian), Transducer.run_refused_iff]
  simp only [gb2312_refuse_iff]

/-- A conversion that counts bytes accounts for its input, wherever it ends. -/
theorem leaveBytes_accounts {t : Transducer UInt8 UInt8 Stop} {r : Transduced UInt8 UInt8}
    (hlen : src.length < 2 ^ 32) (hrun : t.run (roomIn space) src [] = .ok r) :
    (leaveBytes src space r).inbytesleft ≤ src.length ∧
      (leaveBytes src space r).inbuf = src.length - (leaveBytes src space r).inbytesleft := by
  have hrest := (Transducer.rest_suffix hrun).length_le
  simp only [leaveBytes, Conversion.exit, subSize_eq (Nat.sub_le _ _) hlen]
  omega

/-! ### The other three do nothing undefined -/

theorem fromGb2312_move_ne (T : Gb2312Tables) (endian : Endian) (s : Bytes) (e : Stop) :
    (fromGb2312Transducer T endian).move s ≠ .fault e := by
  intro h
  rcases s with _ | ⟨lead, _ | ⟨trail, t⟩⟩ <;> simp only [fromGb2312Transducer] at h
  · cases h
  · split_ifs at h
  · split_ifs at h

theorem ucs2_move_ne (endian : Endian) (s : Bytes) (e : Stop) :
    (ucs2Transducer endian).move s ≠ .fault e := by
  intro h
  rcases s with _ | ⟨a, _ | ⟨b, t⟩⟩ <;> cases h

theorem toGb2312_move_ne (T : Gb2312Tables) (endian : Endian) (s : Bytes) (e : Stop) :
    (toGb2312Transducer T endian).move s ≠ .fault e := by
  intro h
  rcases s with _ | ⟨a, _ | ⟨b, t⟩⟩ <;> cases h

/-! ### The four converters -/

theorem counted_utf8 (hlen : src.length < 2 ^ 32) :
    Counted src (((utf8Transducer endian).run (roomIn space) src []).map (leaveBytes src space)) ↔
      ¬ EndsInside Utf8Char Utf8Tail src space := by
  rw [endsInside_utf8_iff endian]
  constructor
  · rintro ⟨c, hc, -⟩ ⟨e, he⟩
    rw [he] at hc
    cases hc
  · intro hno
    cases hrun : (utf8Transducer endian).run (roomIn space) src [] with
    | ok r => exact ⟨_, rfl, leaveBytes_accounts hlen hrun⟩
    | error e => exact absurd ⟨e, hrun⟩ hno

theorem counted_ucs2 (hlen : src.length < 2 ^ 32) :
    Counted src (((ucs2Transducer endian).run (roomIn space) src []).map (leaveBytes src space)) := by
  obtain ⟨r, hrun⟩ := Transducer.exists_run (ucs2_move_ne endian) (roomIn space) src []
  rw [hrun]
  exact ⟨_, rfl, leaveBytes_accounts hlen hrun⟩

/-- The GB2312 decoder moves past the byte that it has refused. -/
theorem counted_fromGb2312 :
    Counted src (((fromGb2312Transducer T endian).run (roomIn space) src []).map fun r =>
        leaveAt space (src.length - r.rest.length + if r.ending = .refused then 1 else 0)
          r.rest.length r) ↔ ¬ EndsInside Gb2312Char Gb2312Tail src space := by
  rw [endsInside_gb2312_iff T endian]
  obtain ⟨r, hrun⟩ := Transducer.exists_run (fromGb2312_move_ne T endian) (roomIn space) src []
  have hrest := (Transducer.rest_suffix hrun).length_le
  simp only [hrun, Except.ok.injEq, exists_eq_left']
  constructor
  · rintro ⟨c, hc, hle, hin⟩ hr
    cases hc
    simp only [leaveAt, hr, ↓reduceIte] at hin
    omega
  · intro hr
    refine ⟨_, rfl, hrest, ?_⟩
    simp only [leaveAt, hr, ↓reduceIte]
    omega

/-- The GB2312 encoder leaves the number of code units, and `*_inbuf` where it was. -/
theorem counted_toGb2312 :
    Counted src (((toGb2312Transducer T endian).run (roomIn space) src []).map fun r =>
        leaveAt space 0 (r.rest.length / 2) r) ↔ src = [] := by
  obtain ⟨r, hrun⟩ := Transducer.exists_run (toGb2312_move_ne T endian) (roomIn space) src []
  have hrest := (Transducer.rest_suffix hrun).length_le
  rw [hrun]
  constructor
  · rintro ⟨c, hc, hle, hin⟩
    cases hc
    simp only [leaveAt] at hin
    exact List.eq_nil_of_length_eq_zero (by omega)
  · rintro rfl
    rw [List.length_nil] at hrest
    refine ⟨_, rfl, ?_⟩
    simp only [leaveAt, List.length_nil]
    omega

/-- **`iconv` accounts for its input exactly when** the decoders do not come to a character that it ends
inside, and when there is none for the GB2312 encoder. -/
theorem accounts_iff {src : Bytes} (space : ℕ) (hlen : src.length < 2 ^ 32) :
    ∀ cd ∈ iconvMap, Accounts T cd src space ↔ cd.fct.CountsInput src space := by
  intro cd _
  change Counted src (cd.fct.call T src space) ↔ _
  rw [cd.fct.call_eq]
  cases cd.fct
  · exact counted_toGb2312
  · exact counted_toGb2312
  · exact counted_fromGb2312
  · exact counted_fromGb2312
  · exact counted_utf8 hlen
  · exact counted_utf8 hlen
  · exact iff_true_intro (counted_ucs2 hlen)
  · exact iff_true_intro (counted_ucs2 hlen)

/-- Tables that are all zeros. -/
def zeroTables : Gb2312Tables where
  ucs2IndexTable _ _ := 0
  ucs2Mirror _ _ := 0
  ucs2ToGb2312Table _ := 0
  tabUcs2ToGbk := []
  gb2312ToUcs2Table _ := 0

/-- Two letters do not end inside a character. -/
theorem not_utf8Tail_letters {tail : Bytes} (h : tail <:+ [0x41, 0x42]) : ¬ Utf8Tail tail := by
  rintro (⟨b1, rfl, h1, -⟩ | ⟨b1, b2, rfl, h1, -⟩)
  · have hb : b1 = 0x42 := by simpa [List.suffix_cons_iff] using h
    exact absurd h1 (by rw [hb]; decide)
  · have hb : b1 = 0x41 ∧ b2 = 0x42 := by simpa [List.suffix_cons_iff] using h
    exact absurd h1 (by rw [hb.1]; decide)

/-- The decoder accounts for them. -/
theorem accounts_letters :
    Accounts zeroTables ⟨ascii "utf8", ascii "ucs2", .iconvUtf8ToUcs2⟩ [0x41, 0x42] 256 := by
  refine (accounts_iff 256 (by decide) _ (by decide)).2 ?_
  rintro ⟨chars, tail, hsrc, -, htail, -⟩
  exact not_utf8Tail_letters ⟨chars.flatten, hsrc.symm⟩ htail

/-- The GB2312 encoder does not move on; the UTF-8 decoder reads behind one byte; the GB2312 decoder
moves on past one byte that it says is left. -/
theorem not_accounts :
    ¬ Accounts zeroTables ⟨ascii "ucs2", ascii "gb2312", .iconvUcs2ToGb2312⟩ [0x41, 0x00] 256 ∧
      ¬ Accounts zeroTables ⟨ascii "utf8", ascii "ucs2", .iconvUtf8ToUcs2⟩ [0xC3] 256 ∧
      ¬ Accounts zeroTables ⟨ascii "gb2312", ascii "ucs2", .iconvGb2312ToUcs2⟩ [0xB0] 256 := by
  refine ⟨?_, ?_, ?_⟩
  · rintro ⟨c, hc, -, hin⟩
    have hcall : iconv zeroTables ⟨ascii "ucs2", ascii "gb2312", .iconvUcs2ToGb2312⟩ [0x41, 0x00] 256 =
        .ok ⟨0, none, 0, 0, 255, [0x41]⟩ := by decide +kernel
    rw [hcall] at hc
    cases hc
    cases hin
  · rintro ⟨c, hc, -⟩
    have hcall : iconv zeroTables ⟨ascii "utf8", ascii "ucs2", .iconvUtf8ToUcs2⟩ [0xC3] 256 =
        .error .oob := by decide +kernel
    rw [hcall] at hc
    cases hc
  · rintro ⟨c, hc, -, hin⟩
    have hcall : iconv zeroTables ⟨ascii "gb2312", ascii "ucs2", .iconvGb2312ToUcs2⟩ [0xB0] 256 =
        .ok ⟨-1, some .EINVAL, 1, 1, 256, []⟩ := by decide +kernel
    rw [hcall] at hc
    cases hc
    cases hin

end OsdCore
