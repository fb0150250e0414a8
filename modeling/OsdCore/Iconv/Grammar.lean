import OsdCore.Iconv.Chunked
import OsdCore.Iconv.RoundTrip

/-!
# The grammar of UTF-8 and the decoder

`Utf8Seq` is the grammar of the characters of one, two and three bytes, in their shortest form, and
`Utf8Text` that of a text.

* `utf8Text_iff` : the texts are what the encoder writes.
* `followsGrammar_iff` : the decoder follows the grammar exactly on the texts that are `Regular`: no
  character of two bytes has its bit 5 set, and what follows the longest well-formed prefix is one of the
  things that the decoder refuses.
-/

namespace OsdCore

/-- A byte that continues a character. -/
def Continues (b : UInt8) : Prop := 0x80 ≤ b ∧ b ≤ 0xBF

/-- The sequences of one, two and three bytes, with their code points. -/
inductive Utf8Seq : ℕ → Bytes → Prop
  | one {a : UInt8} : a ≤ 0x7F → Utf8Seq a.toNat [a]
  | two {a b : UInt8} : 0xC2 ≤ a → a ≤ 0xDF → Continues b →
      Utf8Seq ((a.toNat - 0xC0) * 64 + (b.toNat - 0x80)) [a, b]
  | three {a b c : UInt8} : 0xE0 ≤ a → a ≤ 0xEF → Continues b → Continues c → (a = 0xE0 → 0xA0 ≤ b) →
      Utf8Seq ((a.toNat - 0xE0) * 4096 + (b.toNat - 0x80) * 64 + (c.toNat - 0x80)) [a, b, c]

/-- A text, with its code units. -/
inductive Utf8Text : List UInt16 → Bytes → Prop
  | nil : Utf8Text [] []
  | cons {u : UInt16} {units : List UInt16} {c rest : Bytes} :
      Utf8Seq u.toNat c → Utf8Text units rest → Utf8Text (u :: units) (c ++ rest)

variable {endian : Endian} {src pre rest dst : Bytes} {space : ℕ} {u : UInt16} {units : List UInt16}

/-- Every sequence is the one that the encoder writes for its code point. -/
theorem Utf8Seq.eq_utf8Bytes {n : ℕ} {c : Bytes} (hn : n < 0x10000) (h : Utf8Seq n c) :
    c = utf8Bytes n := by
  cases h with
  | @one a ha =>
    simp only [UInt8.le_iff_toNat_le, UInt8.reduceToNat] at ha
    rw [utf8Bytes_one (by omega), UInt8.ofNat_toNat]
  | @two a b ha ha' hb =>
    simp only [Continues, UInt8.le_iff_toNat_le, UInt8.reduceToNat] at ha ha' hb
    rw [utf8Bytes_two (by omega) (by omega)]
    refine congrArg₂ (fun x y => [x, y]) ?_ ?_ <;> apply UInt8.toNat.inj <;>
      rw [UInt8.toNat_ofNat'] <;> omega
  | @three a b c ha ha' hb hc hshort =>
    have hshort' : a.toNat = 0xE0 → 0xA0 ≤ b.toNat := fun h => by
      have hb' := hshort (UInt8.toNat.inj h)
      rwa [UInt8.le_iff_toNat_le] at hb'
    simp only [Continues, UInt8.le_iff_toNat_le, UInt8.reduceToNat] at ha ha' hb hc
    rw [utf8Bytes_three (by omega) hn]
    have hbyte : ∀ {m : ℕ} {x : UInt8}, m = x.toNat → x = UInt8.ofNat m := fun h => by
      rw [h, UInt8.ofNat_toNat]
    refine congrArg₂ List.cons (hbyte ?_)
      (congrArg₂ List.cons (hbyte ?_) (congrArg₂ List.cons (hbyte ?_) rfl)) <;> omega

/-- And the encoder writes a sequence. -/
theorem utf8Seq_utf8Bytes {n : ℕ} (hn : n < 0x10000) : Utf8Seq n (utf8Bytes n) := by
  have hbyte : ∀ {m : ℕ}, m < 256 → (UInt8.ofNat m).toNat = m := fun hm => by
    rw [UInt8.toNat_ofNat', Nat.mod_eq_of_lt hm]
  rcases lt_or_ge n 0x80 with h1 | h1
  · rw [utf8Bytes_one h1]
    have hseq := @Utf8Seq.one (UInt8.ofNat n)
    simp only [UInt8.le_iff_toNat_le, UInt8.reduceToNat, hbyte (show n < 256 by omega)] at hseq
    exact hseq (by omega)
  rcases lt_or_ge n 0x800 with h2 | h2
  · rw [utf8Bytes_two h1 h2]
    have hseq := @Utf8Seq.two (UInt8.ofNat (192 + n / 64)) (UInt8.ofNat (128 + n % 64))
    simp only [Continues, UInt8.le_iff_toNat_le, UInt8.reduceToNat,
      hbyte (show 192 + n / 64 < 256 by omega), hbyte (show 128 + n % 64 < 256 by omega)] at hseq
    have hvalue : (192 + n / 64 - 192) * 64 + (128 + n % 64 - 128) = n := by omega
    rw [hvalue] at hseq
    exact hseq (by omega) (by omega) (by omega)
  · rw [utf8Bytes_three h2 hn]
    have hseq := @Utf8Seq.three (UInt8.ofNat (224 + n / 4096)) (UInt8.ofNat (128 + n / 64 % 64))
      (UInt8.ofNat (128 + n % 64))
    have hlead : UInt8.ofNat (224 + n / 4096) = 0xE0 ↔ 224 + n / 4096 = 224 := by
      rw [← UInt8.toNat_inj, hbyte (show 224 + n / 4096 < 256 by omega)]
      rfl
    simp only [hlead, Continues, UInt8.le_iff_toNat_le, UInt8.reduceToNat,
      hbyte (show 224 + n / 4096 < 256 by omega), hbyte (show 128 + n / 64 % 64 < 256 by omega),
      hbyte (show 128 + n % 64 < 256 by omega)] at hseq
    have hvalue : (224 + n / 4096 - 224) * 4096 + (128 + n / 64 % 64 - 128) * 64 +
        (128 + n % 64 - 128) = n := by omega
    rw [hvalue] at hseq
    exact hseq (by omega) (by omega) (by omega) (by omega) (by omega)

/-- **The texts of the grammar** are the UTF-8 texts of the code units. -/
theorem utf8Text_iff : Utf8Text units src ↔ src = utf8Text units := by
  constructor
  · intro h
    induction h with
    | nil => rfl
    | @cons u units c rest hseq _ ih =>
      rw [utf8Text_cons, hseq.eq_utf8Bytes u.toNat_lt, ih]
  · rintro rfl
    induction units with
    | nil => exact .nil
    | cons u units ih => exact .cons (utf8Seq_utf8Bytes u.toNat_lt) ih

/-! ### The decoder on a text -/

/-- The decoder takes a character, unless it is a `LostUnit`. -/
theorem utf8_move_unit (u : UInt16) (rest : Bytes) :
    (utf8Transducer endian).move (utf8Bytes u.toNat ++ rest) =
      if LostUnit u then .refuse else .emit (endian.unit u) (utf8Bytes u.toNat).length := by
  have hd : (utf8Bytes u.toNat ++ rest).drop 0 = utf8Bytes u.toNat ++ rest := List.drop_zero
  have hone := @encUtf8ToUnicodeOne_unit endian _ rest 0 u hd
  obtain ⟨b, hb, hsize⟩ := encGetUtf8Size_unit hd
  cases hs : utf8Bytes u.toNat ++ rest with
  | nil => exact absurd (List.append_eq_nil_iff.1 hs).1 (utf8Bytes_ne_nil _)
  | cons b' t =>
    rw [hs] at hone hb
    cases hb
    rw [← hsize]
    simp only [utf8Transducer, hone]
    by_cases hlost : LostUnit u
    · simp only [hlost, ↓reduceIte]
    · simp only [hlost, ↓reduceIte]

/-- The decoder takes the text of code units that are not lost. -/
theorem all_utf8Text (h : ∀ u ∈ units, ¬ LostUnit u) :
    (utf8Transducer endian).all (utf8Text units ++ rest) dst =
      (utf8Transducer endian).all rest (dst ++ ucs2Text endian units) := by
  unfold Transducer.all
  induction units generalizing dst with
  | nil => simp [utf8Text, ucs2Text]
  | cons u units ih =>
    have hu := h u List.mem_cons_self
    have hmove := @utf8_move_unit endian u (utf8Text units ++ rest)
    rw [if_neg hu] at hmove
    rw [utf8Text_cons, List.append_assoc, Transducer.run_emit _ hmove rfl, List.drop_left,
      ih fun v hv => h v (List.mem_cons_of_mem u hv), ucs2Text_cons, List.append_assoc]

/-- What the decoder refuses: a byte from 0xF0 on; a lead byte of two and a byte that it does not accept
behind it; a lead byte of three and two bytes that do not both continue. -/
def Refused (s : Bytes) : Prop :=
  (∃ b t, s = b :: t ∧ 0xF0 ≤ b) ∨
    (∃ b1 b2 t, s = b1 :: b2 :: t ∧ (0xC0 ≤ b1 ∧ b1 < 0xE0) ∧ b2 &&& 0xE0 ≠ 0x80) ∨
    ∃ b1 b2 b3 t, s = b1 :: b2 :: b3 :: t ∧ (0xE0 ≤ b1 ∧ b1 < 0xF0) ∧
      ¬ (b2 &&& 0xC0 = 0x80 ∧ b3 &&& 0xC0 = 0x80)

theorem utf8_refuse_iff : (utf8Transducer endian).move rest = .refuse ↔ Refused rest := by
  constructor
  · intro h
    rcases rest with _ | ⟨b1, t⟩
    · cases h
    rcases lead_range b1 with hb | hb | hb | hb
    · rw [utf8_move_one hb] at h
      cases h
    · rcases t with _ | ⟨b2, t⟩
      · cases (utf8_move_tail (Or.inl ⟨hb, rfl⟩)).symm.trans h
      rw [utf8_move_two hb] at h
      split_ifs at h with hcont
      exact Or.inr (Or.inl ⟨b1, b2, t, rfl, hb, hcont⟩)
    · rcases t with _ | ⟨b2, _ | ⟨b3, t⟩⟩
      · cases (utf8_move_tail (Or.inr ⟨hb, by decide⟩)).symm.trans h
      · cases (utf8_move_tail (t := [b2]) (Or.inr ⟨hb, Nat.one_lt_two⟩)).symm.trans h
      rw [utf8_move_three hb] at h
      split_ifs at h with hcont
      exact Or.inr (Or.inr ⟨b1, b2, b3, t, rfl, hb, hcont⟩)
    · exact Or.inl ⟨b1, t, rfl, hb⟩
  · rintro (⟨b, t, rfl, hb⟩ | ⟨b1, b2, t, rfl, hb, hcont⟩ | ⟨b1, b2, b3, t, rfl, hb, hcont⟩)
    · exact utf8_move_high hb
    · exact (utf8_move_two hb).trans (if_neg hcont)
    · exact (utf8_move_three hb).trans (if_neg hcont)

/-- At a `LostUnit` the decoder stops, before the text has come to its end. -/
theorem all_of_lost (h : ∃ u ∈ units, LostUnit u) :
    ∃ r, (utf8Transducer endian).all (utf8Text units ++ rest) dst = .ok r ∧ r.ending = .refused ∧
      rest.length < r.rest.length := by
  unfold Transducer.all
  induction units generalizing dst with
  | nil => simp at h
  | cons u units ih =>
    have hmove := @utf8_move_unit endian u (utf8Text units ++ rest)
    have hpos := List.length_pos_iff.2 (utf8Bytes_ne_nil u.toNat)
    rw [utf8Text_cons, List.append_assoc]
    by_cases hu : LostUnit u
    · rw [if_pos hu] at hmove
      rw [Transducer.run_refuse _ hmove rfl]
      refine ⟨_, rfl, rfl, ?_⟩
      simp only [List.length_append]
      omega
    · rw [if_neg hu] at hmove
      obtain ⟨v, hv, hlost⟩ := h
      have hv' : v ∈ units := (List.mem_cons.1 hv).resolve_left fun hvu => hu (hvu ▸ hlost)
      rw [Transducer.run_emit _ hmove rfl, List.drop_left]
      exact ih ⟨v, hv', hlost⟩

/-- Where the decoder neither ends nor refuses, it goes on. -/
theorem all_goes_on (hne : rest ≠ []) (href : ¬ Refused rest) {r : Transduced UInt8 UInt8}
    (h : (utf8Transducer endian).all rest dst = .ok r) : r.rest.length < rest.length := by
  cases hmove : (utf8Transducer endian).move rest with
  | finish =>
    exfalso
    rcases rest with _ | ⟨b, t⟩
    · exact hne rfl
    · simp only [utf8Transducer] at hmove
      split at hmove <;> cases hmove
  | fault e => cases h.symm.trans (Transducer.run_fault _ hmove rfl)
  | refuse => exact absurd (utf8_refuse_iff.1 hmove) href
  | emit piece size =>
    have hpos := (utf8Transducer endian).size_pos hmove
    have hle := (utf8Transducer endian).size_le hmove
    rw [Transducer.all, Transducer.run_emit _ hmove rfl] at h
    have hrest := (Transducer.rest_suffix h).length_le
    rw [List.length_drop] at hrest
    omega

/-- A code unit is what its bytes say. -/
theorem utf8Bytes_append_inj {v : UInt16} {rest' : Bytes}
    (h : utf8Bytes u.toNat ++ rest = utf8Bytes v.toNat ++ rest') : u = v ∧ rest = rest' := by
  have hlen : (utf8Bytes u.toNat).length = (utf8Bytes v.toNat).length := by
    obtain ⟨b, hb, hsize⟩ := @encGetUtf8Size_unit (utf8Bytes u.toNat ++ rest) rest 0 u List.drop_zero
    obtain ⟨b', hb', hsize'⟩ :=
      @encGetUtf8Size_unit (utf8Bytes u.toNat ++ rest) rest' 0 v (by rw [h, List.drop_zero])
    cases hb.symm.trans hb'
    rw [← hsize, hsize']
  obtain ⟨hbytes, hrest⟩ := List.append_inj h hlen
  refine ⟨UInt16.toNat.inj ?_, hrest⟩
  -- both are the code point of one sequence
  have hseq := utf8Seq_utf8Bytes u.toNat_lt
  have hseq' := utf8Seq_utf8Bytes v.toNat_lt
  rw [hbytes] at hseq
  generalize utf8Bytes v.toNat = c at hseq hseq'
  generalize u.toNat = n at hseq
  generalize v.toNat = m at hseq'
  cases hseq <;> cases hseq' <;> rfl

theorem utf8Text_inj {units' : List UInt16} (h : utf8Text units = utf8Text units') : units = units' := by
  induction units generalizing units' with
  | nil =>
    cases units' with
    | nil => rfl
    | cons v units' => exact absurd (List.append_eq_nil_iff.1 h.symm).1 (utf8Bytes_ne_nil _)
  | cons u units ih =>
    cases units' with
    | nil => exact absurd (List.append_eq_nil_iff.1 h).1 (utf8Bytes_ne_nil _)
    | cons v units' =>
      obtain ⟨rfl, hrest⟩ := utf8Bytes_append_inj h
      rw [ih hrest]

/-! ### The law -/

/-- The longest prefix of the input that is a text. -/
structure LongestPrefix (units : List UInt16) (pre src : Bytes) : Prop where
  isPrefix : pre <+: src
  text : Utf8Text units pre
  longest : ∀ units' pre', Utf8Text units' pre' → pre' <+: src → pre'.length ≤ pre.length

/-- What the conversion of the code units of a prefix leaves. -/
def decoded (src : Bytes) (space : ℕ) (endian : Endian) (units : List UInt16) (pre : Bytes)
    (errno : Option IconvErrno) : Conversion where
  result := if errno.isSome then -1 else 0
  errno := errno
  inbuf := pre.length
  inbytesleft := src.length - pre.length
  outbytesleft := space - 2 * units.length
  out := ucs2Text endian units

/-- **The decoder follows the grammar**: a text is converted; of anything else its longest prefix that is
a text, and -1 is returned. -/
def FollowsGrammar (src : Bytes) (space : ℕ) (endian : Endian) : Prop :=
  (∀ units, Utf8Text units src →
    encUtf8ToUnicode src space endian = .ok (decoded src space endian units src none)) ∧
  ((∀ units, ¬ Utf8Text units src) → ∃ units pre, LongestPrefix units pre src ∧
    encUtf8ToUnicode src space endian = .ok (decoded src space endian units pre (some .EINVAL)))

/-- **The inputs on which it does**: the longest prefix that is a text has no `LostUnit`, and the input
ends there or goes on with something that is refused. -/
def Regular (src : Bytes) : Prop :=
  ∃ units pre rest, src = pre ++ rest ∧ LongestPrefix units pre src ∧ (∀ u ∈ units, ¬ LostUnit u) ∧
    (rest = [] ∨ Refused rest)

/-- With space enough, the decoder is not stopped by it. -/
theorem encUtf8ToUnicode_eq_all (hspace : 2 * src.length ≤ space) (endian : Endian) :
    encUtf8ToUnicode src space endian =
      ((utf8Transducer endian).all src []).map (leaveBytes src space) := by
  cases endian with
  | little => exact @iconv_eq_all zeroTables ⟨[], [], .iconvUtf8ToUcs2⟩ src space hspace
  | big => exact @iconv_eq_all zeroTables ⟨[], [], .iconvUtf8ToUcs2be⟩ src space hspace

/-- The counts that are left behind a prefix. -/
theorem leaveBytes_eq_decoded {ending : Ending} (hending : ending ≠ .full) (hlen : src.length < 2 ^ 32)
    (hspace : 2 * src.length ≤ space) (hsize : space < 2 ^ 32) (hsrc : src = pre ++ rest)
    (hunits : units.length ≤ pre.length) :
    leaveBytes src space ⟨ending, rest, ucs2Text endian units⟩ =
      decoded src space endian units pre (if ending = .finished then none else some .EINVAL) := by
  have hpre : src.length - rest.length = pre.length := by
    rw [hsrc, List.length_append]
    omega
  have hle : pre.length ≤ src.length := by
    rw [hsrc, List.length_append]
    omega
  have hout : 2 * units.length ≤ space := by omega
  cases ending with
  | full => exact absurd rfl hending
  | finished =>
    simp only [leaveBytes, Conversion.exit, decoded, hpre, subSize_eq hle hlen, length_ucs2Text,
      subSize_eq hout hsize, Ending.errno, ↓reduceIte]
    rfl
  | refused =>
    simp only [leaveBytes, Conversion.exit, decoded, hpre, subSize_eq hle hlen, length_ucs2Text,
      subSize_eq hout hsize, Ending.errno, reduceCtorEq, ↓reduceIte]
    rfl

/-- Where the decoder ends behind a text, it has lost no unit of it, and it has refused what follows. -/
theorem regular_of_end {r : Transduced UInt8 UInt8}
    (hr : (utf8Transducer endian).all (utf8Text units ++ rest) [] = .ok r)
    (hend : r.rest.length = rest.length) :
    (∀ u ∈ units, ¬ LostUnit u) ∧ (rest = [] ∨ Refused rest) := by
  have hlost : ∀ u ∈ units, ¬ LostUnit u := by
    intro u hu hlost
    obtain ⟨r', hr', -, hlt⟩ := @all_of_lost endian rest [] units ⟨u, hu, hlost⟩
    obtain rfl : r' = r := Except.ok.inj (hr'.symm.trans hr)
    omega
  refine ⟨hlost, ?_⟩
  by_contra hrest
  obtain ⟨hne, href⟩ := not_or.1 hrest
  rw [all_utf8Text hlost] at hr
  have hlt := all_goes_on hne href hr
  omega

/-- A prefix that is converted, and nothing else. -/
theorem regular_of_decoded {errno : Option IconvErrno} (hspace : 2 * src.length ≤ space)
    (hpre : LongestPrefix units pre src)
    (hok : encUtf8ToUnicode src space endian = .ok (decoded src space endian units pre errno)) :
    Regular src := by
  obtain ⟨rest, rfl⟩ := hpre.isPrefix
  rw [encUtf8ToUnicode_eq_all hspace] at hok
  cases hr : (utf8Transducer endian).all (pre ++ rest) [] with
  | error e =>
    rw [hr] at hok
    cases hok
  | ok r =>
    rw [hr] at hok
    have hle := (Transducer.rest_suffix hr).length_le
    have hin := congrArg Conversion.inbuf (Except.ok.inj hok)
    simp only [leaveBytes, Conversion.exit, decoded] at hin
    rw [List.length_append] at hle hin
    rw [utf8Text_iff.1 hpre.text] at hr
    obtain ⟨hlost, hrest⟩ := regular_of_end hr (by omega)
    exact ⟨units, pre, rest, rfl, hpre, hlost, hrest⟩

/-- The run of the decoder gets behind a text that has no `LostUnit`. -/
theorem all_of_not_lost (hsrc : src = pre ++ rest) (htext : Utf8Text units pre)
    (hlost : ∀ u ∈ units, ¬ LostUnit u) :
    (utf8Transducer endian).all src [] = (utf8Transducer endian).all rest (ucs2Text endian units) := by
  rw [hsrc, utf8Text_iff.1 htext, all_utf8Text hlost, List.nil_append]

/-- A text is converted. -/
theorem decoded_text (hlen : src.length < 2 ^ 32) (hspace : 2 * src.length ≤ space)
    (hsize : space < 2 ^ 32) (htext : Utf8Text units src) (hlost : ∀ u ∈ units, ¬ LostUnit u) :
    encUtf8ToUnicode src space endian = .ok (decoded src space endian units src none) := by
  have hunits : units.length ≤ src.length := by
    rw [utf8Text_iff.1 htext]
    exact length_le_utf8Text
  have hsrc : src = src ++ [] := (List.append_nil src).symm
  have hfin : (utf8Transducer endian).move [] = .finish := rfl
  rw [encUtf8ToUnicode_eq_all hspace, all_of_not_lost hsrc htext hlost, Transducer.all,
    Transducer.run_finish _ hfin]
  exact congrArg Except.ok (leaveBytes_eq_decoded (by decide) hlen hspace hsize hsrc hunits)

/-- A text is converted up to where it is followed by something that is refused. -/
theorem decoded_prefix (hlen : src.length < 2 ^ 32) (hspace : 2 * src.length ≤ space)
    (hsize : space < 2 ^ 32) (hsrc : src = pre ++ rest) (htext : Utf8Text units pre)
    (hlost : ∀ u ∈ units, ¬ LostUnit u) (href : Refused rest) :
    encUtf8ToUnicode src space endian = .ok (decoded src space endian units pre (some .EINVAL)) := by
  have hunits : units.length ≤ pre.length := by
    rw [utf8Text_iff.1 htext]
    exact length_le_utf8Text
  rw [encUtf8ToUnicode_eq_all hspace, all_of_not_lost hsrc htext hlost, Transducer.all,
    Transducer.run_refuse _ (utf8_refuse_iff.2 href) rfl]
  exact congrArg Except.ok (leaveBytes_eq_decoded (by decide) hlen hspace hsize hsrc hunits)

/-- **The decoder follows the grammar exactly on the inputs that are `Regular`.** -/
theorem followsGrammar_iff (hlen : src.length < 2 ^ 32) (hspace : 2 * src.length ≤ space)
    (hsize : space < 2 ^ 32) : FollowsGrammar src space endian ↔ Regular src := by
  constructor
  · rintro ⟨htext, hother⟩
    by_cases hw : ∃ units, Utf8Text units src
    · obtain ⟨units, hunits⟩ := hw
      have hwhole : LongestPrefix units src src :=
        ⟨List.prefix_rfl, hunits, fun _ _ _ h => h.length_le⟩
      exact regular_of_decoded hspace hwhole (htext units hunits)
    · obtain ⟨units, pre, hpre, hok⟩ := hother (not_exists.1 hw)
      exact regular_of_decoded hspace hpre hok
  · rintro ⟨units, pre, rest, hsrc, hpre, hlost, hrest⟩
    constructor
    · intro units' htext
      -- the text is the longest prefix
      have hle := hpre.longest units' src htext List.prefix_rfl
      obtain rfl : rest = [] := by
        rw [hsrc, List.length_append] at hle
        exact List.eq_nil_of_length_eq_zero (by omega)
      rw [List.append_nil] at hsrc
      subst hsrc
      obtain rfl : units = units' :=
        utf8Text_inj ((utf8Text_iff.1 hpre.text).symm.trans (utf8Text_iff.1 htext))
      exact decoded_text hlen hspace hsize htext hlost
    · intro hno
      have href : Refused rest := by
        refine hrest.resolve_left fun hnil => hno units ?_
        rw [hsrc, hnil, List.append_nil]
        exact hpre.text
      exact ⟨units, pre, hpre, decoded_prefix hlen hspace hsize hsrc hpre.text hlost href⟩

/-- Two letters. -/
theorem followsGrammar_letters : FollowsGrammar [0x41, 0x42] 4 .little := by
  have hseq : Utf8Text [0x41, 0x42] [0x41, 0x42] := by
    rw [utf8Text_iff]
    decide
  refine (followsGrammar_iff (by decide) (by decide) (by decide)).2
    ⟨[0x41, 0x42], [0x41, 0x42], [], rfl,
      ⟨List.prefix_rfl, hseq, fun _ _ _ h => h.length_le⟩, fun u hu => ?_, Or.inl rfl⟩
  rcases List.mem_pair.1 hu with rfl | rfl <;> decide

/-- How a text begins. -/
theorem Utf8Text.head {b : UInt8} {t : Bytes} (h : Utf8Text units (b :: t)) :
    b ≤ 0x7F ∨ (0xC2 ≤ b ∧ b ≤ 0xDF ∧ t ≠ []) ∨ (0xE0 ≤ b ∧ 2 ≤ t.length) := by
  generalize hs : b :: t = s at h
  cases h with
  | nil => cases hs
  | @cons u units c rest hseq _ =>
    generalize u.toNat = n at hseq
    cases hseq with
    | one ha =>
      cases hs
      exact Or.inl ha
    | two ha ha' _ =>
      cases hs
      exact Or.inr (Or.inl ⟨ha, ha', List.cons_ne_nil _ _⟩)
    | three ha _ _ _ _ =>
      cases hs
      exact Or.inr (Or.inr ⟨ha, Nat.le_add_left 2 _⟩)

/-- The letter U+00E9 is refused; a continuation byte that stands alone and a character of two bytes that
has a shorter form are accepted; the rest of a character is read behind the end. -/
theorem not_followsGrammar :
    ¬ FollowsGrammar [0xC3, 0xA9] 4 .little ∧ ¬ FollowsGrammar [0x80] 2 .little ∧
      ¬ FollowsGrammar [0xC0, 0x80] 4 .little ∧ ¬ FollowsGrammar [0xE4] 2 .little := by
  refine ⟨?_, ?_, ?_, ?_⟩
  · rintro ⟨htext, -⟩
    have hok := htext [0xE9] (utf8Text_iff.2 (by decide))
    rw [show encUtf8ToUnicode [0xC3, 0xA9] 4 .little = .ok ⟨-1, some .EINVAL, 0, 2, 4, []⟩ by
      decide +kernel] at hok
    cases hok
  · rintro ⟨-, hother⟩
    obtain ⟨units, pre, -, hok⟩ := hother fun units h => absurd h.head (by decide)
    rw [show encUtf8ToUnicode [0x80] 2 .little = .ok ⟨0, none, 1, 0, 0, [0x80, 0]⟩ by
      decide +kernel] at hok
    cases congrArg Conversion.errno (Except.ok.inj hok)
  · rintro ⟨-, hother⟩
    obtain ⟨units, pre, -, hok⟩ := hother fun units h => absurd h.head (by decide)
    rw [show encUtf8ToUnicode [0xC0, 0x80] 4 .little = .ok ⟨0, none, 2, 0, 2, [0, 0]⟩ by
      decide +kernel] at hok
    cases congrArg Conversion.errno (Except.ok.inj hok)
  · rintro ⟨-, hother⟩
    obtain ⟨units, pre, -, hok⟩ := hother fun units h => absurd h.head (by decide)
    rw [show encUtf8ToUnicode [0xE4] 2 .little = .error .oob by decide +kernel] at hok
    cases hok

end OsdCore
