import OsdCore.Stdio.Reader

/-!
# The kinds of streams

There are three kinds of streams that a script reads: a file of the file system, an encrypted file of
the file system, and an entry of a file table, in ROM or in the update image.  Each of them follows a
source (`Reads`), under conditions that are its own:

* `reads_plain` : a file.  The end-of-file flag says whether more was asked for than there was.
* `reads_position` : a file, whatever its end-of-file flag says.
* `reads_encFile` : an encrypted file shows its plaintext, from any position.
* `reads_flash`, `reads_update` : a table entry.
-/

namespace OsdCore

namespace Stdio

variable {σ : StdioState} {d : Disk} {P : Platform} {p file : Path} {item : UncompressFileItem}
variable {c : Bytes}

/-! ### Files -/

/-- The largest position of a file. -/
def fileLimit : ℕ := 2 ^ 31 - 1

theorem seekPos_eq_target {src : Source} {fp : FILE} {x : Place} (hfp : FileAt p x.pos fp)
    (hd : d p = some c) (hlen : src.len = c.length) (offset : ℤ) (whence : Whence) :
    seekPos d fp.file offset whence = src.target x.pos offset whence := by
  cases whence <;> simp [seekPos, Source.target, hfp.file, hd, hlen]

theorem or_and_self (x y : BitVec 16) : (x ||| y) &&& y = y := by
  ext i hi
  simp only [BitVec.getElem_or, BitVec.getElem_and]
  cases x[i] <;> cases y[i] <;> rfl

/-- The seek of a file. -/
theorem rule_fseek_file {src : Source} {fp : FILE} {x : Place} {offset : ℤ} {whence : Whence}
    {Q : ℤ × FILE → StdioState → Disk → Prop} (hfp : FileAt p x.pos fp) (hd : d p = some c)
    (hlen : src.len = c.length)
    (hok : ∀ fp', FileAt p (src.target x.pos offset whence).toNat fp' →
      src.seek fileLimit offset whence x = (0, ⟨(src.target x.pos offset whence).toNat, false⟩) →
      (src.target x.pos offset whence).toNat < 2 ^ 31 → fp'.flags = fp.flags ||| SOFF →
      Q (0, fp') σ d)
    (hno : ∀ fp', FileAt p x.pos fp' → src.seek fileLimit offset whence x = (-1, x) →
      fp'.flags = fp.flags &&& ~~~SOFF &&& ~~~SEOF → Q (-1, fp') σ d) :
    Rule σ d (fseek fp offset whence) Q := by
  have htarget := seekPos_eq_target hfp hd hlen offset whence
  by_cases hin : 0 ≤ src.target x.pos offset whence ∧ src.target x.pos offset whence < 2 ^ 31
  · refine wpc_fseek id trivial hfp (k := (src.target x.pos offset whence).toNat)
      (by rw [htarget]; omega) (by omega) fun fp' hfp' hflags => hok fp' hfp' ?_ (by omega) hflags
    rw [Source.seek, if_pos ⟨hin.1, by unfold fileLimit; omega⟩]
  · refine wpc_fseek_fail id trivial hfp (by rwa [htarget]) fun fp' hfp' hflags => hno fp' hfp' ?_ hflags
    rw [Source.seek, if_neg fun hle => hin ⟨hle.1, by unfold fileLimit at hle; omega⟩]

/-- It keeps the position right. -/
theorem rule_fseek_position {src : Source} {fp : FILE} {x : Place} {offset : ℤ} {whence : Whence}
    (hfp : FileAt p x.pos fp) (hpos : x.pos < 2 ^ 31) (hd : d p = some c) (hlen : src.len = c.length) :
    Rule σ d (fseek fp offset whence) (EndsAs (fun x fp => FileAt p x.pos fp ∧ x.pos < 2 ^ 31) σ d
      (src.seek fileLimit offset whence x)) := by
  refine rule_fseek_file hfp hd hlen ?_ ?_
  · intro fp' hfp' hseek hlt _
    rw [hseek]
    exact ⟨rfl, ⟨hfp', hlt⟩, rfl, rfl⟩
  · intro fp' hfp' hseek _
    rw [hseek]
    exact ⟨rfl, ⟨hfp', hpos⟩, rfl, rfl⟩

/-- A stream on a file, with its end-of-file flag. -/
structure PlainAt (p : Path) (x : Place) (fp : FILE) : Prop extends FileAt p x.pos fp where
  pos_lt : x.pos < 2 ^ 31
  eof : fp.flags &&& SEOF ≠ 0 ↔ x.asked = true

/-- **A file.**  The flag is set by a read that gives nothing, and cleared by a seek that fails: so
no read may be cut short, and no seek come after a read that was. -/
theorem reads_plain (hd : d p = some c) (hc : c.length < 2 ^ 31) (henc : ¬ ascii ".luae" <:+ p) :
    Reads P (.ofBytes c) fileLimit (PlainAt p) (fun _ _ x => x.asked = false)
      (fun n x => n ≤ c.length - x.pos ∨ c.length - x.pos = 0) σ d where
  kind := Or.inr fun x fp h => h.fileStream.isUncompress
  seek x fp offset whence hok h := by
    have hlen : (Source.ofBytes c).len = c.length := rfl
    refine rule_fseek_file h.toFileAt hd hlen (fun fp' hfp' hseek hlt hflags => ?_)
      fun fp' hfp' hseek hflags => ?_
    -- a seek that succeeds leaves the flag, so it must not be set before
    · rw [hseek]
      refine ⟨rfl, ⟨hfp', hlt, ?_⟩, rfl, rfl⟩
      rw [hflags, or_and_of_disjoint (by decide), h.eof, hok]
    · rw [hseek]
      refine ⟨rfl, ⟨hfp', h.pos_lt, ?_⟩, rfl, rfl⟩
      rw [hflags, BitVec.and_assoc, BitVec.not_and_self, hok]
      simp
  read x fp size count n hn hok h := by
    have hpos := h.pos_lt
    have hoffset : toU32 (x.pos : ℤ) = x.pos := toU32_natCast (by omega)
    simp only [Rule, fread, MProg.wpc_bind]
    refine wpc_ftell id trivial h.toFileAt hpos fun fp₁ hfp₁ hflags₁ => ?_
    -- `ftell` may set `__SOFF`, which is another bit
    have heof₁ : fp₁.flags &&& SEOF ≠ 0 ↔ x.asked = true := by
      rw [← h.eof]
      rcases hflags₁ with hflags₁ | rfl
      · rw [hflags₁, or_and_of_disjoint (by decide)]
      · rfl
    simp only [hfp₁.fileStream.isUncompress, Bool.false_eq_true, ↓reduceIte, hn, hoffset]
    have hlen : ((c.drop x.pos).take n).length = min n (c.length - x.pos) := by
      rw [List.length_take, List.length_drop]
    by_cases h0 : n = 0
    · subst h0
      rw [if_pos rfl]
      refine ⟨trivial, ?_, rfl, ⟨?_, ?_, ?_⟩, rfl, rfl⟩
      · simp
      · simpa [Source.advance] using hfp₁
      · simpa [Source.advance] using hpos
      · simpa [Source.advance] using heof₁
    · rw [if_neg h0]
      refine wpc_freadFile_plain id trivial hfp₁ hd henc (Or.inl hc) fun fp₂ hfp₂ hflags₂ => ?_
      rw [hlen] at hfp₂ ⊢
      refine ⟨rfl, rfl, ⟨hfp₂, ?_, ?_⟩, rfl, rfl⟩
      · change x.pos + min n (c.length - x.pos) < 2 ^ 31
        omega
      -- the flag is set by a read of nothing, which here is one that asked for more
      · change fp₂.flags &&& SEOF ≠ 0 ↔ (x.asked || decide (c.length - x.pos < n)) = true
        rw [hflags₂]
        by_cases hnil : (c.drop x.pos).take n = []
        · rw [hnil, List.length_nil] at hlen
          have hasked : c.length - x.pos < n := by omega
          rw [if_pos hnil, or_and_self]
          simp [hasked, SEOF]
        · have hpos' : 0 < ((c.drop x.pos).take n).length := List.length_pos_iff.2 hnil
          have hasked : ¬ c.length - x.pos < n := by omega
          simpa [hnil, hasked] using heof₁

/-- **A file**, apart from its flag. -/
theorem reads_position (hd : d p = some c) (hc : c.length < 2 ^ 31) (henc : ¬ ascii ".luae" <:+ p) :
    Reads P (.ofBytes c) fileLimit (fun x fp => FileAt p x.pos fp ∧ x.pos < 2 ^ 31) (fun _ _ _ => True)
      (fun _ _ => True) σ d where
  kind := Or.inr fun x fp h => h.1.fileStream.isUncompress
  seek x fp offset whence _ h := rule_fseek_position h.1 h.2 hd rfl
  read x fp size count n hn _ h := by
    obtain ⟨hfp, hpos⟩ := h
    have hlen : ((c.drop x.pos).take n).length = min n (c.length - x.pos) := by
      rw [List.length_take, List.length_drop]
    have hnext : x.pos + min n (c.length - x.pos) < 2 ^ 31 := by omega
    simp only [Rule, fread, MProg.wpc_bind]
    refine wpc_ftell id trivial hfp hpos fun fp₁ hfp₁ _ => ?_
    simp only [hfp₁.fileStream.isUncompress, Bool.false_eq_true, ↓reduceIte, hn]
    by_cases h0 : n = 0
    · subst h0
      rw [if_pos rfl]
      refine ⟨trivial, ?_, rfl, ?_, rfl, rfl⟩
      · simp
      · simpa [Source.advance] using ⟨hfp₁, hpos⟩
    · rw [if_neg h0]
      refine wpc_freadFile_plain id trivial hfp₁ hd henc (Or.inl hc) fun fp₂ hfp₂ _ => ?_
      rw [hlen] at hfp₂ ⊢
      exact ⟨rfl, rfl, ⟨hfp₂, hnext⟩, rfl, rfl⟩

/-- **An encrypted file** shows its plaintext. -/
theorem reads_encFile (hd : d p = some c) (hc : c.length < 2 ^ 31) (henc : ascii ".luae" <:+ p) :
    Reads P (.ofBytes (P.cipher.plaintext c)) fileLimit
      (fun x fp => FileAt p x.pos fp ∧ x.pos < 2 ^ 31) (fun _ _ _ => True)
      (fun n x => n = 0 ∨ (x.pos ≤ c.length ∧ x.pos + n + 511 < 2 ^ 32)) σ d where
  kind := Or.inr fun x fp h => h.1.fileStream.isUncompress
  seek x fp offset whence _ h := rule_fseek_position h.1 h.2 hd (P.cipher.length_plaintext c)
  read x fp size count n hn hok h := by
    obtain ⟨hfp, hpos⟩ := h
    have hoffset : toU32 (x.pos : ℤ) = x.pos := toU32_natCast (by omega)
    have hlen := (Source.ofBytes (P.cipher.plaintext c)).length_read x.pos n
    simp only [Rule, fread, MProg.wpc_bind]
    refine wpc_ftell id trivial hfp hpos fun fp₁ hfp₁ _ => ?_
    simp only [hfp₁.fileStream.isUncompress, Bool.false_eq_true, ↓reduceIte, hn, hoffset]
    by_cases h0 : n = 0
    · subst h0
      rw [if_pos rfl]
      refine ⟨trivial, ?_, rfl, ?_, rfl, rfl⟩
      · simp
      · simpa [Source.advance] using ⟨hfp₁, hpos⟩
    · rw [if_neg h0]
      obtain ⟨hle, hn32⟩ := hok.resolve_left h0
      refine wpc_freadFile_enc id trivial hfp₁ hd henc hc hle (by omega) hn32 fun fp₂ hfp₂ => ?_
      change (((P.cipher.plaintext c).drop x.pos).take n).length = _ at hlen
      rw [hlen] at hfp₂ ⊢
      refine ⟨rfl, rfl, ⟨hfp₂, ?_⟩, rfl, rfl⟩
      change x.pos + min n ((P.cipher.plaintext c).length - x.pos) < 2 ^ 31
      rw [P.cipher.length_plaintext]
      omega

/-! ### Table entries -/

/-- A seek relative to the end that succeeds moves the wrong way, unless its offset is 0. -/
def EndSeek (len : ℕ) (offset : ℤ) (whence : Whence) : Prop :=
  whence = .SEEK_END ∧ -(len : ℤ) ≤ offset ∧ offset < 0

instance (len : ℕ) (offset : ℤ) (whence : Whence) : Decidable (EndSeek len offset whence) :=
  inferInstanceAs (Decidable (_ ∧ _))

/-- A seek does not go behind the end of an entry. -/
def StaysInside (len : ℕ) (offset : ℤ) (whence : Whence) (_ : Place) : Prop :=
  ¬ EndSeek len offset whence

/-- The arithmetic of a read of an encrypted entry stays below 2³². -/
def WindowFits (file : Path) (len n : ℕ) (x : Place) : Prop :=
  ascii ".luae" <:+ file → x.pos < len → x.pos + n + 511 < 2 ^ 32

/-- That of one character always does. -/
theorem windowFits_one {len : ℕ} (h : len < 2 ^ 31) (x : Place) : WindowFits file len 1 x := by
  intro _ hlt
  omega

/-- The seek of a table entry. -/
theorem rule_fseek_table {nSection : TableSection} {src : Source} {x : Place} {offset : ℤ}
    {whence : Whence} (hlen : item.nLen = src.len) (hpos : x.pos ≤ src.len)
    (hok : ¬ EndSeek src.len offset whence) :
    Rule σ d (fseek (tableAt nSection file item x.pos) offset whence)
      (EndsAs (fun x fp => fp = tableAt nSection file item x.pos ∧ x.pos ≤ src.len) σ d
        (src.seek src.len offset whence x)) := by
  have hfseek : fseek (tableAt nSection file item x.pos) offset whence =
      fseekExt (tableAt nSection file item x.pos) offset whence := by
    rw [fseek, if_pos (isUncompress_tableAt _)]
  -- the code's bounds are those of the source, for each origin
  have htarget : seekTarget item x.pos offset whence =
      if 0 ≤ src.target x.pos offset whence ∧ src.target x.pos offset whence ≤ src.len then
        some (src.target x.pos offset whence) else none := by
    unfold EndSeek at hok
    by_cases hin : 0 ≤ src.target x.pos offset whence ∧ src.target x.pos offset whence ≤ src.len
    · rw [if_pos hin]
      cases whence <;> simp only [Source.target, true_and, not_and, not_lt, reduceCtorEq,
        false_and, not_false_iff] at hin hok ⊢
      · rw [seekTarget, if_neg (by omega)]
      · rw [seekTarget, if_neg (by omega)]
      · rw [seekTarget, if_neg (by omega)]
        congr 1
        omega
    · rw [if_neg hin]
      cases whence <;> simp only [Source.target, true_and, not_and, not_lt, reduceCtorEq,
        false_and, not_false_iff] at hin hok <;> rw [seekTarget, if_pos (by omega)]
  rw [hfseek]
  unfold Source.seek
  refine wpc_fseekExt trivial (fun k hk => ?_) fun hno => ?_
  · rw [htarget] at hk
    split_ifs at hk with hin
    cases hk
    rw [if_pos hin]
    refine ⟨rfl, ⟨?_, ?_⟩, rfl, rfl⟩
    · change tableAt _ _ _ _ = tableAt _ _ _ ((src.target x.pos offset whence).toNat : ℤ)
      rw [Int.toNat_of_nonneg hin.1]
    · change (src.target x.pos offset whence).toNat ≤ src.len
      omega
  · rw [htarget] at hno
    split_ifs at hno with hin
    rw [if_neg hin]
    exact ⟨rfl, ⟨rfl, hpos⟩, rfl, rfl⟩

/-- **An entry of the flash table.** -/
theorem reads_flash {src : Source} (hlen : item.nLen = src.len) (hlen31 : src.len < 2 ^ 31)
    (hread : ∀ pos n, pos < src.len →
      flashRead P file item.nOffset src.len pos n = some (src.read pos n)) :
    Reads P src src.len (fun x fp => fp = tableAt .flash file item x.pos ∧ x.pos ≤ src.len)
      (StaysInside src.len) (WindowFits file src.len) σ d where
  kind := Or.inl fun x fp h => by rw [h.1]; exact isUncompress_tableAt _
  seek x fp offset whence hok h := by
    obtain ⟨rfl, hpos⟩ := h
    exact rule_fseek_table hlen hpos hok
  read x fp size count n hn hok h := by
    obtain ⟨rfl, hpos⟩ := h
    have hnil : n = 0 ∨ x.pos = src.len → src.read x.pos n = [] := fun h0 =>
      List.length_eq_zero_iff.1 (by rw [src.length_read]; omega)
    rw [Rule, fread_tableAt, hn]
    refine wpc_freadExt_flash trivial hlen hlen31 hpos (by omega) hok (fun _ hlt hno => ?_)
      (fun hend => ?_) fun buf _ hlt hbuf => ?_
    · rw [hread _ _ hlt] at hno
      cases hno
    · have hmin : min n (src.len - x.pos) = 0 := by omega
      rw [hnil hend, Source.advance, hmin]
      exact ⟨(Nat.zero_div _).symm, rfl, ⟨rfl, hpos⟩, rfl, rfl⟩
    · rw [hread _ _ hlt] at hbuf
      cases hbuf
      refine ⟨rfl, rfl, ⟨rfl, ?_⟩, rfl, rfl⟩
      change x.pos + min n (src.len - x.pos) ≤ src.len
      omega

/-- The update image holds the entry with the contents `c`, in its first 2 GiB. -/
structure UpdateHolds (d : Disk) (item : UncompressFileItem) (c : Bytes) : Prop where
  size_lt : c.length < 2 ^ 31
  nLen : item.nLen = c.length
  file : ∃ u, d LUA_UPDATE_FILE = some u ∧
    (c ≠ [] → memcpyFrom u item.nOffset c.length = some c ∧ item.nOffset + c.length ≤ 2 ^ 31)

/-- **An entry of the update's table**, while there is a slot for the stream of the update image. -/
theorem reads_update (hitem : UpdateHolds d item c) (hidle : σ.Idle)
    (htab : findUncompressFileItem σ LUA_UPDATE_FILE = none) :
    Reads P (.ofBytes c) c.length (fun x fp => fp = tableAt .update file item x.pos ∧ x.pos ≤ c.length)
      (StaysInside c.length) (fun _ _ => True) σ d where
  kind := Or.inl fun x fp h => by rw [h.1]; exact isUncompress_tableAt _
  seek x fp offset whence hok h := by
    obtain ⟨rfl, hpos⟩ := h
    have hlen : item.nLen = (Source.ofBytes c).len := hitem.nLen
    exact rule_fseek_table hlen hpos hok
  read x fp size count n hn _ h := by
    obtain ⟨rfl, hpos⟩ := h
    obtain ⟨u, hu, hholds⟩ := hitem.file
    have hread : n = 0 ∨ x.pos = c.length → (c.drop x.pos).take n = [] := fun h0 =>
      List.length_eq_zero_iff.1 (by rw [List.length_take, List.length_drop]; omega)
    rw [Rule, fread_tableAt, hn]
    refine wpc_freadExt_update id trivial hitem.nLen hitem.size_lt hpos (fun hno => hno htab)
      (fun hend => ?_) fun u' _ hlt _ hu' => ?_
    · have hend' : n = 0 ∨ x.pos = c.length := by
        rcases hend with h0 | h0 | h0
        · exact Or.inl h0
        · exact Or.inr h0
        · exact absurd ⟨hidle, by rw [hu]; rfl⟩ h0
      have hmin : min n (c.length - x.pos) = 0 := by omega
      refine ⟨?_, (hread hend').symm, ?_, rfl, rfl⟩
      · change 0 = min n (c.length - x.pos) / size
        rw [hmin, Nat.zero_div]
      · change _ = tableAt .update file item (x.pos + min n (c.length - x.pos) : ℕ) ∧
          x.pos + min n (c.length - x.pos) ≤ c.length
        rw [hmin]
        exact ⟨rfl, hpos⟩
    · rw [hu] at hu'
      cases hu'
      obtain ⟨hcopy, h31⟩ := hholds (by rintro rfl; simp at hlt)
      have hin := memcpyFrom_bounds hcopy
      -- the place in the image is an `int`, so the seek succeeds
      have hstart : updateStart (item.nOffset + x.pos) = item.nOffset.toNat + x.pos := by
        unfold updateStart
        rw [if_pos ⟨by omega, by omega⟩]
        omega
      have hbuf : (u.drop (item.nOffset.toNat + x.pos)).take (min n (c.length - x.pos)) =
          (c.drop x.pos).take n := by
        have hpart := memcpyFrom_drop hcopy (i := x.pos) (m := min n (c.length - x.pos)) (by omega)
        rw [memcpyFrom, if_pos ⟨by omega, by omega⟩, slice,
          show (item.nOffset + x.pos).toNat = item.nOffset.toNat + x.pos by omega] at hpart
        rw [Option.some.inj hpart, List.take_eq_take_iff, List.length_drop]
        omega
      rw [hstart, hbuf]
      refine ⟨rfl, rfl, ⟨rfl, ?_⟩, rfl, rfl⟩
      change x.pos + min n (c.length - x.pos) ≤ c.length
      omega

end Stdio

end OsdCore
