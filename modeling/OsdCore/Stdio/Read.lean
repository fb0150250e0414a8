import OsdCore.Format.Chunks
import OsdCore.Stdio.Spec

/-!
# What reading a file gives

`fileView P p c n` is what `fread` gives of the first `n` bytes of a file with the contents `c`: the
bytes themselves, or, under a name that ends with `.luae`, the decrypted blocks they lie in.  It is
the beginning of `plainView P p c`, which is the plaintext of the whole file.

* `FileAt p pos` : a stream on the file `p` of the file system, that stands at `pos`.
* `wpc_fread` : what `fread` gives at any position, and where it leaves the stream.
-/

namespace OsdCore

/-- Round up to a multiple of 512. -/
def upBoundary (n : ℕ) : ℕ := lowBoundary (n + 511)

/-- What `fread` gives of the first `n` bytes. -/
def fileView (P : Platform) (p : Path) (c : Bytes) (n : ℕ) : Bytes :=
  if ascii ".luae" <:+ p then
    let temp := c.take (upBoundary n)
    (P.cipher.decodeBlocks (temp.length / 512) temp).take n
  else c.take n

namespace Cipher

theorem length_decodeWords (k : Cipher) (b : Bytes) : (k.decodeWords b).length = b.length := by
  simp only [decodeWords, List.length_append, k.length_decode, List.length_take, List.length_drop]
  omega

theorem decodeBlocks_eq (k : Cipher) (n : ℕ) (b : Bytes) :
    k.decodeBlocks n b = mapChunks k.decodeWords 512 n b := by
  induction n generalizing b with
  | zero => rfl
  | succ n ih => rw [decodeBlocks, mapChunks, ih]

theorem length_decodeBlocks (k : Cipher) (n : ℕ) (b : Bytes) :
    (k.decodeBlocks n b).length = b.length := by
  rw [decodeBlocks_eq, length_mapChunks k.length_decodeWords]

/-- The plaintext: full blocks of 512 bytes are decrypted one by one, and then the whole words of the
last, partial block. -/
def plaintext (k : Cipher) (c : Bytes) : Bytes := k.decodeBlocks (c.length / 512) c

theorem plaintext_eq (k : Cipher) (c : Bytes) : k.plaintext c = chunkwise k.decodeWords 512 c :=
  k.decodeBlocks_eq _ _

@[simp] theorem length_plaintext (k : Cipher) (c : Bytes) : (k.plaintext c).length = c.length :=
  k.length_decodeBlocks _ _

/-- The blocks of a window are decrypted as in the whole. -/
theorem plaintext_window (k : Cipher) {i n : ℕ} (hi : 512 ∣ i) (hn : 512 ∣ n) (c : Bytes) :
    k.plaintext ((c.drop i).take n) = ((k.plaintext c).drop i).take n := by
  simp only [plaintext_eq]
  exact chunkwise_window k.length_decodeWords (by decide) hi hn c

end Cipher

theorem le_upBoundary (n : ℕ) : n ≤ upBoundary n := by
  unfold upBoundary lowBoundary
  omega

theorem dvd_lowBoundary (n : ℕ) : 512 ∣ lowBoundary n := by
  unfold lowBoundary
  omega

/-- What a file shows: its bytes, or its plaintext. -/
def plainView (P : Platform) (p : Path) (c : Bytes) : Bytes :=
  if ascii ".luae" <:+ p then P.cipher.plaintext c else c

@[simp] theorem length_plainView (P : Platform) (p : Path) (c : Bytes) :
    (plainView P p c).length = c.length := by
  unfold plainView
  split_ifs
  · exact P.cipher.length_plaintext c
  · rfl

theorem fileView_eq (P : Platform) (p : Path) (c : Bytes) (n : ℕ) :
    fileView P p c n = (plainView P p c).take n := by
  unfold fileView plainView
  split_ifs
  · have hwindow := P.cipher.plaintext_window (dvd_zero 512) (dvd_lowBoundary (n + 511)) c
    rw [List.drop_zero, List.drop_zero] at hwindow
    have hle : n ≤ lowBoundary (n + 511) := le_upBoundary n
    change (P.cipher.plaintext (c.take (lowBoundary (n + 511)))).take n = _
    rw [hwindow, List.take_take, Nat.min_eq_left hle]
  · rfl

theorem length_fileView (P : Platform) (p : Path) (c : Bytes) (n : ℕ) :
    (fileView P p c n).length = min n c.length := by
  rw [fileView_eq, List.length_take, length_plainView]

namespace Stdio

/-- A stream on the file `p` of the file system, at `pos`. -/
structure FileAt (p : Path) (pos : ℕ) (fp : FILE) : Prop where
  file : fp.file = ⟨p, pos⟩
  type : fp.type = if ascii ".luae" <:+ p then ENC_FILE else COMMON_FILE
  mode : fp.flags &&& (SRD ||| SWR ||| SRW) ≠ 0
  offset : fp.flags &&& SOFF ≠ 0 → fp.offset = pos

/-- A stream that `fclose` closes. -/
structure FileStream (fp : FILE) : Prop where
  isUncompress : fp.isUncompress = false
  flags : fp.flags ≠ 0

variable {F : Faults} {C : Disk → Prop} {ub : Prop} {σ : StdioState} {d : Disk}
variable {p : Path} {pos : ℕ} {fp : FILE}

theorem FileAt.fileStream (h : FileAt p pos fp) : FileStream fp where
  isUncompress := by
    unfold FILE.isUncompress
    rw [h.type]
    split_ifs <;> simp [LUA_UNCOMPRESS_FILE, ENC_FILE, COMMON_FILE]
  flags := by
    intro h0
    exact h.mode (by rw [h0]; exact BitVec.zero_and)

theorem fileAt_fopen (p : Path) : FileAt p 0 (fileStream SRD p) where
  file := rfl
  type := rfl
  mode := by change SRD &&& (SRD ||| SWR ||| SRW) ≠ 0; decide
  offset h := absurd h (by change ¬ SRD &&& SOFF ≠ 0; decide)

/-- Flags other than a given one do not matter to it. -/
theorem or_and_of_disjoint {x y z : BitVec 16} (h : y &&& z = 0#16) : (x ||| y) &&& z = x &&& z := by
  rw [BitVec.and_or_distrib_right, h, BitVec.or_zero]

theorem and_not_and_of_disjoint {x y z : BitVec 16} (h : ~~~y &&& z = z) :
    (x &&& ~~~y) &&& z = x &&& z := by
  rw [BitVec.and_assoc, h]

theorem wpc_sseek {offset : ℤ} {whence : Whence} {k : ℕ} {Q : ℤ × FILE → StdioState → Disk → Prop}
    (hF : ¬ F.other) (hC : C d) (hfp : FileAt p pos fp)
    (hpos : seekPos d fp.file offset whence = k) (hlt : k < 2 ^ 31)
    (h : ∀ fp', FileAt p k fp' → fp'.flags = fp.flags ||| SOFF → Q (k, fp') σ d) :
    MProg.wpc (device F) C ub (sseek fp offset whence) Q σ d := by
  simp only [sseek, MProg.wpc_bind, seekFile]
  refine wpc_callDevice hC (fun m hm => by cases hm) ?_ fun r d' hf => ?_
  · have hhandle : DevOp.handle (.seekFile fp.file offset whence) d =
        (((k : ℤ), { fp.file with pos := k }), d) := by
      simp only [DevOp.handle, hpos]
      rw [if_pos ⟨by omega, by omega⟩, Int.toNat_natCast]
    have hnn : ¬ ((k : ℤ) < 0) := by omega
    simp only [hhandle, if_neg hnn]
    refine ⟨hC, hC, h _ ⟨?_, hfp.type, ?_, fun _ => rfl⟩ rfl⟩
    · simp [hfp.file]
    · rw [or_and_of_disjoint (by decide)]
      exact hfp.mode
  · cases hf
    contradiction

/-- A successful seek keeps the end-of-file flag. -/
theorem wpc_fseek {offset : ℤ} {whence : Whence} {k : ℕ} {Q : ℤ × FILE → StdioState → Disk → Prop}
    (hF : ¬ F.other) (hC : C d) (hfp : FileAt p pos fp)
    (hpos : seekPos d fp.file offset whence = k) (hlt : k < 2 ^ 31)
    (h : ∀ fp', FileAt p k fp' → fp'.flags = fp.flags ||| SOFF → Q (0, fp') σ d) :
    MProg.wpc (device F) C ub (fseek fp offset whence) Q σ d := by
  simp only [fseek, hfp.fileStream.isUncompress, Bool.false_eq_true, ↓reduceIte, MProg.wpc_bind]
  refine wpc_sseek hF hC hfp hpos hlt fun fp' hfp' hflags => ?_
  rw [if_neg (by omega)]
  exact ⟨hC, h fp' hfp' hflags⟩

/-- A seek that fails leaves the stream where it is, and clears the end-of-file flag. -/
theorem wpc_fseek_fail {offset : ℤ} {whence : Whence} {Q : ℤ × FILE → StdioState → Disk → Prop}
    (hF : ¬ F.other) (hC : C d) (hfp : FileAt p pos fp)
    (hpos : ¬ (0 ≤ seekPos d fp.file offset whence ∧ seekPos d fp.file offset whence < 2 ^ 31))
    (h : ∀ fp', FileAt p pos fp' → fp'.flags = fp.flags &&& ~~~SOFF &&& ~~~SEOF → Q (-1, fp') σ d) :
    MProg.wpc (device F) C ub (fseek fp offset whence) Q σ d := by
  simp only [fseek, hfp.fileStream.isUncompress, Bool.false_eq_true, ↓reduceIte, sseek,
    MProg.wpc_bind, seekFile]
  refine wpc_callDevice hC (fun m hm => by cases hm) ?_ fun r d' hf => ?_
  · simp only [DevOp.handle, if_neg hpos]
    refine ⟨hC, hC, hC, h _ ⟨hfp.file, hfp.type, ?_, fun hoff => absurd ?_ hoff⟩ rfl⟩
    · change (fp.flags &&& ~~~SOFF &&& ~~~SEOF) &&& _ ≠ 0
      rw [and_not_and_of_disjoint (by decide), and_not_and_of_disjoint (by decide)]
      exact hfp.mode
    · change (fp.flags &&& ~~~SOFF &&& ~~~SEOF) &&& SOFF = 0
      rw [and_not_and_of_disjoint (by decide), BitVec.and_assoc, BitVec.not_and_self]
      exact BitVec.and_zero
  · cases hf
    contradiction

theorem wpc_ftell {Q : ℤ × FILE → StdioState → Disk → Prop} (hF : ¬ F.other) (hC : C d)
    (hfp : FileAt p pos fp) (hlt : pos < 2 ^ 31)
    (h : ∀ fp', FileAt p pos fp' → fp'.flags = fp.flags ||| SOFF ∨ fp' = fp → Q (pos, fp') σ d) :
    MProg.wpc (device F) C ub (ftell fp) Q σ d := by
  simp only [ftell, hfp.fileStream.isUncompress, Bool.false_eq_true, ↓reduceIte]
  by_cases hoff : fp.flags &&& SOFF ≠ 0
  · rw [if_pos hoff, hfp.offset hoff]
    exact ⟨hC, h fp hfp (Or.inr rfl)⟩
  · rw [if_neg hoff]
    refine wpc_sseek hF hC hfp ?_ hlt fun fp' hfp' hflags => h fp' hfp' (Or.inl hflags)
    simp [seekPos, hfp.file]

theorem wpc_sread {n : ℕ} {c : Bytes} {Q : Bytes × FILE → StdioState → Disk → Prop}
    (hF : ¬ F.other) (hC : C d) (hfp : FileAt p pos fp) (hd : d p = some c)
    (hc : c.length < 2 ^ 31 ∨ n < 2 ^ 31)
    (h : ∀ fp', FileAt p (pos + ((c.drop pos).take n).length) fp' → fp'.flags = fp.flags →
      Q ((c.drop pos).take n, fp') σ d) :
    MProg.wpc (device F) C ub (sread fp n) Q σ d := by
  simp only [sread, MProg.wpc_bind, readFile]
  refine wpc_callDevice hC (fun m hm => by cases hm) ?_ fun r d' hf => ?_
  · have hgot : ((c.drop pos).take n).length < 2 ^ 31 := by
      rw [List.length_take, List.length_drop]
      omega
    simp only [DevOp.handle, hfp.file, hd, Option.getD_some, Option.isSome_some, hgot, and_self,
      ↓reduceIte, hC, true_and]
    refine ⟨hC, h _ ⟨rfl, hfp.type, hfp.mode, fun hoff => ?_⟩ rfl⟩
    simp [hfp.offset hoff]
  · cases hf
    contradiction

/-- The end-of-file flag is set, or any other flag that is neither a mode nor `SOFF`. -/
theorem FileAt.or_flags (h : FileAt p pos fp) {x : BitVec 16}
    (hx : x &&& (SRD ||| SWR ||| SRW ||| SOFF) = 0#16) :
    FileAt p pos { fp with flags := fp.flags ||| x } where
  file := h.file
  type := h.type
  mode := by
    have hsub : (SRD ||| SWR ||| SRW ||| SOFF) &&& (SRD ||| SWR ||| SRW) = SRD ||| SWR ||| SRW := by
      decide
    rw [or_and_of_disjoint (by rw [← hsub, ← BitVec.and_assoc, hx, BitVec.zero_and])]
    exact h.mode
  offset := by
    have hsub : (SRD ||| SWR ||| SRW ||| SOFF) &&& SOFF = SOFF := by decide
    rw [or_and_of_disjoint (by rw [← hsub, ← BitVec.and_assoc, hx, BitVec.zero_and])]
    exact h.offset

/-- A copy out of the part of a buffer that was stored. -/
theorem memcpyFrom_overlay {P : Platform} {buf : Bytes} {k i n : ℕ} (hk : buf.length ≤ k)
    (h : i + n ≤ buf.length) : memcpyFrom (overlay P k buf) i n = some (slice buf i n) := by
  have hbuf : overlay P k buf = buf ++ (((List.range k).map P.junk).drop buf.length).take
      (k - buf.length) := by
    rw [overlay, List.take_append, List.take_of_length_le hk]
  have hslice : slice (overlay P k buf) i n = slice buf i n := by
    unfold slice
    rw [hbuf, List.drop_append_of_le_length (by omega),
      List.take_append_of_le_length (by rw [List.length_drop]; omega)]
  unfold memcpyFrom
  rw [if_pos, Int.toNat_natCast, hslice]
  rw [hbuf, List.length_append]
  omega

/-- The copy out of a window of decrypted blocks is a part of the plaintext. -/
theorem slice_plaintext {k : Cipher} {c : Bytes} {low pos w n : ℕ} (hlow : 512 ∣ low) (hw : 512 ∣ w)
    (hle : low ≤ pos) (hn : pos + n ≤ low + w) :
    slice (k.plaintext ((c.drop low).take w)) (pos - low) n = ((k.plaintext c).drop pos).take n := by
  unfold slice
  rw [k.plaintext_window hlow hw, List.drop_take, List.drop_drop, Nat.add_sub_cancel' hle,
    List.take_take, Nat.min_eq_left (by omega)]

/-- `fread` of a file that is not encrypted. -/
theorem wpc_freadFile_plain {P : Platform} {offset size n : ℕ} {c : Bytes}
    {Q : ℕ × Bytes × FILE → StdioState → Disk → Prop} (hF : ¬ F.other) (hC : C d)
    (hfp : FileAt p pos fp) (hd : d p = some c) (henc : ¬ ascii ".luae" <:+ p)
    (hc : c.length < 2 ^ 31 ∨ n < 2 ^ 31)
    (h : ∀ fp', FileAt p (pos + ((c.drop pos).take n).length) fp' →
      fp'.flags = (if (c.drop pos).take n = [] then fp.flags ||| SEOF else fp.flags) →
      Q (((c.drop pos).take n).length / size, (c.drop pos).take n, fp') σ d) :
    MProg.wpc (device F) C ub (freadFile P offset size n fp) Q σ d := by
  have htype : ∀ {pos fp}, FileAt p pos fp → fp.type ≠ ENC_FILE := fun hr => by
    rw [hr.type, if_neg henc]
    decide
  simp only [freadFile, htype hfp, ↓reduceIte, MProg.wpc_bind, MProg.wpc_pure, hC, true_and]
  refine wpc_sread hF hC hfp hd hc fun fp' hfp' hflags => ?_
  by_cases hnil : (c.drop pos).take n = []
  · simp only [hnil, ↓reduceIte, List.length_nil, Nat.zero_div, Nat.add_zero] at h hfp' ⊢
    exact ⟨hC, h _ (hfp'.or_flags (by decide)) (by rw [hflags])⟩
  · simp only [hnil, htype hfp', ↓reduceIte] at h ⊢
    exact ⟨hC, h fp' hfp' hflags⟩

/-- **`fread` of an encrypted file**: the window is rounded to whole blocks, read, decrypted, and the
part that was asked for is copied. -/
theorem wpc_freadFile_enc {P : Platform} {size n : ℕ} {c : Bytes}
    {Q : ℕ × Bytes × FILE → StdioState → Disk → Prop} (hF : ¬ F.other) (hC : C d)
    (hfp : FileAt p pos fp) (hd : d p = some c) (henc : ascii ".luae" <:+ p)
    (hc : c.length < 2 ^ 31) (hpos : pos ≤ c.length) (hn : 0 < n) (hn32 : pos + n + 511 < 2 ^ 32)
    (h : ∀ fp', FileAt p (pos + (((P.cipher.plaintext c).drop pos).take n).length) fp' →
      Q ((((P.cipher.plaintext c).drop pos).take n).length / size,
        ((P.cipher.plaintext c).drop pos).take n, fp') σ d) :
    MProg.wpc (device F) C ub (freadFile P pos size n fp) Q σ d := by
  have htype : ∀ {pos fp}, FileAt p pos fp → fp.type = ENC_FILE := fun hr => by
    rw [hr.type, if_pos henc]
  have hlow : 512 ∣ lowBoundary pos := dvd_lowBoundary pos
  have hup : 512 ∣ lowBoundary (pos + n + 511) := dvd_lowBoundary _
  have hle : lowBoundary pos ≤ pos := Nat.sub_le _ _
  have hend : pos + n ≤ lowBoundary (pos + n + 511) := by
    unfold lowBoundary
    omega
  have hcount : toU32 (lowBoundary ((pos + n + 511) % 2 ^ 32) - lowBoundary pos) =
      lowBoundary (pos + n + 511) - lowBoundary pos := by
    rw [Nat.mod_eq_of_lt hn32]
    unfold toU32 lowBoundary
    omega
  have hw : 512 ∣ lowBoundary (pos + n + 511) - lowBoundary pos := Nat.dvd_sub hup hlow
  generalize lowBoundary (pos + n + 511) = up at hup hend hcount hw
  generalize hlow' : lowBoundary pos = low at hlow hle hcount hw
  generalize hbuf : ((P.cipher.plaintext c).drop pos).take n = buf at h
  have hlen : buf.length = min n (c.length - pos) := by
    rw [← hbuf, List.length_take, List.length_drop, P.cipher.length_plaintext]
  simp only [freadFile, htype hfp, ↓reduceIte, MProg.wpc_bind, MProg.wpc_pure, hlow', hcount]
  have hlow31 : toInt32 low = low := toInt32_of_lt (by omega)
  refine wpc_fseek hF hC hfp (k := low) hlow31 (by omega) fun fp₁ hfp₁ _ => ⟨hC, ?_⟩
  refine wpc_sread hF hC hfp₁ hd (Or.inl hc) fun fp₂ hfp₂ _ => ?_
  have htemp : ((c.drop low).take (up - low)).length = min (up - low) (c.length - low) := by
    rw [List.length_take, List.length_drop]
  by_cases hnil : (c.drop low).take (up - low) = []
  · -- the stream stands at the end, which is a multiple of 512
    rw [if_pos hnil]
    rw [hnil, List.length_nil] at htemp hfp₂
    obtain rfl : buf = [] := List.length_eq_zero_iff.1 (by omega)
    obtain rfl : low = pos := by omega
    refine ⟨hC, ?_⟩
    simpa using h _ (hfp₂.or_flags (by decide))
  · rw [if_neg hnil]
    simp only [htype hfp₂, ↓reduceIte]
    have hself : ((P.cipher.plaintext c).drop pos).take buf.length = buf := by
      conv_rhs => rw [← hbuf, List.take_eq_take_min, List.length_drop, P.cipher.length_plaintext]
      rw [hlen]
    have hcopy : memcpyFrom (overlay P (up - low)
        (P.cipher.decodeBlocks (((c.drop low).take (up - low)).length / 512)
          ((c.drop low).take (up - low)))) ((pos : ℤ) - (low : ℤ)) buf.length = some buf := by
      change memcpyFrom (overlay P (up - low)
        (P.cipher.plaintext ((c.drop low).take (up - low)))) _ _ = _
      rw [← Nat.cast_sub hle, memcpyFrom_overlay (by rw [P.cipher.length_plaintext]; omega)
        (by rw [P.cipher.length_plaintext]; omega), slice_plaintext hlow hw hle (by omega), hself]
    -- the end of both branches: the stream goes to the end of what was asked for
    have hdone : ∀ {k fp} {R : ℤ × FILE → StdioState → Disk → Prop}, FileAt p k fp →
        (∀ fp', FileAt p (pos + buf.length) fp' → R (0, fp') σ d) →
        MProg.wpc (device F) C ub (fseek fp (toInt32 (pos + buf.length)) .SEEK_SET) R σ d :=
      fun hk hR => wpc_fseek hF hC hk (toInt32_of_lt (by omega)) (by omega)
        fun fp' hfp' _ => hR fp' hfp'
    by_cases hshort : ((c.drop low).take (up - low)).length < up - low
    · simp only [hshort, ↓reduceIte, MProg.wpc_bind]
      refine wpc_fseek hF hC hfp₂ (k := c.length) (by simp [seekPos, hfp₂.file, hd]) hc
        fun fp₃ hfp₃ _ => wpc_ftell hF hC hfp₃ hc fun fp₄ hfp₄ _ => ⟨hC, ?_⟩
      have hact : (if toU32 ((c.length : ℤ) - (pos : ℤ)) < n then
          toU32 ((c.length : ℤ) - (pos : ℤ)) else n) = buf.length := by
        rw [toU32_sub (by omega) (by omega)]
        split_ifs <;> omega
      simp only [hact]
      refine hdone hfp₄ fun fp' hfp' => ?_
      simp only [hcopy, wpc_defined, MProg.wpc_pure, hC, true_and]
      exact h fp' hfp'
    · simp only [hshort, ↓reduceIte, MProg.wpc_bind, MProg.wpc_pure, hC, true_and]
      have hact : n = buf.length := by omega
      rw [hact]
      refine hdone hfp₂ fun fp' hfp' => ?_
      simp only [hcopy, wpc_defined, hC, true_and]
      exact h fp' hfp'

/-- **`fread`** of a file of the file system. -/
theorem wpc_fread {P : Platform} {size count n : ℕ} {c : Bytes}
    {Q : ℕ × Bytes × FILE → StdioState → Disk → Prop} (hF : ¬ F.other) (hC : C d)
    (hfp : FileAt p pos fp) (hd : d p = some c) (hpos : pos ≤ c.length)
    (hc : c.length < 2 ^ 31 ∨ (¬ ascii ".luae" <:+ p ∧ pos < 2 ^ 31 ∧ n < 2 ^ 31))
    (hn : count * size % 2 ^ 32 = n) (hn32 : ascii ".luae" <:+ p → pos + n + 511 < 2 ^ 32)
    (h : ∀ fp', FileAt p (pos + (((plainView P p c).drop pos).take n).length) fp' →
      Q ((((plainView P p c).drop pos).take n).length / size, ((plainView P p c).drop pos).take n, fp')
        σ d) :
    MProg.wpc (device F) C ub (fread P size count fp) Q σ d := by
  have hpos31 : pos < 2 ^ 31 := by omega
  have hoffset : toU32 (pos : ℤ) = pos := toU32_natCast (by omega)
  simp only [fread, MProg.wpc_bind]
  refine wpc_ftell hF hC hfp hpos31 fun fp' hfp' _ => ?_
  simp only [hfp'.fileStream.isUncompress, Bool.false_eq_true, ↓reduceIte, hn, hoffset]
  by_cases h0 : n = 0
  · subst h0
    rw [if_pos rfl]
    refine ⟨hC, ?_⟩
    simpa using h fp' (by simpa using hfp')
  rw [if_neg h0]
  by_cases henc : ascii ".luae" <:+ p
  · simp only [plainView, if_pos henc] at h
    have hc31 : c.length < 2 ^ 31 := hc.resolve_right fun hno => hno.1 henc
    exact wpc_freadFile_enc hF hC hfp' hd henc hc31 hpos (by omega) (hn32 henc) h
  · simp only [plainView, if_neg henc] at h
    exact wpc_freadFile_plain hF hC hfp' hd henc (hc.imp id fun hc => hc.2.2) fun fp'' hfp'' _ =>
      h fp'' hfp''

theorem memcpyFrom_bounds {src c : Bytes} {offset : ℤ} {n : ℕ} (h : memcpyFrom src offset n = some c) :
    0 ≤ offset ∧ offset + n ≤ src.length := by
  unfold memcpyFrom at h
  split_ifs at h with hin
  exact hin

/-- `fread` from the beginning of a file. -/
theorem wpc_fread_start {P : Platform} {size count n : ℕ} {c : Bytes}
    {Q : ℕ × Bytes × FILE → StdioState → Disk → Prop} (hF : ¬ F.other) (hC : C d)
    (hfp : FileAt p 0 fp) (hd : d p = some c) (hc : ascii ".luae" <:+ p → c.length < 2 ^ 31)
    (hn : count * size % 2 ^ 32 = n) (hn31 : n < 2 ^ 31) (h : ∀ fp', FileStream fp' →
      Q ((fileView P p c n).length / size, fileView P p c n, fp') σ d) :
    MProg.wpc (device F) C ub (fread P size count fp) Q σ d := by
  have hc' : c.length < 2 ^ 31 ∨ (¬ ascii ".luae" <:+ p ∧ 0 < 2 ^ 31 ∧ n < 2 ^ 31) := by
    by_cases henc : ascii ".luae" <:+ p
    · exact Or.inl (hc henc)
    · exact Or.inr ⟨henc, by decide, hn31⟩
  refine wpc_fread hF hC hfp hd (Nat.zero_le _) hc' hn (fun _ => by omega) fun fp' hfp' => ?_
  rw [List.drop_zero, ← fileView_eq]
  exact h fp' hfp'.fileStream

/-- The entry of the flash table stands for the contents `c`. -/
structure ItemHolds (P : Platform) (item : UncompressFileItem) (c : Bytes) : Prop where
  size_lt : c.length < 2 ^ 31
  nLen : item.nLen = c.length
  rom : c ≠ [] → memcpyFrom P.rom.bytes item.nOffset c.length = some c

end Stdio

end OsdCore
