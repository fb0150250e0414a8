import OsdCore.Luadb.InstallLaw
import OsdCore.Stdio.Reader

/-!
# The LZMA wrappers

A stream is decompressed into a buffer, from a buffer into a file, or from a file into a file.  The decoder is
the platform's, memory is there, and the file system does what it is asked to.

* `rule_lzmaDecodeBufToFile`, `rule_lzmaUncompressFile` : both file wrappers do the same with what the decoder
  gives.
* `wrappersAgree_iff` : all three agree if and only if the output is not empty: `fwrite` reports an error for 0
  bytes.
-/

namespace OsdCore

open Stdio

/-- `LzmaDecodeBufToBuf`, and its `*ppOutBuf`. -/
def lzmaDecodeBufToBuf (P : Platform) (inbuff : Bytes) (inlen : ℕ) : Option (ℤ × Option Bytes) :=
  (lzmaDecode P inbuff inlen).map fun
    | .error ret => (ret, none)
    | .ok outbuff => (SZ_OK, some outbuff)

/-- `LzmaUncompressFile`.  The length is tested before the file is read; `lzmaDecode` tests it again. -/
def lzmaUncompressFile (P : Platform) (infile outfile : Path) : StdioM ℤ := do
  match ← fopen infile (ascii "rb") with
  | none => pure SZ_ERROR_FAIL
  | some fin => do
    let (_, fin) ← fseek fin 0 .SEEK_END
    let (size, fin) ← ftell fin
    let inlen := toU32 size
    if inlen ≤ LZMA_HEAD_SIZE then do
      let _ ← fclose fin
      pure SZ_ERROR_INPUT_EOF
    else do
      let (_, fin) ← fseek fin 0 .SEEK_SET
      if P.alloc inlen then do
        let (n, inbuff, fin) ← fread P 1 inlen fin
        let _ ← fclose fin
        if n ≠ inlen then pure SZ_ERROR_INPUT_EOF
        else match ← defined (lzmaDecode P inbuff inlen) with
          | .error ret => pure ret
          | .ok outbuff => do
            let stored ← storeFile outfile outbuff outbuff.length
            pure (if stored then SZ_OK else SZ_ERROR_FAIL)
      else do
        let _ ← fclose fin
        pure SZ_ERROR_MEM

/-- The size that the header announces. -/
def announcedSize (b : Bytes) : ℕ := le32 (slice b 5 4) + 2 ^ 32 * le32 (slice b 9 4)

variable {P : Platform} {σ : StdioState} {d d' : Disk} {infile outfile : Path} {b c out : Bytes}

theorem memcpyFrom_zero {n : ℕ} (h : n ≤ b.length) : memcpyFrom b 0 n = some (b.take n) := by
  rw [memcpyFrom, if_pos ⟨le_refl _, by omega⟩, slice, Int.toNat_zero, List.drop_zero]

/-- What the decoder gives, where memory is there. -/
theorem lzmaDecode_eq (halloc : ∀ n, P.alloc n = true) (b : Bytes) :
    lzmaDecode P b b.length = some (
      if b.length ≤ LZMA_HEAD_SIZE then .error SZ_ERROR_INPUT_EOF
      else if announcedSize b ≥ 2 ^ 31 then .error SZ_ERROR_MEM
      else decodeToBuf P b (announcedSize b)) := by
  rw [lzmaDecode]
  by_cases hshort : b.length ≤ LZMA_HEAD_SIZE
  · rw [if_pos hshort, if_pos hshort]
  · have hhead : ∀ i, i + 4 ≤ 13 → slice (b.take LZMA_HEAD_SIZE) i 4 = slice b i 4 := by
      intro i hi
      rw [slice, slice, List.drop_take, List.take_take, Nat.min_eq_left]
      change 4 ≤ 13 - i
      omega
    rw [if_neg hshort, if_neg hshort, memcpyFrom_zero (Nat.le_of_not_le hshort), memcpyFrom_zero (le_refl _)]
    simp only [Option.bind_eq_bind, Option.bind_some, hhead 5 (by decide), hhead 9 (by decide), halloc,
      if_true, List.take_length]
    rw [announcedSize]
    split_ifs <;> rfl

/-- The stream decompresses to nothing: its header announces nothing, and the decoder takes some of it. -/
def EmptyOutput (P : Platform) (b : Bytes) : Prop :=
  LZMA_HEAD_SIZE < b.length ∧ announcedSize b = 0 ∧
    ∃ r, P.lzmaDec (b.take 5) (b.drop LZMA_HEAD_SIZE) 0 = some r ∧ r.out = [] ∧ r.inProcessed ≠ 0

theorem decodeToBuf_nil_iff {size : ℕ} : decodeToBuf P b size = .ok [] ↔
    size = 0 ∧ ∃ r, P.lzmaDec (b.take 5) (b.drop LZMA_HEAD_SIZE) 0 = some r ∧ r.out = [] ∧
      r.inProcessed ≠ 0 := by
  constructor
  · intro h
    unfold decodeToBuf at h
    split at h
    · cases h
    · next r hr =>
      split_ifs at h with hlen hdata
      have hout : r.out = [] := Except.ok.inj h
      rw [hout, List.length_nil, not_not] at hlen
      subst hlen
      refine ⟨rfl, r, hr, hout, ?_⟩
      intro hin
      exact hdata ⟨hin, by rw [hout]; rfl⟩
  · rintro ⟨rfl, r, hr, hout, hin⟩
    simp only [decodeToBuf, hr, hout, List.length_nil]
    simp [hin]

theorem lzmaDecode_nil_iff (halloc : ∀ n, P.alloc n = true) :
    lzmaDecode P b b.length = some (.ok []) ↔ EmptyOutput P b := by
  rw [lzmaDecode_eq halloc, Option.some_inj, EmptyOutput, ← decodeToBuf_nil_iff]
  by_cases hshort : b.length ≤ LZMA_HEAD_SIZE
  · rw [if_pos hshort]
    exact iff_of_false (fun h => by cases h) fun h => absurd hshort (not_le.2 h.1)
  rw [if_neg hshort, and_iff_right (not_le.1 hshort)]
  by_cases hbig : announcedSize b ≥ 2 ^ 31
  · rw [if_pos hbig]
    refine iff_of_false (fun h => by cases h) fun h => ?_
    rw [(decodeToBuf_nil_iff.1 h).1] at hbig
    exact absurd hbig (by decide)
  · rw [if_neg hbig]

/-- What a file wrapper does with the result of the decoder. -/
def FileResult (d : Disk) (outfile : Path) : Except ℤ Bytes → ℤ → Disk → Prop
  | .error e, ret, d' => ret = e ∧ d' = d
  | .ok [], ret, d' => ret = SZ_ERROR_FAIL ∧ d' = Function.update d outfile none
  | .ok (b :: out), ret, d' => ret = SZ_OK ∧ d' = Function.update d outfile (some (b :: out))

/-- The output is stored, unless it is empty. -/
theorem rule_storeFile (hidle : σ.Idle) (h5 : 5 ≤ outfile.length) (hu : ¬ σ.InUpdate outfile)
    (hlen : out.length < 2 ^ 31) :
    Rule σ d (do
      let stored ← storeFile outfile out out.length
      pure (if stored then SZ_OK else SZ_ERROR_FAIL)) fun ret σ' d' =>
      FileResult d outfile (.ok out) ret d' ∧ σ' = σ := by
  rw [Rule, MProg.wpc_bind]
  refine wpc_storeFile hidle h5 (by omega) (fun ho => ho.elim) (fun _ => trivial) ?_ ?_ ?_
  · intro hnone
    simp [storeStep, hu] at hnone
  · intro r d' hstep
    rw [MProg.wpc_pure]
    refine ⟨trivial, ?_, rfl⟩
    simp only [storeStep, hu, if_false, le_refl, if_true, List.take_length] at hstep
    cases out with
    | nil =>
      cases hstep
      exact ⟨rfl, rfl⟩
    | cons b out =>
      have hrep : fwriteReport (b :: out).length = (b :: out).length :=
        if_pos ⟨Nat.succ_pos _, hlen⟩
      rw [if_pos hrep] at hstep
      cases hstep
      exact ⟨rfl, rfl⟩
  · intro hfault
    exact (hfault.elim id id).elim

section

variable {r : Except ℤ Bytes} (hidle : σ.Idle) (h5 : 5 ≤ outfile.length) (hu : ¬ σ.InUpdate outfile)

include hidle h5 hu

/-- **From a buffer to a file.** -/
theorem rule_lzmaDecodeBufToFile (hr : lzmaDecode P b b.length = some r) :
    Rule σ d (lzmaDecodeBufToFile P b b.length outfile) fun ret σ' d' =>
      FileResult d outfile r ret d' ∧ σ' = σ := by
  rw [Rule, lzmaDecodeBufToFile, MProg.wpc_bind, hr, defined, MProg.wpc_pure]
  refine ⟨trivial, ?_⟩
  cases r with
  | error e => exact ⟨trivial, ⟨rfl, rfl⟩, rfl⟩
  | ok out => exact rule_storeFile hidle h5 hu (length_lzmaDecode hr)

/-- **From a file to a file.** -/
theorem rule_lzmaUncompressFile (halloc : ∀ n, P.alloc n = true) (h5' : 5 ≤ infile.length)
    (hu' : ¬ σ.InUpdate infile) (hd : d infile = some c) (hc : c.length < 2 ^ 31)
    (hr : lzmaDecode P (plainView P infile c) (plainView P infile c).length = some r) :
    Rule σ d (lzmaUncompressFile P infile outfile) fun ret σ' d' =>
      FileResult d outfile r ret d' ∧ σ' = σ := by
  have hlen := length_plainView P infile c
  rw [Rule, lzmaUncompressFile, MProg.wpc_bind]
  refine wpc_fopen_rb hidle h5' trivial hu' (fun _ => ?_) fun hno =>
    absurd (hd.symm.trans (hno.resolve_right id)) (Option.some_ne_none c)
  simp only [MProg.wpc_bind]
  refine wpc_fseek id trivial (fileAt_fopen infile) (k := c.length) (by simp [seekPos, fileStream, hd]) hc
    fun fin hfin _ => wpc_ftell id trivial hfin hc fun fin₁ hfin₁ _ => ?_
  rw [toU32_natCast (by omega)]
  by_cases hshort : c.length ≤ LZMA_HEAD_SIZE
  · simp only [hshort, if_true, MProg.wpc_bind]
    refine wpc_fclose_file hfin₁.fileStream.isUncompress hfin₁.fileStream.flags trivial fun _ => ⟨trivial, ?_⟩
    rw [lzmaDecode_eq halloc, hlen, if_pos hshort] at hr
    obtain rfl := Option.some.inj hr
    exact ⟨⟨rfl, rfl⟩, rfl⟩
  · simp only [hshort, if_false, halloc, if_true, MProg.wpc_bind]
    refine wpc_fseek id trivial hfin₁ (k := 0) rfl (by decide) fun fin₂ hfin₂ _ => ?_
    refine wpc_fread id trivial hfin₂ hd (Nat.zero_le _) (.inl hc) (n := c.length) (by omega)
      (fun _ => by omega)
      fun fin₃ hfin₃ => ?_
    have hall : ((plainView P infile c).drop 0).take c.length = plainView P infile c := by
      rw [List.drop_zero, ← hlen, List.take_length]
    rw [hall, hlen, Nat.div_one]
    refine wpc_fclose_file hfin₃.fileStream.isUncompress hfin₃.fileStream.flags trivial fun _ => ?_
    simp only [ne_eq, not_true_eq_false, if_false]
    have hrule := @rule_lzmaDecodeBufToFile P σ d outfile _ r hidle h5 hu hr
    rw [hlen] at hrule
    exact hrule

end

/-- The three wrappers succeed together, and give the same bytes. -/
def Agree (outfile : Path) (buf : ℤ × Option Bytes) (file uncompress : ℤ × Disk) : Prop :=
  (buf.1 = SZ_OK ↔ file.1 = SZ_OK) ∧ (buf.1 = SZ_OK ↔ uncompress.1 = SZ_OK) ∧
    (buf.1 = SZ_OK → file.2 outfile = buf.2 ∧ uncompress.2 outfile = buf.2)

/-- **They agree if and only if the output is not empty.** -/
theorem wrappersAgree_iff (halloc : ∀ n, P.alloc n = true) (hidle : σ.Idle) (h5 : 5 ≤ outfile.length)
    (hu : ¬ σ.InUpdate outfile) (h5' : 5 ≤ infile.length) (hu' : ¬ σ.InUpdate infile)
    (hd : d infile = some c) (hc : c.length < 2 ^ 31) (hb : plainView P infile c = b) :
    ∃ buf file d₁ uncompress d₂,
      lzmaDecodeBufToBuf P b b.length = some buf ∧
      MProg.run DevOp.handle (lzmaDecodeBufToFile P b b.length outfile) σ d = some (file, σ, d₁) ∧
      MProg.run DevOp.handle (lzmaUncompressFile P infile outfile) σ d = some (uncompress, σ, d₂) ∧
      (Agree outfile buf (file, d₁) (uncompress, d₂) ↔ ¬ EmptyOutput P b) := by
  subst hb
  obtain ⟨r, hr⟩ : ∃ r, lzmaDecode P (plainView P infile c) (plainView P infile c).length = some r :=
    ⟨_, lzmaDecode_eq halloc _⟩
  obtain ⟨file, σ₁, d₁, hfile, hres₁, rfl⟩ := (rule_lzmaDecodeBufToFile hidle h5 hu hr (d := d)).exists_run
  obtain ⟨uncompress, σ₂, d₂, hunc, hres₂, rfl⟩ :=
    (rule_lzmaUncompressFile hidle h5 hu halloc h5' hu' hd hc hr).exists_run
  refine ⟨_, file, d₁, uncompress, d₂, by rw [lzmaDecodeBufToBuf, hr, Option.map_some], hfile, hunc, ?_⟩
  rw [← lzmaDecode_nil_iff halloc, hr]
  match r, hr, hres₁, hres₂ with
  | .error e, hr, ⟨hfile, _⟩, ⟨hunc, _⟩ =>
    have hne : e ≠ SZ_OK := lzmaDecode_error_ne hr
    refine iff_of_true ⟨?_, ?_, fun h => absurd h hne⟩ fun h => by cases h
    · exact iff_of_false hne (hfile ▸ hne)
    · exact iff_of_false hne (hunc ▸ hne)
  | .ok [], hr, ⟨hfile, _⟩, _ =>
    refine iff_of_false (fun hagree => ?_) fun h => h rfl
    have hok : file = SZ_OK := hagree.1.1 rfl
    rw [hfile] at hok
    cases hok
  | .ok (b :: out), hr, ⟨hfile, hd₁⟩, ⟨hunc, hd₂⟩ =>
    refine iff_of_true ⟨iff_of_true rfl hfile, iff_of_true rfl hunc, fun _ => ⟨?_, ?_⟩⟩ fun h => by cases h
    · rw [hd₁]
      exact Function.update_self ..
    · rw [hd₂]
      exact Function.update_self ..

/-- The LZMA stream of no bytes. -/
def emptyStream : Bytes := [93, 0, 16, 0, 0] ++ List.replicate 13 0

/-- A platform whose decoder knows two streams. -/
def lzmaPlatform : Platform :=
  { samplePlatform emptyFileImage with
    lzmaDec := fun props src size =>
      if props ++ src = hiStream.take 5 ++ hiStream.drop 13 ∧ size = 2 then some ⟨ascii "hi", 12⟩
      else if props ++ src = emptyStream.take 5 ++ emptyStream.drop 13 ∧ size = 0 then some ⟨[], 5⟩
      else none }

def lzmaFile : Path := ascii "/ldata/in.lzma"

def outFile : Path := ascii "/ldata/out"

/-- The stream of `hi` gives `hi` three times. -/
theorem wrappersAgree_hi :
    ∃ buf file d₁ uncompress d₂,
      lzmaDecodeBufToBuf lzmaPlatform hiStream hiStream.length = some buf ∧
      MProg.run DevOp.handle (lzmaDecodeBufToFile lzmaPlatform hiStream hiStream.length outFile) {}
        (fun _ => some hiStream) = some (file, {}, d₁) ∧
      MProg.run DevOp.handle (lzmaUncompressFile lzmaPlatform lzmaFile outFile) {}
        (fun _ => some hiStream) = some (uncompress, {}, d₂) ∧
      Agree outFile buf (file, d₁) (uncompress, d₂) := by
  have hview : plainView lzmaPlatform lzmaFile hiStream = hiStream := by decide
  have hout : ¬ EmptyOutput lzmaPlatform hiStream := by
    rintro ⟨-, hsize, -⟩
    exact absurd hsize (by decide)
  obtain ⟨buf, file, d₁, uncompress, d₂, hbuf, hfile, hunc, hagree⟩ :=
    @wrappersAgree_iff lzmaPlatform {} (fun _ => some hiStream) lzmaFile outFile hiStream hiStream
      (fun _ => rfl) StdioState.idle_init (by decide) (by decide) (by decide) (by decide) rfl (by decide) hview
  exact ⟨buf, file, d₁, uncompress, d₂, hbuf, hfile, hunc, hagree.2 hout⟩

/-- The stream of no bytes gives no bytes, and two errors. -/
theorem not_wrappersAgree :
    (lzmaDecodeBufToBuf lzmaPlatform emptyStream emptyStream.length = some (SZ_OK, some [])) ∧
      (MProg.run DevOp.handle (lzmaDecodeBufToFile lzmaPlatform emptyStream emptyStream.length outFile) {}
        fun _ => some emptyStream).map (·.1) = some SZ_ERROR_FAIL ∧
      (MProg.run DevOp.handle (lzmaUncompressFile lzmaPlatform lzmaFile outFile) {}
        fun _ => some emptyStream).map (·.1) = some SZ_ERROR_FAIL ∧
      ∀ d₁ d₂, ¬ Agree outFile (SZ_OK, some []) (SZ_ERROR_FAIL, d₁) (SZ_ERROR_FAIL, d₂) := by
  refine ⟨by decide +kernel, by decide +kernel, by decide +kernel, fun d₁ d₂ hagree => ?_⟩
  have hfail : SZ_ERROR_FAIL = SZ_OK := hagree.1.1 rfl
  cases hfail

end OsdCore
