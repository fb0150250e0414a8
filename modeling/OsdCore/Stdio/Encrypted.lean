import OsdCore.Stdio.Kinds

/-!
# Reading encrypted files

An encrypted file or entry stands for its plaintext, which is decrypted block by block from its start.

* `run_fread_encFile` : `fread` of an encrypted file of the file system gives the plaintext, from any
  position and in any size.
* `reads_plaintext` : `fread` of an encrypted entry in ROM does so if it starts at a block.
-/

namespace OsdCore

open Stdio

variable {σ : StdioState} {d : Disk} {P : Platform} {p file : Path} {item : UncompressFileItem}
variable {c : Bytes}

/-- **`fread` of an encrypted file** copies the plaintext from the position on, cut at the end of the
file, and leaves the stream behind it. -/
theorem run_fread_encFile {pos size count : ℕ} {fp : FILE} (hfp : FileAt p pos fp)
    (henc : fp.type = ENC_FILE) (hd : d p = some c) (hc : c.length < 2 ^ 31) (hpos : pos ≤ c.length)
    (hn : pos + count * size + 511 < 2 ^ 32) :
    ∃ fp', MProg.run DevOp.handle (fread P size count fp) σ d =
        some (((((P.cipher.plaintext c).drop pos).take (count * size)).length / size,
          ((P.cipher.plaintext c).drop pos).take (count * size), fp'), σ, d) ∧
      FileAt p (pos + (((P.cipher.plaintext c).drop pos).take (count * size)).length) fp' := by
  have hluae : ascii ".luae" <:+ p := by
    by_contra hno
    rw [hfp.type, if_neg hno] at henc
    exact absurd henc (by decide)
  have hmod : count * size % 2 ^ 32 = count * size := Nat.mod_eq_of_lt (by omega)
  have hpos31 : pos < 2 ^ 31 := by omega
  have hlen := (Source.ofBytes (P.cipher.plaintext c)).length_read pos (count * size)
  change (((P.cipher.plaintext c).drop pos).take (count * size)).length = _ at hlen
  have hrule := (reads_encFile (P := P) (σ := σ) hd hc hluae).read ⟨pos, false⟩ fp size count _ hmod
    (Or.inr ⟨hpos, hn⟩) ⟨hfp, hpos31⟩
  obtain ⟨r, σ', d', hrun, hcount, hbuf, ⟨hfp', -⟩, rfl, rfl⟩ := hrule.exists_run
  refine ⟨r.2.2, ?_, ?_⟩
  · rw [hrun, hlen]
    exact congrArg (fun r => some (r, _, _)) (Prod.ext hcount (Prod.ext hbuf rfl))
  · rw [hlen]
    exact hfp'

/-! ### Entries in ROM -/

/-- The source that `decode_file` reads. -/
def windowSource (P : Platform) (c : Bytes) : Source where
  len := c.length
  read := windowRead P c
  length_read := length_windowRead c

/-- Seeks that do not go behind the end, and reads whose arithmetic stays below 2³². -/
def StreamCall.SeekOrRead (len : ℕ) : StreamCall → Place → Prop
  | fseek offset whence, _ => ¬ EndSeek len offset whence
  | fread size count, x => x.pos + count * size + 511 < 2 ^ 32
  | _, _ => False

/-- A read starts at a block, or there is nothing to read. -/
def StreamCall.Aligned (len : ℕ) : StreamCall → Place → Prop
  | fread size count, x => 512 ∣ x.pos ∨ x.pos = len ∨ count * size = 0
  | _, _ => True

instance (len : ℕ) : ∀ call x, Decidable (StreamCall.SeekOrRead len call x)
  | .fseek _ _, _ => inferInstanceAs (Decidable (¬ _))
  | .fread _ _, _ => inferInstanceAs (Decidable (_ < _))
  | .getc, _ | .ungetc, _ | .fgets _, _ => .isFalse id

instance (len : ℕ) : ∀ call x, Decidable (StreamCall.Aligned len call x)
  | .fread _ _, _ => inferInstanceAs (Decidable (_ ∨ _ ∨ _))
  | .fseek _ _, _ | .getc, _ | .ungetc, _ | .fgets _, _ => .isTrue trivial

/-- An aligned call gives the same on the plaintext as on the blocks that are read. -/
theorem StreamCall.Aligned.spec_eq {call : StreamCall} {x : Place} (h : call.Aligned c.length x)
    (hdom : call.SeekOrRead c.length x) (hpos : x.pos ≤ c.length) :
    call.spec (windowSource P c) c.length x = call.spec (.ofBytes (P.cipher.plaintext c)) c.length x ∧
      (call.spec (.ofBytes (P.cipher.plaintext c)) c.length x).2.pos ≤ c.length := by
  have hlen : (Source.ofBytes (P.cipher.plaintext c)).len = c.length := P.cipher.length_plaintext c
  have htarget : (Source.ofBytes (P.cipher.plaintext c)).target = (windowSource P c).target := by
    funext pos offset whence
    cases whence <;> simp only [Source.target, hlen, windowSource]
  have hadvance : (Source.ofBytes (P.cipher.plaintext c)).advance = (windowSource P c).advance := by
    funext n x
    simp only [Source.advance, hlen]
    rfl
  cases call with
  | fseek offset whence =>
    simp only [spec, Source.seek, htarget, true_and]
    split_ifs with hin
    · change ((windowSource P c).target x.pos offset whence).toNat ≤ c.length
      omega
    · exact hpos
  | fread size count =>
    have hmod : count * size % 2 ^ 32 = count * size :=
      Nat.mod_eq_of_lt (by simp only [SeekOrRead] at hdom; omega)
    have hnil : ∀ src : Source, src.len = c.length → x.pos = c.length ∨ count * size = 0 →
        src.read x.pos (count * size) = [] := fun src hsrc h0 =>
      List.length_eq_zero_iff.1 (by rw [src.length_read]; omega)
    have hread : (windowSource P c).read x.pos (count * size) =
        (Source.ofBytes (P.cipher.plaintext c)).read x.pos (count * size) := by
      by_cases hlt : x.pos < c.length
      · rcases h with h | h | h
        · exact windowRead_aligned hlt h
        · omega
        · rw [hnil _ rfl (Or.inr h), hnil _ hlen (Or.inr h)]
      · rw [hnil _ rfl (Or.inl (by omega)), hnil _ hlen (Or.inl (by omega))]
    simp only [spec, hmod, hread, hlen, hadvance]
    refine ⟨rfl, ?_⟩
    change x.pos + min (count * size) (c.length - x.pos) ≤ c.length
    omega
  | getc => exact hdom.elim
  | ungetc => exact hdom.elim
  | fgets n => exact hdom.elim

/-- Calls on an encrypted entry in ROM read the blocks from where they start. -/
theorem run_calls_window {calls : List StreamCall} (henc : ascii ".luae" <:+ file)
    (hlen : item.nLen = c.length) (hlen31 : c.length < 2 ^ 31)
    (hrom : memcpyFrom P.rom.bytes (toU32 item.nOffset) c.length = some c)
    (hdom : Along (StreamCall.spec (windowSource P c) c.length) (StreamCall.SeekOrRead c.length) calls
      {}) :
    MProg.run DevOp.handle (MProg.calls (StreamCall.run P) calls (tableStream .flash file item)) σ d =
      some (((specCalls (StreamCall.spec (windowSource P c) c.length) calls {}).1,
        tableAt .flash file item
          (specCalls (StreamCall.spec (windowSource P c) c.length) calls {}).2.pos), σ, d) := by
  have hread : ∀ pos n, pos < (windowSource P c).len →
      flashRead P file item.nOffset (windowSource P c).len pos n = some ((windowSource P c).read pos n) :=
    fun pos n hlt => flashRead_enc henc hrom hlt
  have hreads := reads_flash (P := P) (σ := σ) (d := d) hlen hlen31 hread
  have himp : ∀ call x, StreamCall.SeekOrRead c.length call x →
      call.Meets (StaysInside c.length) (WindowFits file c.length) x := by
    intro call x hcall
    cases call with
    | fseek offset whence => exact hcall
    | fread size count =>
      have hfits : x.pos + count * size + 511 < 2 ^ 32 := hcall
      intro _ _
      rwa [Nat.mod_eq_of_lt (by omega)]
    | getc => exact hcall.elim
    | ungetc => exact hcall.elim
    | fgets n => exact hcall.elim
  obtain ⟨fp', hrun, hfp', -⟩ := hreads.calls (fun _ _ => windowFits_one hlen31 _) (hdom.mono himp)
    ⟨rfl, Nat.zero_le _⟩
  rw [hfp'] at hrun
  exact hrun

/-- **Reads of an encrypted entry in ROM** give its plaintext, as long as each of them starts at a
block. -/
theorem reads_plaintext {calls : List StreamCall} (henc : ascii ".luae" <:+ file)
    (hlen : item.nLen = c.length) (hlen31 : c.length < 2 ^ 31)
    (hrom : memcpyFrom P.rom.bytes (toU32 item.nOffset) c.length = some c)
    (hdom : Along (StreamCall.spec (.ofBytes (P.cipher.plaintext c)) c.length)
      (StreamCall.SeekOrRead c.length) calls {})
    (hok : Along (StreamCall.spec (.ofBytes (P.cipher.plaintext c)) c.length)
      (StreamCall.Aligned c.length) calls {}) :
    MProg.run DevOp.handle (MProg.calls (StreamCall.run P) calls (tableStream .flash file item)) σ d =
      some (((specCalls (StreamCall.spec (.ofBytes (P.cipher.plaintext c)) c.length) calls {}).1,
        tableAt .flash file item
          (specCalls (StreamCall.spec (.ofBytes (P.cipher.plaintext c)) c.length) calls {}).2.pos),
        σ, d) := by
  have hstep : ∀ (call : StreamCall) (x : Place),
      call.SeekOrRead c.length x ∧ call.Aligned c.length x → x.pos ≤ c.length →
      call.spec (windowSource P c) c.length x =
          call.spec (.ofBytes (P.cipher.plaintext c)) c.length x ∧
        (call.spec (.ofBytes (P.cipher.plaintext c)) c.length x).2.pos ≤ c.length :=
    fun call x hcall hpos => hcall.2.spec_eq hcall.1 hpos
  obtain ⟨heq, halong⟩ := specCalls_congr hstep (hdom.and hok) (Nat.zero_le _)
  rw [run_calls_window henc hlen hlen31 hrom (halong.mono fun _ _ h => h.1), heq]

/-! ### Samples -/

/-- A cipher that complements every byte. -/
def flipCipher : Cipher where
  decode := List.map fun b => 255 - b
  length_decode _ := List.length_map _

/-- A platform with this cipher. -/
def romPlatform (rom : Image) : Platform where
  rom := rom
  alloc _ := true
  lzmaDec _ _ _ := none
  cipher := flipCipher
  junk _ := 0

/-- Eight bytes in ROM. -/
def eightBytes : Image := ⟨[1, 2, 3, 4, 5, 6, 7, 8], by decide⟩

def encFile : Path := ascii "/lua/a.luae"

def encItem : UncompressFileItem := ⟨encFile, 0, 8⟩

/-- Three bytes across the end of the last whole word. -/
theorem run_fread_encFile_six : ∃ fp',
    MProg.run DevOp.handle (fread (romPlatform eightBytes) 1 3
        ⟨SRD, ⟨encFile, 3⟩, 0, ENC_FILE, none⟩) {} (fun _ => some [1, 2, 3, 4, 5, 6]) =
      some ((3, [251, 5, 6], fp'), {}, fun _ => some [1, 2, 3, 4, 5, 6]) ∧ FileAt encFile 6 fp' :=
  run_fread_encFile (P := romPlatform eightBytes) (c := [1, 2, 3, 4, 5, 6])
    ⟨rfl, by decide, by decide, by decide⟩ rfl rfl (by decide) (by decide) (by decide)

/-- The first byte, and then the first four. -/
theorem reads_plaintext_eight :
    MProg.run DevOp.handle (MProg.calls (StreamCall.run (romPlatform eightBytes))
        [.fread 1 1, .fseek 0 .SEEK_SET, .fread 2 2] (tableStream .flash encFile encItem)) {}
        (fun _ => none) =
      some (([.items 1 [254], .code 0, .items 2 [254, 253, 252, 251]],
        tableAt .flash encFile encItem 4), {}, fun _ => none) :=
  reads_plaintext (P := romPlatform eightBytes) (c := eightBytes.bytes) (by decide) (by decide)
    (by decide) (by decide) (by decide) (by decide)

/-- From the second byte on, the entry gives the fourth one, of a block that starts at the second. -/
theorem not_reads_plaintext_misaligned :
    (MProg.run DevOp.handle (MProg.calls (StreamCall.run (romPlatform eightBytes))
        [.fseek 1 .SEEK_SET, .fread 1 1] (tableStream .flash encFile encItem)) {}
        (fun _ => none)).map (·.1.1) = some [.code 0, .items 1 [252]] ∧
      (specCalls (StreamCall.spec (.ofBytes ((romPlatform eightBytes).cipher.plaintext
        eightBytes.bytes)) 8) [.fseek 1 .SEEK_SET, .fread 1 1] {}).1 = [.code 0, .items 1 [253]] := by
  rw [@run_calls_window {} (fun _ => none) (romPlatform eightBytes) encFile encItem eightBytes.bytes
    [.fseek 1 .SEEK_SET, .fread 1 1] (by decide) (by decide) (by decide) (by decide) (by decide)]
  exact ⟨by decide, by decide⟩

end OsdCore
