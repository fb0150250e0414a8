import OsdCore.Stdio.Encrypted

/-!
# The end of a file

After any calls, `feof` should tell whether a read since the last successful seek asked for more bytes
than remained.  The three kinds of streams answer it in three ways: a file has a flag, which only a
read that gives nothing sets and only a seek that fails clears; an encrypted file always denies it; an
entry of a table compares its position with its length.

* `feof_eq_asked` : for each kind, calls after which `feof` answers correctly; if two kinds do, they
  give the same answers.
-/

namespace OsdCore

open Stdio

variable {src : Source}

/-! ### Places that calls keep -/

section

variable {limit : ℕ} {I : Place → Prop}

/-- What reading a character keeps, `fgets` keeps. -/
theorem Source.fgetsLoop_invariant (h : ∀ x, I x → I (src.getc x).2) (n : ℕ) (c : ℤ) {x : Place}
    (hx : I x) : I (fgetsLoop (m := Id) src.getc n c x).2 := by
  induction n generalizing c x with
  | zero => exact hx
  | succ n ih =>
    unfold fgetsLoop
    split_ifs
    · exact hx
    · exact hx
    · exact ih _ (h x hx)

theorem Source.fgetsOf_invariant (h : ∀ x, I x → I (src.getc x).2) (n : ℤ) {x : Place}
    (hx : 1 < n → I (src.getc x).2) (hx' : n ≤ 1 → I x) :
    I (fgetsOf (m := Id) src.getc n x).2 := by
  unfold fgetsOf
  by_cases hn : n ≤ 1
  · rw [if_pos hn]
    exact hx' hn
  · rw [if_neg hn]
    replace hx := hx (by omega)
    by_cases heof : (src.getc x).1 = -1
    · simp only [bind, heof, ↓reduceIte]
      exact hx
    · simp only [bind, heof, ↓reduceIte]
      exact Source.fgetsLoop_invariant h _ _ hx

/-- What seeks and reads keep, every call keeps. -/
theorem StreamCall.spec_invariant (hseek : ∀ offset whence x, I x →
      I (src.seek limit offset whence x).2)
    (hread : ∀ n x, I x → I (src.advance n x)) (call : StreamCall) {x : Place} (hx : I x) :
    I (call.spec src limit x).2 := by
  cases call with
  | fseek offset whence => exact hseek offset whence x hx
  | fread size count => exact hread _ x hx
  | getc => exact hread 1 x hx
  | ungetc => exact hseek (-1) .SEEK_CUR x hx
  | fgets n =>
    exact Source.fgetsOf_invariant (fun x hx => hread 1 x hx) n (fun _ => hread 1 x hx) fun _ => hx

/-- Who asked for more than there was stands at the end. -/
theorem StreamCall.asked_spec (call : StreamCall) {x : Place} (hx : x.asked = true → src.len ≤ x.pos) :
    (call.spec src limit x).2.asked = true → src.len ≤ (call.spec src limit x).2.pos := by
  refine StreamCall.spec_invariant (I := fun x => x.asked = true → src.len ≤ x.pos)
    (fun offset whence x hx => ?_) (fun n x hx => ?_) call hx
  · unfold Source.seek
    split_ifs
    · intro h
      cases h
    · exact hx
  · simp only [Source.advance, Bool.or_eq_true, decide_eq_true_eq]
    rintro (h | h)
    · have := hx h
      omega
    · omega

/-- A call with a read that asks for more than there is says so. -/
theorem StreamCall.meets_of_asked {call : StreamCall} {x : Place}
    (h : (call.spec src limit x).2.asked = false) :
    call.Meets (fun _ _ _ => True) (fun n x => n ≤ src.len - x.pos) x := by
  have hadvance : ∀ n x, (src.advance n x).asked = false → n ≤ src.len - x.pos := by
    intro n x h
    simp only [Source.advance, Bool.or_eq_false_iff, decide_eq_false_iff_not] at h
    omega
  cases call with
  | fseek offset whence => trivial
  | fread size count => exact hadvance _ _ h
  | getc => exact hadvance 1 x h
  | ungetc => trivial
  | fgets n =>
    intro hn
    refine hadvance 1 x (Bool.eq_false_iff.2 fun hasked => Bool.false_ne_true ?_)
    rw [← h]
    -- once asked, `fgets` does not forget it
    refine Source.fgetsOf_invariant (I := fun x => x.asked = true) (fun x hx => ?_) n
      (fun _ => hasked) fun hle => absurd hn (by omega)
    simp [Source.getc, Source.advance, hx]

end


/-! ### The kinds of streams -/

/-- The kinds of streams. -/
inductive StreamKind where
  | file
  | encFile
  | flash (file : Path)
  | update
deriving DecidableEq, Repr

namespace StreamKind

/-- The last position one can seek to. -/
def limit (src : Source) : StreamKind → ℕ
  | .file | .encFile => fileLimit
  | .flash _ | .update => src.len

/-- What holds of the place where `feof` answers correctly, after calls that met `Keeps`. -/
def Answers (src : Source) : StreamKind → Place → Prop
  | .file, _ => True
  | .encFile, x => x.asked = false
  | .flash _, x | .update, x => x.pos = src.len → x.asked = true

/-- **The calls after which `feof` answers correctly.**

A file: no read is cut short, unless it gives nothing, and no seek comes after one that did.  An
encrypted file: no read asks for more than there is.  An entry: a read up to the end asks for more. -/
def Keeps (src : Source) (kind : StreamKind) (call : StreamCall) (x : Place) : Prop :=
  match kind with
  | .file => call.Meets (fun _ _ x => x.asked = false)
      (fun n x => n ≤ src.len - x.pos ∨ src.len - x.pos = 0) x
  | .encFile => encFile.Answers src (call.spec src fileLimit x).2
  | .flash path => call.Meets (StaysInside src.len) (WindowFits path src.len) x ∧
      (flash path).Answers src (call.spec src src.len x).2
  | .update => call.Meets (StaysInside src.len) (fun _ _ => True) x ∧
      update.Answers src (call.spec src src.len x).2

end StreamKind

variable {P : Platform} {σ : StdioState} {d : Disk} {kind : StreamKind} {fp : FILE}

/-- A stream of each kind, as it is opened, over a source. -/
inductive Opened (P : Platform) (σ : StdioState) (d : Disk) : StreamKind → Source → FILE → Prop
  | file {p : Path} {c : Bytes} {flags : BitVec 16} : d p = some c → c.length < 2 ^ 31 →
      ¬ ascii ".luae" <:+ p → flags = SRD ∨ flags = SRW →
      Opened P σ d .file (.ofBytes c) (fileStream flags p)
  | encFile {p : Path} {c : Bytes} {flags : BitVec 16} : d p = some c → c.length < 2 ^ 31 →
      ascii ".luae" <:+ p → flags = SRD ∨ flags = SRW →
      Opened P σ d .encFile (.ofBytes (P.cipher.plaintext c)) (fileStream flags p)
  | flash {file : Path} {item : UncompressFileItem} {src : Source} : item.nLen = src.len →
      src.len < 2 ^ 31 →
      (∀ pos n, pos < src.len →
        flashRead P file item.nOffset src.len pos n = some (src.read pos n)) →
      Opened P σ d (.flash file) src (tableStream .flash file item)
  | update {file : Path} {item : UncompressFileItem} {c : Bytes} : UpdateHolds d item c → σ.Idle →
      findUncompressFileItem σ LUA_UPDATE_FILE = none →
      Opened P σ d .update (.ofBytes c) (tableStream .update file item)

/-- The streams `Rel` follow the source, and `feof` answers correctly where the kind does. -/
structure FollowsEof (P : Platform) (kind : StreamKind) (src : Source) (Rel : Place → FILE → Prop)
    (okSeek : ℤ → Whence → Place → Prop) (okRead : ℕ → Place → Prop) (σ : StdioState) (d : Disk) :
    Prop where
  reads : Reads P src (kind.limit src) Rel okSeek okRead σ d
  closed : ∀ x, okRead 1 x → okRead 1 (src.getc x).2
  meets : ∀ call x, kind.Keeps src call x → call.Meets okSeek okRead x
  feof : ∀ x fp, Rel x fp → kind.Answers src x → (x.asked = true → src.len ≤ x.pos) →
    feof fp = x.asked

theorem fileAt_fileStream (p : Path) {flags : BitVec 16} (h : flags = SRD ∨ flags = SRW) :
    FileAt p 0 (fileStream flags p) where
  file := rfl
  type := rfl
  mode := by
    change flags &&& (SRD ||| SWR ||| SRW) ≠ 0
    rcases h with rfl | rfl <;> decide
  offset hoff := by
    change flags &&& SOFF ≠ 0 at hoff
    rcases h with rfl | rfl <;> exact absurd hoff (by decide)

/-- The flag of a file. -/
theorem followsEof_file {p : Path} {c : Bytes} (hd : d p = some c) (hc : c.length < 2 ^ 31)
    (henc : ¬ ascii ".luae" <:+ p) :
    FollowsEof P .file (.ofBytes c) (PlainAt p) (fun _ _ x => x.asked = false)
      (fun n x => n ≤ c.length - x.pos ∨ c.length - x.pos = 0) σ d where
  reads := reads_plain hd hc henc
  closed x _ := by omega
  meets call x h := h
  feof x fp h _ _ := by
    have htype : fp.type = COMMON_FILE := by rw [h.type, if_neg henc]
    rw [Bool.eq_iff_iff, ← h.eof]
    simp [Stdio.feof, htype, h.fileStream.isUncompress]

/-- An encrypted file has no end. -/
theorem followsEof_encFile {p : Path} {c : Bytes} (hd : d p = some c) (hc : c.length < 2 ^ 31)
    (henc : ascii ".luae" <:+ p) :
    FollowsEof P .encFile (.ofBytes (P.cipher.plaintext c))
      (fun x fp => FileAt p x.pos fp ∧ x.pos < 2 ^ 31) (fun _ _ _ => True)
      (fun n x => n = 0 ∨ (x.pos ≤ c.length ∧ x.pos + n + 511 < 2 ^ 32)) σ d where
  reads := reads_encFile hd hc henc
  closed x h := by
    have hlen : (Source.ofBytes (P.cipher.plaintext c)).len = c.length := P.cipher.length_plaintext c
    simp only [Source.getc, Source.advance, hlen]
    omega
  meets call x h := by
    have hlen : (Source.ofBytes (P.cipher.plaintext c)).len = c.length := P.cipher.length_plaintext c
    refine (StreamCall.meets_of_asked h).mono (fun _ _ _ => trivial) fun n hn => ?_
    rw [hlen] at hn
    omega
  feof x fp h hx _ := by
    have htype : fp.type = ENC_FILE := by rw [h.1.type, if_pos henc]
    change x.asked = false at hx
    rw [hx, Stdio.feof, htype, h.1.fileStream.isUncompress]
    rfl

/-- A table entry compares its position with its length. -/
theorem feof_tableAt {nSection : TableSection} {file : Path} {item : UncompressFileItem}
    {x : Place} (hlen : item.nLen = src.len) (hpos : x.pos ≤ src.len)
    (hend : x.pos = src.len → x.asked = true) (hasked : x.asked = true → src.len ≤ x.pos) :
    feof (tableAt nSection file item x.pos) = x.asked := by
  have htype : (tableAt nSection file item x.pos).type ≠ COMMON_FILE := by
    change (tableStream nSection file item).type ≠ COMMON_FILE
    unfold tableStream
    split_ifs <;> simp [LUA_UNCOMPRESS_FILE, ENC_FILE, COMMON_FILE]
  have hext : feofExt (tableAt nSection file item x.pos) = decide (src.len ≤ x.pos) := by
    change decide ((x.pos : ℤ) ≥ item.nLen) = _
    rw [hlen]
    simp
  rw [Stdio.feof, hext, isUncompress_tableAt, decide_eq_false htype, Bool.false_and, Bool.false_or,
    Bool.true_and, Bool.eq_iff_iff, decide_eq_true_eq]
  exact ⟨fun hle => hend (by omega), hasked⟩

theorem followsEof_flash {file : Path} {item : UncompressFileItem} (hlen : item.nLen = src.len)
    (hlen31 : src.len < 2 ^ 31) (hread : ∀ pos n, pos < src.len →
      flashRead P file item.nOffset src.len pos n = some (src.read pos n)) :
    FollowsEof P (.flash file) src (fun x fp => fp = tableAt .flash file item x.pos ∧ x.pos ≤ src.len)
      (StaysInside src.len) (WindowFits file src.len) σ d where
  reads := reads_flash hlen hlen31 hread
  closed x _ := windowFits_one hlen31 _
  meets call x h := h.1
  feof x fp h hend hasked := by
    rw [h.1]
    exact feof_tableAt hlen h.2 hend hasked

theorem followsEof_update {file : Path} {item : UncompressFileItem} {c : Bytes}
    (hitem : UpdateHolds d item c) (hidle : σ.Idle)
    (htab : findUncompressFileItem σ LUA_UPDATE_FILE = none) :
    FollowsEof P .update (.ofBytes c)
      (fun x fp => fp = tableAt .update file item x.pos ∧ x.pos ≤ c.length) (StaysInside c.length)
      (fun _ _ => True) σ d where
  reads := reads_update hitem hidle htab
  closed _ _ := trivial
  meets call x h := h.1
  feof x fp h hend hasked := by
    have hlen : item.nLen = (Source.ofBytes c).len := hitem.nLen
    rw [h.1]
    exact feof_tableAt hlen h.2 hend hasked

theorem Opened.followsEof (h : Opened P σ d kind src fp) :
    ∃ Rel okSeek okRead, FollowsEof P kind src Rel okSeek okRead σ d ∧ Rel {} fp := by
  cases h with
  | file hd hc henc hflags =>
    refine ⟨_, _, _, followsEof_file hd hc henc, fileAt_fileStream _ hflags, by decide, ?_⟩
    rcases hflags with rfl | rfl <;> simp [fileStream, SRD, SRW, SEOF]
  | encFile hd hc henc hflags =>
    exact ⟨_, _, _, followsEof_encFile hd hc henc, fileAt_fileStream _ hflags, by decide⟩
  | flash hlen hlen31 hread =>
    exact ⟨_, _, _, followsEof_flash hlen hlen31 hread, tableAt_zero, Nat.zero_le _⟩
  | update hitem hidle htab =>
    exact ⟨_, _, _, followsEof_update hitem hidle htab, tableAt_zero, Nat.zero_le _⟩

/-! ### The law -/

variable {calls : List StreamCall}

/-- The law for one stream. -/
theorem Opened.run_calls (h : Opened P σ d kind src fp) (hstart : kind.Answers src {})
    (hok : Along (StreamCall.spec src (kind.limit src)) (kind.Keeps src) calls {}) :
    ∃ fp', MProg.run DevOp.handle (MProg.calls (StreamCall.run P) calls fp) σ d =
        some (((specCalls (StreamCall.spec src (kind.limit src)) calls {}).1, fp'), σ, d) ∧
      feof fp' = (specCalls (StreamCall.spec src (kind.limit src)) calls {}).2.asked := by
  obtain ⟨Rel, okSeek, okRead, hf, hrel⟩ := h.followsEof
  obtain ⟨fp', hrun, hrel'⟩ := hf.reads.calls hf.closed (hok.mono hf.meets) hrel
  refine ⟨fp', hrun, hf.feof _ _ hrel' ?_ ?_⟩
  -- where the kind answers after a call is a part of its condition
  · refine hok.specCalls (fun call x hkeep hx => ?_) hstart
    cases kind with
    | file => trivial
    | encFile => exact hkeep
    | flash path => exact hkeep.2
    | update => exact hkeep.2
  · exact hok.specCalls (I := fun x => x.asked = true → src.len ≤ x.pos)
      (fun call x _ hx => call.asked_spec hx) fun hasked => absurd hasked (by decide)

/-- No seek goes to a position behind the end that only a file has. -/
def StreamCall.NotBehind (src : Source) : StreamCall → Place → Prop
  | fseek offset whence, x =>
    src.target x.pos offset whence ≤ src.len ∨ (fileLimit : ℤ) < src.target x.pos offset whence
  | _, _ => True

/-- Calls that do not go there do the same to every kind. -/
theorem StreamCall.NotBehind.spec_eq {call : StreamCall} {x : Place} (h : call.NotBehind src x)
    (hlen : src.len ≤ fileLimit) (hpos : x.pos ≤ src.len) (kind : StreamKind) :
    call.spec src (kind.limit src) x = call.spec src src.len x ∧
      (call.spec src src.len x).2.pos ≤ src.len := by
  have hlimit : kind.limit src = fileLimit ∨ kind.limit src = src.len := by
    cases kind
    · exact Or.inl rfl
    · exact Or.inl rfl
    · exact Or.inr rfl
    · exact Or.inr rfl
  -- between the end and the largest position the kinds differ, and only there
  have hseek : ∀ {offset whence}, src.target x.pos offset whence ≤ src.len ∨
      (fileLimit : ℤ) < src.target x.pos offset whence →
      src.seek (kind.limit src) offset whence x = src.seek src.len offset whence x := by
    intro offset whence h
    unfold Source.seek
    by_cases hin : 0 ≤ src.target x.pos offset whence ∧ src.target x.pos offset whence ≤ src.len
    · rw [if_pos hin, if_pos (by omega)]
    · rw [if_neg hin, if_neg (by omega)]
  -- `ungetc` never goes forward
  have hback : src.target x.pos (-1) .SEEK_CUR ≤ src.len := by
    change (x.pos : ℤ) + -1 ≤ src.len
    omega
  refine ⟨?_, StreamCall.spec_invariant (I := fun x => x.pos ≤ src.len)
    (fun offset whence x hx => ?_) (fun n x hx => ?_) call hpos⟩
  · cases call with
    | fseek offset whence => simp only [spec, hseek h]
    | ungetc => simp only [spec, hseek (Or.inl hback)]
    | fread size count => rfl
    | getc => rfl
    | fgets n => rfl
  · unfold Source.seek
    split_ifs with hin
    · change (src.target x.pos offset whence).toNat ≤ src.len
      omega
    · exact hx
  · change x.pos + min n (src.len - x.pos) ≤ src.len
    omega

theorem Opened.len_le (h : Opened P σ d kind src fp) : src.len ≤ fileLimit := by
  unfold fileLimit
  cases h with
  | file _ hc =>
    change List.length _ ≤ _
    omega
  | encFile _ hc =>
    change List.length (P.cipher.plaintext _) ≤ _
    rw [P.cipher.length_plaintext]
    omega
  | flash _ hlen31 => omega
  | update hitem =>
    have := hitem.size_lt
    change List.length _ ≤ _
    omega

/-- **The end of a file**: after calls that the kind keeps track of, `feof` answers whether a read
since the last successful seek asked for more than there was; so it gives the same answer for another
kind that keeps track of the calls, if no seek tells them apart. -/
theorem feof_eq_asked (h : Opened P σ d kind src fp) (hstart : kind.Answers src {})
    (hok : Along (StreamCall.spec src (kind.limit src)) (kind.Keeps src) calls {}) :
    (∃ fp', MProg.run DevOp.handle (MProg.calls (StreamCall.run P) calls fp) σ d =
        some (((specCalls (StreamCall.spec src (kind.limit src)) calls {}).1, fp'), σ, d) ∧
      feof fp' = (specCalls (StreamCall.spec src (kind.limit src)) calls {}).2.asked) ∧
    ∀ {P' σ' d' kind' fp'}, Opened P' σ' d' kind' src fp' → kind'.Answers src {} →
      Along (StreamCall.spec src (kind'.limit src)) (kind'.Keeps src) calls {} →
      Along (StreamCall.spec src src.len) (StreamCall.NotBehind src) calls {} →
      ∃ rs e e', MProg.run DevOp.handle (MProg.calls (StreamCall.run P) calls fp) σ d =
          some ((rs, e), σ, d) ∧
        MProg.run DevOp.handle (MProg.calls (StreamCall.run P') calls fp') σ' d' =
          some ((rs, e'), σ', d') ∧ feof e = feof e' := by
  obtain ⟨e, hrun, heof⟩ := h.run_calls hstart hok
  refine ⟨⟨e, hrun, heof⟩, fun {P' σ' d' kind' fp'} h' hstart' hok' hbehind => ?_⟩
  obtain ⟨e', hrun', heof'⟩ := h'.run_calls hstart' hok'
  have hsame : ∀ kind : StreamKind, specCalls (StreamCall.spec src (kind.limit src)) calls {} =
      specCalls (StreamCall.spec src src.len) calls {} := fun kind =>
    (specCalls_congr (fun call x hcall hx => hcall.spec_eq h.len_le hx kind) hbehind
      (Nat.zero_le _)).1
  rw [hsame] at hrun heof hrun' heof'
  exact ⟨_, e, e', hrun, hrun', by rw [heof, heof']⟩

/-! ### Samples -/

/-- One byte, in ROM and in two files. -/
def oneByte : Image := ⟨ascii "A", by decide⟩

def oneFile : Path := ascii "/lua/a.txt"

def oneDisk : Disk := fun _ => some (ascii "A")

def oneItem : UncompressFileItem := ⟨oneFile, 0, 1⟩

/-- A line that the end of the file ends: `feof` answers correctly for a file and for an entry. -/
theorem feof_eq_asked_line :
    (∃ fp', MProg.run DevOp.handle (MProg.calls (StreamCall.run (romPlatform oneByte)) [.fgets 10]
        (fileStream SRD oneFile)) {} oneDisk = some (([.line (some (ascii "A"))], fp'), {}, oneDisk) ∧
      feof fp' = true) ∧
    ∃ rs e e', MProg.run DevOp.handle (MProg.calls (StreamCall.run (romPlatform oneByte)) [.fgets 10]
        (fileStream SRD oneFile)) {} oneDisk = some ((rs, e), {}, oneDisk) ∧
      MProg.run DevOp.handle (MProg.calls (StreamCall.run (romPlatform oneByte)) [.fgets 10]
        (tableStream .flash oneFile oneItem)) {} (fun _ => none) = some ((rs, e'), {}, fun _ => none) ∧
      feof e = feof e' := by
  have hfile : Opened (romPlatform oneByte) {} oneDisk .file (.ofBytes (ascii "A"))
      (fileStream SRD oneFile) := .file rfl (by decide) (by decide) (Or.inl rfl)
  have hflash : Opened (romPlatform oneByte) {} (fun _ => none) (.flash oneFile)
      (.ofBytes (ascii "A")) (tableStream .flash oneFile oneItem) :=
    .flash rfl (by decide) fun _ _ hlt =>
      flashRead_plain (c := ascii "A") (by decide) (by decide) hlt
  have hok : Along (StreamCall.spec (.ofBytes (ascii "A")) fileLimit)
      (StreamKind.Keeps (.ofBytes (ascii "A")) .file) [.fgets 10] {} :=
    ⟨fun _ => Or.inl (by decide), trivial⟩
  have hlaw := feof_eq_asked hfile trivial hok
  refine ⟨hlaw.1, hlaw.2 hflash ?_ ⟨⟨fun _ => windowFits_one (by decide) _, ?_⟩, trivial⟩
    ⟨trivial, trivial⟩⟩
  · change 0 = 1 → _
    omega
  · intro _
    decide

/-- On one byte: a file does not notice that a read was cut short, and keeps the flag in a seek; an
encrypted file does not notice its end; an entry is at its end before it was asked for more. -/
theorem not_feof_eq_asked :
    ((MProg.run DevOp.handle (MProg.calls (StreamCall.run (romPlatform oneByte)) [.fread 1 2]
          (fileStream SRD oneFile)) {} oneDisk).map fun r => feof r.1.2) = some false ∧
      ((MProg.run DevOp.handle (MProg.calls (StreamCall.run (romPlatform oneByte))
          [.getc, .getc, .fseek 0 .SEEK_SET] (fileStream SRD oneFile)) {} oneDisk).map
        fun r => feof r.1.2) = some true ∧
      ((MProg.run DevOp.handle (MProg.calls (StreamCall.run (romPlatform oneByte)) [.getc, .getc]
          (fileStream SRD encFile)) {} oneDisk).map fun r => feof r.1.2) = some false ∧
      ((MProg.run DevOp.handle (MProg.calls (StreamCall.run (romPlatform oneByte)) [.getc]
          (tableStream .flash oneFile oneItem)) {} oneDisk).map fun r => feof r.1.2) = some true ∧
      (∀ limit, ([[.fread 1 2], [.getc, .getc, .fseek 0 .SEEK_SET], [.getc, .getc], [.getc]].map
        fun calls => (specCalls (StreamCall.spec (.ofBytes (ascii "A")) limit) calls {}).2.asked) =
          [true, false, true, false]) := by
  refine ⟨by decide +kernel, by decide +kernel, by decide +kernel, by decide +kernel, fun limit => ?_⟩
  simp [specCalls, StreamCall.spec, Source.seek, Source.target, Source.getc, Source.advance,
    Source.ofBytes, ascii]

end OsdCore
