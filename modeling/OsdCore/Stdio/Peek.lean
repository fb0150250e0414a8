import OsdCore.Stdio.Eof

/-!
# Characters

Lua's loader reads one character and puts it back.  `getc` passes a `char` through an `int`, and `ungetc` is a
seek by -1, whatever was read.

* `Opened.followsPosition` : every kind of stream follows its source at every position up to its end.
* `peeks_iff` : a character is read and put back if and only if it is an ASCII character, or nothing can be read
  at position 0.
-/

namespace OsdCore

/-- The byte that is read at a position. -/
def Source.byteAt (src : Source) (pos : ℕ) : UInt8 := (src.read pos 1).headD 0

/-- The bytes of a source, read one at a time. -/
def Source.content (src : Source) : Bytes := (List.range src.len).map src.byteAt

theorem Source.content_ofBytes (b : Bytes) : (Source.ofBytes b).content = b := by
  apply List.ext_getElem?
  intro i
  by_cases hi : i < b.length
  · simp [Source.content, Source.byteAt, Source.ofBytes, hi, List.head?_take, List.head?_drop]
  · simp [Source.content, Source.ofBytes, hi]

open Stdio

variable {P : Platform} {σ : StdioState} {d : Disk} {kind : StreamKind} {src : Source} {fp : FILE}
variable {Rel : Place → FILE → Prop} {pos : ℕ} {x : Place}

/-- The streams `Rel` follow the source, in reads of one character and in seeks that are not from its end, and
`ftell` tells the position. -/
structure FollowsPosition (P : Platform) (kind : StreamKind) (src : Source) (Rel : Place → FILE → Prop)
    (σ : StdioState) (d : Disk) : Prop where
  reads : Reads P src (kind.limit src) Rel (fun _ whence _ => whence ≠ .SEEK_END)
    (fun n x => n = 1 ∧ x.pos ≤ src.len) σ d
  tell : ∀ x fp, Rel x fp → Rule σ d (ftell fp) fun r σ' d' => r.1 = x.pos ∧ σ' = σ ∧ d' = d

theorem Stdio.Reads.mono {limit : ℕ} {okSeek okSeek' : ℤ → Whence → Place → Prop}
    {okRead okRead' : ℕ → Place → Prop} (h : Reads P src limit Rel okSeek okRead σ d)
    (hseek : ∀ offset whence x, okSeek' offset whence x → okSeek offset whence x)
    (hread : ∀ n x, okRead' n x → okRead n x) : Reads P src limit Rel okSeek' okRead' σ d where
  kind := h.kind
  seek x fp offset whence hok hrel := h.seek x fp offset whence (hseek _ _ _ hok) hrel
  read x fp size count n hn hok hrel := h.read x fp size count n hn (hread _ _ hok) hrel

theorem tell_file {p : Path} (h : FileAt p x.pos fp ∧ x.pos < 2 ^ 31) :
    Rule σ d (ftell fp) fun r σ' d' => r.1 = x.pos ∧ σ' = σ ∧ d' = d :=
  wpc_ftell id trivial h.1 h.2 fun _ _ _ => ⟨rfl, rfl, rfl⟩

theorem tell_table {nSection : TableSection} {file : Path} {item : UncompressFileItem}
    (h : fp = tableAt nSection file item x.pos) :
    Rule σ d (ftell fp) fun r σ' d' => r.1 = x.pos ∧ σ' = σ ∧ d' = d := by
  rw [h, ftell, if_pos (isUncompress_tableAt _)]
  exact ⟨trivial, rfl, rfl, rfl⟩

/-- **Every kind of stream.** -/
theorem Opened.followsPosition (h : Opened P σ d kind src fp) :
    ∃ Rel, FollowsPosition P kind src Rel σ d ∧ Rel {} fp := by
  cases h with
  | @file p c flags hd hc henc hflags =>
    refine ⟨fun x fp => FileAt p x.pos fp ∧ x.pos < 2 ^ 31, ⟨?_, fun x fp => tell_file⟩,
      fileAt_fileStream _ hflags, by decide⟩
    exact (reads_position hd hc henc).mono (fun _ _ _ _ => trivial) fun _ _ _ => trivial
  | @encFile p c flags hd hc henc hflags =>
    refine ⟨fun x fp => FileAt p x.pos fp ∧ x.pos < 2 ^ 31, ⟨?_, fun x fp => tell_file⟩,
      fileAt_fileStream _ hflags, by decide⟩
    refine (reads_encFile hd hc henc).mono (fun _ _ _ _ => trivial) ?_
    rintro n x ⟨rfl, hle⟩
    change x.pos ≤ (P.cipher.plaintext c).length at hle
    rw [P.cipher.length_plaintext] at hle
    exact .inr ⟨hle, by omega⟩
  | @flash file item src hlen hlen31 hread =>
    refine ⟨fun x fp => fp = tableAt .flash file item x.pos ∧ x.pos ≤ src.len,
      ⟨?_, fun x fp h => tell_table h.1⟩, tableAt_zero, Nat.zero_le _⟩
    refine (reads_flash hlen hlen31 hread).mono (fun _ _ _ hne hend => hne hend.1) ?_
    rintro n x ⟨rfl, -⟩
    exact windowFits_one hlen31 x
  | @update file item c hitem hidle htab =>
    refine ⟨fun x fp => fp = tableAt .update file item x.pos ∧ x.pos ≤ c.length,
      ⟨?_, fun x fp h => tell_table h.1⟩, tableAt_zero, Nat.zero_le _⟩
    exact (reads_update hitem hidle htab).mono (fun _ _ _ hne hend => hne hend.1) fun _ _ _ => trivial

/-- Go to a position, read one character, put it back, and tell the position. -/
def Stdio.peek (P : Platform) (pos : ℕ) (fp : FILE) : StdioM (ℤ × ℤ × FILE) := do
  let (_, fp) ← fseek fp pos .SEEK_SET
  let (c, fp) ← getc P fp
  let (_, fp) ← ungetc fp
  let (after, fp) ← ftell fp
  pure (c, after, fp)

theorem Opened.len_le_limit (h : Opened P σ d kind src fp) : src.len ≤ kind.limit src := by
  have hlen := h.len_le
  cases kind with
  | file => exact hlen
  | encFile => exact hlen
  | flash path => exact Nat.le_refl _
  | update => exact Nat.le_refl _

namespace Source

variable {limit : ℕ}

/-- A seek to a position of the source. -/
theorem seek_set (hpos : pos ≤ limit) : src.seek limit pos .SEEK_SET x = (0, { pos := pos }) := by
  have hin : 0 ≤ (pos : ℤ) ∧ (pos : ℤ) ≤ limit := by omega
  rw [seek, target, if_pos hin, Int.toNat_natCast]

/-- A seek by -1. -/
theorem seek_back (hpos : x.pos ≤ limit) : (src.seek limit (-1) .SEEK_CUR x).2.pos = x.pos - 1 := by
  rw [seek, target]
  split_ifs with hin
  · change ((x.pos : ℤ) + -1).toNat = x.pos - 1
    omega
  · change x.pos = x.pos - 1
    omega

end Source

/-- **What `getc` reads, and where `ungetc` goes from there.** -/
theorem Opened.run_peek (h : Opened P σ d kind src fp) (hpos : pos ≤ src.len) :
    ∃ fp', MProg.run DevOp.handle (peek P pos fp) σ d = some ((if pos < src.len then
        (toChar (src.byteAt pos), (pos : ℤ), fp') else (-1, ((pos - 1 : ℕ) : ℤ), fp')), σ, d) := by
  obtain ⟨Rel, hf, hrel⟩ := h.followsPosition
  have hlimit := h.len_le_limit
  have hrule : Rule σ d (peek P pos fp) fun r σ' d' =>
      (r.1 = if pos < src.len then toChar (src.byteAt pos) else -1) ∧
        (r.2.1 = if pos < src.len then (pos : ℤ) else ((pos - 1 : ℕ) : ℤ)) ∧ σ' = σ ∧ d' = d := by
    simp only [Rule, peek, ungetc_eq, MProg.wpc_bind]
    refine MProg.wpc_mono (hf.reads.seek {} fp pos .SEEK_SET (by decide) hrel) ?_
    rintro r σ' d' - ⟨-, hrel₁, rfl, rfl⟩
    rw [Source.seek_set (hpos.trans hlimit)] at hrel₁
    refine MProg.wpc_mono (hf.reads.getc ⟨rfl, hpos⟩ hrel₁) ?_
    rintro r₂ σ₂ d₂ - ⟨hchar, hrel₂, rfl, rfl⟩
    have hle : (src.getc { pos := pos }).2.pos ≤ kind.limit src := by
      change pos + min 1 (src.len - pos) ≤ _
      omega
    refine MProg.wpc_mono (hf.reads.seek _ r₂.2 (-1) .SEEK_CUR (by decide) hrel₂) ?_
    rintro r₃ σ₃ d₃ - ⟨-, hrel₃, rfl, rfl⟩
    refine ⟨trivial, MProg.wpc_mono (hf.tell _ _ hrel₃) ?_⟩
    rintro r₄ σ₄ d₄ - ⟨htell, rfl, rfl⟩
    refine ⟨trivial, hchar, ?_, rfl, rfl⟩
    rw [htell, Source.seek_back hle]
    change ((pos + min 1 (src.len - pos) - 1 : ℕ) : ℤ) = _
    split_ifs with hlt
    · congr 1
      omega
    · congr 1
      omega
  obtain ⟨⟨c, after, fp'⟩, σ', d', hrun, hc, hafter, rfl, rfl⟩ := hrule.exists_run
  refine ⟨fp', ?_⟩
  rw [hrun]
  split_ifs at hc hafter ⊢
  · rw [← hc, ← hafter]
  · rw [← hc, ← hafter]

/-- The byte is read as a value from 0 to 255 that is not `EOF`, the end as `EOF`, and the position is the one
from before. -/
def Peeks (src : Source) (pos : ℕ) (c after : ℤ) : Prop :=
  (pos < src.len → c = (src.byteAt pos).toNat ∧ c ≠ -1) ∧ (pos = src.len → c = -1) ∧ after = pos

theorem toChar_spec (b : UInt8) :
    (toChar b = b.toNat ∧ toChar b ≠ -1) ↔ b < 0x80 := by
  revert b
  apply forall_byte
  decide +kernel

/-- **A character is read and put back if and only if it is an ASCII character, or there is nothing at all.** -/
theorem peeks_iff (h : Opened P σ d kind src fp) (hpos : pos ≤ src.len) :
    ∃ c after fp', MProg.run DevOp.handle (peek P pos fp) σ d = some ((c, after, fp'), σ, d) ∧
      (Peeks src pos c after ↔ (pos < src.len ∧ src.byteAt pos < 0x80) ∨ src.len = 0) := by
  obtain ⟨fp', hrun⟩ := h.run_peek hpos
  by_cases hlt : pos < src.len
  · rw [if_pos hlt] at hrun
    refine ⟨_, _, fp', hrun, ?_⟩
    rw [Peeks, ← toChar_spec]
    constructor
    · rintro ⟨hbyte, -, -⟩
      exact .inl ⟨hlt, hbyte hlt⟩
    · rintro (⟨-, hbyte⟩ | hnone)
      · exact ⟨fun _ => hbyte, fun hend => absurd hlt (by omega), rfl⟩
      · omega
  · rw [if_neg hlt] at hrun
    refine ⟨_, _, fp', hrun, ?_⟩
    constructor
    · rintro ⟨-, -, hafter⟩
      omega
    · rintro (⟨hlt', -⟩ | hnone)
      · exact absurd hlt' hlt
      · exact ⟨fun hlt' => absurd hlt' hlt, fun _ => rfl, by omega⟩

/-- An `A` of a file is read and put back. -/
theorem peeks_letter :
    ∃ c after fp', MProg.run DevOp.handle (peek (romPlatform oneByte) 0 (fileStream SRD oneFile)) {} oneDisk =
        some ((c, after, fp'), {}, oneDisk) ∧ Peeks (.ofBytes (ascii "A")) 0 c after := by
  have hfile : Opened (romPlatform oneByte) {} oneDisk .file (.ofBytes (ascii "A"))
      (fileStream SRD oneFile) := .file rfl (by decide) (by decide) (.inl rfl)
  obtain ⟨c, after, fp', hrun, hpeeks⟩ := @peeks_iff _ _ _ _ _ _ 0 hfile (Nat.zero_le _)
  exact ⟨c, after, fp', hrun, hpeeks.2 (.inl ⟨by decide, by decide⟩)⟩

/-- A byte 0xFF is read as `EOF`; and at the end, where nothing is read, the stream goes back by one. -/
theorem not_peeks :
    ((MProg.run DevOp.handle (peek (romPlatform oneByte) 0 (fileStream SRD oneFile)) {}
        fun _ => some [0xFF]).map fun r => (r.1.1, r.1.2.1)) = some (-1, 0) ∧
      ¬ Peeks (.ofBytes [0xFF]) 0 (-1) 0 ∧
      ((MProg.run DevOp.handle (peek (romPlatform oneByte) 1 (tableStream .flash oneFile oneItem)) {}
        fun _ => none).map fun r => (r.1.1, r.1.2.1)) = some (-1, 0) ∧
      ¬ Peeks (.ofBytes (ascii "A")) 1 (-1) 0 := by
  refine ⟨by decide +kernel, ?_, by decide +kernel, ?_⟩
  · rintro ⟨hbyte, -, -⟩
    exact (hbyte Nat.zero_lt_one).2 rfl
  · rintro ⟨-, -, hafter⟩
    cases hafter

end OsdCore
