import OsdCore.Format.CString

/-!
# The debug port: `debugPortWrite` and `debugPortFlush` of `platform_uart.c`

What is written to the port is gathered in a buffer and printed a buffer at a time.  The format
interpreter of `print` reads two percent signs as one, so a percent sign is stored twice.

* `DebugPort` : the buffer, its fill count, and what has been printed.
* `debugPortByte` : one round of the loop; `none` is a store outside the buffer.
* `doublePercent`, `readPercent` : what is done to a text, and what `print` makes of it.
* `DebugPort.Shows` : the invariant; the prints and the pending bytes are the text, cut between
  characters.
-/

namespace OsdCore

/-! ### The functions -/

/-- `sizeof(debugStdoutBuffer)`. -/
def DEBUG_STDOUT_SIZE : ℕ := 128

/-- The state of the port. -/
structure DebugPort where
  debugStdoutBuffer : Bytes
  debugStdoutCachedCount : ℕ
  /-- The strings that `print` was given. -/
  printed : List Bytes
deriving DecidableEq, Repr

/-- After `platform_uart_setup`. -/
def debugPortInit : DebugPort :=
  { debugStdoutBuffer := List.replicate DEBUG_STDOUT_SIZE 0
    debugStdoutCachedCount := 0
    printed := [] }

/-- `debugStdoutBuffer[debugStdoutCachedCount++] = data`. -/
def DebugPort.store (p : DebugPort) (data : UInt8) : Option DebugPort :=
  if p.debugStdoutCachedCount < p.debugStdoutBuffer.length then
    some { p with
      debugStdoutBuffer := p.debugStdoutBuffer.set p.debugStdoutCachedCount data
      debugStdoutCachedCount := p.debugStdoutCachedCount + 1 }
  else none

/-- `debugPortFlush`. -/
def debugPortFlush (p : DebugPort) : Option DebugPort :=
  if p.debugStdoutCachedCount = 0 then some p
  else if p.debugStdoutCachedCount < p.debugStdoutBuffer.length then
    some {
      debugStdoutBuffer := List.replicate DEBUG_STDOUT_SIZE 0
      debugStdoutCachedCount := 0
      printed := p.printed ++ [cstr (p.debugStdoutBuffer.set p.debugStdoutCachedCount 0)] }
  else none

/-- `'\r'`. -/
def CR : UInt8 := 13

/-- `'\n'`. -/
def LF : UInt8 := 10

/-- `'%'`. -/
def PERCENT : UInt8 := 37

/-- One round of the loop of `debugPortWrite`. -/
def debugPortByte (p : DebugPort) (data : UInt8) : Option DebugPort :=
  if data = CR ∨ data = LF then debugPortFlush p
  else if data = PERCENT then
    if p.debugStdoutCachedCount < DEBUG_STDOUT_SIZE - 2 then
      (p.store data).bind fun p => p.store data
    else
      (debugPortFlush p).bind fun p => (p.store data).bind fun p => p.store data
  else if p.debugStdoutCachedCount < DEBUG_STDOUT_SIZE - 1 then p.store data
  else (debugPortFlush p).bind fun p => p.store data

/-- `debugPortWrite`; `none` also where the buffer is shorter than `len`. -/
def debugPortWrite (p : DebugPort) (buff : Bytes) (len : UInt16) : Option DebugPort :=
  if len.toNat ≤ buff.length then (buff.take len.toNat).foldlM debugPortByte p else none

/-! ### Percent signs -/

/-- A text with its percent signs stored twice. -/
def doublePercent (text : Bytes) : Bytes :=
  text.flatMap fun c => if c = PERCENT then [c, c] else [c]

/-- What `print` makes of a format: two percent signs are one. -/
def readPercent : Bytes → Bytes
  | [] => []
  | [c] => [c]
  | c :: d :: rest =>
    if c = PERCENT ∧ d = PERCENT then c :: readPercent rest else c :: readPercent (d :: rest)

@[simp] theorem doublePercent_nil : doublePercent [] = [] := rfl

@[simp] theorem doublePercent_append (a b : Bytes) :
    doublePercent (a ++ b) = doublePercent a ++ doublePercent b := List.flatMap_append

theorem doublePercent_flatten (texts : List Bytes) :
    doublePercent texts.flatten = (texts.map doublePercent).flatten := by
  induction texts with
  | nil => rfl
  | cons text texts ih => simp [ih]

theorem doublePercent_singleton (c : UInt8) :
    doublePercent [c] = if c = PERCENT then [c, c] else [c] := by
  simp [doublePercent]

theorem readPercent_cons {c : UInt8} (h : c ≠ PERCENT) (rest : Bytes) :
    readPercent (c :: rest) = c :: readPercent rest := by
  cases rest with
  | nil => rfl
  | cons d rest => simp [readPercent, h]

/-- What is stored is read as the text. -/
theorem readPercent_doublePercent (text : Bytes) : readPercent (doublePercent text) = text := by
  induction text with
  | nil => rfl
  | cons c text ih =>
    have hcons : doublePercent (c :: text) = doublePercent [c] ++ doublePercent text :=
      doublePercent_append [c] text
    rw [hcons, doublePercent_singleton]
    by_cases hc : c = PERCENT
    · rw [if_pos hc]
      simp [readPercent, hc, ih]
    · rw [if_neg hc]
      simp [readPercent_cons hc, ih]

theorem zero_notMem_doublePercent {text : Bytes} (h : 0 ∉ text) : 0 ∉ doublePercent text := by
  intro hz
  obtain ⟨c, hc, hz⟩ := List.mem_flatMap.1 hz
  have hzc : (0 : UInt8) = c := by
    split at hz
    · simpa using hz
    · simpa using hz
  exact h (hzc ▸ hc)

/-! ### The invariant -/

/-- The bytes that have not been printed. -/
def DebugPort.pending (p : DebugPort) : Bytes := p.debugStdoutBuffer.take p.debugStdoutCachedCount

/-- A text without its line ends. -/
def oneLine (s : Bytes) : Bytes := s.filter fun c => ¬ (c = CR ∨ c = LF)

theorem oneLine_end {s : Bytes} {c : UInt8} (h : c = CR ∨ c = LF) : oneLine (s ++ [c]) = oneLine s := by
  rcases h with rfl | rfl <;> simp [oneLine]

/-- What has been written is `s`: the prints are pieces of it and the pending bytes are the rest, each
of them a text with its percent signs doubled. -/
structure DebugPort.Shows (p : DebugPort) (s : Bytes) : Prop where
  length_buffer : p.debugStdoutBuffer.length = DEBUG_STDOUT_SIZE
  count_le : p.debugStdoutCachedCount ≤ 127
  texts : ∃ texts : List Bytes, ∃ text : Bytes, p.printed = texts.map doublePercent ∧
    p.pending = doublePercent text ∧ 0 ∉ text ∧ texts.flatten ++ text = oneLine s

theorem take_set_succ {α : Type} (l : List α) {n : ℕ} (h : n < l.length) (a : α) :
    (l.set n a).take (n + 1) = l.take n ++ [a] := by
  rw [List.take_succ_eq_append_getElem (by simpa using h), List.getElem_set_self,
    List.take_set_of_le (le_refl n)]

/-- A buffer that ends with a NUL at `n` is the C string of the bytes before. -/
theorem cstr_set_zero {b : Bytes} {n : ℕ} (h : n < b.length) (hz : 0 ∉ b.take n) :
    cstr (b.set n 0) = b.take n := by
  have hsplit : b.set n 0 = b.take n ++ 0 :: b.drop (n + 1) := by
    rw [List.set_eq_take_append_cons_drop, if_pos h]
  rw [cstr, hsplit, List.takeWhile_append_of_pos]
  · simp
  · intro c hc
    simp only [ne_eq, decide_eq_true_eq]
    rintro rfl
    exact hz hc

/-- One store takes the byte behind the pending ones. -/
theorem DebugPort.store_eq {p : DebugPort} (h : p.debugStdoutCachedCount < p.debugStdoutBuffer.length)
    (data : UInt8) : ∃ p', p.store data = some p' ∧ p'.pending = p.pending ++ [data] ∧
      p'.printed = p.printed ∧ p'.debugStdoutBuffer.length = p.debugStdoutBuffer.length ∧
      p'.debugStdoutCachedCount = p.debugStdoutCachedCount + 1 := by
  refine ⟨_, if_pos h, ?_, rfl, List.length_set, rfl⟩
  exact take_set_succ _ h data

namespace DebugPort.Shows

variable {p : DebugPort} {s : Bytes}

theorem init : debugPortInit.Shows [] := by
  refine ⟨List.length_replicate, Nat.zero_le _, [], [], rfl, rfl, List.not_mem_nil, rfl⟩

/-- A flush prints the pending bytes, all of them. -/
theorem flush (h : p.Shows s) : ∃ p', debugPortFlush p = some p' ∧ p'.Shows s ∧
    p'.debugStdoutCachedCount = 0 := by
  have hlen := h.length_buffer
  have hcount := h.count_le
  unfold DEBUG_STDOUT_SIZE at hlen
  unfold debugPortFlush
  by_cases hzero : p.debugStdoutCachedCount = 0
  · exact ⟨p, if_pos hzero, h, hzero⟩
  · rw [if_neg hzero, if_pos (by omega)]
    refine ⟨_, rfl, ?_, rfl⟩
    obtain ⟨texts, text, hprinted, hpending, hnul, hs⟩ := h.texts
    refine ⟨List.length_replicate, Nat.zero_le _, texts ++ [text], [], ?_, rfl, List.not_mem_nil, ?_⟩
    · have hz : 0 ∉ p.debugStdoutBuffer.take p.debugStdoutCachedCount := by
        have hpend := zero_notMem_doublePercent hnul
        rwa [← hpending] at hpend
      rw [cstr_set_zero (by omega) hz]
      have hcut : p.debugStdoutBuffer.take p.debugStdoutCachedCount = doublePercent text := hpending
      simp [hprinted, hcut]
    · simp [hs]

/-- A character that is stored behind the pending ones, where its bytes fit. -/
theorem extend (h : p.Shows s) {p' : DebugPort} {c : UInt8} (hc : c ≠ CR ∧ c ≠ LF) (hz : c ≠ 0)
    (hpend : p'.pending = p.pending ++ doublePercent [c]) (hprinted : p'.printed = p.printed)
    (hlen : p'.debugStdoutBuffer.length = p.debugStdoutBuffer.length)
    (hcount : p'.debugStdoutCachedCount ≤ 127) : p'.Shows (s ++ [c]) := by
  obtain ⟨texts, text, ht, hp, hnul, hs⟩ := h.texts
  refine ⟨hlen.trans h.length_buffer, hcount, texts, text ++ [c], hprinted.trans ht, ?_, ?_, ?_⟩
  · rw [hpend, hp, doublePercent_append]
  · simp [hnul, hz.symm]
  · rw [← List.append_assoc, hs]
    simp [oneLine, hc]

/-- A plain character. -/
theorem plain (h : p.Shows s) {c : UInt8} (hc : c ≠ CR ∧ c ≠ LF) (hz : c ≠ 0) (hp : c ≠ PERCENT)
    (hroom : p.debugStdoutCachedCount < 127) : ∃ p', p.store c = some p' ∧ p'.Shows (s ++ [c]) := by
  have hlen := h.length_buffer
  unfold DEBUG_STDOUT_SIZE at hlen
  obtain ⟨p', hstore, hpend, hprinted, hlen', hcount⟩ := p.store_eq (by omega) c
  refine ⟨p', hstore, h.extend hc hz ?_ hprinted hlen' (by omega)⟩
  rw [hpend, doublePercent_singleton, if_neg hp]

/-- A percent sign. -/
theorem percent (h : p.Shows s) (hroom : p.debugStdoutCachedCount < 126) :
    ∃ p', ((p.store PERCENT).bind fun p => p.store PERCENT) = some p' ∧
      p'.Shows (s ++ [PERCENT]) := by
  have hlen := h.length_buffer
  unfold DEBUG_STDOUT_SIZE at hlen
  obtain ⟨p₁, hstore₁, hpend₁, hprinted₁, hlen₁, hcount₁⟩ := p.store_eq (by omega) PERCENT
  obtain ⟨p₂, hstore₂, hpend₂, hprinted₂, hlen₂, hcount₂⟩ := p₁.store_eq (by omega) PERCENT
  refine ⟨p₂, by rw [hstore₁, Option.bind_some, hstore₂], ?_⟩
  refine h.extend (by decide) (by decide) ?_ (hprinted₂.trans hprinted₁) (hlen₂.trans hlen₁)
    (by omega)
  rw [hpend₂, hpend₁, doublePercent_singleton, if_pos rfl, List.append_assoc]
  rfl

/-- **One round.**  Whatever the byte, no store leaves the buffer and the invariant stays. -/
theorem byte (h : p.Shows s) {c : UInt8} (hz : c ≠ 0) :
    ∃ p', debugPortByte p c = some p' ∧ p'.Shows (s ++ [c]) := by
  obtain ⟨pf, hflush, hpf, hempty⟩ := h.flush
  unfold debugPortByte DEBUG_STDOUT_SIZE
  by_cases hend : c = CR ∨ c = LF
  · rw [if_pos hend, hflush]
    obtain ⟨texts, text, ht, hp, hnul, hs⟩ := hpf.texts
    refine ⟨pf, rfl, hpf.length_buffer, hpf.count_le, texts, text, ht, hp, hnul, ?_⟩
    rw [hs, oneLine_end hend]
  · have hc : c ≠ CR ∧ c ≠ LF := not_or.1 hend
    rw [if_neg hend]
    by_cases hp : c = PERCENT
    · subst hp
      rw [if_pos rfl]
      split_ifs with hroom
      · exact h.percent hroom
      · rw [hflush, Option.bind_some]
        exact hpf.percent (by omega)
    · rw [if_neg hp]
      split_ifs with hroom
      · exact h.plain hc hz hp hroom
      · rw [hflush, Option.bind_some]
        exact hpf.plain hc hz hp (by omega)

/-- A run over the bytes of one call. -/
theorem bytes (h : p.Shows s) {buff : Bytes} (hz : 0 ∉ buff) :
    ∃ p', buff.foldlM debugPortByte p = some p' ∧ p'.Shows (s ++ buff) := by
  induction buff generalizing p s with
  | nil => exact ⟨p, rfl, by rwa [List.append_nil]⟩
  | cons c buff ih =>
    rw [List.mem_cons, not_or] at hz
    obtain ⟨p₁, hbyte, hp₁⟩ := h.byte (Ne.symm hz.1)
    obtain ⟨p₂, hrest, hp₂⟩ := ih hp₁ hz.2
    refine ⟨p₂, ?_, by rwa [List.append_assoc] at hp₂⟩
    rw [List.foldlM_cons, hbyte]
    exact hrest

end DebugPort.Shows

/-! ### Every run -/

/-- What one call is given: its length is a `u16`. -/
structure DebugPiece where
  buff : Bytes
  length_lt : buff.length < 2 ^ 16

/-- One call after another. -/
def debugPortRun (p : DebugPort) (pieces : List DebugPiece) : Option DebugPort :=
  pieces.foldlM (fun p piece => debugPortWrite p piece.buff (UInt16.ofNat piece.buff.length)) p

/-- Everything that the calls were given. -/
def debugStream (pieces : List DebugPiece) : Bytes := (pieces.map DebugPiece.buff).flatten

/-- Each percent sign of the string stands beside its double. -/
def WholePercents (b : Bytes) : Prop := ∃ text, b = doublePercent text

/-- What the port has printed and still holds, after `s` was written. -/
structure DebugPort.Prints (p : DebugPort) (s : Bytes) : Prop where
  reads : readPercent (p.printed.flatten ++ p.pending) = oneLine s
  count_le : p.debugStdoutCachedCount ≤ 127
  printed : ∀ text ∈ p.printed, WholePercents text
  pending : WholePercents p.pending

theorem DebugPort.Shows.prints {p : DebugPort} {s : Bytes} (h : p.Shows s) : p.Prints s := by
  obtain ⟨texts, text, hprinted, hpending, -, hs⟩ := h.texts
  constructor
  · rw [hprinted, hpending, ← doublePercent_flatten, ← doublePercent_append,
      readPercent_doublePercent, hs]
  · exact h.count_le
  · intro b hb
    rw [hprinted, List.mem_map] at hb
    obtain ⟨text, -, rfl⟩ := hb
    exact ⟨text, rfl⟩
  · exact ⟨text, hpending⟩

theorem DebugPort.Shows.write {p : DebugPort} {s : Bytes} (h : p.Shows s) {piece : DebugPiece}
    (hz : 0 ∉ piece.buff) :
    ∃ p', debugPortWrite p piece.buff (UInt16.ofNat piece.buff.length) = some p' ∧
      p'.Shows (s ++ piece.buff) := by
  have hlen : (UInt16.ofNat piece.buff.length).toNat = piece.buff.length :=
    UInt16.toNat_ofNat_of_lt' piece.length_lt
  rw [debugPortWrite, hlen, if_pos (le_refl _), List.take_length]
  exact h.bytes hz

theorem DebugPort.Shows.run {p : DebugPort} {s : Bytes} (h : p.Shows s) {pieces : List DebugPiece}
    (hz : ∀ piece ∈ pieces, 0 ∉ piece.buff) :
    ∃ p', debugPortRun p pieces = some p' ∧ p'.Shows (s ++ debugStream pieces) := by
  induction pieces generalizing p s with
  | nil => exact ⟨p, rfl, by rwa [debugStream, List.map_nil, List.flatten_nil, List.append_nil]⟩
  | cons piece pieces ih =>
    obtain ⟨p₁, hwrite, hp₁⟩ := h.write (hz piece List.mem_cons_self)
    obtain ⟨p₂, hrest, hp₂⟩ := ih hp₁ fun q hq => hz q (List.mem_cons_of_mem _ hq)
    refine ⟨p₂, ?_, by rwa [List.append_assoc] at hp₂⟩
    rw [debugPortRun, List.foldlM_cons, hwrite]
    exact hrest

/-- **The debug port.**  After any calls with NUL-free data, `print` has been given the stream without
its line ends, up to what is still pending; the fill count is at most 127, and no pair of percent signs
is split. -/
theorem debugPort_prints (pieces : List DebugPiece) (h : ∀ piece ∈ pieces, 0 ∉ piece.buff) :
    ∃ p, debugPortRun debugPortInit pieces = some p ∧ p.Prints (debugStream pieces) := by
  obtain ⟨p, hrun, hp⟩ := DebugPort.Shows.init.run h
  exact ⟨p, hrun, hp.prints⟩

/-- Two calls, with a percent sign at the end of the first. -/
theorem debugPort_prints_percent :
    ∃ p, debugPortRun debugPortInit
        [⟨ascii "50%", by decide⟩, ⟨ascii "% done\r\n", by decide⟩] = some p ∧
      p.Prints (ascii "50%% done\r\n") :=
  debugPort_prints [⟨ascii "50%", by decide⟩, ⟨ascii "% done\r\n", by decide⟩] (by decide)

end OsdCore
