import OsdCore.Prog.Calls
import OsdCore.Stdio.Table

/-!
# Streams as readers

A script seeks in a stream and reads it, in pieces, by characters or by lines (`StreamCall`).  What it
reads is a `Source`: a length, and the bytes that a read at a position gives.  Its `Place` is the
position, and whether a read asked for more than there was since the last seek.

* `Reads` : a kind of stream follows a source, call by call.
* `Reads.call` : then it does so in every call, by characters and by lines too.
-/

namespace OsdCore

/-- What is read. -/
structure Source where
  len : ℕ
  read : ℕ → ℕ → Bytes
  length_read : ∀ pos n, (read pos n).length = min n (len - pos)

/-- The source of some bytes. -/
def Source.ofBytes (b : Bytes) : Source where
  len := b.length
  read pos n := (b.drop pos).take n
  length_read pos n := by rw [List.length_take, List.length_drop]

/-- Where a reader is. -/
structure Place where
  pos : ℕ := 0
  /-- A read since the last seek asked for more bytes than remained. -/
  asked : Bool := false
deriving DecidableEq, Repr

/-- A call of a script. -/
inductive StreamCall where
  | fseek (offset : ℤ) (whence : Whence)
  | fread (size count : ℕ)
  | getc
  | ungetc
  | fgets (n : ℤ)
deriving DecidableEq, Repr

/-- What it gives. -/
inductive CallResult where
  | code (r : ℤ)
  | items (count : ℕ) (buf : Bytes)
  | line (s : Option Bytes)
deriving DecidableEq, Repr

/-- Make a call on a stream. -/
def StreamCall.run (P : Platform) (c : StreamCall) (fp : FILE) : StdioM (CallResult × FILE) :=
  match c with
  | fseek offset whence => do
    let r ← Stdio.fseek fp offset whence
    pure (.code r.1, r.2)
  | fread size count => do
    let r ← Stdio.fread P size count fp
    pure (.items r.1 r.2.1, r.2.2)
  | getc => do
    let r ← Stdio.getc P fp
    pure (.code r.1, r.2)
  | ungetc => do
    let r ← Stdio.ungetc fp
    pure (.code r.1, r.2)
  | fgets n => do
    let r ← Stdio.fgets P n fp
    pure (.line r.1, r.2)

/-! ### Calls on a source -/

namespace Source

variable (src : Source)

/-- The position that a seek asks for. -/
def target (pos : ℕ) (offset : ℤ) : Whence → ℤ
  | .SEEK_SET => offset
  | .SEEK_CUR => pos + offset
  | .SEEK_END => src.len + offset

/-- A seek to a position up to `limit`. -/
def seek (limit : ℕ) (offset : ℤ) (whence : Whence) (x : Place) : ℤ × Place :=
  if 0 ≤ src.target x.pos offset whence ∧ src.target x.pos offset whence ≤ limit then
    (0, { pos := (src.target x.pos offset whence).toNat })
  else (-1, x)

/-- A read of at most `n` bytes moves the place on. -/
def advance (n : ℕ) (x : Place) : Place where
  pos := x.pos + min n (src.len - x.pos)
  asked := x.asked || decide (src.len - x.pos < n)

/-- Read one character. -/
def getc (x : Place) : ℤ × Place :=
  (if x.pos < src.len then Stdio.toChar ((src.read x.pos 1).headD 0) else -1, src.advance 1 x)

end Source

/-- The call on a source, in which one can seek up to `limit`. -/
def StreamCall.spec (src : Source) (limit : ℕ) : StreamCall → Place → CallResult × Place
  | fseek offset whence, x => (.code (src.seek limit offset whence x).1, (src.seek limit offset whence x).2)
  | fread size count, x =>
    (.items (min (count * size % 2 ^ 32) (src.len - x.pos) / size)
      (src.read x.pos (count * size % 2 ^ 32)), src.advance (count * size % 2 ^ 32) x)
  | getc, x => (.code (src.getc x).1, (src.getc x).2)
  | ungetc, x => (.code 0, (src.seek limit (-1) .SEEK_CUR x).2)
  | fgets n, x => (.line (Stdio.fgetsOf (m := Id) src.getc n x).1, (Stdio.fgetsOf (m := Id) src.getc n x).2)

/-- The conditions on a call, given those on a seek and on a read of `n` bytes. -/
def StreamCall.Meets (okSeek : ℤ → Whence → Place → Prop) (okRead : ℕ → Place → Prop) :
    StreamCall → Place → Prop
  | fseek offset whence, x => okSeek offset whence x
  | fread size count, x => okRead (count * size % 2 ^ 32) x
  | getc, x => okRead 1 x
  | ungetc, x => okSeek (-1) .SEEK_CUR x
  | fgets n, x => 1 < n → okRead 1 x

theorem StreamCall.Meets.mono {okSeek okSeek' : ℤ → Whence → Place → Prop}
    {okRead okRead' : ℕ → Place → Prop} {call : StreamCall} {x : Place}
    (h : call.Meets okSeek okRead x)
    (hseek : ∀ offset whence, okSeek offset whence x → okSeek' offset whence x)
    (hread : ∀ n, okRead n x → okRead' n x) : call.Meets okSeek' okRead' x := by
  cases call with
  | fseek offset whence => exact hseek _ _ h
  | fread size count => exact hread _ h
  | getc => exact hread _ h
  | ungetc => exact hseek _ _ h
  | fgets n => exact fun hn => hread _ (h hn)

namespace Stdio

variable {σ : StdioState} {d : Disk} {P : Platform} {src : Source} {limit : ℕ}
variable {Rel : Place → FILE → Prop} {okSeek : ℤ → Whence → Place → Prop} {okRead : ℕ → Place → Prop}

/-- How a call on a stream ends, if it is a call on a source that gives `res`. -/
def EndsAs {R : Type} (Rel : Place → FILE → Prop) (σ : StdioState) (d : Disk) (res : R × Place) :
    R × FILE → StdioState → Disk → Prop :=
  fun r σ' d' => r.1 = res.1 ∧ Rel res.2 r.2 ∧ σ' = σ ∧ d' = d

/-- A rule for the device without faults. -/
abbrev Rule {α : Type} (σ : StdioState) (d : Disk) (x : StdioM α) (Q : α → StdioState → Disk → Prop) :
    Prop :=
  MProg.wpc (device .none) (fun _ => True) False x Q σ d

/-- The device without faults is a function. -/
theorem wpc_handle {α : Type} {C : Disk → Prop} {ub : Prop} {x : StdioM α}
    {Q : α → StdioState → Disk → Prop} (h : MProg.wpc (device .none) C ub x Q σ d) :
    MProg.wpc (.ofFun DevOp.handle) C ub x Q σ d :=
  Prog.wpc_device h (fun _ _ _ _ hst => device_none_step.2 hst) fun _ _ _ => False.elim

/-- What a rule says about the run. -/
theorem Rule.exists_run {α : Type} {x : StdioM α} {Q : α → StdioState → Disk → Prop}
    (h : Rule σ d x Q) : ∃ a σ' d', MProg.run DevOp.handle x σ d = some (a, σ', d') ∧ Q a σ' d' :=
  (MProg.run_of_wpc (wpc_handle h)).resolve_right fun hstuck => hstuck.2

/-- **The streams `Rel` follow the source**, in seeks and in reads. -/
structure Reads (P : Platform) (src : Source) (limit : ℕ) (Rel : Place → FILE → Prop)
    (okSeek : ℤ → Whence → Place → Prop) (okRead : ℕ → Place → Prop) (σ : StdioState) (d : Disk) :
    Prop where
  kind : (∀ x fp, Rel x fp → fp.isUncompress = true) ∨ ∀ x fp, Rel x fp → fp.isUncompress = false
  seek : ∀ x fp offset whence, okSeek offset whence x → Rel x fp →
    Rule σ d (fseek fp offset whence) (EndsAs Rel σ d (src.seek limit offset whence x))
  read : ∀ x fp size count n, count * size % 2 ^ 32 = n → okRead n x → Rel x fp →
    Rule σ d (fread P size count fp) fun r σ' d' =>
      r.1 = min n (src.len - x.pos) / size ∧ r.2.1 = src.read x.pos n ∧ Rel (src.advance n x) r.2.2 ∧
        σ' = σ ∧ d' = d

/-- `fread` of a table entry does not move it before it reads. -/
theorem fread_of_isUncompress {fp : FILE} (h : fp.isUncompress = true) (size count : ℕ) :
    fread P size count fp = freadExt P size (count * size % 2 ^ 32) fp := by
  have htell : ftell fp = pure (fp.offset, fp) := by
    rw [ftell, if_pos h]
    rfl
  simp only [fread, htell, pure_bind, h, ↓reduceIte]

theorem getc_eq (fp : FILE) : getc P fp = getcOf P (fread P) fp := by
  unfold getc
  split_ifs with h
  · simp only [getcExt, getcOf, fread_of_isUncompress h]
  · rfl

theorem ungetc_eq (fp : FILE) : ungetc fp = (do
    let r ← fseek fp (-1) .SEEK_CUR
    pure (0, r.2)) := by
  unfold ungetc
  split_ifs with h
  · simp only [ungetcExt, fseek, h, ↓reduceIte]
  · rfl

namespace Reads

variable (h : Reads P src limit Rel okSeek okRead σ d) {x : Place} {fp : FILE}

include h

/-- One character. -/
theorem getc (hok : okRead 1 x) (hrel : Rel x fp) :
    Rule σ d (Stdio.getc P fp) (EndsAs Rel σ d (src.getc x)) := by
  rw [getc_eq, Rule, getcOf, MProg.wpc_bind]
  refine MProg.wpc_mono (h.read x fp 1 1 1 rfl hok hrel) fun r σ' d' _ hr => ⟨trivial, ?_⟩
  obtain ⟨hcount, hbuf, hrel', rfl, rfl⟩ := hr
  refine ⟨?_, hrel', rfl, rfl⟩
  have hlen := src.length_read x.pos 1
  rw [hcount, hbuf, Nat.div_one]
  unfold Source.getc
  by_cases hlt : x.pos < src.len
  · have hone : min 1 (src.len - x.pos) = 1 := by omega
    rw [hone] at hlen
    obtain ⟨b, hb⟩ := List.length_eq_one_iff.1 hlen
    simp [hone, hlt, hb, overlay]
  · have hzero : min 1 (src.len - x.pos) = 0 := by omega
    simp [hzero, hlt]

/-- The loop of `fgets`. -/
theorem fgetsLoop {get : FILE → StdioM (ℤ × FILE)}
    (hget : ∀ x fp, okRead 1 x → Rel x fp → Rule σ d (get fp) (EndsAs Rel σ d (src.getc x)))
    (hclosed : ∀ x, okRead 1 x → okRead 1 (src.getc x).2) (n : ℕ) (c : ℤ) (hok : okRead 1 x)
    (hrel : Rel x fp) :
    Rule σ d (Stdio.fgetsLoop get n c fp)
      (EndsAs Rel σ d (Stdio.fgetsLoop (m := Id) src.getc n c x)) := by
  induction n generalizing c x fp with
  | zero => exact ⟨trivial, rfl, hrel, rfl, rfl⟩
  | succ n ih =>
    simp only [Rule, Stdio.fgetsLoop]
    by_cases heof : c = -1
    · simp only [heof, ↓reduceIte]
      exact ⟨trivial, rfl, hrel, rfl, rfl⟩
    by_cases hnl : c = 0x0A
    · simp only [hnl, ↓reduceIte]
      exact ⟨trivial, rfl, hrel, rfl, rfl⟩
    simp only [heof, hnl, ↓reduceIte, MProg.wpc_bind]
    refine MProg.wpc_mono (hget x fp hok hrel) fun r σ' d' _ hr => ?_
    obtain ⟨hchar, hrel', rfl, rfl⟩ := hr
    rw [hchar]
    refine MProg.wpc_mono (ih (src.getc x).1 (hclosed x hok) hrel') fun r' σ'' d'' _ hr' => ?_
    obtain ⟨hrest, hrel'', rfl, rfl⟩ := hr'
    refine ⟨trivial, ?_, hrel'', rfl, rfl⟩
    rw [hrest]
    rfl

theorem fgets (hclosed : ∀ x, okRead 1 x → okRead 1 (src.getc x).2) (n : ℤ)
    (hok : 1 < n → okRead 1 x) (hrel : Rel x fp) :
    Rule σ d (Stdio.fgets P n fp) (EndsAs Rel σ d (Stdio.fgetsOf (m := Id) src.getc n x)) := by
  -- with the `getc` of the kind of stream
  have hof : ∀ get : FILE → StdioM (ℤ × FILE),
      (∀ x fp, okRead 1 x → Rel x fp → Rule σ d (get fp) (EndsAs Rel σ d (src.getc x))) →
      Rule σ d (fgetsOf get n fp) (EndsAs Rel σ d (fgetsOf (m := Id) src.getc n x)) := by
    intro get hget
    simp only [Rule, fgetsOf]
    by_cases hn : n ≤ 1
    · simp only [hn, ↓reduceIte]
      exact ⟨trivial, rfl, hrel, rfl, rfl⟩
    replace hok := hok (by omega)
    simp only [hn, ↓reduceIte, MProg.wpc_bind]
    refine MProg.wpc_mono (hget x fp hok hrel) fun r σ' d' _ hr => ?_
    obtain ⟨hchar, hrel', rfl, rfl⟩ := hr
    rw [hchar]
    by_cases heof : (src.getc x).1 = -1
    · simp only [heof, ↓reduceIte]
      refine ⟨trivial, ?_, ?_, rfl, rfl⟩ <;> simp only [bind, heof, ↓reduceIte]
      · rfl
      · exact hrel'
    · simp only [heof, ↓reduceIte, MProg.wpc_bind]
      refine MProg.wpc_mono (h.fgetsLoop hget hclosed _ _ (hclosed x hok) hrel')
        fun r' σ'' d'' _ hr' => ?_
      obtain ⟨hrest, hrel'', rfl, rfl⟩ := hr'
      refine ⟨trivial, ?_, ?_, rfl, rfl⟩ <;> simp only [bind, heof, ↓reduceIte]
      · rw [hrest]
        rfl
      · exact hrel''
  unfold Stdio.fgets
  rcases h.kind with hkind | hkind
  · rw [if_pos (hkind x fp hrel)]
    refine hof _ fun x fp hok hrel => ?_
    have hget := h.getc hok hrel
    rwa [Stdio.getc, if_pos (hkind x fp hrel)] at hget
  · rw [if_neg (by rw [hkind x fp hrel]; exact Bool.false_ne_true)]
    exact hof _ fun x fp hok hrel => h.getc hok hrel

/-- **Every call does what it does to the source.** -/
theorem call (hclosed : ∀ x, okRead 1 x → okRead 1 (src.getc x).2) (c : StreamCall)
    (hok : c.Meets okSeek okRead x) (hrel : Rel x fp) :
    ∃ fp', MProg.run DevOp.handle (c.run P fp) σ d = some (((c.spec src limit x).1, fp'), σ, d) ∧
      Rel (c.spec src limit x).2 fp' := by
  have hrule : Rule σ d (c.run P fp) (EndsAs Rel σ d (c.spec src limit x)) := by
    cases c with
    | fseek offset whence =>
      simp only [Rule, StreamCall.run, MProg.wpc_bind]
      refine MProg.wpc_mono (h.seek x fp offset whence hok hrel) fun r σ' d' _ hr => ?_
      obtain ⟨hcode, hrel', rfl, rfl⟩ := hr
      exact ⟨trivial, by rw [hcode]; rfl, hrel', rfl, rfl⟩
    | fread size count =>
      simp only [Rule, StreamCall.run, MProg.wpc_bind]
      refine MProg.wpc_mono (h.read x fp size count _ rfl hok hrel) fun r σ' d' _ hr => ?_
      obtain ⟨hcount, hbuf, hrel', rfl, rfl⟩ := hr
      exact ⟨trivial, by rw [hcount, hbuf]; rfl, hrel', rfl, rfl⟩
    | getc =>
      simp only [Rule, StreamCall.run, MProg.wpc_bind]
      refine MProg.wpc_mono (h.getc hok hrel) fun r σ' d' _ hr => ?_
      obtain ⟨hchar, hrel', rfl, rfl⟩ := hr
      exact ⟨trivial, by rw [hchar]; rfl, hrel', rfl, rfl⟩
    | ungetc =>
      simp only [Rule, StreamCall.run, ungetc_eq, MProg.wpc_bind]
      refine MProg.wpc_mono (h.seek x fp (-1) .SEEK_CUR hok hrel) fun r σ' d' _ hr => ?_
      obtain ⟨-, hrel', rfl, rfl⟩ := hr
      exact ⟨trivial, trivial, rfl, hrel', rfl, rfl⟩
    | fgets n =>
      simp only [Rule, StreamCall.run, MProg.wpc_bind]
      refine MProg.wpc_mono (h.fgets hclosed n hok hrel) fun r σ' d' _ hr => ?_
      obtain ⟨hline, hrel', rfl, rfl⟩ := hr
      exact ⟨trivial, by rw [hline]; rfl, hrel', rfl, rfl⟩
  obtain ⟨r, σ', d', hrun, hres, hrel', rfl, rfl⟩ := hrule.exists_run
  exact ⟨r.2, by rw [hrun, ← hres], hrel'⟩

/-- So does every sequence of calls. -/
theorem calls (hclosed : ∀ x, okRead 1 x → okRead 1 (src.getc x).2) {cs : List StreamCall}
    (hok : Along (StreamCall.spec src limit) (StreamCall.Meets okSeek okRead) cs x) (hrel : Rel x fp) :
    ∃ fp', MProg.run DevOp.handle (MProg.calls (StreamCall.run P) cs fp) σ d =
        some (((specCalls (StreamCall.spec src limit) cs x).1, fp'), σ, d) ∧
      Rel (specCalls (StreamCall.spec src limit) cs x).2 fp' :=
  MProg.run_calls (fun c _ _ hc hr => h.call hclosed c hc hr) hok hrel

end Reads

end Stdio

end OsdCore
