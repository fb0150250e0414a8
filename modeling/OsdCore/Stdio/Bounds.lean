import OsdCore.Stdio.Encrypted

/-!
# The bounds of a table entry

A script seeks and reads on the stream of a table entry in any order (`TableCall`).  The position should
stay in the entry, a seek from the end should go there, and `fread_ext` should store bytes of the entry
only.

To speak about the calls of `fseek_ext` and `fread_ext` that `getc_ext`, `ungetc_ext` and `fgets_ext`
make, the calls are made on a stream with a record of them (`Recorded`).

* `run_record` : the record changes nothing.
* `keeps_record` : what seeks and reads keep, the calls keep.
* `table_bounds` : a run stays in the entry exactly if it does not seek from the end with a negative
  offset, and then `fread_ext` stores bytes of the entry if its window covers what it copies.
-/

namespace OsdCore

/-- `SEEK_SET`, `SEEK_CUR` or `SEEK_END`. -/
def Whence.ofInt (whence : ℤ) : Option Whence :=
  if whence = 0 then some SEEK_SET
  else if whence = 1 then some SEEK_CUR
  else if whence = 2 then some SEEK_END
  else none

/-- A call on the stream of a table entry. -/
inductive TableCall where
  | fseek (offset whence : ℤ)
  | fread (size count : ℕ)
  | fgets (n : ℤ)
  | getc
  | ungetc
deriving DecidableEq, Repr

namespace Stdio

/-- `fseek_ext`, with any origin. -/
def fseekInt (fp : FILE) (offset whence : ℤ) : StdioM (ℤ × FILE) :=
  match Whence.ofInt whence with
  | some whence => fseekExt fp offset whence
  | none => pure (-1, fp)

end Stdio

/-- Make the call. -/
def TableCall.run (P : Platform) (c : TableCall) (fp : FILE) : StdioM (CallResult × FILE) :=
  match c with
  | fseek offset whence => do
    let r ← Stdio.fseekInt fp offset whence
    pure (.code r.1, r.2)
  | fread size count => do
    let r ← Stdio.freadExt P size (count * size % 2 ^ 32) fp
    pure (.items r.1 r.2.1, r.2.2)
  | fgets n => do
    let r ← Stdio.fgetsExt P n fp
    pure (.line r.1, r.2)
  | getc => do
    let r ← Stdio.getcExt P fp
    pure (.code r.1, r.2)
  | ungetc => do
    let r ← Stdio.ungetcExt fp
    pure (.code r.1, r.2)

/-! ### The record -/

/-- A call of `fseek_ext`: its arguments, what it returned, and where the stream was then. -/
structure SeekRecord where
  offset : ℤ
  whence : ℤ
  ret : ℤ
  pos : ℤ
deriving DecidableEq, Repr

/-- A call of `fread_ext`: where the stream was, how many bytes were asked for, and the bytes that were
stored. -/
structure ReadRecord where
  pos : ℤ
  resid : ℕ
  buf : Bytes
deriving DecidableEq, Repr

/-- A stream, with the record of its calls. -/
structure Recorded where
  fp : FILE
  seeks : List SeekRecord := []
  reads : List ReadRecord := []
deriving DecidableEq, Repr

namespace Recorded

variable (P : Platform) (x : Recorded)

def fseek (offset whence : ℤ) : StdioM (ℤ × Recorded) := do
  let r ← Stdio.fseekInt x.fp offset whence
  pure (r.1, { x with fp := r.2, seeks := ⟨offset, whence, r.1, r.2.offset⟩ :: x.seeks })

def fread (size count : ℕ) : StdioM (ℕ × Bytes × Recorded) := do
  let r ← Stdio.freadExt P size (count * size % 2 ^ 32) x.fp
  pure (r.1, r.2.1, { x with fp := r.2.2,
                             reads := ⟨x.fp.offset, count * size % 2 ^ 32, r.2.1⟩ :: x.reads })

def getc : StdioM (ℤ × Recorded) := do
  let (n, buf, x) ← x.fread P 1 1
  pure (if n ≠ 1 then -1 else Stdio.toChar ((overlay P 1 buf).headD 0), x)

end Recorded

/-- Make the call, and record what it does. -/
def TableCall.record (P : Platform) (c : TableCall) (x : Recorded) : StdioM (CallResult × Recorded) :=
  match c with
  | fseek offset whence => do
    let r ← x.fseek offset whence
    pure (.code r.1, r.2)
  | fread size count => do
    let r ← x.fread P size count
    pure (.items r.1 r.2.1, r.2.2)
  | fgets n => do
    let r ← Stdio.fgetsOf (Recorded.getc P) n x
    pure (.line r.1, r.2)
  | getc => do
    let r ← x.getc P
    pure (.code r.1, r.2)
  | ungetc => do
    let r ← x.fseek (-1) 1
    pure (.code 0, r.2)

namespace Stdio

/-- The lines that are read do not depend on what else the stream carries. -/
theorem fgetsLoop_map {m : Type → Type} [Monad m] [LawfulMonad m] {α β : Type} {e : β → α}
    {get : α → m (ℤ × α)} {get' : β → m (ℤ × β)}
    (h : ∀ b, get (e b) = (fun r => (r.1, e r.2)) <$> get' b) (n : ℕ) (c : ℤ) (b : β) :
    fgetsLoop get n c (e b) = (fun r => (r.1, e r.2)) <$> fgetsLoop get' n c b := by
  induction n generalizing c b with
  | zero => simp only [fgetsLoop, map_pure]
  | succ n ih =>
    simp only [fgetsLoop]
    split_ifs
    · simp only [map_pure]
    · simp only [map_pure]
    · simp only [h, ih, map_bind, bind_map_left, map_pure]

theorem fgetsOf_map {m : Type → Type} [Monad m] [LawfulMonad m] {α β : Type} {e : β → α}
    {get : α → m (ℤ × α)} {get' : β → m (ℤ × β)}
    (h : ∀ b, get (e b) = (fun r => (r.1, e r.2)) <$> get' b) (n : ℤ) (b : β) :
    fgetsOf get n (e b) = (fun r => (r.1, e r.2)) <$> fgetsOf get' n b := by
  simp only [fgetsOf]
  split_ifs
  · simp only [map_pure]
  · simp only [h, map_bind, bind_map_left]
    congr 1
    funext r
    split_ifs
    · simp only [map_pure]
    · simp only [fgetsLoop_map h, map_bind, bind_map_left, map_pure]

end Stdio

/-- **The record changes nothing**: without it, a call is the code's. -/
theorem TableCall.run_record (P : Platform) (c : TableCall) (x : Recorded) :
    c.run P x.fp = (fun r => (r.1, r.2.fp)) <$> c.record P x := by
  have := @Prog.lawfulMonad DevOp DevOp.Resp
  -- a character is one read, with or without the record
  have hgetc : ∀ x : Recorded, Stdio.getcExt P x.fp = (fun r => (r.1, r.2.fp)) <$> x.getc P := by
    intro x
    simp only [Stdio.getcExt, Stdio.getcOf, Recorded.getc, Recorded.fread, map_bind, bind_assoc,
      pure_bind, map_pure]
  cases c with
  | fseek offset whence =>
    simp only [run, record, Recorded.fseek, map_bind, bind_assoc, pure_bind, map_pure]
  | fread size count =>
    simp only [run, record, Recorded.fread, map_bind, bind_assoc, pure_bind, map_pure]
  | fgets n =>
    simp only [run, record, Stdio.fgetsExt, Stdio.fgetsOf_map hgetc, map_bind, bind_map_left, map_pure]
  | getc => simp only [run, record, hgetc, map_bind, bind_map_left, map_pure]
  | ungetc =>
    simp only [run, record, Stdio.ungetcExt, Recorded.fseek, map_bind, bind_assoc, pure_bind, map_pure]
    rfl

/-- Nor does it for calls one after the other. -/
theorem calls_record (P : Platform) (cs : List TableCall) (x : Recorded) :
    MProg.calls (TableCall.run P) cs x.fp =
      (fun r => (r.1, r.2.fp)) <$> MProg.calls (TableCall.record P) cs x :=
  MProg.calls_map (TableCall.run_record P) cs x

section

variable {S : Type} {D : Device DevOp DevOp.Resp S} {J : Recorded → S → Prop} {P : Platform}
variable {x : Recorded} {σ : StdioState} {s : S}

/-- **What seeks and reads keep, the calls keep.** -/
theorem keeps_record {ok : TableCall → Prop}
    (hseek : ∀ offset whence x σ s, ok (.fseek offset whence) → J x s →
      MProg.wpc D (fun _ => True) True (x.fseek offset whence) (fun r _ s' => J r.2 s') σ s)
    (hread : ∀ size count x σ s, J x s →
      MProg.wpc D (fun _ => True) True (x.fread P size count) (fun r _ s' => J r.2.2 s') σ s)
    (hback : ok (.fseek (-1) 1)) (c : TableCall) (hc : ok c) (hx : J x s) :
    MProg.wpc D (fun _ => True) True (c.record P x) (fun r _ s' => J r.2 s') σ s := by
  have hgetc : ∀ x σ s, J x s →
      MProg.wpc D (fun _ => True) True (x.getc P) (fun r _ s' => J r.2 s') σ s := by
    intro x σ s hx
    simp only [Recorded.getc, MProg.wpc_bind, MProg.wpc_pure]
    exact MProg.wpc_mono (hread 1 1 x σ s hx) fun r _ s' hC hr => ⟨hC, hr⟩
  -- a line is any number of characters
  have hloop : ∀ n c x σ s, J x s → MProg.wpc D (fun _ => True) True
      (Stdio.fgetsLoop (Recorded.getc P) n c x) (fun r _ s' => J r.2 s') σ s := by
    intro n
    induction n with
    | zero => exact fun c x σ s hx => ⟨trivial, hx⟩
    | succ n ih =>
      intro c x σ s hx
      simp only [Stdio.fgetsLoop]
      split_ifs
      · exact ⟨trivial, hx⟩
      · exact ⟨trivial, hx⟩
      · simp only [MProg.wpc_bind, MProg.wpc_pure]
        refine MProg.wpc_mono (hgetc x σ s hx) fun r σ' s' _ hr => ?_
        exact MProg.wpc_mono (ih _ _ _ _ hr) fun r' _ s'' hC hr' => ⟨hC, hr'⟩
  cases c with
  | fseek offset whence =>
    simp only [TableCall.record, MProg.wpc_bind, MProg.wpc_pure]
    exact MProg.wpc_mono (hseek _ _ x σ s hc hx) fun r _ s' hC hr => ⟨hC, hr⟩
  | fread size count =>
    simp only [TableCall.record, MProg.wpc_bind, MProg.wpc_pure]
    exact MProg.wpc_mono (hread _ _ x σ s hx) fun r _ s' hC hr => ⟨hC, hr⟩
  | fgets n =>
    simp only [TableCall.record, Stdio.fgetsOf, MProg.wpc_bind]
    split_ifs
    · exact ⟨trivial, trivial, hx⟩
    · simp only [MProg.wpc_bind]
      refine MProg.wpc_mono (hgetc x σ s hx) fun r σ' s' _ hr => ?_
      split_ifs
      · exact ⟨trivial, trivial, hr⟩
      · simp only [MProg.wpc_bind, MProg.wpc_pure]
        exact MProg.wpc_mono (hloop _ _ _ _ _ hr) fun r' _ s'' hC hr' => ⟨hC, hC, hr'⟩
  | getc =>
    simp only [TableCall.record, MProg.wpc_bind, MProg.wpc_pure]
    exact MProg.wpc_mono (hgetc x σ s hx) fun r _ s' hC hr => ⟨hC, hr⟩
  | ungetc =>
    simp only [TableCall.record, MProg.wpc_bind, MProg.wpc_pure]
    exact MProg.wpc_mono (hseek _ _ x σ s hback hx) fun r _ s' hC hr => ⟨hC, hr⟩

/-- So for calls one after the other. -/
theorem keeps_calls_record {ok : TableCall → Prop}
    (hseek : ∀ offset whence x σ s, ok (.fseek offset whence) → J x s →
      MProg.wpc D (fun _ => True) True (x.fseek offset whence) (fun r _ s' => J r.2 s') σ s)
    (hread : ∀ size count x σ s, J x s →
      MProg.wpc D (fun _ => True) True (x.fread P size count) (fun r _ s' => J r.2.2 s') σ s)
    (hback : ok (.fseek (-1) 1)) {cs : List TableCall} (hcs : ∀ c ∈ cs, ok c) (hx : J x s) :
    MProg.wpc D (fun _ => True) True (MProg.calls (TableCall.record P) cs x)
      (fun r _ s' => J r.2 s') σ s :=
  MProg.wpc_calls (fun _ _ _ => trivial)
    (fun c _ _ _ hc hx => keeps_record hseek hread hback c hc hx) hcs hx

end

/-! ### What a call should do -/

/-- A place in an entry; the end is one. -/
def InEntry (item : UncompressFileItem) (pos : ℤ) : Prop := 0 ≤ pos ∧ pos ≤ item.nLen

/-- A seek ends in the entry, and one from the end is where it should be. -/
structure SeekRecord.Placed (item : UncompressFileItem) (r : SeekRecord) : Prop where
  inEntry : InEntry item r.pos
  fromEnd : r.whence = 2 → r.ret = 0 → r.pos = item.nLen + r.offset

/-- At most `n` bytes from `i` on of the image that holds the entries. -/
def sectionBytes (P : Platform) (d : Disk) (nSection : TableSection) (i : ℤ) (n : ℕ) : Option Bytes :=
  match nSection with
  | .flash => memcpyFrom P.rom.bytes (toU32 i) n
  | .update => if i < 0 then none else (d Stdio.LUA_UPDATE_FILE).map fun u => slice u i.toNat n

/-- The entry is decrypted. -/
def Encrypted (nSection : TableSection) (file : Path) : Prop :=
  nSection = .flash ∧ ascii ".luae" <:+ file

/-- **The bytes that are stored are bytes of the entry**, decrypted if it is encrypted. -/
def ReadRecord.Inside (P : Platform) (d : Disk) (nSection : TableSection) (file : Path)
    (item : UncompressFileItem) (r : ReadRecord) : Prop :=
  r.buf = [] ∨ ∃ (i : ℤ) (n : ℕ) (c : Bytes), 0 ≤ i ∧ i + n ≤ item.nLen ∧
    sectionBytes P d nSection (item.nOffset + i) n = some c ∧
    (¬ Encrypted nSection file → r.buf = c) ∧ (Encrypted nSection file → r.buf <:+: P.cipher.plaintext c)

/-- The call seeks from the end, with a negative offset. -/
def TableCall.PastEnd (item : UncompressFileItem) : TableCall → Prop
  | fseek offset whence => whence = 2 ∧ -item.nLen ≤ offset ∧ offset < 0
  | fread _ _ | fgets _ | getc | ungetc => False

/-- **The window of the read covers what it copies.**  Of an encrypted entry, the bytes from the
position on are taken, and copied from the place of the position in its block; and the update image is
read from its start if the place of the bytes is no `int`. -/
def ReadRecord.Covered (nSection : TableSection) (file : Path) (item : UncompressFileItem)
    (r : ReadRecord) : Prop :=
  match nSection with
  | .flash => ascii ".luae" <:+ file → r.pos < item.nLen →
      r.pos % 512 + min (r.resid : ℤ) (item.nLen - r.pos) ≤ item.nLen - r.pos
  | .update => 0 ≤ item.nOffset + r.pos ∧ item.nOffset + r.pos < 2 ^ 31

/-! ### Seeks -/

section

variable {nSection : TableSection} {file : Path} {item : UncompressFileItem} {pos : ℤ}

/-- What `fseek_ext` returns at `pos`, and where the stream is then. -/
def seekTo (item : UncompressFileItem) (pos offset whence : ℤ) : ℤ × ℤ :=
  match (Whence.ofInt whence).bind (Stdio.seekTarget item pos offset) with
  | some k => (0, k)
  | none => (-1, pos)

theorem fseekInt_tableAt (offset whence : ℤ) :
    Stdio.fseekInt (Stdio.tableAt nSection file item pos) offset whence =
      pure ((seekTo item pos offset whence).1,
        Stdio.tableAt nSection file item (seekTo item pos offset whence).2) := by
  unfold Stdio.fseekInt seekTo
  cases Whence.ofInt whence with
  | none => rfl
  | some whence =>
    simp only [Stdio.fseekExt_tableAt, Option.bind_some]
    cases Stdio.seekTarget item pos offset whence <;> rfl

theorem seekTarget_inEntry {offset k : ℤ} {whence : Whence}
    (h : Stdio.seekTarget item pos offset whence = some k)
    (hend : whence = .SEEK_END → -item.nLen ≤ offset → 0 ≤ offset) : InEntry item k := by
  unfold InEntry
  cases whence with
  | SEEK_SET =>
    simp only [Stdio.seekTarget] at h
    split_ifs at h
    cases h
    omega
  | SEEK_CUR =>
    simp only [Stdio.seekTarget] at h
    split_ifs at h
    cases h
    omega
  | SEEK_END =>
    simp only [Stdio.seekTarget] at h
    split_ifs at h with hno
    cases h
    have := hend rfl (by omega)
    omega

theorem Whence.ofInt_eq_end {whence : ℤ} : Whence.ofInt whence = some .SEEK_END ↔ whence = 2 := by
  unfold Whence.ofInt
  split_ifs with h0 h1 h2
  · simp only [h0, Option.some.injEq, reduceCtorEq, false_iff]
    decide
  · simp only [h1, Option.some.injEq, reduceCtorEq, false_iff]
    decide
  · simp only [h2]
  · simp only [h2]

/-- **A seek stays in the entry**, if it does not go past the end. -/
theorem seekTo_placed {offset whence : ℤ} (hpos : InEntry item pos)
    (h : ¬ (TableCall.fseek offset whence).PastEnd item) :
    (SeekRecord.mk offset whence (seekTo item pos offset whence).1
      (seekTo item pos offset whence).2).Placed item := by
  unfold seekTo
  cases hk : (Whence.ofInt whence).bind (Stdio.seekTarget item pos offset) with
  | none => exact ⟨hpos, fun _ h => by cases h⟩
  | some k =>
    obtain ⟨w, hw, hk⟩ := Option.bind_eq_some_iff.1 hk
    have hend : w = .SEEK_END → -item.nLen ≤ offset → 0 ≤ offset := by
      rintro rfl hle
      by_contra hneg
      exact h ⟨Whence.ofInt_eq_end.1 hw, hle, by omega⟩
    refine ⟨seekTarget_inEntry hk hend, fun h2 _ => ?_⟩
    change whence = 2 at h2
    -- with an offset that is not negative, only the end itself is left
    obtain rfl : w = .SEEK_END := Option.some.inj (hw.symm.trans (Whence.ofInt_eq_end.2 h2))
    simp only [Stdio.seekTarget] at hk
    split_ifs at hk with hno
    cases hk
    have := hend rfl (by omega)
    change item.nLen - offset = item.nLen + offset
    omega

/-- One that does is never where it should be. -/
theorem seekTo_pastEnd {offset whence : ℤ} (h : (TableCall.fseek offset whence).PastEnd item) :
    ¬ (SeekRecord.mk offset whence (seekTo item pos offset whence).1
      (seekTo item pos offset whence).2).Placed item := by
  obtain ⟨rfl, hle, hneg⟩ := h
  have hseek : seekTo item pos offset 2 = (0, item.nLen - offset) := by
    rw [seekTo, Whence.ofInt_eq_end.2 rfl, Option.bind_some, Stdio.seekTarget, if_neg (by omega)]
  rw [hseek]
  rintro ⟨-, hend⟩
  have := hend rfl rfl
  change item.nLen - offset = item.nLen + offset at this
  omega

end

/-! ### Reads -/

namespace Stdio

section

variable {S : Type} {D : Device DevOp DevOp.Resp S} {P : Platform} {σ : StdioState} {s : S}
variable {nSection : TableSection} {file : Path} {item : UncompressFileItem} {pos : ℤ}

/-- A seek to a place from the start does not leave the entry. -/
theorem wpc_fseekExt_set {offset : ℤ} {Q : ℤ × FILE → StdioState → S → Prop}
    (h : ∀ r k, (InEntry item pos → InEntry item k) → Q (r, tableAt nSection file item k) σ s) :
    MProg.wpc D (fun _ => True) True (fseekExt (tableAt nSection file item pos) offset .SEEK_SET)
      Q σ s := by
  refine wpc_fseekExt trivial (fun k hk => h 0 k fun _ => ?_) fun _ => h (-1) pos id
  exact seekTarget_inEntry hk nofun

/-- The rest of the entry behind a place in it. -/
theorem toU32_rest (hpos : InEntry item pos) (h31 : item.nLen < 2 ^ 31) :
    ((toU32 (item.nLen - pos) : ℕ) : ℤ) = item.nLen - pos := by
  unfold InEntry at hpos
  exact toU32_of_nonneg (by omega) (by omega)

/-- The number of bytes that a read in the entry asks for. -/
theorem readLen_of_inEntry {n : ℕ} (hpos : InEntry item pos) (h31 : item.nLen < 2 ^ 31) :
    readLen item pos n = min (n : ℤ) (item.nLen - pos) := by
  have hrest := toU32_rest hpos h31
  unfold InEntry at hpos
  rw [readLen, toInt32_clamp (by omega)]
  omega

/-- What `decode_file` stores is a part of the plaintext of the window, if the window covers it. -/
def DecodedPart (P : Platform) (item : UncompressFileItem) (pos : ℤ) (n : ℕ) (buf : Bytes) : Prop :=
  InEntry item pos → item.nLen < 2 ^ 31 →
    pos % 512 + min (n : ℤ) (item.nLen - pos) ≤ item.nLen - pos →
      ∃ (m : ℕ) (c : Bytes), pos + m ≤ item.nLen ∧
        memcpyFrom P.rom.bytes (toU32 (item.nOffset + pos)) m = some c ∧ buf <:+: P.cipher.plaintext c

/-- A copy that stays in the buffer of `w` bytes stores such a part, though only the first bytes of the
buffer were filled. -/
theorem decodedPart_of_copy {n w rest act : ℕ} {len : ℤ} {temp buf : Bytes}
    (hrest : toU32 (item.nLen - toU32 pos) = rest)
    (hlen : toInt32 (if rest ≥ w then w else rest) = len)
    (hact : (if w > len.toNat ∧ rest < n then rest else n) = act)
    (htemp : memcpyFrom P.rom.bytes (toU32 (item.nOffset + toU32 pos)) len.toNat = some temp)
    (hbuf : memcpyFrom (overlay P w (P.cipher.decodeBlocks (len.toNat / 512) temp))
      (toU32 pos - lowBoundary (toU32 pos)) act = some buf) : DecodedPart P item pos n buf := by
  intro hpos h31 hcover
  have hpos' : ((toU32 pos : ℕ) : ℤ) = pos := toU32_of_nonneg hpos.1 (by have := hpos.2; omega)
  have hrest' : (rest : ℤ) = item.nLen - pos := by
    rw [← hrest, hpos', toU32_rest hpos h31]
  have hmin : len.toNat = min w rest := by
    have hlt : rest < 2 ^ 31 := by
      have := hpos.1
      omega
    rw [← hlen, toInt32_clamp (by omega), Int.toNat_natCast]
  have hshift : (toU32 pos : ℤ) - lowBoundary (toU32 pos) = (toU32 pos % 512 : ℕ) := by
    unfold lowBoundary
    omega
  have htlen := length_of_memcpyFrom htemp
  have hplen : (P.cipher.plaintext temp).length = min w rest := by
    rw [P.cipher.length_plaintext, htlen, hmin]
  have hplain : P.cipher.decodeBlocks (len.toNat / 512) temp = P.cipher.plaintext temp := by
    rw [Cipher.plaintext, htlen]
  rw [hplain, hshift] at hbuf
  have hin := memcpyFrom_bounds hbuf
  rw [length_overlay (by omega)] at hin
  -- what the buffer holds behind the window is not copied
  have hwin : toU32 pos % 512 + act ≤ (P.cipher.plaintext temp).length := by
    rw [hplen, ← hact]
    rw [← hact, hmin] at hin
    rw [← hrest', ← hpos'] at hcover
    rw [hmin]
    split_ifs at hin ⊢ <;> omega
  rw [memcpyFrom_overlay (by omega) hwin] at hbuf
  cases hbuf
  rw [hpos'] at htemp
  refine ⟨len.toNat, temp, by omega, htemp, ?_⟩
  exact (List.take_prefix _ _).isInfix.trans (List.drop_suffix _ _).isInfix

/-- `decode_file`, wherever it starts, and whatever overflows. -/
theorem wpc_decodeFile_part (size n : ℕ) :
    MProg.wpc D (fun _ => True) True (decodeFile P size n (tableAt nSection file item pos))
      (fun r _ s' => s' = s ∧ DecodedPart P item pos n r.2.1 ∧
        ∃ k, r.2.2 = tableAt nSection file item k ∧ (InEntry item pos → InEntry item k)) σ s := by
  have hcookie : (tableAt nSection file item pos).cookie = some item := rfl
  have htell : ftellExt (tableAt nSection file item pos) = pos := rfl
  simp only [decodeFile, hcookie, htell, wpc_defined, MProg.wpc_bind, true_and]
  generalize toU32 (lowBoundary ((toU32 pos + n + 511) % 2 ^ 32) - lowBoundary (toU32 pos)) = w
  generalize hrest : toU32 (item.nLen - toU32 pos) = rest
  generalize hlen : toInt32 (if rest ≥ w then w else rest) = len
  generalize hact : (if w > len.toNat ∧ rest < n then rest else n) = act
  refine wpc_fseekExt_set fun r k hk => ?_
  by_cases hneg : len < 0
  · rw [if_pos hneg]
    exact ⟨trivial, trivial⟩
  rw [if_neg hneg]
  simp only [MProg.wpc_bind, wpc_defined, true_and]
  cases htemp : memcpyFrom P.rom.bytes (toU32 (item.nOffset + toU32 pos)) len.toNat with
  | none => trivial
  | some temp =>
    refine wpc_fseekExt_set fun r' k' hk' => ?_
    cases hbuf : memcpyFrom (overlay P w (P.cipher.decodeBlocks (len.toNat / 512) temp))
        (toU32 pos - lowBoundary (toU32 pos)) act with
    | none => trivial
    | some buf =>
      exact ⟨trivial, rfl, decodedPart_of_copy hrest hlen hact htemp hbuf, k', rfl,
        fun hpos => hk' (hk hpos)⟩

/-- `fread_ext` on an entry in ROM. -/
theorem wpc_freadExt_flash_part (d : Disk) (size n : ℕ) :
    MProg.wpc D (fun _ => True) True (freadExt P size n (tableAt .flash file item pos))
      (fun r _ s' => s' = s ∧ ∃ k, r.2.2 = tableAt .flash file item k ∧
        (InEntry item pos → item.nLen < 2 ^ 31 → InEntry item k ∧
          ((ReadRecord.mk pos n r.2.1).Covered .flash file item →
            (ReadRecord.mk pos n r.2.1).Inside P d .flash file item))) σ s := by
  have hlen := @readLen_of_inEntry item pos n
  by_cases h0 : n = 0
  · rw [h0, freadExt_zero]
    exact ⟨trivial, rfl, pos, rfl, fun hpos _ => ⟨hpos, fun _ => Or.inl rfl⟩⟩
  rw [freadExt_flash h0]
  generalize readLen item pos n = len at hlen ⊢
  by_cases hle : len ≤ 0
  · rw [if_pos hle]
    exact ⟨trivial, rfl, pos, rfl, fun hpos _ => ⟨hpos, fun _ => Or.inl rfl⟩⟩
  rw [if_neg hle]
  by_cases henc : ascii ".luae" <:+ file
  · rw [if_pos henc]
    refine MProg.wpc_mono (wpc_decodeFile_part size n) fun r _ s' _ hr => ?_
    obtain ⟨hs, hpart, k, hk, hkeep⟩ := hr
    refine ⟨hs, k, hk, fun hpos h31 => ⟨hkeep hpos, fun hcover => Or.inr ?_⟩⟩
    have hlt : pos < item.nLen := by
      have := hlen hpos h31
      omega
    obtain ⟨m, c, hm, hc, hbuf⟩ := hpart hpos h31 (hcover henc hlt)
    exact ⟨pos, m, c, hpos.1, hm, hc, fun hno => absurd ⟨rfl, henc⟩ hno, fun _ => hbuf⟩
  · rw [if_neg henc]
    simp only [MProg.wpc_bind, wpc_defined, true_and, MProg.wpc_pure]
    cases hbuf : memcpyFrom P.rom.bytes (item.nOffset + pos) len.toNat with
    | none => trivial
    | some buf =>
      refine ⟨pos + len, rfl, fun hpos h31 => ?_⟩
      replace hlen := hlen hpos h31
      have hin := memcpyFrom_bounds hbuf
      have hrom := P.rom.size_lt
      have hidx : ((toU32 (item.nOffset + pos) : ℕ) : ℤ) = item.nOffset + pos :=
        toU32_of_nonneg hin.1 (by omega)
      have hend : pos + len ≤ item.nLen := by omega
      refine ⟨⟨by have := hpos.1; omega, hend⟩, fun _ => Or.inr ?_⟩
      refine ⟨pos, len.toNat, buf, hpos.1, by omega, ?_, fun _ => rfl, fun h => absurd h.2 henc⟩
      rw [sectionBytes, hidx, hbuf]

/-- A program in front of the rest, whatever it does. -/
theorem wpc_bind_any {α β : Type} {y : StdioM α} {g : α → StdioM β} {Q : β → StdioState → S → Prop}
    (h : ∀ a σ' s', MProg.wpc D (fun _ => True) True (g a) Q σ' s') :
    MProg.wpc D (fun _ => True) True (y >>= g) Q σ s :=
  MProg.wpc_bind.2 (MProg.wpc_mono (MProg.wpc_trivial y) fun a σ' s' _ _ => h a σ' s')

/-- `fread_ext` on an entry of the update, whatever the device answers. -/
theorem wpc_freadExt_update_stays (size n : ℕ) :
    MProg.wpc D (fun _ => True) True (freadExt P size n (tableAt .update file item pos))
      (fun r _ _ => ∃ k, r.2.2 = tableAt .update file item k ∧
        (InEntry item pos → item.nLen < 2 ^ 31 → InEntry item k)) σ s := by
  have hcookie : (tableAt .update file item pos).cookie = some item := rfl
  have hoffset : (tableAt .update file item pos).offset = pos := rfl
  have hfl : (tableAt .update file item pos).flags = TableSection.update.toFlags := rfl
  have hlen := @readLen_of_inEntry item pos n
  unfold freadExt
  by_cases h0 : n = 0
  · rw [if_pos h0]
    exact ⟨trivial, pos, rfl, fun hpos _ => hpos⟩
  simp only [h0, ↓reduceIte, hcookie, hoffset, hfl, wpc_defined, MProg.wpc_bind, true_and]
  unfold readLen at hlen
  generalize toInt32 (if toU32 (item.nLen - pos) ≥ n then n else toU32 (item.nLen - pos)) = len
    at hlen ⊢
  by_cases hle : len ≤ 0
  · rw [if_pos hle]
    exact ⟨trivial, pos, rfl, fun hpos _ => hpos⟩
  rw [if_neg hle]
  refine wpc_bind_any fun fpUpd σ₁ s₁ => ?_
  cases fpUpd with
  | none => exact ⟨trivial, pos, rfl, fun hpos _ => hpos⟩
  | some fpUpd =>
    by_cases hkind : fpUpd.isUncompress = true
    · simp only [hkind, ↓reduceIte]
      exact ⟨trivial, trivial⟩
    simp only [hkind, Bool.false_eq_true, ↓reduceIte]
    refine wpc_bind_any fun r₁ σ₂ s₂ => wpc_bind_any fun r₂ σ₃ s₃ => wpc_bind_any fun r₃ σ₄ s₄ =>
      wpc_bind_any fun r₄ σ₅ s₅ => ⟨trivial, pos + len, rfl, fun hpos h31 => ?_⟩
    have hlen' := hlen hpos h31
    unfold InEntry at hpos ⊢
    omega

end

/-- **A read in the entry**, on the file system. -/
theorem wpc_freadExt_inside {P : Platform} {σ : StdioState} {d : Disk} {nSection : TableSection}
    {file : Path} {item : UncompressFileItem} {pos : ℤ} (size n : ℕ) (hpos : InEntry item pos)
    (h31 : item.nLen < 2 ^ 31) :
    MProg.wpc (device .none) (fun _ => True) True (freadExt P size n (tableAt nSection file item pos))
      (fun r _ d' => d' = d ∧ (∃ k, r.2.2 = tableAt nSection file item k ∧ InEntry item k) ∧
        ((ReadRecord.mk pos n r.2.1).Covered nSection file item →
          (ReadRecord.mk pos n r.2.1).Inside P d nSection file item)) σ d := by
  cases nSection with
  | flash =>
    refine MProg.wpc_mono (wpc_freadExt_flash_part d size n) fun r _ d' _ hr => ?_
    obtain ⟨hd, k, hk, hrest⟩ := hr
    obtain ⟨hkeep, hinside⟩ := hrest hpos h31
    exact ⟨hd, ⟨k, hk, hkeep⟩, hinside⟩
  | update =>
    obtain ⟨p, rfl⟩ := Int.eq_ofNat_of_zero_le hpos.1
    obtain ⟨len, hlen⟩ := Int.eq_ofNat_of_zero_le (hpos.1.trans hpos.2)
    have hle := hpos.2
    refine wpc_freadExt_update (by simp [Faults.none]) trivial hlen (by omega) (by omega)
      (fun _ => trivial) (fun _ => ?_) fun u _ hlt _ hu => ?_
    · exact ⟨rfl, ⟨p, rfl, hpos⟩, fun _ => Or.inl rfl⟩
    · refine ⟨rfl, ⟨_, rfl, ⟨by omega, by omega⟩⟩, fun hcover => Or.inr ?_⟩
      obtain ⟨h0, h31⟩ := hcover
      refine ⟨p, min n (len - p), slice u (item.nOffset + p).toNat (min n (len - p)), by omega, by omega,
        ?_, fun _ => ?_, fun henc => by cases henc.1⟩
      · change 0 ≤ item.nOffset + (p : ℤ) at h0
        rw [sectionBytes, if_neg (by omega), hu, Option.map_some]
      · have hstart : updateStart (item.nOffset + p) = (item.nOffset + p).toNat := if_pos ⟨h0, h31⟩
        change (u.drop (updateStart (item.nOffset + p))).take (min n (len - p)) = _
        rw [hstart, slice]

end Stdio

/-! ### Runs -/

section

variable {S : Type} {D : Device DevOp DevOp.Resp S} {P : Platform} {σ : StdioState} {s : S}
variable {nSection : TableSection} {file : Path} {item : UncompressFileItem} {cs : List TableCall}

/-- **The position is in the entry, and every seek went where it should.** -/
structure Recorded.InBounds (item : UncompressFileItem) (x : Recorded) : Prop where
  inEntry : InEntry item x.fp.offset
  placed : ∀ r ∈ x.seeks, r.Placed item

theorem Recorded.InBounds.at {x : Recorded} {k : ℤ} (h : x.InBounds item)
    (hk : x.fp = Stdio.tableAt nSection file item k) : InEntry item k := by
  have hin := h.inEntry
  rwa [hk] at hin

/-- The stream is one of the entry. -/
def Recorded.Of (nSection : TableSection) (file : Path) (item : UncompressFileItem) (x : Recorded) :
    Prop :=
  ∃ k, x.fp = Stdio.tableAt nSection file item k

/-- The seek of a stream of the entry. -/
theorem wpc_fseek_record {x : Recorded} {k offset whence : ℤ}
    {Q : ℤ × Recorded → StdioState → S → Prop} (hx : x.fp = Stdio.tableAt nSection file item k)
    (h : Q ((seekTo item k offset whence).1,
      { x with fp := Stdio.tableAt nSection file item (seekTo item k offset whence).2,
               seeks := ⟨offset, whence, (seekTo item k offset whence).1,
                 (seekTo item k offset whence).2⟩ :: x.seeks }) σ s) :
    MProg.wpc D (fun _ => True) True (x.fseek offset whence) Q σ s := by
  simp only [Recorded.fseek, hx, fseekInt_tableAt, MProg.wpc_bind, MProg.wpc_pure, true_and]
  exact h

/-- A read of a stream of the entry leaves one. -/
theorem wpc_fread_record {x : Recorded} {k : ℤ} (size count : ℕ)
    (hx : x.fp = Stdio.tableAt nSection file item k) :
    MProg.wpc D (fun _ => True) True (x.fread P size count)
      (fun r _ _ => r.2.2.seeks = x.seeks ∧ ∃ k', r.2.2.fp = Stdio.tableAt nSection file item k' ∧
        (InEntry item k → item.nLen < 2 ^ 31 → InEntry item k')) σ s := by
  simp only [Recorded.fread, hx, MProg.wpc_bind, MProg.wpc_pure, true_and]
  cases nSection with
  | flash =>
    refine MProg.wpc_mono (Stdio.wpc_freadExt_flash_part (fun _ => none) _ _) fun r _ _ _ hr => ?_
    obtain ⟨-, k', hk', hkeep⟩ := hr
    exact ⟨k', hk', fun hk h31 => (hkeep hk h31).1⟩
  | update => exact MProg.wpc_mono (Stdio.wpc_freadExt_update_stays _ _) fun r _ _ _ hr => hr

/-- **Calls that do not go past the end stay in bounds**, on any device. -/
theorem wpc_calls_inBounds {x : Recorded} (h31 : item.nLen < 2 ^ 31)
    (hcs : ∀ c ∈ cs, ¬ c.PastEnd item) (hof : x.Of nSection file item) (hx : x.InBounds item) :
    MProg.wpc D (fun _ => True) True (MProg.calls (TableCall.record P) cs x)
      (fun r _ _ => r.2.Of nSection file item ∧ r.2.InBounds item) σ s := by
  refine keeps_calls_record (J := fun x _ => Recorded.Of nSection file item x ∧ x.InBounds item)
    ?_ ?_ (fun h => by cases h.1) hcs ⟨hof, hx⟩
  · rintro offset whence x σ s hno ⟨⟨k, hk⟩, hx⟩
    have hplaced := seekTo_placed (hx.at hk) hno
    exact wpc_fseek_record hk
      ⟨⟨_, rfl⟩, hplaced.inEntry, List.forall_mem_cons.2 ⟨hplaced, hx.placed⟩⟩
  · rintro size count x σ s ⟨⟨k, hk⟩, hx⟩
    refine MProg.wpc_mono (wpc_fread_record size count hk) fun r _ _ _ hr => ?_
    obtain ⟨hseeks, k', hk', hkeep⟩ := hr
    refine ⟨⟨k', hk'⟩, ?_, ?_⟩
    · rw [hk']
      exact hkeep (hx.at hk) h31
    · rw [hseeks]
      exact hx.placed

/-- The stream is one of the entry, and the seeks of `l` are recorded. -/
def Recorded.Past (nSection : TableSection) (file : Path) (item : UncompressFileItem)
    (l : List SeekRecord) (x : Recorded) : Prop :=
  x.Of nSection file item ∧ l ⊆ x.seeks

/-- No call takes a seek out of the record. -/
theorem wpc_record_past {l : List SeekRecord} {x : Recorded} (c : TableCall)
    (hx : x.Past nSection file item l) :
    MProg.wpc D (fun _ => True) True (c.record P x) (fun r _ _ => r.2.Past nSection file item l) σ s := by
  refine @keeps_record S D (fun x _ => x.Past nSection file item l) P x σ s (fun _ => True)
    ?_ ?_ trivial c trivial hx
  · rintro offset whence x σ s - ⟨⟨k, hk⟩, hx⟩
    exact wpc_fseek_record hk ⟨⟨_, rfl⟩, List.subset_cons_of_subset _ hx⟩
  · rintro size count x σ s ⟨⟨k, hk⟩, hx⟩
    refine MProg.wpc_mono (wpc_fread_record size count hk) fun r _ _ _ hr => ?_
    obtain ⟨hseeks, k', hk', -⟩ := hr
    exact ⟨⟨k', hk'⟩, hseeks ▸ hx⟩

/-- **Calls of which one goes past the end do not**, on any device. -/
theorem wpc_calls_pastEnd {x : Recorded} {c : TableCall} (hc : c ∈ cs) (hpast : c.PastEnd item)
    (hof : x.Of nSection file item) :
    MProg.wpc D (fun _ => True) True (MProg.calls (TableCall.record P) cs x)
      (fun r _ _ => ∃ r₀ ∈ r.2.seeks, ¬ r₀.Placed item) σ s := by
  induction cs generalizing x σ s with
  | nil => cases hc
  | cons c' cs ih =>
    simp only [MProg.calls, MProg.wpc_bind, MProg.wpc_pure, true_and]
    -- by induction on the calls in front of the one that goes past the end
    by_cases hcs : c ∈ cs
    · refine MProg.wpc_mono (wpc_record_past c' ⟨hof, List.nil_subset _⟩) fun r σ₁ s₁ _ hr => ?_
      exact ih hcs hr.1
    obtain rfl : c = c' := (List.mem_cons.1 hc).resolve_right hcs
    cases c with
    | fseek offset whence =>
      obtain ⟨k, hk⟩ := hof
      simp only [TableCall.record, MProg.wpc_bind, MProg.wpc_pure, true_and]
      -- the seek is recorded, and stays so
      refine wpc_fseek_record hk ?_
      refine MProg.wpc_mono (MProg.wpc_calls (fun _ _ _ => trivial)
        (fun c x σ s (_ : True) hx => wpc_record_past c hx) (fun _ _ => trivial)
        ⟨⟨_, rfl⟩, List.Subset.refl _⟩) fun r _ _ _ hr => ?_
      exact ⟨_, hr.2 List.mem_cons_self, seekTo_pastEnd hpast⟩
    | fread => cases hpast
    | fgets => cases hpast
    | getc => cases hpast
    | ungetc => cases hpast

end

section

variable {P : Platform} {σ σ' : StdioState} {d d' : Disk} {nSection : TableSection} {file : Path}
variable {item : UncompressFileItem} {cs : List TableCall} {x : Recorded}

/-- Every read that is covered stored bytes of the entry. -/
def Recorded.ReadsInside (P : Platform) (d : Disk) (nSection : TableSection) (file : Path)
    (item : UncompressFileItem) (x : Recorded) : Prop :=
  ∀ r ∈ x.reads, r.Covered nSection file item → r.Inside P d nSection file item

/-- **Calls that do not go past the end read bytes of the entry**, on the file system. -/
theorem wpc_calls_readsInside (h31 : item.nLen < 2 ^ 31) (hcs : ∀ c ∈ cs, ¬ c.PastEnd item)
    (hof : x.Of nSection file item) (hx : x.InBounds item)
    (hreads : x.ReadsInside P d nSection file item) :
    MProg.wpc (device .none) (fun _ => True) True (MProg.calls (TableCall.record P) cs x)
      (fun r _ d' => d' = d ∧ r.2.Of nSection file item ∧ r.2.InBounds item ∧
        r.2.ReadsInside P d nSection file item) σ d := by
  refine keeps_calls_record (J := fun x d' => d' = d ∧ Recorded.Of nSection file item x ∧
    x.InBounds item ∧ x.ReadsInside P d nSection file item) ?_ ?_ (fun h => by cases h.1) hcs
    ⟨rfl, hof, hx, hreads⟩
  · rintro offset whence x σ _ hno ⟨rfl, ⟨k, hk⟩, hx, hreads⟩
    have hplaced := seekTo_placed (hx.at hk) hno
    exact wpc_fseek_record hk
      ⟨rfl, ⟨_, rfl⟩, ⟨hplaced.inEntry, List.forall_mem_cons.2 ⟨hplaced, hx.placed⟩⟩, hreads⟩
  · rintro size count x σ _ ⟨rfl, ⟨k, hk⟩, hx, hreads⟩
    simp only [Recorded.fread, hk, MProg.wpc_bind, MProg.wpc_pure, true_and]
    refine MProg.wpc_mono (Stdio.wpc_freadExt_inside _ _ (hx.at hk) h31) fun r _ _ _ hr => ?_
    obtain ⟨hd, ⟨k', hk', hin⟩, hinside⟩ := hr
    refine ⟨hd, ⟨k', hk'⟩, ⟨?_, hx.placed⟩, List.forall_mem_cons.2 ⟨hinside, hreads⟩⟩
    rw [hk']
    exact hin

/-- **The bounds of a table entry.**  Any calls on a stream opened on it stay in the entry exactly if
none of them seeks from its end with a negative offset; and then every read whose window covers what it
copies stores bytes of the entry. -/
theorem table_bounds {rs : List CallResult} (h0 : 0 ≤ item.nLen) (h31 : item.nLen < 2 ^ 31)
    (hrun : MProg.run DevOp.handle (MProg.calls (TableCall.record P) cs
      { fp := Stdio.tableStream nSection file item }) σ d = some ((rs, x), σ', d')) :
    (x.InBounds item ↔ ∀ c ∈ cs, ¬ c.PastEnd item) ∧
      ((∀ c ∈ cs, ¬ c.PastEnd item) →
        ∀ r ∈ x.reads, r.Covered nSection file item → r.Inside P d nSection file item) := by
  have hof : Recorded.Of nSection file item { fp := Stdio.tableStream nSection file item } := ⟨0, rfl⟩
  have hstart : Recorded.InBounds item { fp := Stdio.tableStream nSection file item } :=
    ⟨⟨le_rfl, h0⟩, nofun⟩
  refine ⟨⟨fun hin c hc hpast => ?_, fun hcs => ?_⟩, fun hcs => ?_⟩
  · obtain ⟨r₀, hr₀, hno⟩ := MProg.post_of_run (wpc_calls_pastEnd hc hpast hof) hrun
    exact hno (hin.placed r₀ hr₀)
  · exact (MProg.post_of_run (wpc_calls_inBounds h31 hcs hof hstart) hrun).2
  · have hwpc := @wpc_calls_readsInside P σ d nSection file item cs _ h31 hcs hof hstart nofun
    exact (MProg.post_of_run (Stdio.wpc_handle hwpc) hrun).2.2.2

end

/-! ### Samples -/

/-- A text of 8 bytes in ROM, without encryption. -/
def textItem : UncompressFileItem := ⟨ascii "/ldata/a.bmp", 0, 8⟩

/-- A read of its middle stays in bounds. -/
theorem table_bounds_text : ∃ rs x σ' d',
    MProg.run DevOp.handle (MProg.calls (TableCall.record (romPlatform eightBytes))
      [.fseek 2 0, .fread 1 3, .getc] { fp := Stdio.tableStream .flash textItem.pFile textItem })
      {} (fun _ => none) = some ((rs, x), σ', d') ∧
    (x.InBounds textItem ↔ ∀ c ∈ [.fseek 2 0, .fread 1 3, .getc], ¬ TableCall.PastEnd textItem c) ∧
      ((∀ c ∈ [.fseek 2 0, .fread 1 3, .getc], ¬ TableCall.PastEnd textItem c) →
        ∀ r ∈ x.reads, r.Covered .flash textItem.pFile textItem →
          r.Inside (romPlatform eightBytes) (fun _ => none) .flash textItem.pFile textItem) := by
  have hsome : (MProg.run DevOp.handle (MProg.calls (TableCall.record (romPlatform eightBytes))
      [.fseek 2 0, .fread 1 3, .getc] { fp := Stdio.tableStream .flash textItem.pFile textItem })
      {} (fun _ => none)).isSome := by decide
  obtain ⟨⟨⟨rs, x⟩, σ', d'⟩, hrun⟩ := Option.isSome_iff_exists.1 hsome
  exact ⟨rs, x, σ', d', hrun, table_bounds (by decide) (by decide) hrun⟩

/-- A seek to one byte in front of the end goes to one byte behind it. -/
theorem not_table_bounds_text : ∃ rs x σ' d',
    MProg.run DevOp.handle (MProg.calls (TableCall.record (romPlatform eightBytes))
      [.fseek (-1) 2] { fp := Stdio.tableStream .flash textItem.pFile textItem })
      {} (fun _ => none) = some ((rs, x), σ', d') ∧
    rs = [.code 0] ∧ x.fp.offset = 9 ∧ ¬ x.InBounds textItem := by
  have hrun : (MProg.run DevOp.handle (MProg.calls (TableCall.record (romPlatform eightBytes))
      [.fseek (-1) 2] { fp := Stdio.tableStream .flash textItem.pFile textItem })
      {} (fun _ => none)).map (fun r => (r.1.1, r.1.2.fp.offset)) = some ([.code 0], 9) := by decide
  obtain ⟨⟨⟨rs, x⟩, σ', d'⟩, hrun, heq⟩ := Option.map_eq_some_iff.1 hrun
  obtain ⟨hrs, hoffset⟩ := Prod.mk.inj heq
  refine ⟨rs, x, σ', d', hrun, hrs, hoffset, fun hin => ?_⟩
  have hle := hin.inEntry.2
  change x.fp.offset = 9 at hoffset
  change x.fp.offset ≤ 8 at hle
  omega

end OsdCore
