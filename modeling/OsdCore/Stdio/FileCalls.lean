import OsdCore.Stdio.Read

/-!
# What calls keep of a stream

A script reads, writes, seeks and tells on a stream of the file system (`FileCall`), over a device that
may answer anything.  The library changes the stream in few ways, and what each of them keeps
(`Stable`), every call keeps.

* `Stable.run` : the rule.
* `stable_mode` : the stream stays open for reading or writing, on any device.
-/

namespace OsdCore

/-- A call of a script on an open stream of the file system. -/
inductive FileCall where
  | fread (size count : ℕ)
  | fwrite (buf : Bytes) (size count : ℕ)
  | fputs (s : Bytes)
  | fseek (offset : ℤ) (whence : Whence)
  | ftell
deriving DecidableEq, Repr

/-- Make the call, for what becomes of the stream. -/
def FileCall.run (P : Platform) (c : FileCall) (fp : FILE) : StdioM FILE :=
  match c with
  | fread size count => do
    let r ← Stdio.fread P size count fp
    pure r.2.2
  | fwrite buf size count => do
    let r ← Stdio.fwrite buf size count fp
    pure r.2
  | fputs s => do
    let r ← Stdio.fputs s fp
    pure r.2
  | fseek offset whence => do
    let r ← Stdio.fseek fp offset whence
    pure r.2
  | ftell => do
    let r ← Stdio.ftell fp
    pure r.2

namespace Stdio

variable {S : Type} {D : Device DevOp DevOp.Resp S} {J : FILE → Prop} {σ : StdioState} {s : S}
variable {P : Platform} {fp : FILE}

/-- **What each change of a stream keeps.** -/
structure Stable (D : Device DevOp DevOp.Resp S) (J : FILE → Prop) : Prop where
  isUncompress : ∀ fp, J fp → fp.isUncompress = false
  /-- `__sread` : the answer moves the offset. -/
  read : ∀ fp n s r s', J fp → D.step (.readFile fp.file n) s r s' →
    J { fp with file := r.2, offset := fp.offset + (r.1.getD []).length }
  /-- `__sseek` : the offset is known. -/
  seek : ∀ fp offset whence s r s', J fp → D.step (.seekFile fp.file offset whence) s r s' → 0 ≤ r.1 →
    J { fp with file := r.2, flags := fp.flags ||| SOFF, offset := r.1 }
  /-- The offset is not known any more. -/
  forget : ∀ fp fd, J fp → J { fp with file := fd, flags := fp.flags &&& ~~~SOFF }
  mark : ∀ fp x, J fp → x = SEOF ∨ x = SERR → J { fp with flags := fp.flags ||| x }
  clear : ∀ fp, J fp → J { fp with flags := fp.flags &&& ~~~SEOF }

/-- A program keeps what holds of its stream, and the library's memory. -/
abbrev Keeps {R : Type} (D : Device DevOp DevOp.Resp S) (J : FILE → Prop) (σ : StdioState) (s : S)
    (x : StdioM (R × FILE)) : Prop :=
  MProg.wpc D (fun _ => True) True x (fun r σ' _ => J r.2 ∧ σ' = σ) σ s

/-- Such a program in front of others. -/
theorem Keeps.wpc {R : Type} {x : StdioM (R × FILE)} (hx : Keeps D J σ s x)
    {Q : R × FILE → StdioState → S → Prop} (hQ : ∀ r fp s', J fp → Q (r, fp) σ s') :
    MProg.wpc D (fun _ => True) True x Q σ s := by
  refine MProg.wpc_mono hx fun r σ' s' _ hr => ?_
  obtain ⟨hfp, rfl⟩ := hr
  exact hQ _ _ _ hfp

namespace Stable

variable (h : Stable D J)

include h

theorem keeps_sread (n : ℕ) (hfp : J fp) : Keeps D J σ s (sread fp n) := by
  simp only [Keeps, sread, readFile, callDevice, MProg.wpc_bind, MProg.wpc_op, MProg.wpc_pure]
  exact ⟨trivial, fun _ _ => trivial, fun r s' hst => ⟨trivial, trivial, h.read _ _ _ _ _ hfp hst, trivial⟩⟩

theorem keeps_sseek (offset : ℤ) (whence : Whence) (hfp : J fp) :
    Keeps D J σ s (sseek fp offset whence) := by
  simp only [Keeps, sseek, seekFile, callDevice, MProg.wpc_bind, MProg.wpc_op]
  refine ⟨trivial, fun _ _ => trivial, fun r s' hst => ⟨trivial, ?_⟩⟩
  by_cases hneg : r.1 < 0
  · simp only [hneg, ↓reduceIte]
    exact ⟨trivial, h.forget _ _ hfp, rfl⟩
  · simp only [hneg, ↓reduceIte]
    exact ⟨trivial, h.seek _ _ _ _ _ _ hfp hst (by omega), rfl⟩

theorem keeps_swrite (buf : Bytes) (hfp : J fp) : Keeps D J σ s (swrite fp buf) := by
  -- the seek that `O_APPEND` asks for changes the descriptor only
  have hwrite : ∀ (fd : Descriptor) (s : S), MProg.wpc D (fun _ => True) True (writeFile fd buf)
      (fun r σ' _ => J { fp with file := r.2, flags := fp.flags &&& ~~~SOFF } ∧ σ' = σ) σ s := by
    intro fd s
    rw [writeFile, callDevice, MProg.wpc_op]
    exact ⟨trivial, fun _ _ => trivial, fun r s' _ => ⟨trivial, h.forget _ _ hfp, rfl⟩⟩
  simp only [Keeps, swrite]
  split_ifs
  · simp only [seekFile, callDevice, MProg.wpc_bind, MProg.wpc_op, MProg.wpc_pure]
    refine ⟨trivial, fun _ _ => trivial, fun r s' _ => ⟨trivial, trivial, ?_⟩⟩
    exact MProg.wpc_mono (hwrite r.2 s') fun _ _ _ _ hr => ⟨trivial, hr⟩
  · simp only [MProg.wpc_bind, MProg.wpc_pure, true_and]
    exact MProg.wpc_mono (hwrite fp.file s) fun _ _ _ _ hr => hr

theorem keeps_fseek (offset : ℤ) (whence : Whence) (hfp : J fp) :
    Keeps D J σ s (fseek fp offset whence) := by
  simp only [Keeps, fseek, h.isUncompress _ hfp, Bool.false_eq_true, ↓reduceIte, MProg.wpc_bind]
  refine (h.keeps_sseek offset whence hfp).wpc fun r fp' s' hfp' => ?_
  split_ifs
  · exact ⟨trivial, h.clear _ hfp', rfl⟩
  · exact ⟨trivial, hfp', rfl⟩

theorem keeps_ftell (hfp : J fp) : Keeps D J σ s (ftell fp) := by
  simp only [Keeps, ftell, h.isUncompress _ hfp, Bool.false_eq_true, ↓reduceIte]
  split_ifs
  · exact ⟨trivial, hfp, rfl⟩
  · exact h.keeps_sseek 0 .SEEK_CUR hfp

theorem keeps_freadFile (offset size resid : ℕ) (hfp : J fp) :
    MProg.wpc D (fun _ => True) True (freadFile P offset size resid fp)
      (fun r σ' _ => J r.2.2 ∧ σ' = σ) σ s := by
  unfold freadFile
  extract_lets low up n rest
  have hcopy : ∀ fp s (k : ℕ) (o : Option Bytes), J fp → MProg.wpc D (fun _ => True) True
      (defined o >>= fun buf => pure (k, buf, fp)) (fun r σ' _ => J r.2.2 ∧ σ' = σ) σ s := by
    intro fp s k o hfp
    rw [MProg.wpc_bind, wpc_defined]
    cases o with
    | none => exact ⟨trivial, trivial⟩
    | some buf => exact ⟨trivial, trivial, hfp, rfl⟩
  have hrest : ∀ fp s, J fp → MProg.wpc D (fun _ => True) True (rest fp)
      (fun r σ' _ => J r.2.2 ∧ σ' = σ) σ s := by
    intro fp s hfp
    simp only [rest, MProg.wpc_bind]
    refine (h.keeps_sread _ hfp).wpc fun temp fp s hfp => ?_
    by_cases hnil : temp = []
    · simp only [hnil, ↓reduceIte]
      exact ⟨trivial, h.mark _ _ hfp (Or.inl rfl), rfl⟩
    by_cases henc : fp.type = ENC_FILE
    · simp only [hnil, henc, ↓reduceIte]
      by_cases hshort : temp.length < n
      · simp only [hshort, ↓reduceIte, MProg.wpc_bind]
        refine (h.keeps_fseek _ _ hfp).wpc fun r fp₁ s₁ hfp₁ => ?_
        refine (h.keeps_ftell hfp₁).wpc fun t fp₂ s₂ hfp₂ => ⟨trivial, ?_⟩
        exact (h.keeps_fseek _ _ hfp₂).wpc fun r fp₃ s₃ hfp₃ =>
          MProg.wpc_bind.1 (hcopy _ _ _ _ hfp₃)
      · simp only [hshort, ↓reduceIte, MProg.wpc_bind]
        exact ⟨trivial, (h.keeps_fseek _ _ hfp).wpc fun r fp₃ s₃ hfp₃ =>
          MProg.wpc_bind.1 (hcopy _ _ _ _ hfp₃)⟩
    · simp only [hnil, henc, ↓reduceIte]
      exact ⟨trivial, hfp, rfl⟩
  by_cases henc : fp.type = ENC_FILE
  · simp only [henc, ↓reduceIte, MProg.wpc_bind]
    exact (h.keeps_fseek _ _ hfp).wpc fun r fp₁ s₁ hfp₁ => ⟨trivial, hrest _ _ hfp₁⟩
  · simp only [henc, ↓reduceIte, MProg.wpc_bind]
    exact ⟨trivial, hrest _ _ hfp⟩

/-- **What each change keeps, every call keeps.** -/
theorem run (c : FileCall) (hfp : J fp) :
    MProg.wpc D (fun _ => True) True (c.run P fp) (fun fp' σ' _ => J fp' ∧ σ' = σ) σ s := by
  cases c with
  | fread size count =>
    simp only [FileCall.run, fread, MProg.wpc_bind]
    refine (h.keeps_ftell hfp).wpc fun offset fp₁ s₁ hfp₁ => ?_
    simp only [h.isUncompress _ hfp₁, Bool.false_eq_true, ↓reduceIte]
    split_ifs
    · exact ⟨trivial, trivial, hfp₁, rfl⟩
    · refine MProg.wpc_mono (h.keeps_freadFile _ _ _ hfp₁) fun r σ' s' _ hr => ⟨trivial, hr⟩
  | fwrite buf size count =>
    simp only [FileCall.run, fwrite, MProg.wpc_bind]
    split_ifs
    · exact ⟨trivial, trivial, hfp, rfl⟩
    · simp only [MProg.wpc_bind, wpc_defined]
      refine ⟨trivial, ?_⟩
      cases memcpyFrom buf 0 (size * count % 2 ^ 32) with
      | none => trivial
      | some data =>
        refine (h.keeps_swrite data hfp).wpc fun w fp₁ s₁ hfp₁ => ?_
        simp only
        split_ifs
        · exact ⟨trivial, trivial, h.mark _ _ hfp₁ (Or.inr rfl), rfl⟩
        · exact ⟨trivial, trivial, hfp₁, rfl⟩
  | fputs b =>
    simp only [FileCall.run, fputs, h.isUncompress _ hfp, Bool.false_eq_true, ↓reduceIte,
      MProg.wpc_bind]
    exact (h.keeps_swrite b hfp).wpc fun r fp₁ s₁ hfp₁ => ⟨trivial, hfp₁, rfl⟩
  | fseek offset whence =>
    rw [FileCall.run, MProg.wpc_bind]
    exact (h.keeps_fseek offset whence hfp).wpc fun r fp₁ s₁ hfp₁ => ⟨trivial, hfp₁, rfl⟩
  | ftell =>
    rw [FileCall.run, MProg.wpc_bind]
    exact (h.keeps_ftell hfp).wpc fun r fp₁ s₁ hfp₁ => ⟨trivial, hfp₁, rfl⟩

end Stable

/-- The stream is one of the file system, open for reading or writing. -/
structure ModeSet (fp : FILE) : Prop where
  isUncompress : fp.isUncompress = false
  flags : fp.flags &&& (SRD ||| SWR ||| SRW) ≠ 0

theorem ModeSet.flags_ne (h : ModeSet fp) : fp.flags ≠ 0 := by
  intro h0
  exact h.flags (by rw [h0]; exact BitVec.zero_and)

theorem stable_modeSet (D : Device DevOp DevOp.Resp S) : Stable D ModeSet where
  isUncompress _ h := h.isUncompress
  read _ _ _ _ _ h _ := ⟨h.isUncompress, h.flags⟩
  seek fp _ _ _ _ _ h _ _ := ⟨h.isUncompress, by
    change (fp.flags ||| SOFF) &&& _ ≠ 0
    rw [or_and_of_disjoint (by decide)]
    exact h.flags⟩
  forget fp _ h := ⟨h.isUncompress, by
    change (fp.flags &&& ~~~SOFF) &&& _ ≠ 0
    rw [and_not_and_of_disjoint (by decide)]
    exact h.flags⟩
  mark fp x h hx := ⟨h.isUncompress, by
    change (fp.flags ||| x) &&& _ ≠ 0
    rcases hx with rfl | rfl <;> rw [or_and_of_disjoint (by decide)] <;> exact h.flags⟩
  clear fp h := ⟨h.isUncompress, by
    change (fp.flags &&& ~~~SEOF) &&& _ ≠ 0
    rw [and_not_and_of_disjoint (by decide)]
    exact h.flags⟩

end Stdio

end OsdCore
