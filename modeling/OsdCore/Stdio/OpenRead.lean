import OsdCore.Stdio.Table

/-!
# Opening a file and reading its beginning

* `run_openAndRead_file`, `run_openAndRead_table` : a file of the file system, and an entry of the
  flash table that no file hides, are read alike.
-/

namespace OsdCore

open Stdio

/-- Open a file for reading and read its first `n` bytes. -/
def openAndRead (P : Platform) (p : Path) (n : ℕ) : StdioM (Option Bytes) := do
  match ← fopen p (ascii "rb") with
  | none => pure none
  | some fp => do
    let (_, buf, fp) ← fread P 1 n fp
    let _ ← fclose fp
    pure (some buf)

variable {σ : StdioState} {d : Disk} {P : Platform} {p : Path} {c : Bytes}

/-- `fread` from the beginning of an entry of the flash table. -/
theorem Stdio.wpc_fread_table {D : Device DevOp DevOp.Resp Disk} {C : Disk → Prop} {ub : Prop}
    {item : UncompressFileItem} {n : ℕ} {Q : ℕ × Bytes × FILE → StdioState → Disk → Prop}
    (hC : C d) (hitem : ItemHolds P item c) (hn : n < 2 ^ 31)
    (h : ∀ fp', fp'.isUncompress = true →
      Q ((fileView P p c n).length, fileView P p c n, fp') σ d) :
    MProg.wpc D C ub (fread P 1 n (tableStream .flash p item)) Q σ d := by
  have hsize := hitem.size_lt
  have hlenv := length_fileView P p c n
  rw [tableAt_zero, fread_tableAt, show n * 1 % 2 ^ 32 = n by omega]
  change MProg.wpc D C ub (freadExt P 1 n (tableAt .flash p item ((0 : ℕ) : ℤ))) Q σ d
  refine wpc_freadExt_flash hC hitem.nLen hsize (Nat.zero_le _) (by omega)
    (fun _ _ => by omega) (fun _ hlt hno => ?_) (fun hend => ?_) fun buf _ hlt hbuf => ?_
  · rw [flashRead_aligned hitem hlt fun _ => dvd_zero 512] at hno
    cases hno
  · have hview : fileView P p c n = [] := List.length_eq_zero_iff.1 (by omega)
    simpa [hview] using h _ (isUncompress_tableAt 0)
  · rw [flashRead_aligned hitem hlt fun _ => dvd_zero 512, List.drop_zero, ← fileView_eq] at hbuf
    cases hbuf
    rw [Nat.sub_zero, ← hlenv, Nat.div_one]
    exact h _ (isUncompress_tableAt _)

/-- A file of the file system is read as its view, whatever the flash table holds. -/
theorem run_openAndRead_file {n : ℕ} (hidle : σ.Idle) (h5 : 5 ≤ p.length) (hu : ¬ σ.InUpdate p)
    (hd : d p = some c) (hc : c.length < 2 ^ 31) (hn : n < 2 ^ 31) :
    MProg.run DevOp.handle (openAndRead P p n) σ d = some (some (fileView P p c n), σ, d) := by
  refine run_eq_of_wpc ?_
  unfold openAndRead
  rw [MProg.wpc_bind]
  refine wpc_fopen_rb hidle h5 trivial hu (fun _ => ?_) fun hno => ?_
  · simp only [MProg.wpc_bind]
    refine wpc_fread_start (n := n) id trivial (fileAt_fopen p) hd (fun _ => hc) (by omega) hn
      fun fp' hfp' => ?_
    exact wpc_fclose_file hfp'.isUncompress hfp'.flags trivial fun _ => ⟨trivial, rfl⟩
  · exact absurd (hd.symm.trans (hno.resolve_right id)) (Option.some_ne_none c)

/-- An entry of the flash table that no file hides is read as its view. -/
theorem run_openAndRead_table {item : UncompressFileItem} {n : ℕ} (hidle : σ.Idle)
    (h5 : 5 ≤ p.length) (hu : ¬ σ.InUpdate p) (hd : d p = none)
    (hitem : σ.pFlashFileTable.find? (·.pFile = p) = some item) (hc : ItemHolds P item c)
    (hn : n < 2 ^ 31) :
    MProg.run DevOp.handle (openAndRead P p n) σ d = some (some (fileView P p c n), σ, d) := by
  have hne : p ≠ [] := by rintro rfl; simp at h5
  refine run_eq_of_wpc ?_
  unfold openAndRead
  rw [MProg.wpc_bind]
  refine wpc_fopen_rb hidle h5 trivial hu (fun hsome => absurd hd (Option.isSome_iff_ne_none.1 hsome))
    fun _ => ?_
  rw [tableOpen_of_not_inUpdate hne hu, hitem]
  simp only [Option.map_some, MProg.wpc_bind]
  refine wpc_fread_table trivial hc hn fun fp' hfp' => ?_
  exact wpc_fclose_table hfp' trivial ⟨trivial, rfl⟩

/-- Reading an entry of the flash table that no file hides and that is not encrypted, in full: the
number of bytes is an `int`, and the bytes are copied from the item's offset. -/
theorem run_openAndRead_item {item : UncompressFileItem} {n : ℕ} (h5 : 5 ≤ p.length)
    (hidle : σ.Idle) (hu : ¬ σ.InUpdate p) (hd : d p = none)
    (hitem : σ.pFlashFileTable.find? (·.pFile = p) = some item) (henc : ¬ ascii ".luae" <:+ p)
    (hn : 0 < n ∧ n < 2 ^ 32) :
    MProg.run DevOp.handle (openAndRead P p n) σ d =
      let len := toInt32 (if toU32 item.nLen ≥ n then n else toU32 item.nLen)
      if len ≤ 0 then some (some [], σ, d)
      else (memcpyFrom P.rom.bytes item.nOffset len.toNat).map fun buf => (some buf, σ, d) := by
  have hne : p ≠ [] := by rintro rfl; simp at h5
  have hres : n * 1 % 2 ^ 32 = n := by omega
  dsimp only
  have hread : readLen item 0 n = toInt32 (if toU32 item.nLen ≥ n then n else toU32 item.nLen) := by
    rw [readLen, sub_zero]
  generalize toInt32 (if toU32 item.nLen ≥ n then n else toU32 item.nLen) = len at hread ⊢
  refine run_eq_of_wpc ?_
  unfold openAndRead
  rw [MProg.wpc_bind]
  refine wpc_fopen_rb hidle h5 trivial hu (fun hsome => absurd hd (Option.isSome_iff_ne_none.1 hsome))
    fun _ => ?_
  rw [tableOpen_of_not_inUpdate hne hu, hitem]
  simp only [Option.map_some, MProg.wpc_bind, tableAt_zero, fread_tableAt, hres,
    freadExt_flash hn.1.ne', hread, henc, ↓reduceIte, add_zero]
  by_cases hpos : len ≤ 0
  · simp only [hpos, ↓reduceIte]
    exact ⟨trivial, wpc_fclose_table (isUncompress_tableAt 0) trivial ⟨trivial, rfl⟩⟩
  · simp only [hpos, ↓reduceIte, MProg.wpc_bind, MProg.wpc_pure, wpc_defined, true_and]
    cases hbuf : memcpyFrom P.rom.bytes item.nOffset len.toNat with
    | none => rfl
    | some buf =>
      exact wpc_fclose_table (isUncompress_tableAt _) trivial rfl

/-- A path that is neither in the tables nor on the file system is not opened. -/
theorem run_openAndRead_none {n : ℕ} (hidle : σ.Idle) (h5 : 5 ≤ p.length)
    (hno : ¬ σ.Present d p) :
    MProg.run DevOp.handle (openAndRead P p n) σ d = some (none, σ, d) := by
  have hne : p ≠ [] := by rintro rfl; simp at h5
  simp only [StdioState.Present, not_or] at hno
  obtain ⟨hu, hflash, hd⟩ := hno
  refine run_eq_of_wpc ?_
  unfold openAndRead
  rw [MProg.wpc_bind]
  refine wpc_fopen_rb hidle h5 trivial hu (fun hsome => absurd hsome hd) fun _ => ?_
  have hfind : σ.pFlashFileTable.find? (·.pFile = p) = none :=
    List.find?_eq_none.2 fun item hmem hitem => hflash ⟨item, hmem, by simpa using hitem⟩
  rw [tableOpen_of_not_inUpdate hne hu, hfind]
  exact ⟨trivial, rfl⟩

end OsdCore
