import OsdCore.Stdio.Basic

/-!
# What the streams do to the file system

One rule for each function of the C library, in terms of `MProg.wpc` on a device with any faults: which
results it may give, which disk it leaves, and which disks a power failure leaves behind.
-/

namespace OsdCore

/-! ### Paths in the file tables -/

/-- The path is in the update's table. -/
def StdioState.InUpdate (σ : StdioState) (p : Path) : Prop :=
  ∃ item ∈ σ.pUpdateFileTable, item.pFile = p

/-- The path is in the flash table. -/
def StdioState.InFlash (σ : StdioState) (p : Path) : Prop :=
  ∃ item ∈ σ.pFlashFileTable, item.pFile = p

instance (σ : StdioState) (p : Path) : Decidable (σ.InUpdate p) := by
  unfold StdioState.InUpdate; infer_instance

instance (σ : StdioState) (p : Path) : Decidable (σ.InFlash p) := by
  unfold StdioState.InFlash; infer_instance

/-- There is a slot for a stream. -/
def StdioState.Idle (σ : StdioState) : Prop := σ.openFiles < fopenMax

theorem StdioState.idle_init : ({} : StdioState).Idle := by
  unfold Idle
  decide

/-- The state with one more slot in use. -/
def StdioState.acquire (σ : StdioState) : StdioState := { σ with openFiles := σ.openFiles + 1 }

/-- `fopen` for reading finds something under the path. -/
def StdioState.Present (σ : StdioState) (d : Disk) (p : Path) : Prop :=
  σ.InUpdate p ∨ σ.InFlash p ∨ (d p).isSome

instance (σ : StdioState) (d : Disk) (p : Path) : Decidable (σ.Present d p) := by
  unfold StdioState.Present; infer_instance

namespace Stdio

theorem findUncompressFileItem_update {σ : StdioState} {p : Path} {item : UncompressFileItem}
    (h : findUncompressFileItem σ p = some (.update, item)) : σ.InUpdate p := by
  unfold findUncompressFileItem at h
  split_ifs at h
  cases hu : σ.pUpdateFileTable.find? (·.pFile = p) with
  | none => simp [hu] at h
  | some it => exact ⟨it, List.mem_of_find?_eq_some hu, by simpa using List.find?_some hu⟩

theorem findUncompressFileItem_of_inUpdate {σ : StdioState} {p : Path} (hp : p ≠ [])
    (h : σ.InUpdate p) : ∃ item, findUncompressFileItem σ p = some (.update, item) := by
  obtain ⟨item, hmem, hitem⟩ := h
  cases hu : σ.pUpdateFileTable.find? (·.pFile = p) with
  | none => exact absurd hitem (by simpa using List.find?_eq_none.1 hu item hmem)
  | some it => exact ⟨it, by simp [findUncompressFileItem, hp, hu]⟩

theorem findUncompressFileItem_of_not_inUpdate {σ : StdioState} {p : Path} (hp : p ≠ [])
    (h : ¬ σ.InUpdate p) : findUncompressFileItem σ p =
      (σ.pFlashFileTable.find? (·.pFile = p)).map fun item => (.flash, item) := by
  have hu : σ.pUpdateFileTable.find? (·.pFile = p) = none :=
    List.find?_eq_none.2 fun item hmem hitem => h ⟨item, hmem, by simpa using hitem⟩
  simp [findUncompressFileItem, hp, hu]

theorem map_findUncompressFileItem {σ : StdioState} {p : Path} (hp : p ≠ []) :
    ((findUncompressFileItem σ p).map (·.1) = some .update) ↔ σ.InUpdate p := by
  constructor
  · intro h
    obtain ⟨⟨sec, item⟩, hfind, hsec⟩ := Option.map_eq_some_iff.1 h
    cases hsec
    exact findUncompressFileItem_update hfind
  · intro h
    obtain ⟨item, hitem⟩ := findUncompressFileItem_of_inUpdate hp h
    simp [hitem]

/-! ### Streams as `fopen` gives them -/

/-- The stream of a table entry. -/
def tableStream (nSection : TableSection) (file : Path) (item : UncompressFileItem) : FILE where
  flags := nSection.toFlags
  cookie := some item
  type := LUA_UNCOMPRESS_FILE ||| if ascii ".luae" <:+ file then ENC_FILE else 0

/-- The stream of a file of the file system. -/
def fileStream (flags : BitVec 16) (file : Path) : FILE where
  flags := flags
  file := { path := file }
  type := if ascii ".luae" <:+ file then ENC_FILE else COMMON_FILE

/-- The stream of the table entry of a path. -/
def tableOpen (σ : StdioState) (file : Path) : Option FILE :=
  (findUncompressFileItem σ file).map fun r => tableStream r.1 file r.2

theorem tableOpen_of_not_inUpdate {σ : StdioState} {file : Path} (hne : file ≠ [])
    (hu : ¬ σ.InUpdate file) : tableOpen σ file =
      (σ.pFlashFileTable.find? (·.pFile = file)).map fun item => tableStream .flash file item := by
  rw [tableOpen, findUncompressFileItem_of_not_inUpdate hne hu, Option.map_map]
  rfl

theorem isLuaeFile_eq {file : Path} (h : 5 ≤ file.length) :
    isLuaeFile file = some (decide (ascii ".luae" <:+ file)) := by
  have happ := @strncmpAt_append file (ascii ".luae") [0] h
  rwa [show ((file.length - (ascii ".luae").length : ℕ) : ℤ) = (file.length : ℤ) - 5 by
    simp [ascii]; omega] at happ

theorem isUncompress_tableStream (nSection : TableSection) (file : Path)
    (item : UncompressFileItem) : (tableStream nSection file item).isUncompress = true := by
  unfold FILE.isUncompress tableStream
  split_ifs <;> simp [LUA_UNCOMPRESS_FILE, ENC_FILE]

theorem isUncompress_fileStream (flags : BitVec 16) (file : Path) :
    (fileStream flags file).isUncompress = false := by
  unfold FILE.isUncompress fileStream
  split_ifs <;> simp [LUA_UNCOMPRESS_FILE, ENC_FILE, COMMON_FILE]

/-! ### Rules -/

variable {F : Faults} {C : Disk → Prop} {ub : Prop} {σ : StdioState} {d : Disk}

@[simp] theorem wpc_defined {α S : Type} {D : Device DevOp DevOp.Resp S} {C : S → Prop} {s : S}
    {o : Option α} {Q : α → StdioState → S → Prop} :
    MProg.wpc D C ub (defined o) Q σ s ↔ C s ∧ match o with
      | some a => Q a σ s
      | none => ub := by
  cases o <;> exact Iff.rfl

theorem defined_some_bind {α β : Type} (a : α) (x : α → StdioM β) : (defined (some a) >>= x) = x a :=
  rfl

theorem pure_bind {α β : Type} (a : α) (x : α → StdioM β) : ((pure a : StdioM α) >>= x) = x a := rfl

/-- One call of the platform. -/
theorem wpc_callDevice {o : DevOp} {Q : o.Resp → StdioState → Disk → Prop} (hC : C d)
    (hcut : ∀ m, o.Cut d m → C m)
    (hok : C (o.handle d).2 ∧ Q (o.handle d).1 σ (o.handle d).2)
    (hfail : ∀ r d', o.Fails F d r d' → C d' ∧ Q r σ d') :
    MProg.wpc (device F) C ub (callDevice o) Q σ d := by
  refine ⟨hC, hcut, fun r d' h => ?_⟩
  rcases h with h | h
  · rw [← h] at hok
    exact hok
  · exact hfail r d' h

/-- A rule for the device without faults computes the run. -/
theorem run_eq_of_wpc {α : Type} {x : StdioM α} {y : Option (α × StdioState × Disk)}
    (h : MProg.wpc (device .none) (fun _ => True) (y = none) x (fun a σ' d' => y = some (a, σ', d'))
      σ d) : MProg.run DevOp.handle x σ d = y :=
  MProg.run_eq_of_wpc (Prog.wpc_device h (fun _ _ _ _ hst => device_none_step.2 hst)
    fun _ _ _ => False.elim)

theorem wpc_fopenExt {D : Device DevOp DevOp.Resp Disk} {file : Path} (h5 : 5 ≤ file.length)
    {Q : Option FILE → StdioState → Disk → Prop} (hC : C d) (h : Q (tableOpen σ file) σ d) :
    MProg.wpc D C ub (fopenExt file) Q σ d := by
  unfold fopenExt
  simp only [MProg.wpc_bind, MProg.wpc_get, hC, true_and]
  unfold tableOpen at h
  cases hfind : findUncompressFileItem σ file with
  | none => simpa [hfind, hC] using h
  | some r =>
    obtain ⟨nSection, item⟩ := r
    simp only [isLuaeFile_eq h5, MProg.wpc_bind, wpc_defined, MProg.wpc_pure, hC, true_and]
    simpa [hfind, tableStream] using h

/-- **`fopen`**: a path of the update's table is opened there; any other path is opened on the file
system, and if that fails, in the flash table. -/
theorem wpc_fopen {file : Path} {mode : Bytes} {flags : BitVec 16} {oflags : ℕ}
    {Q : Option FILE → StdioState → Disk → Prop} (hmode : sflags mode = some (flags, oflags))
    (hidle : σ.Idle) (h5 : 5 ≤ file.length) (hC : C d)
    (htable : ∀ item, findUncompressFileItem σ file = some (.update, item) →
      Q (some (tableStream .update file item)) σ d)
    (hopen : ¬ σ.InUpdate file → (d file).isSome ∨ oflags &&& O_CREAT ≠ 0 →
      C (DevOp.handle (.openFile file oflags) d).2 ∧
        Q (some (fileStream flags file)) σ.acquire (DevOp.handle (.openFile file oflags) d).2)
    (hnone : ¬ σ.InUpdate file → (¬ ((d file).isSome ∨ oflags &&& O_CREAT ≠ 0)) ∨ F.other →
      Q (tableOpen σ file) σ d) :
    MProg.wpc (device F) C ub (fopen file mode) Q σ d := by
  have hne : file ≠ [] := by rintro rfl; simp at h5
  have hslot : ∀ pFile, (F.other ∨ ¬ ((d file).isSome ∨ oflags &&& O_CREAT ≠ 0) → Q pFile σ d) →
      ¬ σ.InUpdate file → MProg.wpc (device F) C ub (openSlot file pFile flags oflags) Q σ d := by
    intro pFile hp hu
    unfold StdioState.Idle at hidle
    simp only [openSlot, MProg.wpc_bind, MProg.wpc_get, hC, true_and, hidle, ↓reduceIte,
      MProg.wpc_set]
    refine wpc_callDevice hC (fun m hm => by cases hm) ?_ fun r d' hf => ?_
    · by_cases hex : (d file).isSome ∨ oflags &&& O_CREAT ≠ 0
      · obtain ⟨hC', hQ⟩ := hopen hu hex
        simp only [DevOp.handle, hex, ↓reduceIte] at hC' hQ ⊢
        simp only [isLuaeFile_eq h5, MProg.wpc_bind, wpc_defined, MProg.wpc_pure, hC', true_and]
        simpa [fileStream, StdioState.acquire] using hQ
      · simp only [DevOp.handle, hex, ↓reduceIte, hC, true_and, MProg.wpc_bind, release,
          MProg.wpc_modify, MProg.wpc_pure, Nat.add_sub_cancel]
        exact hp (Or.inr hex)
    · cases hf with
      | openFile ho =>
        simp only [hC, true_and, MProg.wpc_bind, release, MProg.wpc_modify, MProg.wpc_pure,
          Nat.add_sub_cancel]
        exact hp (Or.inl ho)
  unfold fopen
  rw [MProg.wpc_bind]
  refine wpc_fopenExt h5 hC ?_
  by_cases hu : σ.InUpdate file
  · obtain ⟨item, hitem⟩ := findUncompressFileItem_of_inUpdate hne hu
    have htab : tableOpen σ file = some (tableStream .update file item) := by
      simp [tableOpen, hitem]
    simpa [htab, tableStream, TableSection.toFlags, hC] using htable item hitem
  · have hflags : ¬ ((tableOpen σ file).isSome ∧ (tableOpen σ file).map (·.flags) = some 0) := by
      rw [tableOpen_of_not_inUpdate hne hu]
      cases σ.pFlashFileTable.find? (·.pFile = file) <;> simp [tableStream, TableSection.toFlags]
    rw [if_neg hflags, hmode]
    exact hslot _ (fun h => hnone hu h.symm) hu

/-- `fclose` of a stream that a table gave. -/
theorem wpc_fclose_table {D : Device DevOp DevOp.Resp Disk} {fp : FILE}
    {Q : ℤ → StdioState → Disk → Prop} (hfp : fp.isUncompress = true) (hC : C d) (h : Q 0 σ d) :
    MProg.wpc D C ub (fclose fp) Q σ d := by
  simpa [fclose, hfp, hC] using h

/-- `fclose` of an open file gives its slot back. -/
theorem wpc_fclose_file {fp : FILE} {Q : ℤ → StdioState → Disk → Prop}
    (hfp : fp.isUncompress = false) (hflags : fp.flags ≠ 0) (hC : C d) (h : ∀ r, Q r σ d) :
    MProg.wpc (device F) C ub (fclose fp) Q σ.acquire d := by
  have hrel : ({ σ.acquire with openFiles := σ.acquire.openFiles - 1 } : StdioState) = σ := rfl
  simp only [fclose, hfp, hflags, Bool.false_eq_true, ↓reduceIte, MProg.wpc_bind, closeFile]
  refine wpc_callDevice hC (fun m hm => by cases hm) ?_ fun r d' hf => ?_
  · simp only [DevOp.handle, release, MProg.wpc_modify, MProg.wpc_pure, hC, true_and, hrel]
    exact h _
  · cases hf
    simp only [release, MProg.wpc_modify, MProg.wpc_pure, hC, true_and, hrel]
    exact h _

theorem wpc_remove {filename : Path} {Q : ℤ → StdioState → Disk → Prop} (hC : C d)
    (hok : C (Function.update d filename none) ∧ ∀ r, Q r σ (Function.update d filename none))
    (hfail : F.other → ∀ r, Q r σ d) :
    MProg.wpc (device F) C ub (remove filename) Q σ d := by
  simp only [remove, MProg.wpc_bind, deleteFile]
  refine wpc_callDevice hC (fun m hm => by cases hm) ?_ fun r d' hf => ?_
  · simp only [DevOp.handle, MProg.wpc_pure, hok.1, true_and]
    exact hok.2 _
  · cases hf with
    | deleteFile ho => exact ⟨hC, hC, hfail ho _⟩

/-- What `fwrite` reports for `n` bytes that the file system has stored: `n`, unless it is 0 or too
large for an `int`. -/
def fwriteReport (n : ℕ) : ℕ := if 0 < n ∧ n < 2 ^ 31 then n else sizeEOF

theorem fwriteReport_eq_iff {n : ℕ} (h : n < sizeEOF) :
    fwriteReport n = n ↔ 0 < n ∧ n < 2 ^ 31 := by
  unfold fwriteReport
  split_ifs with hn
  · exact ⟨fun _ => hn, fun _ => rfl⟩
  · exact ⟨fun h' => absurd h'.symm h.ne, fun h' => absurd h' hn⟩

/-- **`fwrite`** to a file of the file system. -/
theorem wpc_fwrite {buf : Bytes} {size count n : ℕ} {fp : FILE}
    {Q : ℕ × FILE → StdioState → Disk → Prop} (hfp : fp.flags = SWR) (hn : size * count % 2 ^ 32 = n)
    (hC : C d) (hub : buf.length < n → ub)
    (hcut : ∀ k, C (d.write fp.file ((buf.take n).take k)))
    (hok : n ≤ buf.length → ∀ w fp', fp'.isUncompress = fp.isUncompress → fp'.flags ≠ 0 →
      (size = 1 → w = fwriteReport n) → Q (w, fp') σ (d.write fp.file (buf.take n)))
    (hfail : F.write → ∀ w k fp', fp'.isUncompress = fp.isUncompress → fp'.flags ≠ 0 →
      (size = 1 → w ≠ n) → Q (w, fp') σ (d.write fp.file ((buf.take n).take k))) :
    MProg.wpc (device F) C ub (fwrite buf size count fp) Q σ d := by
  have hcan : ¬ (fp.flags &&& (SWR ||| SRW) = 0) := by rw [hfp]; decide
  have happend : ¬ (fp.flags &&& 1 ≠ 0) := by rw [hfp]; decide
  have hwritten : fp.flags &&& ~~~SOFF ≠ 0 := by rw [hfp]; decide
  have herror : fp.flags &&& ~~~SOFF ||| SERR ≠ 0 := by rw [hfp]; decide
  rw [fwrite, if_neg hcan, hn]
  simp only [MProg.wpc_bind, wpc_defined, hC, true_and]
  by_cases hlen : n ≤ buf.length
  · have hdata : memcpyFrom buf 0 n = some (buf.take n) := by
      simp [memcpyFrom, slice, hlen]
    have hsize : (buf.take n).length = n := by simp [hlen]
    have htake : (buf.take n).take n = buf.take n := by rw [List.take_take, Nat.min_self]
    simp only [hdata, swrite, if_neg happend, MProg.wpc_bind, MProg.wpc_pure, hC, true_and, writeFile]
    refine wpc_callDevice hC (fun m hm => ?_) ?_ fun r d' hf => ?_
    · cases hm with
      | writeFile k => exact hcut k
    · have hC' : C (d.write fp.file (buf.take n)) := htake ▸ hcut n
      simp only [DevOp.handle, hsize, hC', true_and]
      by_cases hrep : 0 < n ∧ n < 2 ^ 31
      · have hint : toInt32 n = n := by
          unfold toInt32
          rw [if_pos (by omega)]
          omega
        rw [hint, if_neg (by omega), if_neg (by omega)]
        refine ⟨hC', hok hlen _ _ rfl hwritten fun h1 => ?_⟩
        rw [h1, Nat.div_one, Int.toNat_natCast, fwriteReport, if_pos hrep]
      · have hint : toInt32 n ≤ 0 := by
          unfold toInt32
          split_ifs <;> omega
        have hle : (if toInt32 n < 0 then 0 else toInt32 n) ≤ 0 := by split_ifs <;> omega
        rw [if_pos hle]
        refine ⟨hC', hok hlen _ _ rfl herror fun _ => ?_⟩
        rw [fwriteReport, if_neg hrep]
    · cases hf with
      | @writeFile _ fd' _ r k hw hbuf hr =>
        rw [hsize] at hbuf hr
        refine ⟨hcut k, ?_⟩
        by_cases hpos : (if r < 0 then 0 else r) ≤ 0
        · simp only [hpos, ↓reduceIte, MProg.wpc_pure, hcut k, true_and]
          refine hfail hw _ _ _ rfl herror fun _ => ?_
          unfold sizeEOF
          omega
        · simp only [hpos, ↓reduceIte, MProg.wpc_pure, hcut k, true_and]
          refine hfail hw _ _ _ rfl hwritten fun h1 => ?_
          rw [h1, Nat.div_one]
          split_ifs at hpos ⊢ <;> omega
  · have hdata : memcpyFrom buf 0 n = none := by
      simp [memcpyFrom, Nat.lt_of_not_le hlen]
    simpa only [hdata] using hub (Nat.lt_of_not_le hlen)

/-- `fwrite` to a file of a table reports an error. -/
theorem wpc_fwrite_table {D : Device DevOp DevOp.Resp Disk} {buf : Bytes} {size count : ℕ}
    {nSection : TableSection} {file : Path} {item : UncompressFileItem}
    {Q : ℕ × FILE → StdioState → Disk → Prop} (hC : C d)
    (h : Q (sizeEOF, tableStream nSection file item) σ d) :
    MProg.wpc D C ub (fwrite buf size count (tableStream nSection file item)) Q σ d := by
  have hcan : (tableStream nSection file item).flags &&& (SWR ||| SRW) = 0 := by
    cases nSection <;> simp [tableStream, TableSection.toFlags, SWR, SRW]
  rw [fwrite, if_pos hcan]
  exact ⟨hC, h⟩

theorem sflags_rb : sflags (ascii "rb") = some (SRD, O_RDONLY) := by decide

theorem sflags_wb : sflags (ascii "wb") = some (SWR, O_WRONLY ||| (O_CREAT ||| O_TRUNC)) := by decide

/-- Opening for writing creates or empties the file. -/
theorem handle_openFile_wb (d : Disk) (p : Path) :
    (DevOp.handle (.openFile p (O_WRONLY ||| (O_CREAT ||| O_TRUNC))) d).2 =
      Function.update d p (some []) := by
  have hcreat : (O_WRONLY ||| (O_CREAT ||| O_TRUNC)) &&& O_CREAT ≠ 0 := by decide
  have htrunc : (O_WRONLY ||| (O_CREAT ||| O_TRUNC)) &&& O_TRUNC ≠ 0 := by decide
  simp [DevOp.handle, hcreat, htrunc]

/-- Opening for reading leaves the file as it is. -/
theorem handle_openFile_rb {d : Disk} {p : Path} (h : (d p).isSome) :
    (DevOp.handle (.openFile p O_RDONLY) d).2 = d := by
  have htrunc : ¬ (O_RDONLY &&& O_TRUNC ≠ 0) := by decide
  have hsome : ¬ ((d p).isNone) := by
    cases hd : d p <;> simp_all
  simp only [DevOp.handle, h, true_or, ↓reduceIte]
  rw [if_neg (by simp [hsome, htrunc])]

/-- **`fopen` for reading** of a path that the update's table does not have. -/
theorem wpc_fopen_rb {file : Path} {Q : Option FILE → StdioState → Disk → Prop} (hidle : σ.Idle)
    (h5 : 5 ≤ file.length) (hC : C d) (hu : ¬ σ.InUpdate file)
    (hfile : (d file).isSome → Q (some (fileStream SRD file)) σ.acquire d)
    (hnone : d file = none ∨ F.other → Q (tableOpen σ file) σ d) :
    MProg.wpc (device F) C ub (fopen file (ascii "rb")) Q σ d := by
  have hcreat : ¬ (O_RDONLY &&& O_CREAT ≠ 0) := by decide
  refine wpc_fopen sflags_rb hidle h5 hC
    (fun item hitem => absurd (findUncompressFileItem_update hitem) hu) (fun _ hex => ?_) fun _ hno => ?_
  · have hsome := hex.resolve_right hcreat
    rw [handle_openFile_rb hsome]
    exact ⟨hC, hfile hsome⟩
  · refine hnone (hno.imp_left fun hno => ?_)
    exact Option.not_isSome_iff_eq_none.1 fun hsome => hno (Or.inl hsome)

theorem write_update_nil (d : Disk) (p : Path) (b : Bytes) :
    Disk.write (Function.update d p (some [])) { path := p } b = Function.update d p (some b) := by
  simp [Disk.write]

/-- **`file_exist`** does not change the disk. -/
theorem wpc_fileExist {p : Path} {Q : Bool → StdioState → Disk → Prop} (hidle : σ.Idle)
    (h5 : 5 ≤ p.length) (hC : C d)
    (h : ∀ b, b = decide (σ.Present d p) ∨ F.other → Q b σ d) :
    MProg.wpc (device F) C ub (fileExist p) Q σ d := by
  have hne : p ≠ [] := by rintro rfl; simp at h5
  unfold fileExist
  rw [MProg.wpc_bind]
  refine wpc_fopen sflags_rb hidle h5 hC (fun item hitem => ?_) (fun hu hex => ?_) fun hu hno => ?_
  · have hin := findUncompressFileItem_update hitem
    simp only [MProg.wpc_bind]
    refine wpc_fclose_table (isUncompress_tableStream _ _ _) hC ⟨hC, h _ (Or.inl ?_)⟩
    simp [StdioState.Present, hin]
  · have hcreat : ¬ (O_RDONLY &&& O_CREAT ≠ 0) := by decide
    have hsome : (d p).isSome := hex.resolve_right hcreat
    rw [handle_openFile_rb hsome]
    refine ⟨hC, ?_⟩
    simp only [MProg.wpc_bind]
    refine wpc_fclose_file (isUncompress_fileStream _ _) (by simp [fileStream, SRD]) hC
      fun _ => ⟨hC, h _ (Or.inl ?_)⟩
    simp [StdioState.Present, hsome]
  · rw [tableOpen_of_not_inUpdate hne hu]
    cases hfl : σ.pFlashFileTable.find? (·.pFile = p) with
    | none =>
      refine ⟨hC, h _ (hno.imp (fun hno => ?_) id)⟩
      have hflash : ¬ σ.InFlash p := by
        rintro ⟨item, hmem, hitem⟩
        simpa [hitem] using List.find?_eq_none.1 hfl item hmem
      simp only [not_or] at hno
      simp [StdioState.Present, hu, hflash, hno.1]
    | some item =>
      simp only [Option.map_some, MProg.wpc_bind]
      refine wpc_fclose_table (isUncompress_tableStream _ _ _) hC ⟨hC, h _ (Or.inl ?_)⟩
      have hin : σ.InFlash p :=
        ⟨item, List.mem_of_find?_eq_some hfl, by simpa using List.find?_some hfl⟩
      simp [StdioState.Present, hin]

end Stdio

end OsdCore
