import OsdCore.Stdio.Read

/-!
# Streams over the file tables

`tableAt nSection file item pos` is the stream that `fopen_ext` opens over an entry, moved to `pos`;
its other fields never change.

* `fseekExt_tableAt` : where a seek goes.
* `wpc_freadExt_flash` : a read of an entry in ROM.  `flashRead` is what it copies; if the entry is
  encrypted, the bytes are taken from `pos` on and copied from the place of `pos` in its block.
* `wpc_freadExt_update` : a read of an entry of the update image, which is a file of the file system.
-/

namespace OsdCore

namespace Stdio

variable {F : Faults} {C : Disk → Prop} {ub : Prop} {σ : StdioState} {d : Disk} {P : Platform}
variable {nSection : TableSection} {file : Path} {item : UncompressFileItem}

/-- The stream of a table entry, at `pos`. -/
def tableAt (nSection : TableSection) (file : Path) (item : UncompressFileItem) (pos : ℤ) : FILE :=
  { tableStream nSection file item with offset := pos }

theorem tableAt_zero : tableStream nSection file item = tableAt nSection file item 0 := rfl

theorem isUncompress_tableAt (pos : ℤ) : (tableAt nSection file item pos).isUncompress = true :=
  isUncompress_tableStream nSection file item

/-! ### Seeks -/

/-- Where `fseek_ext` goes, if it does. -/
def seekTarget (item : UncompressFileItem) (pos offset : ℤ) : Whence → Option ℤ
  | .SEEK_SET => if offset > item.nLen ∨ offset < 0 then none else some offset
  | .SEEK_CUR => if pos + offset > item.nLen ∨ pos + offset < 0 then none else some (pos + offset)
  | .SEEK_END => if offset < -item.nLen ∨ offset > 0 then none else some (item.nLen - offset)

theorem fseekExt_tableAt (pos offset : ℤ) (whence : Whence) :
    fseekExt (tableAt nSection file item pos) offset whence =
      pure (match seekTarget item pos offset whence with
        | some k => (0, tableAt nSection file item k)
        | none => (-1, tableAt nSection file item pos)) := by
  have hcookie : (tableAt nSection file item pos).cookie = some item := rfl
  have hoffset : (tableAt nSection file item pos).offset = pos := rfl
  cases whence <;> simp only [fseekExt, seekTarget, hcookie, hoffset, defined_some_bind] <;>
    split_ifs <;> rfl

theorem wpc_fseekExt {S : Type} {D : Device DevOp DevOp.Resp S} {C : S → Prop} {d : S}
    {pos offset : ℤ} {whence : Whence} {Q : ℤ × FILE → StdioState → S → Prop} (hC : C d)
    (hok : ∀ k, seekTarget item pos offset whence = some k →
      Q (0, tableAt nSection file item k) σ d)
    (hno : seekTarget item pos offset whence = none → Q (-1, tableAt nSection file item pos) σ d) :
    MProg.wpc D C ub (fseekExt (tableAt nSection file item pos) offset whence) Q σ d := by
  rw [fseekExt_tableAt]
  cases hk : seekTarget item pos offset whence with
  | none => exact ⟨hC, hno hk⟩
  | some k => exact ⟨hC, hok k hk⟩

/-- A seek to a place in the entry. -/
theorem seekTarget_set {pos k : ℤ} (h0 : 0 ≤ k) (hle : k ≤ item.nLen) :
    seekTarget item pos k .SEEK_SET = some k := by
  rw [seekTarget, if_neg (by omega)]

theorem wpc_fseekExt_place {S : Type} {D : Device DevOp DevOp.Resp S} {C : S → Prop} {d : S}
    {pos k : ℤ} {Q : ℤ × FILE → StdioState → S → Prop} (hC : C d) (h0 : 0 ≤ k) (hle : k ≤ item.nLen)
    (h : Q (0, tableAt nSection file item k) σ d) :
    MProg.wpc D C ub (fseekExt (tableAt nSection file item pos) k .SEEK_SET) Q σ d := by
  have htarget : seekTarget item pos k .SEEK_SET = some k := seekTarget_set h0 hle
  refine wpc_fseekExt hC (fun k' hk' => ?_) fun hno => ?_
  · rw [htarget] at hk'
    cases hk'
    exact h
  · rw [htarget] at hno
    cases hno

/-! ### Reads -/

theorem fread_tableAt (size count : ℕ) (pos : ℤ) :
    fread P size count (tableAt nSection file item pos) =
      freadExt P size (count * size % 2 ^ 32) (tableAt nSection file item pos) := by
  have htell : ftell (tableAt nSection file item pos) =
      pure (pos, tableAt nSection file item pos) := by
    rw [ftell, if_pos (isUncompress_tableAt pos)]
    rfl
  have hun := @isUncompress_tableAt nSection file item pos
  simp only [fread, htell, pure_bind, hun, ↓reduceIte]

/-- The number of bytes that a read of an encrypted entry takes from the image, if they are there. -/
def windowSize (pos n : ℕ) : ℕ := lowBoundary (pos + n + 511) - lowBoundary pos

/-- What a read of at most `n` bytes at `pos` gives of an entry of `len` bytes in ROM. -/
def flashRead (P : Platform) (file : Path) (nOffset : ℤ) (len pos n : ℕ) : Option Bytes :=
  if ascii ".luae" <:+ file then
    (memcpyFrom P.rom.bytes (toU32 (nOffset + pos)) (min (windowSize pos n) (len - pos))).map
      fun temp => slice (overlay P (windowSize pos n) (P.cipher.plaintext temp)) (pos % 512)
        (min n (len - pos))
  else memcpyFrom P.rom.bytes (nOffset + pos) (min n (len - pos))

theorem length_overlay {n : ℕ} {buf : Bytes} (h : buf.length ≤ n) : (overlay P n buf).length = n := by
  simp only [overlay, List.length_take, List.length_append, List.length_drop, List.length_map,
    List.length_range]
  omega

theorem length_of_memcpyFrom {src c : Bytes} {offset : ℤ} {n : ℕ}
    (h : memcpyFrom src offset n = some c) : c.length = n := by
  have hin := memcpyFrom_bounds h
  unfold memcpyFrom at h
  rw [if_pos hin] at h
  cases h
  exact length_slice (by omega)

/-- **`decode_file`** takes a window that starts at `pos`, and copies what is `pos % 512` bytes behind
its start. -/
theorem wpc_decodeFile {D : Device DevOp DevOp.Resp Disk} {size pos n len : ℕ}
    {Q : ℕ × Bytes × FILE → StdioState → Disk → Prop} (hC : C d) (hlen : item.nLen = len)
    (hlen31 : len < 2 ^ 31) (hpos : pos < len) (hn32 : pos + n + 511 < 2 ^ 32)
    (hub : memcpyFrom P.rom.bytes (toU32 (item.nOffset + pos)) (min (windowSize pos n) (len - pos)) =
      none → ub)
    (h : ∀ temp, memcpyFrom P.rom.bytes (toU32 (item.nOffset + pos))
        (min (windowSize pos n) (len - pos)) = some temp →
      Q (min n (len - pos) / size,
        slice (overlay P (windowSize pos n) (P.cipher.plaintext temp)) (pos % 512) (min n (len - pos)),
        tableAt .flash file item (pos + min n (len - pos) : ℕ)) σ d) :
    MProg.wpc D C ub (decodeFile P size n (tableAt .flash file item pos)) Q σ d := by
  have hcookie : (tableAt .flash file item pos).cookie = some item := rfl
  have htell : toU32 (ftellExt (tableAt .flash file item pos)) = pos := toU32_natCast (by omega)
  -- nothing overflows, so the window is what it should be
  have hcount : toU32 (lowBoundary ((pos + n + 511) % 2 ^ 32) - lowBoundary pos) =
      windowSize pos n := by
    rw [Nat.mod_eq_of_lt hn32]
    unfold toU32 windowSize lowBoundary
    omega
  have hrest : toU32 (item.nLen - pos) = len - pos := by
    rw [hlen, toU32_sub (by omega) (by omega)]
  have hle : lowBoundary pos ≤ pos := Nat.sub_le _ _
  have hin : pos % 512 + n ≤ windowSize pos n := by
    unfold windowSize lowBoundary
    omega
  have hshift : (pos : ℤ) - (lowBoundary pos : ℤ) = (pos % 512 : ℕ) := by
    unfold lowBoundary
    omega
  simp only [decodeFile, hcookie, htell, wpc_defined, MProg.wpc_bind, hC, true_and, hcount, hrest]
  have hlow : toInt32 (lowBoundary pos) = lowBoundary pos := toInt32_of_lt (by omega)
  generalize windowSize pos n = w at hub h hin ⊢
  have hw : toInt32 (if len - pos ≥ w then w else len - pos) = (min w (len - pos) : ℕ) :=
    toInt32_clamp (by omega)
  -- to the start of the block, and then to the end of what is copied
  rw [hlow]
  refine wpc_fseekExt_place hC (by omega) (by rw [hlen]; omega) ?_
  simp only [hw, if_neg (Int.natCast_nonneg _).not_gt, Int.toNat_natCast, MProg.wpc_bind, wpc_defined,
    hC, true_and]
  cases htemp : memcpyFrom P.rom.bytes (toU32 (item.nOffset + pos)) (min w (len - pos)) with
  | none => exact hub htemp
  | some temp =>
    -- the entry ends before the window does, or all that is asked for is there
    have hact : (if w > min w (len - pos) ∧ len - pos < n then len - pos else n) =
        min n (len - pos) := by
      split_ifs <;> omega
    have htlen := length_of_memcpyFrom htemp
    have hcopy : memcpyFrom (overlay P w (P.cipher.plaintext temp)) ((pos % 512 : ℕ) : ℤ)
        (min n (len - pos)) = some (slice (overlay P w (P.cipher.plaintext temp)) (pos % 512)
          (min n (len - pos))) := by
      unfold memcpyFrom
      rw [length_overlay (by rw [P.cipher.length_plaintext]; omega), if_pos (by omega),
        Int.toNat_natCast]
    have hplain : P.cipher.decodeBlocks (min w (len - pos) / 512) temp = P.cipher.plaintext temp := by
      rw [Cipher.plaintext, htlen]
    have hend : toInt32 (pos + min n (len - pos)) = (pos + min n (len - pos) : ℕ) :=
      toInt32_of_lt (by omega)
    simp only [hact, hshift, hplain, hend]
    refine wpc_fseekExt_place hC (by omega) (by rw [hlen]; omega) ?_
    simp only [hcopy, MProg.wpc_pure, hC, true_and]
    exact h temp htemp

/-- How many bytes a read of `n` at `pos` asks for, as an `int`. -/
def readLen (item : UncompressFileItem) (pos : ℤ) (n : ℕ) : ℤ :=
  toInt32 (if toU32 (item.nLen - pos) ≥ n then n else toU32 (item.nLen - pos))

theorem freadExt_zero {size : ℕ} {fp : FILE} : freadExt P size 0 fp = pure (0, [], fp) := if_pos rfl

/-- The branch of `fread_ext` for an entry in ROM. -/
theorem freadExt_flash {size n : ℕ} {pos : ℤ} (h0 : n ≠ 0) :
    freadExt P size n (tableAt .flash file item pos) =
      if readLen item pos n ≤ 0 then pure (0, [], tableAt .flash file item pos)
      else if ascii ".luae" <:+ file then decodeFile P size n (tableAt .flash file item pos)
      else (do
        let buf ← defined (memcpyFrom P.rom.bytes (item.nOffset + pos) (readLen item pos n).toNat)
        pure ((readLen item pos n).toNat / size, buf,
          tableAt .flash file item (pos + readLen item pos n))) := by
  have hcookie : (tableAt .flash file item pos).cookie = some item := rfl
  have hflags : (tableAt .flash file item pos).flags ≠ TableSection.update.toFlags :=
    show TableSection.flash.toFlags ≠ TableSection.update.toFlags by decide
  have hflash : (tableAt .flash file item pos).flags = TableSection.flash.toFlags := rfl
  have htype : (tableAt .flash file item pos).type = LUA_UNCOMPRESS_FILE ||| ENC_FILE ↔
      ascii ".luae" <:+ file := by
    change (tableStream .flash file item).type = _ ↔ _
    unfold tableStream
    by_cases henc : ascii ".luae" <:+ file
    · simp [henc]
    · simp [henc, LUA_UNCOMPRESS_FILE, ENC_FILE]
  rw [freadExt, if_neg h0, hcookie, defined_some_bind]
  dsimp only
  rw [if_neg hflags, if_pos hflash]
  simp only [htype]
  rfl

/-- **A read of an entry in ROM.** -/
theorem wpc_freadExt_flash {D : Device DevOp DevOp.Resp Disk} {size pos n len : ℕ}
    {Q : ℕ × Bytes × FILE → StdioState → Disk → Prop} (hC : C d) (hlen : item.nLen = len)
    (hlen31 : len < 2 ^ 31) (hpos : pos ≤ len) (hn : n < 2 ^ 32)
    (hn32 : ascii ".luae" <:+ file → pos < len → pos + n + 511 < 2 ^ 32)
    (hub : 0 < n → pos < len → flashRead P file item.nOffset len pos n = none → ub)
    (hnone : n = 0 ∨ pos = len → Q (0, [], tableAt .flash file item pos) σ d)
    (h : ∀ buf, 0 < n → pos < len → flashRead P file item.nOffset len pos n = some buf →
      Q (min n (len - pos) / size, buf, tableAt .flash file item (pos + min n (len - pos) : ℕ)) σ d) :
    MProg.wpc D C ub (freadExt P size n (tableAt .flash file item pos)) Q σ d := by
  have hlen' : readLen item pos n = (min n (len - pos) : ℕ) := by
    rw [readLen, hlen, toU32_sub (by omega) (by omega), toInt32_clamp (by omega)]
  by_cases h0 : n = 0
  · rw [h0, freadExt_zero]
    exact ⟨hC, hnone (Or.inl h0)⟩
  rw [freadExt_flash h0, hlen']
  by_cases hend : pos = len
  · rw [if_pos (by omega)]
    exact ⟨hC, hnone (Or.inr hend)⟩
  rw [if_neg (by omega)]
  have hn0 : 0 < n := Nat.pos_of_ne_zero h0
  have hlt : pos < len := by omega
  by_cases henc : ascii ".luae" <:+ file
  · rw [if_pos henc]
    simp only [flashRead, if_pos henc] at hub h
    refine wpc_decodeFile hC hlen hlen31 hlt (hn32 henc hlt) (fun hno => hub hn0 hlt ?_)
      fun temp htemp => h _ hn0 hlt ?_
    · rw [hno, Option.map_none]
    · rw [htemp, Option.map_some]
  · rw [if_neg henc]
    simp only [flashRead, if_neg henc] at hub h
    simp only [Int.toNat_natCast, MProg.wpc_bind, wpc_defined, hC, true_and, MProg.wpc_pure]
    cases hbuf : memcpyFrom P.rom.bytes (item.nOffset + pos) (min n (len - pos)) with
    | none => exact hub hn0 hlt hbuf
    | some buf =>
      have hres := h buf hn0 hlt hbuf
      rw [Nat.cast_add] at hres
      exact hres

theorem memcpyFrom_drop {src c : Bytes} {offset : ℤ} {n i m : ℕ} (h : memcpyFrom src offset n = some c)
    (hm : i + m ≤ n) : memcpyFrom src (offset + i) m = some ((c.drop i).take m) := by
  have hin := memcpyFrom_bounds h
  unfold memcpyFrom slice at h ⊢
  rw [if_pos hin] at h
  cases h
  rw [if_pos ⟨by omega, by omega⟩, List.drop_take, List.drop_drop, List.take_take,
    Nat.min_eq_left (by omega), show (offset + i).toNat = offset.toNat + i by omega]

theorem memcpyFrom_overlay_slice {buf : Bytes} {k i n : ℕ} (hk : buf.length ≤ k)
    (h : i + n ≤ buf.length) : slice (overlay P k buf) i n = slice buf i n := by
  have hcopy := memcpyFrom_overlay (P := P) hk h
  have hin : (0 : ℤ) ≤ (i : ℤ) ∧ (i : ℤ) + n ≤ (overlay P k buf).length := memcpyFrom_bounds hcopy
  rw [memcpyFrom, if_pos hin, Int.toNat_natCast] at hcopy
  exact Option.some.inj hcopy

/-- What `decode_file` gives of an entry that holds `c`. -/
def windowRead (P : Platform) (c : Bytes) (pos n : ℕ) : Bytes :=
  slice (overlay P (windowSize pos n) (P.cipher.plaintext ((c.drop pos).take (windowSize pos n))))
    (pos % 512) (min n (c.length - pos))

theorem le_windowSize (pos n : ℕ) : pos % 512 + n ≤ windowSize pos n := by
  unfold windowSize lowBoundary
  omega

theorem length_windowRead (c : Bytes) (pos n : ℕ) :
    (windowRead P c pos n).length = min n (c.length - pos) := by
  have hle := le_windowSize pos n
  refine length_slice ?_
  rw [length_overlay]
  · omega
  · rw [P.cipher.length_plaintext, List.length_take]
    omega

/-- A read that starts at a block gives the plaintext. -/
theorem windowRead_aligned {c : Bytes} {pos n : ℕ} (hpos : pos < c.length) (halign : 512 ∣ pos) :
    windowRead P c pos n = ((P.cipher.plaintext c).drop pos).take n := by
  have hwin : 512 ∣ windowSize pos n := Nat.dvd_sub (dvd_lowBoundary _) (dvd_lowBoundary _)
  have hle := le_windowSize pos n
  have hlen : (P.cipher.plaintext ((c.drop pos).take (windowSize pos n))).length =
      min (windowSize pos n) (c.length - pos) := by
    rw [P.cipher.length_plaintext, List.length_take, List.length_drop]
  rw [windowRead, memcpyFrom_overlay_slice (by omega) (by omega), show pos % 512 = pos - pos by omega,
    slice_plaintext halign hwin le_rfl (by omega), List.take_eq_take_iff, List.length_drop,
    P.cipher.length_plaintext]
  omega

/-- An encrypted entry, whose place in ROM is unsigned. -/
theorem flashRead_enc {c : Bytes} {pos n : ℕ} (henc : ascii ".luae" <:+ file)
    (hrom : memcpyFrom P.rom.bytes (toU32 item.nOffset) c.length = some c) (hpos : pos < c.length) :
    flashRead P file item.nOffset c.length pos n = some (windowRead P c pos n) := by
  have hidx : ((toU32 (item.nOffset + pos) : ℕ) : ℤ) = toU32 item.nOffset + pos := by
    have hin := memcpyFrom_bounds hrom
    have hlt := P.rom.size_lt
    unfold toU32 at hin ⊢
    omega
  have htemp : memcpyFrom P.rom.bytes (toU32 (item.nOffset + pos))
      (min (windowSize pos n) (c.length - pos)) = some ((c.drop pos).take (windowSize pos n)) := by
    rw [hidx, memcpyFrom_drop hrom (by omega), List.take_eq_take_min (i := windowSize pos n),
      List.length_drop]
  rw [flashRead, if_pos henc, htemp, Option.map_some, windowRead]

/-- An entry that is not encrypted. -/
theorem flashRead_plain {c : Bytes} {pos n : ℕ} (henc : ¬ ascii ".luae" <:+ file)
    (hrom : memcpyFrom P.rom.bytes item.nOffset c.length = some c) (hpos : pos < c.length) :
    flashRead P file item.nOffset c.length pos n = some ((c.drop pos).take n) := by
  rw [flashRead, if_neg henc, memcpyFrom_drop hrom (by omega)]
  congr 1
  rw [List.take_eq_take_iff, List.length_drop]
  omega

/-- The place of an entry that the ROM holds is not negative. -/
theorem ItemHolds.toU32_nOffset {c : Bytes} (h : ItemHolds P item c) (hc : c ≠ []) :
    ((toU32 item.nOffset : ℕ) : ℤ) = item.nOffset := by
  have hin := memcpyFrom_bounds (h.rom hc)
  have hlt := P.rom.size_lt
  unfold toU32
  omega

/-- The entry is read as what it shows, if it is not encrypted or the read starts at a block. -/
theorem flashRead_aligned {c : Bytes} {pos n : ℕ} (hitem : ItemHolds P item c)
    (hpos : pos < c.length) (halign : ascii ".luae" <:+ file → 512 ∣ pos) :
    flashRead P file item.nOffset c.length pos n = some (((plainView P file c).drop pos).take n) := by
  have hc : c ≠ [] := by
    rintro rfl
    simp at hpos
  have hrom := hitem.rom hc
  by_cases henc : ascii ".luae" <:+ file
  · rw [← hitem.toU32_nOffset hc] at hrom
    rw [flashRead_enc henc hrom hpos, windowRead_aligned hpos (halign henc), plainView, if_pos henc]
  · rw [flashRead_plain henc hrom hpos, plainView, if_neg henc]

/-- There is no slot for the stream of the update image, or there is no update image. -/
def NoUpdateFile (σ : StdioState) (d : Disk) : Prop := ¬ (σ.Idle ∧ (d LUA_UPDATE_FILE).isSome)

/-- Where a read of the update image starts: a seek out of the range of an `int` fails, and the
stream stays at the start. -/
def updateStart (i : ℤ) : ℕ := if 0 ≤ i ∧ i < 2 ^ 31 then i.toNat else 0

/-- Opening the update image.  If it is in a table, that entry may be opened in its place. -/
theorem wpc_fopen_update {Q : Option FILE → StdioState → Disk → Prop} (hF : ¬ F.other) (hC : C d)
    (hno : NoUpdateFile σ d → Q none σ d)
    (htab : ∀ fp, findUncompressFileItem σ LUA_UPDATE_FILE ≠ none → fp.isUncompress = true →
      Q (some fp) σ d)
    (hok : σ.Idle → (d LUA_UPDATE_FILE).isSome → Q (some (fileStream SRD LUA_UPDATE_FILE)) σ.acquire d) :
    MProg.wpc (device F) C ub (fopen LUA_UPDATE_FILE (ascii "rb")) Q σ d := by
  have hcreat : ¬ (O_RDONLY &&& O_CREAT ≠ 0) := by decide
  by_cases hidle : σ.Idle
  · refine wpc_fopen sflags_rb hidle (by decide) hC (fun item hitem => ?_) (fun _ hex => ?_)
      fun _ hnot => ?_
    · exact htab _ (by rw [hitem]; simp) (isUncompress_tableStream _ _ _)
    · have hsome := hex.resolve_right hcreat
      rw [handle_openFile_rb hsome]
      exact ⟨hC, hok hidle hsome⟩
    · unfold tableOpen
      cases hfind : findUncompressFileItem σ LUA_UPDATE_FILE with
      | none => exact hno fun hboth => hnot.resolve_right hF (Or.inl hboth.2)
      | some r => exact htab _ (by rw [hfind]; simp) (isUncompress_tableStream _ _ _)
  · have hnone : NoUpdateFile σ d := fun hboth => hidle hboth.1
    unfold fopen
    rw [MProg.wpc_bind]
    refine wpc_fopenExt (by decide) hC ?_
    by_cases hupd : (tableOpen σ LUA_UPDATE_FILE).isSome ∧
        (tableOpen σ LUA_UPDATE_FILE).map (·.flags) = some 0
    · rw [if_pos hupd]
      unfold tableOpen at hupd ⊢
      cases hfind : findUncompressFileItem σ LUA_UPDATE_FILE with
      | none => simp [hfind] at hupd
      | some r => exact ⟨hC, htab _ (by rw [hfind]; simp) (isUncompress_tableStream _ _ _)⟩
    · rw [if_neg hupd, sflags_rb]
      simp only [openSlot, MProg.wpc_bind, MProg.wpc_get, hC, true_and]
      unfold StdioState.Idle at hidle
      rw [if_neg hidle]
      exact ⟨hC, hno hnone⟩

/-- **A read of an entry of the update image.** -/
theorem wpc_freadExt_update {size pos n len : ℕ} {Q : ℕ × Bytes × FILE → StdioState → Disk → Prop}
    (hF : ¬ F.other) (hC : C d) (hlen : item.nLen = len) (hlen31 : len < 2 ^ 31) (hpos : pos ≤ len)
    (hub : findUncompressFileItem σ LUA_UPDATE_FILE ≠ none → ub)
    (hnone : n = 0 ∨ pos = len ∨ NoUpdateFile σ d → Q (0, [], tableAt .update file item pos) σ d)
    (h : ∀ u, 0 < n → pos < len → σ.Idle → d LUA_UPDATE_FILE = some u →
      Q (min n (len - pos) / size, (u.drop (updateStart (item.nOffset + pos))).take (min n (len - pos)),
        tableAt .update file item (pos + min n (len - pos) : ℕ)) σ d) :
    MProg.wpc (device F) C ub (freadExt P size n (tableAt .update file item pos)) Q σ d := by
  have hcookie : (tableAt .update file item pos).cookie = some item := rfl
  have hoffset : (tableAt .update file item pos).offset = pos := rfl
  have hfl : (tableAt .update file item pos).flags = TableSection.update.toFlags := rfl
  have henc : ¬ ascii ".luae" <:+ LUA_UPDATE_FILE := by decide
  have hrest : toU32 (item.nLen - pos) = len - pos := by
    rw [hlen, toU32_sub (by omega) (by omega)]
  have hw : toInt32 (if len - pos ≥ n then n else len - pos) = (min n (len - pos) : ℕ) :=
    toInt32_clamp (by omega)
  unfold freadExt
  by_cases h0 : n = 0
  · rw [if_pos h0]
    exact ⟨hC, hnone (Or.inl h0)⟩
  simp only [h0, ↓reduceIte, hcookie, hoffset, hfl, hrest, hw, wpc_defined, MProg.wpc_bind, hC,
    true_and]
  by_cases hend : pos = len
  · rw [if_pos (by omega)]
    exact ⟨hC, hnone (Or.inr (Or.inl hend))⟩
  rw [if_neg (by omega)]
  simp only [MProg.wpc_bind]
  refine wpc_fopen_update hF hC (fun hno => ⟨hC, hnone (Or.inr (Or.inr hno))⟩)
    (fun fp htab hfp => ?_) fun hidle hsome => ?_
  · simp only [hfp, ↓reduceIte]
    exact ⟨hC, hub htab⟩
  obtain ⟨u, hu⟩ := Option.isSome_iff_exists.1 hsome
  have hun := isUncompress_fileStream SRD LUA_UPDATE_FILE
  have hstart : updateStart (item.nOffset + pos) < 2 ^ 31 := by
    unfold updateStart
    split_ifs <;> omega
  -- the result of the seek is not looked at: if it fails, the read is at the start
  have hseek : ∀ {R : ℤ × FILE → StdioState → Disk → Prop},
      (∀ r fp, FileAt LUA_UPDATE_FILE (updateStart (item.nOffset + pos)) fp → R (r, fp) σ.acquire d) →
      MProg.wpc (device F) C ub
        (fseek (fileStream SRD LUA_UPDATE_FILE) (item.nOffset + pos) .SEEK_CUR) R σ.acquire d := by
    intro R hR
    have htarget : seekPos d (fileStream SRD LUA_UPDATE_FILE).file (item.nOffset + pos) .SEEK_CUR =
        item.nOffset + pos := by
      simp [seekPos, fileStream]
    unfold updateStart at hR
    split_ifs at hR with hin
    · exact wpc_fseek hF hC (fileAt_fopen _) (by rw [htarget]; omega) (by omega)
        fun fp hfp _ => hR 0 fp hfp
    · exact wpc_fseek_fail hF hC (fileAt_fopen _) (by rwa [htarget]) fun fp hfp _ => hR (-1) fp hfp
  simp only [hun, Bool.false_eq_true, ↓reduceIte, MProg.wpc_bind]
  refine hseek fun r fp₁ hfp₁ => ?_
  refine wpc_ftell hF hC hfp₁ hstart fun fp₂ hfp₂ _ => ?_
  refine wpc_freadFile_plain hF hC hfp₂ hu henc (Or.inr (by omega)) fun fp₃ hfp₃ _ => ?_
  refine wpc_fclose_file hfp₃.fileStream.isUncompress hfp₃.fileStream.flags hC fun _ => ⟨hC, ?_⟩
  have hres := h u (by omega) (by omega) hidle hu
  rw [Nat.cast_add] at hres
  simp only [Int.toNat_natCast]
  exact hres

end Stdio

end OsdCore
