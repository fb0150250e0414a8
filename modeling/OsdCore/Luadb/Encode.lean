import OsdCore.Luadb.Bounds

/-!
# The LuaDB image of a list of files

`encodeImage` writes a list of files as a LuaDB image, in the way the decoder expects it, and
`decode_encodeImage` is the round trip: the decode phase accepts the image, and finds every file
under its name, with its length and at its data.
-/

namespace OsdCore

open TlvFormat

/-- A file of a LuaDB image. -/
structure LuadbFile where
  name : Bytes
  content : Bytes
deriving DecidableEq, Repr

/-- Close a header by the checksum record: its value is the 16-bit sum of everything before it. -/
def sealHeader (crcTag : UInt8) (records : Bytes) : Bytes :=
  records ++ [crcTag, 2] ++ toLe16 (checksum (records ++ [crcTag, 2]))

/-- The records of a file header before the checksum. -/
def LuadbFile.records (f : LuadbFile) : Bytes :=
  encode DbFileHeadType.magicNumber.toByte (toLe32 dbMagic) ++
    encode DbFileHeadType.name.toByte f.name ++
    encode DbFileHeadType.length.toByte (toLe32 f.content.length)

/-- The header of a file. -/
def LuadbFile.header (f : LuadbFile) : Bytes := sealHeader DbFileHeadType.crc.toByte f.records

/-- A file: its header and its data. -/
def LuadbFile.encode (f : LuadbFile) : Bytes := f.header ++ f.content

/-- The files, one after the other. -/
def encodeFiles (files : List LuadbFile) : Bytes := files.flatMap LuadbFile.encode

/-- The value of the file count record: one byte if the version is 0, two otherwise. -/
def encodeCount (version count : ℕ) : Bytes :=
  if version = 0 then [UInt8.ofNat count] else toLe16 count

/-- The size of the image header. -/
def headerSize (version : ℕ) : ℕ := if version = 0 then 23 else 24

/-- The records of the image header before the checksum. -/
def headRecords (version count : ℕ) : Bytes :=
  encode DbHeadType.magicNumber.toByte (toLe32 dbMagic) ++
    encode DbHeadType.version.toByte (toLe16 version) ++
    encode DbHeadType.length.toByte (toLe32 (headerSize version)) ++
    encode DbHeadType.filecount.toByte (encodeCount version count)

/-- The image header. -/
def encodeHead (version count : ℕ) : Bytes :=
  sealHeader DbHeadType.crc.toByte (headRecords version count)

/-- The LuaDB image of a list of files. -/
def encodeImage (version : ℕ) (files : List LuadbFile) : Bytes :=
  encodeHead version files.length ++ encodeFiles files

/-- The files as the decoder should find them, the first file header being at `offset`. -/
def layout : ℕ → List LuadbFile → List DbFileInfo
  | _, [] => []
  | offset, f :: files =>
    { name := f.name, length := f.content.length, data := offset + f.header.length,
      offset := offset + f.header.length } ::
      layout (offset + f.encode.length) files

theorem length_sealHeader (crcTag : UInt8) (records : Bytes) :
    (sealHeader crcTag records).length = records.length + 4 := by
  simp [sealHeader]

theorem length_records (f : LuadbFile) : f.records.length = f.name.length + 14 := by
  simp only [LuadbFile.records, List.length_append, length_encode, length_toLe32]
  omega

theorem length_headRecords (version count : ℕ) :
    (headRecords version count).length + 4 = headerSize version := by
  simp only [headRecords, encodeCount, headerSize, List.length_append, length_encode,
    length_toLe32, length_toLe16]
  split_ifs <;> simp

theorem length_encodeHead (version count : ℕ) :
    (encodeHead version count).length = headerSize version := by
  rw [encodeHead, length_sealHeader, length_headRecords]

/-- A sealed header is its records, followed by the checksum record. -/
theorem sealHeader_eq (crcTag : UInt8) (records : Bytes) :
    sealHeader crcTag records =
      records ++ encode crcTag (toLe16 (checksum (records ++ [crcTag, 2]))) := by
  simp [sealHeader, encode]

/-- What the checksum of a sealed header covers. -/
theorem take_sealHeader (crcTag : UInt8) (records rest : Bytes) :
    (sealHeader crcTag records ++ rest).take ((sealHeader crcTag records).length - 2) =
      records ++ [crcTag, 2] := by
  rw [length_sealHeader, List.take_append_of_le_length (by rw [length_sealHeader]; omega),
    sealHeader, List.take_append_of_le_length (by simp)]
  exact List.take_of_length_le (by simp)

/-! ### One header -/

theorem scan_header (f : LuadbFile) (rest : Bytes) (hname : f.name.length < 256)
    (hlen : f.content.length < 2 ^ 32) :
    fileFormat.scan (f.header ++ rest) ((f.header ++ rest).length + 1) 0 {} =
      .ok ({ name := f.name, length := f.content.length, magic := dbMagic,
             checkCode := checksum (f.records ++ [DbFileHeadType.crc.toByte, 2]) },
           f.header.length) := by
  set d := f.header ++ rest with hd
  have hlen_d : 13 ≤ d.length := by
    simp only [hd, LuadbFile.header, List.length_append, length_sealHeader, length_records]
    omega
  obtain ⟨fuel, hfuel⟩ : ∃ fuel, d.length + 1 = fuel + 4 := ⟨d.length - 3, by omega⟩
  have h0 : d.drop 0 = encode DbFileHeadType.magicNumber.toByte (toLe32 dbMagic) ++
      (encode DbFileHeadType.name.toByte f.name ++
        (encode DbFileHeadType.length.toByte (toLe32 f.content.length) ++
          (encode DbFileHeadType.crc.toByte
            (toLe16 (checksum (f.records ++ [DbFileHeadType.crc.toByte, 2]))) ++ rest))) := by
    simp only [hd, List.drop_zero, LuadbFile.header, sealHeader_eq]
    simp only [LuadbFile.records, List.append_assoc]
  have h1 := drop_add_of_drop h0
  have h2 := drop_add_of_drop h1
  have h3 := drop_add_of_drop h2
  rw [hfuel, scan_encode h0 (by simp) (Or.inl rfl), if_neg (by decide),
    scan_encode h1 hname (Or.inr rfl), if_neg (by decide),
    scan_encode h2 (by simp) (Or.inl rfl), if_neg (by decide),
    scan_encode h3 (by simp) (Or.inl rfl), if_pos (by decide)]
  refine congrArg _ (Prod.mk_inj.2 ⟨?_, ?_⟩)
  · simp only [fileFormat, DbFileHeadType.ofByte_toByte]
    rw [le32_toLe32 (n := dbMagic) (by decide), le32_toLe32 hlen, le16_toLe16 (checksum_lt _)]
  · simp only [LuadbFile.header, sealHeader_eq, LuadbFile.records, List.length_append]
    omega

/-- The decoder reads a file header back, and goes to the end of the file's data. -/
theorem decodeFile_encode {img : Bytes} {offset : ℕ} (f : LuadbFile) (rest : Bytes)
    (himg : img.drop offset = f.encode ++ rest) (hsize : img.length < 2 ^ 32)
    (hname : f.name.length < 256) :
    decodeFile img offset =
      .ok ({ name := f.name, length := f.content.length, data := offset + f.header.length,
             offset := offset + f.header.length }, offset + f.encode.length) := by
  have hlen := congrArg List.length himg
  simp only [List.length_drop, List.length_append, LuadbFile.encode] at hlen
  have hpos : 0 < f.header.length := by simp [LuadbFile.header, length_sealHeader]
  have hdrop : img.drop offset = f.header ++ (f.content ++ rest) := by
    rw [himg, LuadbFile.encode, List.append_assoc]
  have hscan := scan_header f (f.content ++ rest) hname (by omega)
  rw [← hdrop] at hscan
  rw [decodeFile_eq hscan, if_neg (by simp)]
  have hsum : (img.drop offset).take (f.header.length - 2) =
      f.records ++ [DbFileHeadType.crc.toByte, 2] := by
    rw [hdrop]; exact take_sealHeader _ _ _
  rw [if_neg (by rw [hsum]; simp)]
  have hend : f.header.length + f.content.length < 2 ^ 32 := by omega
  simp only [LuadbFile.encode, List.length_append]
  rw [Nat.mod_eq_of_lt hend, Nat.mod_eq_of_lt (by omega), Nat.mod_eq_of_lt (by omega)]

theorem scan_head (version count : ℕ) (rest : Bytes) (hver : version < 2 ^ 16)
    (hcount : if version = 0 then count < 2 ^ 8 else count < 2 ^ 16) :
    let d := encodeHead version count ++ rest
    headFormat.scan d (d.length + 1) 0 {} =
      .ok ({ verNum := version, filecount := count, length := headerSize version,
             magic := dbMagic,
             checkCode := checksum (headRecords version count ++ [DbHeadType.crc.toByte, 2]) },
           (encodeHead version count).length) := by
  intro d
  have hlen_d : 23 ≤ d.length := by
    simp only [d, List.length_append, length_encodeHead, headerSize]
    split_ifs <;> omega
  obtain ⟨fuel, hfuel⟩ : ∃ fuel, d.length + 1 = fuel + 5 := ⟨d.length - 4, by omega⟩
  have h0 : d.drop 0 = encode DbHeadType.magicNumber.toByte (toLe32 dbMagic) ++
      (encode DbHeadType.version.toByte (toLe16 version) ++
        (encode DbHeadType.length.toByte (toLe32 (headerSize version)) ++
          (encode DbHeadType.filecount.toByte (encodeCount version count) ++
            (encode DbHeadType.crc.toByte
              (toLe16 (checksum (headRecords version count ++ [DbHeadType.crc.toByte, 2]))) ++
                rest)))) := by
    simp only [d, List.drop_zero, encodeHead, sealHeader_eq]
    simp only [headRecords, List.append_assoc]
  have h1 := drop_add_of_drop h0
  have h2 := drop_add_of_drop h1
  have h3 := drop_add_of_drop h2
  have h4 := drop_add_of_drop h3
  have hsize : headerSize version < 2 ^ 32 := by unfold headerSize; split_ifs <;> decide
  rw [hfuel, scan_encode h0 (by simp) (Or.inl rfl), if_neg (by decide),
    scan_encode h1 (by simp) (Or.inl rfl), if_neg (by decide),
    scan_encode h2 (by simp) (Or.inl rfl), if_neg (by decide),
    scan_encode h3 (by unfold encodeCount; split_ifs <;> simp) ?_, if_neg (by decide),
    scan_encode h4 (by simp) (Or.inl rfl), if_pos (by decide)]
  · refine congrArg _ (Prod.mk_inj.2 ⟨?_, ?_⟩)
    · simp only [headFormat, DbHeadType.ofByte_toByte]
      rw [le32_toLe32 (n := dbMagic) (by decide), le32_toLe32 hsize, le16_toLe16 (checksum_lt _),
        le16_toLe16 hver]
      congr 2
      unfold encodeCount
      split_ifs at hcount ⊢ with hv
      · simpa [UInt8.toNat_ofNat'] using Nat.mod_eq_of_lt hcount
      · exact le16_toLe16 hcount
    · simp only [encodeHead, sealHeader_eq, headRecords, List.length_append]
      omega
  · -- the width of the count follows the version that was read before it
    left
    simp only [headFormat, DbHeadType.ofByte_toByte, le16_toLe16 hver, encodeCount]
    split_ifs <;> rfl

theorem decodeHeadInfo_encode (version count : ℕ) (rest : Bytes) (hver : version < 2 ^ 16)
    (hcount : if version = 0 then count < 2 ^ 8 else count < 2 ^ 16) :
    decodeHeadInfo (encodeHead version count ++ rest) =
      .ok { verNum := version, filecount := count, length := headerSize version } := by
  rw [decodeHeadInfo_eq (scan_head version count rest hver hcount), if_neg (by simp)]
  rw [if_neg]
  simp only [encodeHead, take_sealHeader, ne_eq, not_true_eq_false, not_false_eq_true]

/-! ### The round trip -/

/-- The file loop reads back the files that follow one another from `offset` on. -/
theorem decodeFiles_encode {img : Bytes} {offset : ℕ} (files : List LuadbFile)
    (himg : img.drop offset = encodeFiles files) (hle : offset ≤ img.length)
    (hsize : img.length < 2 ^ 32) (hname : ∀ f ∈ files, f.name.length < 256) :
    decodeFiles img img.length files.length offset = .ok ⟨layout offset files, img.length⟩ := by
  induction files generalizing offset with
  | nil =>
    have hend : img.length ≤ offset := List.drop_eq_nil_iff.1 himg
    simp only [List.length_nil, decodeFiles, layout]
    rw [Nat.le_antisymm hle hend]
  | cons f files ih =>
    have himg' : img.drop offset = f.encode ++ encodeFiles files := by
      rw [himg, encodeFiles, List.flatMap_cons, encodeFiles]
    have hlen := congrArg List.length himg'
    have hpos : 0 < f.encode.length := by
      simp only [LuadbFile.encode, LuadbFile.header, List.length_append, length_sealHeader]
      omega
    rw [List.length_drop, List.length_append] at hlen
    have hrest := ih (drop_add_of_drop himg') (by omega) fun g hg =>
      hname g (List.mem_cons_of_mem _ hg)
    simp only [List.length_cons, decodeFiles, layout]
    rw [if_pos (by omega), decodeFile_encode f _ himg' hsize (hname f List.mem_cons_self)]
    simp only [bind, Except.bind, hrest]
    rfl

/-- The data of the files are where `layout` says. -/
theorem slice_layout {img : Bytes} {offset : ℕ} (files : List LuadbFile)
    (himg : img.drop offset = encodeFiles files) :
    (layout offset files).map (fun f => (f.name, slice img f.data f.length)) =
      files.map fun f => (f.name, f.content) := by
  induction files generalizing offset with
  | nil => rfl
  | cons f files ih =>
    have himg' : img.drop offset = f.encode ++ encodeFiles files := by
      rw [himg, encodeFiles, List.flatMap_cons, encodeFiles]
    have hdata : img.drop (offset + f.header.length) = f.content ++ encodeFiles files := by
      refine drop_add_of_drop (v := f.header) ?_
      rw [himg', LuadbFile.encode, List.append_assoc]
    simp only [layout, List.map_cons, List.cons.injEq, Prod.mk.injEq, true_and]
    exact ⟨by simp [slice, hdata], ih (drop_add_of_drop himg')⟩

/-- **Round trip**: the decode phase accepts the image of a list of files, gives back their names,
lengths and data in order, and ends at the end of the image. -/
theorem decode_encodeImage (alloc : ℕ → Bool) (version : ℕ) (files : List LuadbFile) (img : Image)
    (himg : img.bytes = encodeImage version files) (hver : version < 2 ^ 16)
    (hcount : if version = 0 then files.length < 2 ^ 8 else files.length < 2 ^ 16)
    (hname : ∀ f ∈ files, f.name.length ≤ 255)
    (halloc : alloc (sizeofDbFileInfo * files.length) = true) :
    decode alloc img = .ok ⟨layout (headerSize version) files, img.length⟩ ∧
      (layout (headerSize version) files).map (fun f => (f.name, slice img.bytes f.data f.length)) =
        files.map fun f => (f.name, f.content) := by
  have hdrop : img.bytes.drop (headerSize version) = encodeFiles files := by
    rw [himg, encodeImage, ← length_encodeHead version files.length, List.drop_left]
  have hle : headerSize version ≤ img.bytes.length := by
    rw [himg, encodeImage, List.length_append, length_encodeHead]
    omega
  refine ⟨?_, slice_layout files hdrop⟩
  have hcheck : checkDbData img.bytes = .ok () := by
    rw [himg]; rfl
  have hhead : decodeHeadInfo img.bytes = .ok
      { verNum := version, filecount := files.length, length := headerSize version } := by
    rw [himg, encodeImage]
    exact decodeHeadInfo_encode version files.length _ hver hcount
  have hfiles := decodeFiles_encode files hdrop hle img.size_lt fun f hf =>
    Nat.lt_succ_of_le (hname f hf)
  have hlayout : ∀ offset (fs : List LuadbFile), (layout offset fs).length = fs.length := by
    intro offset fs
    induction fs generalizing offset with
    | nil => rfl
    | cons f fs ih => simp [layout, ih]
  simp only [decode, hcheck, hhead, bind, Except.bind, halloc, ↓reduceIte, Image.length, hfiles,
    gt_iff_lt, lt_self_iff_false, ne_eq, hlayout, not_true_eq_false, pure, Except.pure]

/-- Two small files. -/
def sampleFiles : List LuadbFile :=
  [⟨ascii "main.lua", ascii "print(1)"⟩, ⟨ascii "data.bin", [0x00, 0xFF]⟩]

/-- Their image. -/
def sampleImage : Image where
  bytes := encodeImage 0 sampleFiles
  size_lt := by decide

theorem decode_encodeImage_sample :
    decode (fun _ => true) sampleImage =
        .ok ⟨layout (headerSize 0) sampleFiles, sampleImage.length⟩ ∧
      (layout (headerSize 0) sampleFiles).map
          (fun f => (f.name, slice sampleImage.bytes f.data f.length)) =
        sampleFiles.map fun f => (f.name, f.content) :=
  decode_encodeImage _ 0 sampleFiles sampleImage rfl (by decide) (by decide) (by decide) rfl

end OsdCore
