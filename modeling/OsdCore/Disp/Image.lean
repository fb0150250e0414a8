import OsdCore.Disp.Basic
import OsdCore.Format.CString
import OsdCore.Time.Basic

/-!
# Images: `platform_disp_putimage`

The file as it has been read, the decoded JPEG and the PNG path are parameters.  The products of indices
are those of `int`s that do not overflow.

* `putBmpFileBuff` : the cells that its two loops go over are clipped at the edges of the screen.
* `putJpgFileBuff` : the rows of the region are copied whole.
* `contained_iff` : the image stays on the screen if and only if the region of a JPEG fits.
-/

namespace OsdCore

/-- `left`, `top`, `right` and `bottom`. -/
structure Region where
  left : ℤ
  top : ℤ
  right : ℤ
  bottom : ℤ
deriving DecidableEq, Repr

namespace Region

/-- The test that both image paths begin with. -/
def Rejected (r : Region) : Prop := r.left > r.right ∨ r.top > r.bottom

instance (r : Region) : Decidable r.Rejected := inferInstanceAs (Decidable (_ ∨ _))

/-- The whole image is asked for. -/
def Default (r : Region) : Prop := r.left = 0 ∧ r.top = 0 ∧ r.right = 0 ∧ r.bottom = 0

instance (r : Region) : Decidable r.Default := inferInstanceAs (Decidable (_ ∧ _))

end Region

/-! ### BMP -/

/-- What is read of `bitmap_file_header` and `bitmap_info_header`. -/
structure BmpHeader where
  bitmapOffset : ℤ
  width : ℤ
  height : ℤ
  numberOfPlanes : ℤ
  bitsPerPixel : ℤ
deriving DecidableEq, Repr

/-- The packed headers, of 14 and of 40 bytes. -/
def bmpHeader (bitmapBuffer : Ptr) : BmpHeader where
  bitmapOffset := bitmapBuffer.u32At 10
  width := bitmapBuffer.u32At 18
  height := bitmapBuffer.u32At 22
  numberOfPlanes := bitmapBuffer.u16At 26
  bitsPerPixel := bitmapBuffer.u16At 28

namespace BmpHeader

/-- `bitmapRowBytes` : the lower 5 bits are cleared before the shift by 3. -/
def rowBytes (h : BmpHeader) : ℤ := u16 (u32 (u32 (h.width * h.bitsPerPixel) + 31) / 32 * 4)

/-- `width`, and the right end of the columns. -/
def endX (h : BmpHeader) (lcd : Lcd) (x : ℤ) (r : Region) : ℤ :=
  if r.Default then u16 (min (u32 (h.width + x)) lcd.width)
  else u16 (min (r.right - r.left + 1 + x) lcd.width)

/-- `height`, and the lower end of the rows. -/
def endY (h : BmpHeader) (lcd : Lcd) (y : ℤ) (r : Region) : ℤ :=
  if r.Default then u16 (min (u32 (h.height + y)) lcd.height)
  else u16 (min (r.bottom - r.top + 1 + y) lcd.height)

/-- `bottom`, as the loops read it. -/
def lastRow (h : BmpHeader) (r : Region) : ℤ := if r.Default then wrap32 (h.height - 1) else r.bottom

end BmpHeader

/-- `rowIndex` and `colIndex` on the screen, `bitmapRowIndex` and `bmpColIndex` in the image. -/
structure BmpCell where
  rowIndex : ℤ
  colIndex : ℤ
  bitmapRowIndex : ℤ
  bmpColIndex : ℤ
deriving DecidableEq, Repr

/-- The values of `rowIndex` and `bitmapRowIndex`.  The image is stored bottom up; the second test of the
loop compares `u32`s. -/
def bmpRows (h : BmpHeader) (lcd : Lcd) (y : ℤ) (r : Region) : List (ℤ × ℤ) :=
  let rowIndex := u16 y
  let bitmapRowIndex := wrap32 (h.height - r.top - 1)
  ((Int.range rowIndex (h.endY lcd y r)).map fun row => (row, bitmapRowIndex - (row - rowIndex))).takeWhile
    fun row => u32 row.2 ≥ u32 (h.height - h.lastRow r - 1)

/-- The passes of the two loops. -/
def bmpCells (h : BmpHeader) (lcd : Lcd) (x y : ℤ) (r : Region) : List BmpCell :=
  (bmpRows h lcd y r).flatMap fun row =>
    (Int.range (u16 x) (h.endX lcd x r)).map fun col => ⟨row.1, col, row.2, r.left + (col - u16 x)⟩

/-- Is the bit set in the framebuffer of a 1-bpp screen? -/
def bmpBit (bitmapBuffer : Ptr) (h : BmpHeader) (lcd : Lcd) (c : BmpCell) : Bool :=
  let lcdfill : Bool := lcd.hwfillcolor = COLOR_WHITE
  let bmpfill : Bool := h.numberOfPlanes = 1 →
    bitmapBuffer 58 = 0xff ∧ bitmapBuffer 59 = 0xff ∧ bitmapBuffer 60 = 0xff
  let finalfill : UInt8 := if lcdfill = bmpfill then 0x80 else 0x00
  let data := bitmapBuffer (h.bitmapOffset + (h.rowBytes * c.bitmapRowIndex + c.bmpColIndex / 8))
  let k := UInt8.ofNat (c.bmpColIndex % 8).toNat
  (data &&& (0x80 >>> k)) ^^^ (finalfill >>> k) = 0

/-- `RGB24ToRGB16`. -/
def rgb24ToRgb16 (r g b : UInt8) : BitVec 16 :=
  ((r.toBitVec.setWidth 16 &&& 0xf8) <<< 8) ||| ((g.toBitVec.setWidth 16 &&& 0xfc) <<< 3) |||
    ((b.toBitVec.setWidth 16 &&& 0xf8) >>> 3)

/-- `rgb16`. -/
def bmpPixel (bitmapBuffer : Ptr) (h : BmpHeader) (c : BmpCell) : BitVec 16 :=
  let dataIndex := u32 (c.bitmapRowIndex * h.rowBytes + c.bmpColIndex * h.bitsPerPixel / 8)
  let data (i : ℤ) := bitmapBuffer (h.bitmapOffset + i)
  if 24 = h.bitsPerPixel then
    rgb24ToRgb16 (data (u32 (dataIndex + 2))) (data (u32 (dataIndex + 1))) (data dataIndex)
  else BitVec.ofInt 16 (bitmapBuffer.u16At (h.bitmapOffset + dataIndex))

/-- `put_bmp_file_buff`. -/
def putBmpFileBuff (lcd : Lcd) (bitmapBuffer : Ptr) (x y : ℤ) (transcolor : Colour) (r : Region) :
    DispResult × List Put :=
  let h := bmpHeader bitmapBuffer
  if r.Rejected then (.PLATFORM_ERR, [])
  else if lcd.bpp = 1 ∧ h.bitsPerPixel = 1 then
    (.PLATFORM_OK, (bmpCells h lcd x y r).map fun c =>
      ⟨c.rowIndex, c.colIndex, .bit (bmpBit bitmapBuffer h lcd c)⟩)
  else if lcd.bpp ≠ 16 then (.PLATFORM_ERR, [])
  else if h.bitsPerPixel ≠ 24 ∧ h.bitsPerPixel ≠ 16 then (.PLATFORM_ERR, [])
  else
    (.PLATFORM_OK, (bmpCells h lcd x y r).flatMap fun c =>
      let rgb16 : Colour := (bmpPixel bitmapBuffer h c).setWidth 32
      if -1 = transcolor ∨ rgb16 ≠ transcolor then [⟨c.rowIndex, c.colIndex, .pixel (lcd.busPixel rgb16)⟩]
      else [])

/-! ### JPEG -/

/-- `image_t`. -/
structure ImageT where
  width : UInt16
  height : UInt16
  buffer : ℤ → BitVec 16

/-- The region that is copied. -/
def jpgRegion (image : ImageT) (r : Region) : Region :=
  if r.Default then ⟨0, 0, image.width - 1, image.height - 1⟩ else r

/-- The rows that `memcpy` copies, one after the other. -/
def jpgPuts (image : ImageT) (x y : ℤ) (r : Region) : List Put :=
  (Int.range r.top (r.bottom + 1)).flatMap fun i =>
    let startPos := r.top * image.width + r.left + (i - r.top) * image.width
    (Int.range 0 (r.right - r.left + 1)).map fun j =>
      ⟨y + (i - r.top), x + j, .pixel (image.buffer (startPos + j))⟩

/-- `put_jpg_file_buff`; `image` is `none` where `platform_image_decode_jpeg` fails. -/
def putJpgFileBuff (image : Option ImageT) (x y : ℤ) (r : Region) : DispResult × List Put :=
  if r.Rejected then (.PLATFORM_ERR, [])
  else match image with
    | some image => (.PLATFORM_OK, jpgPuts image x y (jpgRegion image r))
    | none => (.PLATFORM_OK, [])

/-! ### `platform_disp_putimage` -/

/-- The branches of `platform_disp_putimage`. -/
inductive ImageKind where
  | bmp
  | png
  | jpg
  | unknown
deriving DecidableEq, Repr

/-- The tests on the file name, the second one with `AM_LPNG_SUPPORT` only. -/
def imageKind (lpng : Bool) (filename : Path) : ImageKind :=
  if strstr filename (ascii ".bmp") || strstr filename (ascii ".BMP") then .bmp
  else if lpng && (strstr filename (ascii ".png") || strstr filename (ascii ".PNG")) then .png
  else if strstr filename (ascii ".jpg") || strstr filename (ascii ".JPG") then .jpg
  else .unknown

/-- What `platform_disp_putimage` uses: the bytes of a file, `none` where it cannot be opened or there
is no memory for it; the JPEG decoder; and whether there is a `put_png_file_buff`, and what it does. -/
structure ImageFiles where
  read : Path → Option Ptr
  decodeJpeg : Path → Option ImageT
  lpng : Bool
  putPng : Lcd → Path → ℤ → ℤ → Colour → Region → ℤ → DispResult × List Put

/-- `platform_disp_putimage`. -/
def platformDispPutimage (E : ImageFiles) (lcd : Lcd) (filename : Path) (x y : UInt16) (transcolor : Colour)
    (left top right bottom : UInt16) (transtype : ℤ) : DispResult × List Put :=
  let r : Region := ⟨left, top, right, bottom⟩
  match imageKind E.lpng filename with
  | .bmp =>
    match E.read filename with
    | some buff => putBmpFileBuff lcd buff x y transcolor r
    | none => (.PLATFORM_ERR, [])
  | .png => E.putPng lcd filename x y transcolor r transtype
  | .jpg => putJpgFileBuff (E.decodeJpeg filename) x y r
  | .unknown => (.PLATFORM_ERR, [])

/-! ### What is drawn is on the screen -/

namespace Put

variable {lcd : Lcd} {p : Put}

/-- **The bytes of a pixel on the screen are in its own row of the framebuffer.** -/
theorem InScreen.index_div {value : BitVec 16} (h : p.InScreen lcd) (hink : p.ink = .pixel value) :
    p.index lcd.width / lcd.width = p.row := by
  obtain ⟨⟨hcol, hcol'⟩, -⟩ := h
  rw [index, hink]
  dsimp only
  rw [add_comm, Int.add_mul_ediv_right _ _ (by omega), Int.ediv_eq_zero_of_lt hcol hcol', zero_add]

end Put

section

variable {lcd : Lcd} {h : BmpHeader} {bitmapBuffer : Ptr} {x y : ℤ} {r : Region} {transcolor : Colour}
  {c : BmpCell} {p : Put} {image : ImageT}

/-- An end that is clipped is not reduced. -/
theorem u16_min (limit : UInt16) {a : ℤ} (ha : 0 ≤ a) : u16 (min a limit) = min a limit := by
  have hlimit := limit.toNat_lt
  exact u16_of_range (by omega) (by omega)

theorem u16_min_le (limit : UInt16) {a : ℤ} (ha : 0 ≤ a) : u16 (min a limit) ≤ limit := by
  rw [u16_min limit ha]
  exact min_le_right a limit

/-- The right end is not right of the screen, where the position is not negative. -/
theorem BmpHeader.endX_le (h : BmpHeader) (lcd : Lcd) (hx : 0 ≤ x) (hr : ¬ r.Rejected) :
    h.endX lcd x r ≤ lcd.width := by
  unfold Region.Rejected at hr
  unfold endX
  split_ifs
  · exact u16_min_le _ (u32_range _).1
  · exact u16_min_le _ (by omega)

/-- The lower end is not below the screen, where the position is not negative. -/
theorem BmpHeader.endY_le (h : BmpHeader) (lcd : Lcd) (hy : 0 ≤ y) (hr : ¬ r.Rejected) :
    h.endY lcd y r ≤ lcd.height := by
  unfold Region.Rejected at hr
  unfold endY
  split_ifs
  · exact u16_min_le _ (u32_range _).1
  · exact u16_min_le _ (by omega)

/-- A cell that the loops go over. -/
theorem mem_bmpCells (hc : c ∈ bmpCells h lcd x y r) :
    (u16 x ≤ c.colIndex ∧ c.colIndex < h.endX lcd x r) ∧
      u16 y ≤ c.rowIndex ∧ c.rowIndex < h.endY lcd y r := by
  obtain ⟨row, hrow, hcol⟩ := List.mem_flatMap.1 hc
  obtain ⟨i, hi, rfl⟩ := List.mem_map.1 ((List.takeWhile_sublist _).subset hrow)
  obtain ⟨j, hj, rfl⟩ := List.mem_map.1 hcol
  exact ⟨Int.mem_range_iff.1 hj, Int.mem_range_iff.1 hi⟩

/-- What `put_bmp_file_buff` stores is in such a cell. -/
theorem mem_putBmp (hp : p ∈ (putBmpFileBuff lcd bitmapBuffer x y transcolor r).2) :
    ¬ r.Rejected ∧ ∃ c ∈ bmpCells (bmpHeader bitmapBuffer) lcd x y r,
      p.row = c.rowIndex ∧ p.col = c.colIndex := by
  unfold putBmpFileBuff at hp
  dsimp only at hp
  split_ifs at hp with hrej
  · cases hp
  · obtain ⟨c, hc, rfl⟩ := List.mem_map.1 hp
    exact ⟨hrej, c, hc, rfl, rfl⟩
  · cases hp
  · cases hp
  · obtain ⟨c, hc, hput⟩ := List.mem_flatMap.1 hp
    split_ifs at hput
    · obtain rfl := List.mem_singleton.1 hput
      exact ⟨hrej, c, hc, rfl, rfl⟩
    · cases hput

/-- **A BMP is clipped at the edges of the screen.** -/
theorem putBmp_inScreen (hx : 0 ≤ x) (hy : 0 ≤ y)
    (hp : p ∈ (putBmpFileBuff lcd bitmapBuffer x y transcolor r).2) : p.InScreen lcd := by
  obtain ⟨hr, c, hc, hrow, hcol⟩ := mem_putBmp hp
  obtain ⟨⟨hx₁, hx₂⟩, hy₁, hy₂⟩ := mem_bmpCells hc
  have hendX := (bmpHeader bitmapBuffer).endX_le lcd hx hr
  have hendY := (bmpHeader bitmapBuffer).endY_le lcd hy hr
  have hx₀ := (u16_range x).1
  have hy₀ := (u16_range y).1
  unfold Put.InScreen
  rw [hrow, hcol]
  omega

theorem putBmp_ink (hbpp : lcd.bpp = 16)
    (hp : p ∈ (putBmpFileBuff lcd bitmapBuffer x y transcolor r).2) : ∃ value, p.ink = .pixel value := by
  unfold putBmpFileBuff at hp
  dsimp only at hp
  split_ifs at hp with hrej hmono
  · cases hp
  · rw [hbpp] at hmono
    cases hmono.1
  · cases hp
  · cases hp
  · obtain ⟨c, hc, hput⟩ := List.mem_flatMap.1 hp
    split_ifs at hput
    · obtain rfl := List.mem_singleton.1 hput
      exact ⟨_, rfl⟩
    · cases hput

theorem putBmp_bit (hbpp : lcd.bpp = 1)
    (hp : p ∈ (putBmpFileBuff lcd bitmapBuffer x y transcolor r).2) : ∃ on, p.ink = .bit on := by
  unfold putBmpFileBuff at hp
  dsimp only at hp
  split_ifs at hp with hrej hmono hnot16
  · cases hp
  · obtain ⟨c, hc, rfl⟩ := List.mem_map.1 hp
    exact ⟨_, rfl⟩
  · cases hp
  · cases hp
  · rw [not_not.1 hnot16] at hbpp
    cases hbpp

/-- A pixel that is copied. -/
theorem mem_jpgPuts : p ∈ jpgPuts image x y r ↔
    ∃ i j, (r.top ≤ i ∧ i ≤ r.bottom) ∧ (0 ≤ j ∧ j ≤ r.right - r.left) ∧
      p = ⟨y + (i - r.top), x + j,
        .pixel (image.buffer (r.top * image.width + r.left + (i - r.top) * image.width + j))⟩ := by
  unfold jpgPuts
  simp only [List.mem_flatMap, List.mem_map, Int.mem_range_iff]
  constructor
  · rintro ⟨i, hi, j, hj, rfl⟩
    exact ⟨i, j, by omega, by omega, rfl⟩
  · rintro ⟨i, j, hi, hj, rfl⟩
    exact ⟨i, by omega, j, by omega, rfl⟩

/-- The region has no pixel, or it ends on the screen. -/
def Region.Fits (r : Region) (lcd : Lcd) (x y : ℤ) : Prop :=
  (r.right < r.left ∨ r.bottom < r.top) ∨
    x + (r.right - r.left + 1) ≤ lcd.width ∧ y + (r.bottom - r.top + 1) ≤ lcd.height

instance (r : Region) (lcd : Lcd) (x y : ℤ) : Decidable (r.Fits lcd x y) :=
  inferInstanceAs (Decidable ((_ ∨ _) ∨ _ ∧ _))

/-- **A JPEG is not clipped**: it stays on the screen if and only if the region fits. -/
theorem jpgPuts_inScreen_iff (hx : 0 ≤ x) (hy : 0 ≤ y) :
    (∀ p ∈ jpgPuts image x y r, p.InScreen lcd) ↔ r.Fits lcd x y := by
  unfold Region.Fits
  constructor
  · intro hall
    by_contra hfit
    -- the last pixel of the region
    have hlast := hall _ (mem_jpgPuts.2 ⟨r.bottom, r.right - r.left, by omega, by omega, rfl⟩)
    unfold Put.InScreen at hlast
    dsimp only at hlast
    omega
  · intro hfit p hp
    obtain ⟨i, j, hi, hj, rfl⟩ := mem_jpgPuts.1 hp
    unfold Put.InScreen
    dsimp only
    omega

end

/-! ### Images of any size, at any position -/

/-- Every pixel is on the screen, and in its own row of the framebuffer. -/
def Contained (lcd : Lcd) (puts : List Put) : Prop :=
  ∀ p ∈ puts, p.InScreen lcd ∧ p.index lcd.width / lcd.width = p.row

instance (lcd : Lcd) (puts : List Put) : Decidable (Contained lcd puts) :=
  inferInstanceAs (Decidable (∀ p ∈ puts, _ ∧ _))

/-- If the image is a JPEG, and its region is taken, then it fits. -/
def ImageFits (E : ImageFiles) (lcd : Lcd) (filename : Path) (x y : UInt16) (r : Region) : Prop :=
  imageKind E.lpng filename = .jpg → ¬ r.Rejected →
    ∀ image, E.decodeJpeg filename = some image → (jpgRegion image r).Fits lcd x y

variable {E : ImageFiles} {lcd : Lcd} {filename : Path} {x y left top right bottom : UInt16}
  {transcolor : Colour} {transtype : ℤ}

theorem contained_nil : Contained lcd [] := fun p hp => by cases hp

/-- What stores pixels only is contained if and only if they are on the screen. -/
theorem contained_iff_inScreen {puts : List Put} (hink : ∀ p ∈ puts, ∃ value, p.ink = .pixel value) :
    Contained lcd puts ↔ ∀ p ∈ puts, p.InScreen lcd := by
  constructor
  · intro h p hp
    exact (h p hp).1
  · intro h p hp
    obtain ⟨value, hvalue⟩ := hink p hp
    exact ⟨h p hp, (h p hp).index_div hvalue⟩

/-- **An image stays on a 16-bpp screen, and its rows do not spill into others, if and only if the
region of a JPEG fits.**  A BMP always does. -/
theorem contained_iff (hbpp : lcd.bpp = 16) (hkind : imageKind E.lpng filename ≠ .png) :
    Contained lcd
        (platformDispPutimage E lcd filename x y transcolor left top right bottom transtype).2 ↔
      ImageFits E lcd filename x y ⟨left, top, right, bottom⟩ := by
  unfold platformDispPutimage ImageFits
  dsimp only
  cases hk : imageKind E.lpng filename with
  | bmp =>
    refine iff_of_true ?_ fun h => by cases h
    cases E.read filename with
    | none => exact contained_nil
    | some buff =>
      refine (contained_iff_inScreen fun p hp => putBmp_ink hbpp hp).2 ?_
      intro p hp
      exact putBmp_inScreen (Int.natCast_nonneg _) (Int.natCast_nonneg _) hp
  | png => exact absurd hk hkind
  | unknown => exact iff_of_true contained_nil fun h => by cases h
  | jpg =>
    dsimp only
    unfold putJpgFileBuff
    by_cases hrej : Region.Rejected ⟨left, top, right, bottom⟩
    · rw [if_pos hrej]
      exact iff_of_true contained_nil fun _ h => absurd hrej h
    rw [if_neg hrej]
    cases himage : E.decodeJpeg filename with
    | none => exact iff_of_true contained_nil fun _ _ image h => by cases h
    | some image =>
      dsimp only
      rw [contained_iff_inScreen, jpgPuts_inScreen_iff (Int.natCast_nonneg _) (Int.natCast_nonneg _)]
      · constructor
        · rintro hfit - - image' h
          obtain rfl := Option.some.inj h
          exact hfit
        · intro hfit
          exact hfit rfl hrej image rfl
      · intro p hp
        obtain ⟨i, j, -, -, rfl⟩ := mem_jpgPuts.1 hp
        exact ⟨_, rfl⟩

/-- A JPEG of 2 by 2 pixels. -/
def photoFiles : ImageFiles where
  read := fun _ => none
  decodeJpeg := fun _ => some ⟨2, 2, fun i => BitVec.ofInt 16 (i + 1)⟩
  lpng := false
  putPng := fun _ _ _ _ _ _ _ => (.PLATFORM_ERR, [])

/-- A 16-bpp screen of 4 by 4 pixels. -/
def smallLcd : Lcd := { width := 4, height := 4, bpp := 16, bus := .PLATFORM_LCD_BUS_SPI }

/-- The photo at the lower right corner. -/
theorem contained_corner :
    Contained smallLcd (platformDispPutimage photoFiles smallLcd (ascii "a.jpg") 2 2 (-1) 0 0 0 0 1).2 :=
  (contained_iff rfl (by decide)).2 fun _ _ image h => by
    obtain rfl := Option.some.inj h
    decide

/-- One column further, a row of the photo ends in the next row of the screen. -/
theorem not_contained :
    ¬ ∀ (E : ImageFiles) (lcd : Lcd) (filename : Path) (x y : UInt16) (transcolor : Colour)
        (left top right bottom : UInt16) (transtype : ℤ),
      lcd.bpp = 16 → imageKind E.lpng filename ≠ .png →
        Contained lcd
          (platformDispPutimage E lcd filename x y transcolor left top right bottom transtype).2 := by
  intro h
  have hspill := h photoFiles smallLcd (ascii "a.jpg") 3 0 (-1) 0 0 0 0 1 rfl (by decide)
  revert hspill
  decide

end OsdCore
