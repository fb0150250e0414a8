import OsdCore.Disp.Image
import OsdCore.Format.Ram

/-!
# PNG images: `put_png_file_buff`

The path without `AM_LAYER_SUPPORT`.  What libpng delivers is a parameter: the sizes of an image that it
decodes, and its rows.  The memory begins at the framebuffer; an index is 32 bits.

* `pngPixel` : one pass of the inner loop.
* `putPngFileBuff` : the rows that are copied whole, and the loops over the region.
* `pngRow_eq_memcpy` : a row of three-channel pixels, one after the other, is a row that is copied.
* `png_fast_eq` : the two paths leave the same framebuffer.
-/

namespace OsdCore

/-- An image, as libpng decodes it, with the blue byte of a pixel first. -/
structure PngImage where
  width : UInt32
  height : UInt32
  channel : UInt8
  /-- `png_get_rowbytes`. -/
  rowBytes : UInt32
  /-- What `row_buf` holds after a row has been read, and what is behind it. -/
  rows : UInt32 → Ram
  width_range : 0 < width.toNat ∧ width.toNat < 2 ^ 31
  height_range : 0 < height.toNat ∧ height.toNat < 2 ^ 31

/-- `left`, `top`, `right` and `bottom`. -/
structure PngRegion where
  left : Int32
  top : Int32
  right : Int32
  bottom : Int32
deriving DecidableEq, Repr

/-- The other arguments of a call, but the name of the file. -/
structure PngArgs where
  x : Int32
  y : Int32
  transcolor : Colour
  transtype : ℤ
deriving DecidableEq, Repr

/-- The bytes of a pixel in `row_buf`. -/
structure PngBytes where
  r : UInt8
  g : UInt8
  b : UInt8
  /-- `data_alpha`, which is read of four channels only. -/
  alpha : UInt8
deriving DecidableEq, Repr

/-- What is read of `row_buf`. -/
def pngBytes (img : PngImage) (rowIdx tmpIdx : UInt32) : PngBytes where
  r := img.rows rowIdx (tmpIdx * img.channel.toUInt32 + 2)
  g := img.rows rowIdx (tmpIdx * img.channel.toUInt32 + 1)
  b := img.rows rowIdx (tmpIdx * img.channel.toUInt32 + 0)
  alpha := img.rows rowIdx (tmpIdx * img.channel.toUInt32 + 3)

/-! ### 16 bits per pixel -/

/-- `buffer16[i]`. -/
def get16 (m : Ram) (i : UInt32) : BitVec 16 :=
  (m (2 * i)).toBitVec.setWidth 16 ||| (m (2 * i + 1)).toBitVec.setWidth 16 <<< 8

def put16 (m : Ram) (i : UInt32) (value : BitVec 16) : Ram :=
  Function.update (Function.update m (2 * i) ⟨value.setWidth 8⟩) (2 * i + 1) ⟨(value >>> 8).setWidth 8⟩

/-- Two bytes, mixed in parts of 255. -/
def mix255 (alpha f b : UInt8) : UInt8 :=
  UInt8.ofNat ((f.toNat * alpha.toNat + b.toNat * (255 - alpha.toNat)) / 255)

/-- The pixel of a 16-bpp screen. -/
def pngPixel16 (lcd : Lcd) (channel : UInt8) (a : PngArgs) (p : PngBytes) (index : UInt32) (m : Ram) : Ram :=
  let rgb16 := rgb24ToRgb16 p.r p.g p.b
  if -1 = a.transcolor ∨ rgb16.setWidth 32 ≠ a.transcolor ∨ a.transtype = 2 then
    if channel = 4 ∧ ((a.transtype = 0 ∧ p.alpha = 0) ∨ a.transtype = 1 ∨ a.transtype = 2) then
      let temp := lcd.busPixel ((get16 m index).setWidth 32)
      let br : UInt8 := ⟨(temp >>> 8 &&& 0xf8).setWidth 8⟩
      let bg : UInt8 := ⟨(temp >>> 3 &&& 0xfc).setWidth 8⟩
      let bb : UInt8 := ⟨(temp <<< 3 &&& 0xf8).setWidth 8⟩
      let alpha := if a.transtype = 2 ∧ p.alpha ≠ 0 then ⟨a.transcolor.setWidth 8⟩ else p.alpha
      let mixed := rgb24ToRgb16 (mix255 alpha p.r br) (mix255 alpha p.g bg) (mix255 alpha p.b bb)
      put16 m index (lcd.busPixel (mixed.setWidth 32))
    else put16 m index (lcd.busPixel (rgb16.setWidth 32))
  else m

/-! ### 24 bits per pixel -/

/-- The three bytes of a pixel, the red one first. -/
def put24 (m : Ram) (index : UInt32) (r g b : UInt8) : Ram :=
  Function.update (Function.update (Function.update m (index * 3 + 2) r) (index * 3 + 1) g) (index * 3 + 0) b

/-- Two bytes, mixed in parts of 256. -/
def mix256 (fpercent f b : UInt8) : UInt8 :=
  UInt8.ofInt ((((f.toNat : ℤ) - b.toNat) * fpercent.toNat) / 2 ^ 8 + b.toNat)

/-- The pixel of a 24-bpp screen. -/
def pngPixel24 (channel : UInt8) (a : PngArgs) (p : PngBytes) (index : UInt32) (m : Ram) : Ram :=
  if channel = 4 then
    if p.alpha = 0xff then put24 m index p.r p.g p.b
    else if p.alpha = 0 then m
    else
      let fpercent := if a.transtype = 2 ∧ p.alpha ≠ 0 then ⟨a.transcolor.setWidth 8⟩ else p.alpha
      put24 m index (mix256 fpercent p.r (m (index * 3 + 2))) (mix256 fpercent p.g (m (index * 3 + 1)))
        (mix256 fpercent p.b (m (index * 3 + 0)))
  else put24 m index p.r p.g p.b

/-! ### The loops -/

/-- One pass of the inner loop; other screens are left alone. -/
def pngPixel (lcd : Lcd) (img : PngImage) (a : PngArgs) (left top : Int32) (rowIdx tmpIdx : UInt32)
    (m : Ram) : Ram :=
  let p := pngBytes img rowIdx tmpIdx
  let index := (a.y.toUInt32 + rowIdx - top.toUInt32) * UInt32.ofNat lcd.width.toNat +
    (a.x.toUInt32 + tmpIdx - left.toUInt32)
  if lcd.bpp = 16 then pngPixel16 lcd img.channel a p index m
  else if lcd.bpp = 24 then pngPixel24 img.channel a p index m
  else m

/-- The inner loop, for so many passes. -/
def pngCols (lcd : Lcd) (img : PngImage) (a : PngArgs) (left top : Int32) (rowIdx : UInt32) :
    ℕ → UInt32 → Ram → Ram
  | 0, _, m => m
  | n + 1, tmpIdx, m =>
    pngCols lcd img a left top rowIdx n (tmpIdx + 1) (pngPixel lcd img a left top rowIdx tmpIdx m)

/-- The inner loop; `none` where it never ends: every index is at most the right end. -/
def pngRow (lcd : Lcd) (img : PngImage) (a : PngArgs) (r : PngRegion) (rowIdx : UInt32) (m : Ram) :
    Option Ram :=
  let left := r.left.toUInt32
  let right := r.right.toUInt32
  if right = 0xffffffff then none
  else some (pngCols lcd img a r.left r.top rowIdx (right.toNat + 1 - left.toNat) left m)

/-- The outer loop, for so many rows at most. -/
def pngRows (lcd : Lcd) (img : PngImage) (a : PngArgs) (r : PngRegion) : ℕ → UInt32 → Ram → Option Ram
  | 0, _, m => some m
  | n + 1, rowIdx, m =>
    if r.bottom.toUInt32 < rowIdx then some m
    else if rowIdx < r.top.toUInt32 then pngRows lcd img a r n (rowIdx + 1) m
    else (pngRow lcd img a r rowIdx m).bind (pngRows lcd img a r n (rowIdx + 1))

/-- The rows that are copied whole; `write_index` is an `int`, of which the bits count. -/
def pngFastRows (lcd : Lcd) (img : PngImage) : ℕ → UInt32 → UInt32 → Ram → Ram
  | 0, _, _, m => m
  | n + 1, rowIdx, writeIndex, m =>
    pngFastRows lcd img n (rowIdx + 1) (writeIndex + UInt32.ofNat lcd.width.toNat * 3)
      (memcpy m writeIndex (img.rows rowIdx) img.rowBytes.toNat)

/-- `put_png_file_buff` : the result and the memory.  `file` is `none` where there is no file or libpng
gives it up, `rowBuf` says whether there is memory for a row. -/
def putPngFileBuff (lcd : Lcd) (file : Option PngImage) (rowBuf : Bool) (a : PngArgs) (r : PngRegion)
    (m : Ram) : Option (DispResult × Ram) :=
  if r.left > r.right ∨ r.top > r.bottom then some (.PLATFORM_ERR, m)
  else
    match file with
    | none => some (.PLATFORM_ERR, m)
    | some img =>
      if img.channel ≠ 3 ∧ img.channel ≠ 4 then some (.PLATFORM_ERR, m)
      else if !rowBuf then some (.PLATFORM_ERR, m)
      else if r.left = 0 ∧ r.top = 0 ∧ r.right = 0 ∧ r.bottom = 0 then
        if lcd.bpp = 24 ∧ img.channel = 3 then
          let writeIndex := (a.y.toUInt32 * UInt32.ofNat lcd.width.toNat + a.x.toUInt32) * 3
          some (.PLATFORM_OK, pngFastRows lcd img img.height.toNat 0 writeIndex m)
        else
          let r := ⟨0, 0, (img.width - 1).toInt32, (img.height - 1).toInt32⟩
          (pngRows lcd img a r img.height.toNat 0 m).map fun m => (.PLATFORM_OK, m)
      else (pngRows lcd img a r img.height.toNat 0 m).map fun m => (.PLATFORM_OK, m)

/-! ### A row that is stored pixel by pixel -/

section

variable {lcd : Lcd} {img : PngImage} {a : PngArgs}

open scoped UInt32.CommRing

/-- Where a row begins. -/
def rowStart (lcd : Lcd) (a : PngArgs) (rowIdx : UInt32) : UInt32 :=
  ((a.y.toUInt32 + rowIdx) * UInt32.ofNat lcd.width.toNat + a.x.toUInt32) * 3

theorem rowStart_succ (lcd : Lcd) (a : PngArgs) (rowIdx : UInt32) :
    rowStart lcd a (rowIdx + 1) = rowStart lcd a rowIdx + UInt32.ofNat lcd.width.toNat * 3 := by
  unfold rowStart
  ring

/-- **One pixel more** is three bytes more. -/
theorem pngPixel_memcpy (hbpp : lcd.bpp = 24) (hchannel : img.channel = 3) (rowIdx : UInt32) (m : Ram) {k : ℕ}
    (hk : 3 * k + 2 < 2 ^ 32) :
    pngPixel lcd img a 0 0 rowIdx (UInt32.ofNat k)
        (memcpy m (rowStart lcd a rowIdx) (img.rows rowIdx) (3 * k)) =
      memcpy m (rowStart lcd a rowIdx) (img.rows rowIdx) (3 * (k + 1)) := by
  have hbyte : ∀ j : ℕ, UInt32.ofNat (3 * k + j) = UInt32.ofNat k * 3 + UInt32.ofNat j := fun j => by
    rw [UInt32.ofNat_add, UInt32.ofNat_mul, mul_comm]
    rfl
  have hindex : ∀ j : UInt32, ((a.y.toUInt32 + rowIdx - (0 : Int32).toUInt32) * UInt32.ofNat lcd.width.toNat +
      (a.x.toUInt32 + UInt32.ofNat k - (0 : Int32).toUInt32)) * 3 + j =
        rowStart lcd a rowIdx + (UInt32.ofNat k * 3 + j) := fun j => by
    change ((a.y.toUInt32 + rowIdx - 0) * UInt32.ofNat lcd.width.toNat +
      (a.x.toUInt32 + UInt32.ofNat k - 0)) * 3 + j = _
    unfold rowStart
    ring
  have h16 : lcd.bpp ≠ 16 := by
    rw [hbpp]
    decide
  have h4 : img.channel ≠ 4 := by
    rw [hchannel]
    decide
  rw [Nat.mul_add, Nat.mul_one, memcpy_add_three m _ _ hk]
  unfold pngPixel pngPixel24 put24 pngBytes
  simp only [if_neg h16, if_pos hbpp, if_neg h4, hindex]
  rw [hchannel, hbyte 2, hbyte 1, ← Nat.add_zero (3 * k), hbyte 0]
  rfl

/-- The pixels of a row, one after the other, from a column on. -/
theorem pngCols_memcpy (hbpp : lcd.bpp = 24) (hchannel : img.channel = 3) (rowIdx : UInt32) (m : Ram)
    (n k : ℕ) (hn : 3 * (k + n) < 2 ^ 32) :
    pngCols lcd img a 0 0 rowIdx n (UInt32.ofNat k)
        (memcpy m (rowStart lcd a rowIdx) (img.rows rowIdx) (3 * k)) =
      memcpy m (rowStart lcd a rowIdx) (img.rows rowIdx) (3 * (k + n)) := by
  induction n generalizing k with
  | zero => rfl
  | succ n ih =>
    have hnext : UInt32.ofNat k + 1 = UInt32.ofNat (k + 1) := (UInt32.ofNat_add k 1).symm
    rw [pngCols, pngPixel_memcpy hbpp hchannel rowIdx m (by omega), hnext, ih (k + 1) (by omega)]
    congr 1
    omega

/-- The region of a whole image. -/
def PngImage.region (img : PngImage) : PngRegion :=
  ⟨0, 0, (img.width - 1).toInt32, (img.height - 1).toInt32⟩

theorem pred_toNat_add_one {v : UInt32} (h : 0 < v.toNat) : (v - 1).toNat + 1 = v.toNat := by
  have hle : 1 ≤ v := UInt32.le_iff_toNat_le.2 h
  rw [UInt32.toNat_sub_of_le _ _ hle]
  exact Nat.succ_pred_eq_of_pos h

/-- **A row of three-channel pixels** is a row that is copied. -/
theorem pngRow_eq_memcpy (hbpp : lcd.bpp = 24) (hchannel : img.channel = 3)
    (hbytes : img.rowBytes.toNat = 3 * img.width.toNat) (rowIdx : UInt32) (m : Ram) :
    pngRow lcd img a img.region rowIdx m =
      some (memcpy m (rowStart lcd a rowIdx) (img.rows rowIdx) img.rowBytes.toNat) := by
  have hwidth := pred_toNat_add_one img.width_range.1
  have hlt := img.width_range.2
  have hsize := img.rowBytes.toNat_lt
  have hright : img.region.right.toUInt32 = img.width - 1 := UInt32.toUInt32_toInt32 _
  have hends : img.width - 1 ≠ 0xffffffff := fun heq => by
    have hnat : (img.width - 1).toNat = 2 ^ 32 - 1 := congrArg UInt32.toNat heq
    omega
  have hcols := pngCols_memcpy (a := a) hbpp hchannel rowIdx m img.width.toNat 0 (by omega)
  rw [Nat.zero_add, Nat.mul_zero, memcpy_zero, ← hbytes] at hcols
  unfold pngRow
  simp only [hright, if_neg hends, hwidth]
  exact congrArg some hcols

/-- The rows, one after the other. -/
theorem pngRows_eq_fast (hbpp : lcd.bpp = 24) (hchannel : img.channel = 3)
    (hbytes : img.rowBytes.toNat = 3 * img.width.toNat) (n k : ℕ) (hn : k + n = img.height.toNat) (m : Ram) :
    pngRows lcd img a img.region n (UInt32.ofNat k) m =
      some (pngFastRows lcd img n (UInt32.ofNat k) (rowStart lcd a (UInt32.ofNat k)) m) := by
  induction n generalizing k m with
  | zero => rfl
  | succ n ih =>
    have hheight := pred_toNat_add_one img.height_range.1
    have hlt := img.height_range.2
    have hbottom : img.region.bottom.toUInt32 = img.height - 1 := UInt32.toUInt32_toInt32 _
    have hk : (UInt32.ofNat k).toNat = k := UInt32.toNat_ofNat_of_lt' (by change k < 2 ^ 32; omega)
    have hlast : ¬ img.region.bottom.toUInt32 < UInt32.ofNat k := by
      rw [hbottom, UInt32.lt_iff_toNat_lt]
      omega
    have hfirst : ¬ UInt32.ofNat k < img.region.top.toUInt32 := UInt32.not_lt.2 (UInt32.zero_le ..)
    have hnext : UInt32.ofNat k + 1 = UInt32.ofNat (k + 1) := (UInt32.ofNat_add k 1).symm
    rw [pngRows, if_neg hlast, if_neg hfirst, pngRow_eq_memcpy hbpp hchannel hbytes, Option.bind_some, hnext,
      ih (k + 1) (by omega), pngFastRows, ← hnext, rowStart_succ]

end

/-! ### The two paths -/

/-- A size less one, as an `int`, is not negative. -/
theorem not_neg_pred {v : UInt32} (h : 0 < v.toNat ∧ v.toNat < 2 ^ 31) : ¬ (0 : Int32) > (v - 1).toInt32 := by
  have hpred := pred_toNat_add_one h.1
  have hint : (v - 1).toInt32.toInt = (v - 1).toNat :=
    BitVec.toInt_eq_toNat_of_lt (by change 2 * (v - 1).toNat < 2 ^ 32; omega)
  rw [gt_iff_lt, Int32.lt_iff_toInt_lt, hint]
  change ¬ (((v - 1).toNat : ℤ) < 0)
  omega

section

variable {lcd : Lcd} {img : PngImage}

/-- The region of a whole image is accepted. -/
theorem region_accepted (img : PngImage) :
    ¬ (img.region.left > img.region.right ∨ img.region.top > img.region.bottom) := by
  rintro (h | h)
  · exact not_neg_pred img.width_range h
  · exact not_neg_pred img.height_range h

/-- Without memory for a row nothing is stored. -/
theorem putPngFileBuff_noMemory (hchannel : img.channel = 3) (a : PngArgs) {r : PngRegion}
    (hr : ¬ (r.left > r.right ∨ r.top > r.bottom)) (m : Ram) :
    putPngFileBuff lcd (some img) false a r m = some (.PLATFORM_ERR, m) := by
  unfold putPngFileBuff
  simp only [if_neg hr]
  rw [if_neg fun h => h.1 hchannel, if_pos (by decide)]

/-- The region of zeros, if there is memory for a row. -/
theorem putPngFileBuff_zero (hbpp : lcd.bpp = 24) (hchannel : img.channel = 3) (a : PngArgs) (m : Ram) :
    putPngFileBuff lcd (some img) true a ⟨0, 0, 0, 0⟩ m =
      some (.PLATFORM_OK, pngFastRows lcd img img.height.toNat 0 (rowStart lcd a 0) m) := by
  have hstart : (a.y.toUInt32 * UInt32.ofNat lcd.width.toNat + a.x.toUInt32) * 3 = rowStart lcd a 0 := by
    rw [rowStart, UInt32.add_zero]
  unfold putPngFileBuff
  simp only [hstart]
  rw [if_neg (by decide), if_neg fun h => h.1 hchannel, if_neg (by decide), if_pos (by decide),
    if_pos ⟨hbpp, hchannel⟩]

/-- The region of the whole image, if there is memory for a row. -/
theorem putPngFileBuff_region (hbpp : lcd.bpp = 24) (hchannel : img.channel = 3)
    (hbytes : img.rowBytes.toNat = 3 * img.width.toNat) (a : PngArgs) (m : Ram) :
    putPngFileBuff lcd (some img) true a img.region m =
      some (.PLATFORM_OK, pngFastRows lcd img img.height.toNat 0 (rowStart lcd a 0) m) := by
  have hrows := pngRows_eq_fast (a := a) hbpp hchannel hbytes img.height.toNat 0 (Nat.zero_add _) m
  by_cases hzero : img.region.left = 0 ∧ img.region.top = 0 ∧ img.region.right = 0 ∧ img.region.bottom = 0
  · -- an image of one pixel
    have heq : img.region = ⟨0, 0, 0, 0⟩ := by
      rw [PngRegion.mk.injEq]
      exact hzero
    rw [heq, putPngFileBuff_zero hbpp hchannel]
  · unfold putPngFileBuff
    simp only [if_neg (region_accepted img), if_neg hzero]
    rw [if_neg fun h => h.1 hchannel, if_neg (by decide)]
    exact congrArg (Option.map _) hrows

/-- **The two paths** leave the same framebuffer: the rows that are copied for the region of zeros, and the
pixels that are stored for the region of the whole image. -/
theorem png_fast_eq (hbpp : lcd.bpp = 24) (hchannel : img.channel = 3)
    (hbytes : img.rowBytes.toNat = 3 * img.width.toNat) (rowBuf : Bool) (a : PngArgs) (m : Ram) :
    ∃ result, putPngFileBuff lcd (some img) rowBuf a ⟨0, 0, 0, 0⟩ m = some result ∧
      putPngFileBuff lcd (some img) rowBuf a img.region m = some result := by
  cases rowBuf with
  | false => exact ⟨_, putPngFileBuff_noMemory hchannel a (by decide) m,
      putPngFileBuff_noMemory hchannel a (region_accepted img) m⟩
  | true => exact ⟨_, putPngFileBuff_zero hbpp hchannel a m, putPngFileBuff_region hbpp hchannel hbytes a m⟩

end

/-- A 24-bpp screen, and an image of two pixels. -/
def screen24 : Lcd where
  width := 240
  height := 320
  bpp := 24
  bus := .PLATFORM_LCD_BUS_PARALLEL

def twoPixels : PngImage where
  width := 2
  height := 1
  channel := 3
  rowBytes := 6
  rows := fun _ addr => addr.toUInt8
  width_range := by decide
  height_range := by decide

theorem png_fast_eq_twoPixels :
    ∃ result,
      putPngFileBuff screen24 (some twoPixels) true ⟨5, 7, -1, 0⟩ ⟨0, 0, 0, 0⟩ (fun _ => 0xff) = some result ∧
        putPngFileBuff screen24 (some twoPixels) true ⟨5, 7, -1, 0⟩ twoPixels.region (fun _ => 0xff) =
          some result :=
  png_fast_eq rfl rfl rfl true _ _

end OsdCore
