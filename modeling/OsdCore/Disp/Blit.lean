import Mathlib.Data.List.TakeWhile
import OsdCore.Disp.Image
import OsdCore.Disp.Paint
import OsdCore.Time.Mktime

/-!
# What `put_bmp_file_buff` draws on a 16-bpp screen

* `WellFormedBmp` : a bottom-up BMP of 16 or 24 bits whose rows are padded to less than 65536 bytes.
* `bmpImagePixel` : its pixels, from the top left corner on.
* `mem_bmpCells_iff` : the two loops go over the part of the region that falls on the screen.
* `bmp_blit` : the screen shows these pixels, and nothing else has changed.
-/

namespace OsdCore

/-! ### The image -/

/-- The bytes of a row, padded to a multiple of 4. -/
def BmpHeader.paddedRow (h : BmpHeader) : ℤ := (h.width * h.bitsPerPixel + 31) / 32 * 4

/-- An image that is stored bottom up, in a file whose size is a `u32`. -/
structure WellFormedBmp (b : Ptr) : Prop where
  depth : (bmpHeader b).bitsPerPixel = 24 ∨ (bmpHeader b).bitsPerPixel = 16
  width : 0 < (bmpHeader b).width
  height : 0 < (bmpHeader b).height ∧ (bmpHeader b).height < 2 ^ 31
  row : (bmpHeader b).paddedRow < 2 ^ 16
  size : (bmpHeader b).bitmapOffset + (bmpHeader b).height * (bmpHeader b).paddedRow ≤ 2 ^ 32

/-- 5 bits of red, 6 of green and 5 of blue. -/
def rgb565 (r g b : UInt8) : BitVec 16 :=
  BitVec.ofNat 16 (r.toNat / 8 * 2 ^ 11 + g.toNat / 4 * 2 ^ 5 + b.toNat / 8)

/-- The RGB565 value of a pixel, which an image of 16 bits holds itself. -/
def bmpImagePixel (b : Ptr) (col row : ℤ) : BitVec 16 :=
  let h := bmpHeader b
  let start := h.bitmapOffset + ((h.height - 1 - row) * h.paddedRow + col * (h.bitsPerPixel / 8))
  if h.bitsPerPixel = 24 then rgb565 (b (start + 2)) (b (start + 1)) (b start)
  else BitVec.ofInt 16 (b.u16At start)

/-- The two bytes of a pixel change places on an SPI bus. -/
def Lcd.inBusOrder (lcd : Lcd) (value : BitVec 16) : BitVec 16 :=
  if lcd.bus = .PLATFORM_LCD_BUS_SPI then
    BitVec.ofNat 16 (value.toNat / 2 ^ 8 + value.toNat % 2 ^ 8 * 2 ^ 8)
  else value

/-! ### The region -/

/-- The region is part of the image. -/
structure Region.Inside (r : Region) (h : BmpHeader) : Prop where
  left : 0 ≤ r.left
  top : 0 ≤ r.top
  columns : r.left ≤ r.right
  rows : r.top ≤ r.bottom
  right : r.right < h.width
  bottom : r.bottom < h.height

/-- The whole image. -/
def BmpHeader.full (h : BmpHeader) : Region := ⟨0, 0, h.width - 1, h.height - 1⟩

/-- The region that is meant: all zeros stand for the whole image. -/
def BmpHeader.region (h : BmpHeader) (r : Region) : Region := if r.Default then h.full else r

/-- The column and the row are in the region, from its own corner on, and on the screen. -/
def Region.Visible (r : Region) (lcd : Lcd) (x y : UInt16) (i j : ℤ) : Prop :=
  (0 ≤ i ∧ i ≤ r.right - r.left ∧ (x : ℤ) + i < lcd.width) ∧
    0 ≤ j ∧ j ≤ r.bottom - r.top ∧ (y : ℤ) + j < lcd.height

/-- The framebuffer after a routine. -/
def Put.drawn (lcd : Lcd) (puts : List Put) (framebuffer : Ptr) : Ptr :=
  puts.foldl (Put.store lcd.width) framebuffer

/-- The region of the image is on the screen at a position, but for the pixels of the transparent
colour; the other bytes are unchanged. -/
structure Blits (lcd : Lcd) (b : Ptr) (x y : UInt16) (transcolor : Colour) (r : Region)
    (framebuffer after : Ptr) : Prop where
  pixel : ∀ i j, r.Visible lcd x y i j → pixelAt lcd.width after (y + j) (x + i) =
    if (bmpImagePixel b (r.left + i) (r.top + j)).setWidth 32 = transcolor then
      pixelAt lcd.width framebuffer (y + j) (x + i)
    else lcd.inBusOrder (bmpImagePixel b (r.left + i) (r.top + j))
  others : ∀ offset, (∀ i j, r.Visible lcd x y i j →
    offset ≠ 2 * ((y + j) * lcd.width + (x + i)) ∧ offset ≠ 2 * ((y + j) * lcd.width + (x + i)) + 1) →
      after offset = framebuffer offset

/-! ### Values -/

/-- The bits of one colour. -/
theorem upperBits (c : UInt8) :
    ((c.toBitVec.setWidth 16 &&& 0xf8) <<< 8).toNat = (c.toNat / 8) <<< 11 ∧
      ((c.toBitVec.setWidth 16 &&& 0xfc) <<< 3).toNat = (c.toNat / 4) <<< 5 ∧
      ((c.toBitVec.setWidth 16 &&& 0xf8) >>> 3).toNat = c.toNat / 8 := by
  revert c
  apply forall_byte
  decide +kernel

/-- `RGB24ToRGB16` keeps the upper bits of each colour. -/
theorem rgb24ToRgb16_eq (r g b : UInt8) : rgb24ToRgb16 r g b = rgb565 r g b := by
  have hr := r.toNat_lt
  have hg := g.toNat_lt
  have hb := b.toNat_lt
  have hgb : b.toNat / 8 ||| (g.toNat / 4) <<< 5 = b.toNat / 8 + g.toNat / 4 * 2 ^ 5 :=
    or_shift_eq_add (by omega)
  apply BitVec.eq_of_toNat_eq
  unfold rgb24ToRgb16 rgb565
  rw [BitVec.toNat_or, BitVec.toNat_or, (upperBits r).1, (upperBits g).2.1, (upperBits b).2.2,
    BitVec.toNat_ofNat, Nat.or_assoc, Nat.or_comm, Nat.or_comm (_ <<< 5), hgb,
    or_shift_eq_add (by omega), Nat.mod_eq_of_lt (by omega)]
  omega

theorem busPixel_eq (lcd : Lcd) (value : BitVec 16) :
    lcd.busPixel (value.setWidth 32) = lcd.inBusOrder value := by
  have hvalue := value.isLt
  unfold Lcd.busPixel Lcd.inBusOrder
  by_cases h : lcd.bus = .PLATFORM_LCD_BUS_SPI
  · rw [if_neg (not_not.2 h), if_pos h]
    have hwide : (value.setWidth 32).toNat = value.toNat := BitVec.toNat_setWidth_of_le (by decide)
    have hmsb : (value.setWidth 32).msb = false := by
      rw [BitVec.msb_eq_false_iff_two_mul_lt, hwide]
      omega
    have hlow : value.toNat &&& (0xff : BitVec 32).toNat = value.toNat % 2 ^ 8 :=
      Nat.and_two_pow_sub_one_eq_mod _ 8
    have hhigh : value.toNat >>> 8 = value.toNat / 2 ^ 8 := Nat.shiftRight_eq_div_pow _ _
    have hshift : (value.toNat % 2 ^ 8) <<< 8 % 2 ^ 32 = (value.toNat % 2 ^ 8) <<< 8 := by
      rw [Nat.shiftLeft_eq]
      omega
    apply BitVec.eq_of_toNat_eq
    rw [BitVec.sshiftRight_eq_of_msb_false hmsb, BitVec.toNat_setWidth, BitVec.toNat_or,
      BitVec.toNat_ushiftRight, BitVec.toNat_shiftLeft, BitVec.toNat_and, hwide, hlow, hhigh, hshift,
      or_shift_eq_add (by omega), BitVec.toNat_ofNat]
  · rw [if_pos h, if_neg h]
    simp
/-- A pixel is not -1. -/
theorem setWidth_ne_neg_one (value : BitVec 16) : value.setWidth 32 ≠ (-1 : BitVec 32) := by
  intro h
  have hlt := value.isLt
  have hnat := congrArg BitVec.toNat h
  rw [BitVec.toNat_setWidth_of_le (by decide)] at hnat
  rw [hnat] at hlt
  exact absurd hlt (by decide)

/-! ### What the loops go over -/

variable {lcd : Lcd} {b : Ptr} {x y : UInt16} {r : Region} {i j : ℤ}

namespace WellFormedBmp

/-- The rows are as long as the code computes. -/
theorem rowBytes_eq (hb : WellFormedBmp b) :
    (bmpHeader b).rowBytes = (bmpHeader b).paddedRow := by
  have hrow := hb.row
  have hwidth := hb.width
  have hbits : 0 ≤ (bmpHeader b).width * (bmpHeader b).bitsPerPixel := by
    rcases hb.depth with hd | hd <;> rw [hd] <;> omega
  unfold BmpHeader.rowBytes
  unfold BmpHeader.paddedRow at hrow ⊢
  rw [u32_of_range hbits (by omega), u32_of_range (by omega) (by omega),
    u16_of_range (by omega) (by omega)]

/-- The rows are short, and so is the image. -/
theorem width_lt (hb : WellFormedBmp b) : (bmpHeader b).width < 2 ^ 15 := by
  have hrow := hb.row
  unfold BmpHeader.paddedRow at hrow
  rcases hb.depth with hd | hd <;> rw [hd] at hrow <;> omega

/-- A pixel ends inside its row. -/
theorem pixel_le (hb : WellFormedBmp b) (hi : 0 ≤ i ∧ i < (bmpHeader b).width) :
    0 ≤ i * ((bmpHeader b).bitsPerPixel / 8) ∧
      (i + 1) * ((bmpHeader b).bitsPerPixel / 8) ≤ (bmpHeader b).paddedRow := by
  have hwidth := hb.width
  unfold BmpHeader.paddedRow
  rcases hb.depth with hd | hd <;> rw [hd] <;> omega

/-- A pixel lies in the file. -/
theorem index_range (hb : WellFormedBmp b) (hi : 0 ≤ i ∧ i < (bmpHeader b).width)
    (hj : 0 ≤ j ∧ j < (bmpHeader b).height) :
    0 ≤ j * (bmpHeader b).paddedRow + i * ((bmpHeader b).bitsPerPixel / 8) ∧
      (bmpHeader b).bitmapOffset + (j * (bmpHeader b).paddedRow +
        (i + 1) * ((bmpHeader b).bitsPerPixel / 8)) ≤ 2 ^ 32 := by
  obtain ⟨hpos, hle⟩ := hb.pixel_le hi
  have hsize := hb.size
  have hpadded : 0 ≤ (bmpHeader b).paddedRow := by
    rcases hb.depth with hd | hd <;> rw [hd] at hpos hle <;> omega
  have hrow : (j + 1) * (bmpHeader b).paddedRow ≤ (bmpHeader b).height * (bmpHeader b).paddedRow :=
    Int.mul_le_mul_of_nonneg_right (by omega) hpadded
  have hrow₀ : 0 ≤ j * (bmpHeader b).paddedRow := Int.mul_nonneg hj.1 hpadded
  rw [Int.add_mul, Int.one_mul] at hrow
  omega

end WellFormedBmp

/-- **The pixel that is read** is that of the image. -/
theorem bmpPixel_eq (hb : WellFormedBmp b) (hi : 0 ≤ i ∧ i < (bmpHeader b).width)
    (hj : 0 ≤ j ∧ j < (bmpHeader b).height) {row col : ℤ} :
    bmpPixel b (bmpHeader b) ⟨row, col, (bmpHeader b).height - 1 - j, i⟩ = bmpImagePixel b i j := by
  obtain ⟨hpos, hle⟩ := @WellFormedBmp.index_range b i ((bmpHeader b).height - 1 - j) hb hi (by omega)
  have hoffset : 0 ≤ (bmpHeader b).bitmapOffset := by
    have hlow : ∀ k, 0 ≤ b.u16At k := by
      intro k
      unfold Ptr.u16At
      omega
    have hlow₀ := hlow 10
    have hhigh₀ := hlow (10 + 2)
    unfold bmpHeader
    simp only [Ptr.u32At]
    omega
  unfold bmpPixel bmpImagePixel
  rw [hb.rowBytes_eq]
  rcases hb.depth with hd | hd
  · rw [hd] at hpos hle
    have hindex : i * 24 / 8 = i * (24 / 8) := by omega
    simp only [hd, if_true, hindex]
    rw [u32_of_range hpos (by omega), u32_of_range (by omega) (by omega),
      u32_of_range (by omega) (by omega), rgb24ToRgb16_eq]
    simp only [add_assoc]
  · rw [hd] at hpos hle
    have hindex : i * 16 / 8 = i * (16 / 8) := by omega
    simp only [hd, show ¬ (24 : ℤ) = 16 by decide, show ¬ (16 : ℤ) = 24 by decide, if_false, hindex]
    rw [u32_of_range hpos (by omega)]

/-- Where the region begins does not depend on which way it is given. -/
theorem region_corner (h : BmpHeader) (r : Region) :
    (h.region r).left = r.left ∧ (h.region r).top = r.top := by
  unfold BmpHeader.region
  split_ifs with hdef
  · exact ⟨hdef.1.symm, hdef.2.1.symm⟩
  · exact ⟨rfl, rfl⟩

/-- The right end of the columns. -/
theorem endX_eq (hb : WellFormedBmp b) (hr : ((bmpHeader b).region r).Inside (bmpHeader b)) :
    (bmpHeader b).endX lcd x r =
      min (((bmpHeader b).region r).right - ((bmpHeader b).region r).left + 1 + x) lcd.width := by
  have hx := x.toNat_lt
  have hcolumns := hr.columns
  have hpos := hb.width
  have hlt := hb.width_lt
  unfold BmpHeader.endX
  unfold BmpHeader.region at hcolumns ⊢
  split_ifs at hcolumns ⊢ with hdef
  · rw [u32_of_range (by omega) (by omega), u16_min _ (by omega), BmpHeader.full, sub_zero, sub_add_cancel]
  · exact u16_min _ (by omega)

/-- The lower end of the rows. -/
theorem endY_eq (hb : WellFormedBmp b) (hr : ((bmpHeader b).region r).Inside (bmpHeader b)) :
    (bmpHeader b).endY lcd y r =
      min (((bmpHeader b).region r).bottom - ((bmpHeader b).region r).top + 1 + y) lcd.height := by
  have hy := y.toNat_lt
  have hrows := hr.rows
  have hheight := hb.height
  unfold BmpHeader.endY
  unfold BmpHeader.region at hrows ⊢
  split_ifs at hrows ⊢ with hdef
  · rw [u32_of_range (by omega) (by omega), u16_min _ (by omega), BmpHeader.full, sub_zero, sub_add_cancel]
  · exact u16_min _ (by omega)

theorem lastRow_eq (hb : WellFormedBmp b) (r : Region) :
    (bmpHeader b).lastRow r = ((bmpHeader b).region r).bottom := by
  have hheight := hb.height
  unfold BmpHeader.lastRow BmpHeader.region
  split_ifs with hdef
  · exact wrap32_of_fits ⟨by omega, by omega⟩
  · rfl

/-- The rows: the image is read from the region's upper row downwards, and the test on the row of the
image never ends the loop. -/
theorem bmpRows_eq (hb : WellFormedBmp b) (hr : ((bmpHeader b).region r).Inside (bmpHeader b)) :
    bmpRows (bmpHeader b) lcd y r =
      (Int.range y ((bmpHeader b).endY lcd y r)).map fun row =>
        (row, (bmpHeader b).height - 1 - (r.top + (row - y))) := by
  have hy := y.toNat_lt
  have hheight := hb.height
  have hend := @endY_eq lcd b y r hb hr
  have hlast := lastRow_eq hb r
  have htop := (region_corner (bmpHeader b) r).2
  have hinside := And.intro (And.intro hr.top hr.rows) hr.bottom
  have hfirst : wrap32 ((bmpHeader b).height - r.top - 1) = (bmpHeader b).height - r.top - 1 :=
    wrap32_of_fits ⟨by omega, by omega⟩
  unfold bmpRows
  simp only [hlast, hfirst, u16_of_range (Int.natCast_nonneg y.toNat) (by omega)]
  rw [List.takeWhile_eq_self_iff.2]
  · refine List.map_congr_left fun row _ => ?_
    rw [Prod.mk.injEq]
    exact ⟨rfl, by omega⟩
  · intro row hrow
    obtain ⟨k, hk, rfl⟩ := List.mem_map.1 hrow
    rw [Int.mem_range_iff, hend] at hk
    rw [decide_eq_true_eq, u32_of_range (by omega) (by omega), u32_of_range (by omega) (by omega)]
    omega

/-- **The cells**: the part of the region that falls on the screen. -/
theorem mem_bmpCells_iff (hb : WellFormedBmp b) (hr : ((bmpHeader b).region r).Inside (bmpHeader b))
    {c : BmpCell} :
    c ∈ bmpCells (bmpHeader b) lcd x y r ↔
      ∃ i j, ((bmpHeader b).region r).Visible lcd x y i j ∧
        c = ⟨y + j, x + i, (bmpHeader b).height - 1 - (r.top + j), r.left + i⟩ := by
  have hx := x.toNat_lt
  unfold bmpCells Region.Visible
  rw [bmpRows_eq hb hr, endX_eq hb hr, endY_eq hb hr]
  simp only [List.mem_flatMap, List.mem_map, Int.mem_range_iff,
    u16_of_range (Int.natCast_nonneg x.toNat) (by omega)]
  constructor
  · rintro ⟨-, ⟨row, hrow, rfl⟩, col, hcol, rfl⟩
    refine ⟨col - x, row - y, by omega, ?_⟩
    simp only [add_sub_cancel]
  · rintro ⟨i, j, hvisible, rfl⟩
    refine ⟨_, ⟨y + j, by omega, rfl⟩, x + i, by omega, ?_⟩
    simp only [add_sub_cancel_left]

/-! ### What is drawn -/

variable {transcolor : Colour} {p : Put} {framebuffer : Ptr}

theorem not_rejected (hr : ((bmpHeader b).region r).Inside (bmpHeader b)) : ¬ r.Rejected := by
  have hcolumns := hr.columns
  have hrows := hr.rows
  unfold Region.Rejected
  unfold BmpHeader.region at hcolumns hrows
  split_ifs at hcolumns hrows with hdef
  · have hzero := hdef
    unfold Region.Default at hzero
    omega
  · omega

/-- What is stored for a cell. -/
def bmpPut (lcd : Lcd) (b : Ptr) (transcolor : Colour) (c : BmpCell) : List Put :=
  let rgb16 : Colour := (bmpPixel b (bmpHeader b) c).setWidth 32
  if -1 = transcolor ∨ rgb16 ≠ transcolor then
    [⟨c.rowIndex, c.colIndex, .pixel (lcd.busPixel rgb16)⟩]
  else []

theorem putBmp_eq (hbpp : lcd.bpp = 16) (hb : WellFormedBmp b)
    (hr : ((bmpHeader b).region r).Inside (bmpHeader b)) :
    putBmpFileBuff lcd b x y transcolor r =
      (.PLATFORM_OK, (bmpCells (bmpHeader b) lcd x y r).flatMap (bmpPut lcd b transcolor)) := by
  have hmono : ¬ (lcd.bpp = 1 ∧ (bmpHeader b).bitsPerPixel = 1) := by
    rintro ⟨hone, -⟩
    rw [hbpp] at hone
    exact absurd hone (by decide)
  have hdepth : ¬ ((bmpHeader b).bitsPerPixel ≠ 24 ∧ (bmpHeader b).bitsPerPixel ≠ 16) := by
    have hd := hb.depth
    omega
  unfold putBmpFileBuff
  simp only [if_neg (not_rejected hr), if_neg hmono, if_neg hdepth,
    if_neg (show ¬ lcd.bpp ≠ 16 from not_not.2 hbpp)]
  rfl

/-- The pixel that is read for a place of the region. -/
theorem bmpPixel_visible (hb : WellFormedBmp b) (hr : ((bmpHeader b).region r).Inside (bmpHeader b))
    (hvisible : ((bmpHeader b).region r).Visible lcd x y i j) (row col : ℤ) :
    bmpPixel b (bmpHeader b) ⟨row, col, (bmpHeader b).height - 1 - (r.top + j), r.left + i⟩ =
      bmpImagePixel b (r.left + i) (r.top + j) := by
  have hcorner := region_corner (bmpHeader b) r
  obtain ⟨hleft, htop, -, -, hright, hbottom⟩ := hr
  unfold Region.Visible at hvisible
  rw [hcorner.1, hcorner.2] at hvisible
  rw [hcorner.1] at hleft
  rw [hcorner.2] at htop
  exact bmpPixel_eq hb (by omega) (by omega)

/-- The test for the transparent colour: no pixel is -1. -/
theorem not_transparent_iff (value : BitVec 16) :
    (-1 = transcolor ∨ value.setWidth 32 ≠ transcolor) ↔ value.setWidth 32 ≠ transcolor := by
  constructor
  · rintro (rfl | hne)
    · exact setWidth_ne_neg_one value
    · exact hne
  · exact .inr

/-- **What is stored**: the pixels of the region that fall on the screen, without the transparent ones.
-/
theorem mem_blit (hbpp : lcd.bpp = 16) (hb : WellFormedBmp b)
    (hr : ((bmpHeader b).region r).Inside (bmpHeader b)) :
    p ∈ (putBmpFileBuff lcd b x y transcolor r).2 ↔
      ∃ i j, ((bmpHeader b).region r).Visible lcd x y i j ∧
        (bmpImagePixel b (r.left + i) (r.top + j)).setWidth 32 ≠ transcolor ∧
        p = ⟨y + j, x + i, .pixel (lcd.inBusOrder (bmpImagePixel b (r.left + i) (r.top + j)))⟩ := by
  rw [putBmp_eq hbpp hb hr, List.mem_flatMap]
  constructor
  · rintro ⟨c, hc, hp⟩
    obtain ⟨i, j, hvisible, rfl⟩ := (mem_bmpCells_iff hb hr).1 hc
    unfold bmpPut at hp
    simp only [bmpPixel_visible hb hr hvisible, not_transparent_iff] at hp
    split_ifs at hp with hne
    · obtain rfl := List.mem_singleton.1 hp
      exact ⟨i, j, hvisible, hne, by rw [busPixel_eq]⟩
    · cases hp
  · rintro ⟨i, j, hvisible, hne, rfl⟩
    refine ⟨_, (mem_bmpCells_iff hb hr).2 ⟨i, j, hvisible, rfl⟩, ?_⟩
    unfold bmpPut
    simp only [bmpPixel_visible hb hr hvisible, not_transparent_iff, if_pos hne, busPixel_eq,
      List.mem_singleton]

/-- All zeros stand for the whole image. -/
theorem putBmp_default (hbpp : lcd.bpp = 16) (hb : WellFormedBmp b) :
    putBmpFileBuff lcd b x y transcolor ⟨0, 0, 0, 0⟩ =
      putBmpFileBuff lcd b x y transcolor (bmpHeader b).full := by
  have hwidth := hb.width
  have hheight := hb.height
  have hzero : (bmpHeader b).region ⟨0, 0, 0, 0⟩ = (bmpHeader b).full := if_pos ⟨rfl, rfl, rfl, rfl⟩
  have hfull : (bmpHeader b).region (bmpHeader b).full = (bmpHeader b).full := by
    unfold BmpHeader.region
    split_ifs <;> rfl
  have hinside : (bmpHeader b).full.Inside (bmpHeader b) := by
    unfold BmpHeader.full
    constructor <;> dsimp only <;> omega
  have hr : ((bmpHeader b).region ⟨0, 0, 0, 0⟩).Inside (bmpHeader b) := hzero ▸ hinside
  have hr' : ((bmpHeader b).region (bmpHeader b).full).Inside (bmpHeader b) := hfull.symm ▸ hinside
  rw [putBmp_eq hbpp hb hr, putBmp_eq hbpp hb hr']
  unfold bmpCells
  rw [bmpRows_eq hb hr, bmpRows_eq hb hr', endX_eq hb hr, endX_eq hb hr', endY_eq hb hr, endY_eq hb hr',
    hzero, hfull]
  rfl

/-- What is stored at a place of the region is its pixel. -/
theorem blit_at (hbpp : lcd.bpp = 16) (hb : WellFormedBmp b)
    (hr : ((bmpHeader b).region r).Inside (bmpHeader b))
    (hp : p ∈ (putBmpFileBuff lcd b x y transcolor r).2) (hat : p.At (y + j) (x + i)) :
    (bmpImagePixel b (r.left + i) (r.top + j)).setWidth 32 ≠ transcolor ∧
      p.ink = .pixel (lcd.inBusOrder (bmpImagePixel b (r.left + i) (r.top + j))) := by
  obtain ⟨i', j', -, hne, rfl⟩ := (mem_blit hbpp hb hr).1 hp
  obtain rfl : j' = j := add_left_cancel hat.1
  obtain rfl : i' = i := add_left_cancel hat.2
  exact ⟨hne, rfl⟩

/-- **A BMP on a 16-bpp screen.**  The routine succeeds; the region, or the whole image for all zeros,
is on the screen as far as it falls on it, but for the transparent pixels; nothing else has changed; and
the whole image may be asked for in either way. -/
theorem bmp_blit (hbpp : lcd.bpp = 16) (hb : WellFormedBmp b)
    (hr : ((bmpHeader b).region r).Inside (bmpHeader b)) :
    (putBmpFileBuff lcd b x y transcolor r).1 = .PLATFORM_OK ∧
      Blits lcd b x y transcolor ((bmpHeader b).region r) framebuffer
        (Put.drawn lcd (putBmpFileBuff lcd b x y transcolor r).2 framebuffer) ∧
      putBmpFileBuff lcd b x y transcolor ⟨0, 0, 0, 0⟩ =
        putBmpFileBuff lcd b x y transcolor (bmpHeader b).full := by
  refine ⟨by rw [putBmp_eq hbpp hb hr], ⟨?_, ?_⟩, putBmp_default hbpp hb⟩
  · intro i j hvisible
    rw [(region_corner (bmpHeader b) r).1, (region_corner (bmpHeader b) r).2]
    have hcol : 0 ≤ (x : ℤ) + i ∧ (x : ℤ) + i < lcd.width := by
      unfold Region.Visible at hvisible
      omega
    rw [Put.drawn, pixelAt_foldl (fun p hp => ⟨putBmp_inScreen (Int.natCast_nonneg _)
      (Int.natCast_nonneg _) hp, putBmp_ink hbpp hp⟩) hcol]
    split_ifs with htrans
    · exact Put.paint_of_forall_ne fun p hp hat => (blit_at hbpp hb hr hp hat).1 htrans
    · refine Put.paint_of_mem ⟨_, (mem_blit hbpp hb hr).2 ⟨i, j, hvisible, htrans, rfl⟩, rfl, rfl⟩ ?_
      intro p hp hat
      rw [(blit_at hbpp hb hr hp hat).2]
      rfl
  · intro offset hout
    apply Put.foldl_store_of_notMem
    intro hmem
    obtain ⟨p, hp, hoffset⟩ := List.mem_flatMap.1 hmem
    obtain ⟨i, j, hvisible, -, rfl⟩ := (mem_blit hbpp hb hr).1 hp
    have hne := hout i j hvisible
    simp only [Put.offsets, Put.index, List.mem_cons, List.not_mem_nil, or_false] at hoffset
    omega

/-- An image of 2 pixels in a row, blue and red, of 24 bits each. -/
def pairBmp : Ptr :=
  .ofBytes ([0x42, 0x4D, 62, 0, 0, 0, 0, 0, 0, 0, 54, 0, 0, 0, 40, 0, 0, 0, 2, 0, 0, 0, 1, 0, 0, 0, 1, 0, 24, 0] ++
    List.replicate 24 0 ++ [255, 0, 0, 0, 0, 255, 0, 0])

theorem bmpHeader_pairBmp : bmpHeader pairBmp = ⟨54, 2, 1, 1, 24⟩ := by decide

theorem wellFormed_pairBmp : WellFormedBmp pairBmp where
  depth := .inl (by rw [bmpHeader_pairBmp])
  width := by rw [bmpHeader_pairBmp]; decide
  height := by rw [bmpHeader_pairBmp]; decide
  row := by rw [bmpHeader_pairBmp]; decide
  size := by rw [bmpHeader_pairBmp]; decide

/-- At the right edge of a small screen, only its first pixel is on it. -/
theorem bmp_blit_edge :
    (putBmpFileBuff smallLcd pairBmp (3 : UInt16) (0 : UInt16) (-1) ⟨0, 0, 0, 0⟩).1 = .PLATFORM_OK ∧
      Blits smallLcd pairBmp 3 0 (-1) ((bmpHeader pairBmp).region ⟨0, 0, 0, 0⟩) (fun _ => 0)
        (Put.drawn smallLcd
          (putBmpFileBuff smallLcd pairBmp (3 : UInt16) (0 : UInt16) (-1) ⟨0, 0, 0, 0⟩).2 fun _ => 0) ∧
      putBmpFileBuff smallLcd pairBmp (3 : UInt16) (0 : UInt16) (-1) ⟨0, 0, 0, 0⟩ =
        putBmpFileBuff smallLcd pairBmp (3 : UInt16) (0 : UInt16) (-1) (bmpHeader pairBmp).full :=
  bmp_blit rfl wellFormed_pairBmp (by
    rw [bmpHeader_pairBmp]
    constructor <;> decide)

end OsdCore
