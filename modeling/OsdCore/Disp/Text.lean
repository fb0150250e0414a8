import OsdCore.Disp.Basic

/-!
# Glyphs and text

* `getCharBitmap` : the glyph of a character code, as a block of memory and an offset in it.
* `textItems` : the line breaks and the character codes of a string.
* `platformDispPuttext` : a cursor that goes over them; `TextCursor.advance` is its `next_line`.
-/

namespace OsdCore

/-! ### Fonts -/

/-- An array: its size, and the memory from its first byte on. -/
structure Block where
  size : ℕ
  mem : Ptr

/-- `FontInfo`; `none` is a null pointer. -/
structure FontInfo where
  width : UInt8
  height : UInt8
  size : UInt8
  start : UInt16
  stop : UInt16
  data : Option Block

def MAX_FONTS : ℕ := 10

/-- `dispFonts`, `curr_font_id`, `dispHzFont` and the arrays of the glyphs. -/
structure Fonts where
  dispFonts : Fin MAX_FONTS → FontInfo
  currFontId : Fin MAX_FONTS
  dispHzFont : FontInfo
  blankChar : Block
  sansHzFont16ExtData : Block

/-- `sansHzFont16ExtOffset`. -/
def sansHzFont16ExtOffset : List UInt16 :=
  [0xA1A2, 0xA1A3, 0xA1AA, 0xA1AD, 0xA1AE, 0xA1AF, 0xA1B0, 0xA1B1,
   0xA1B2, 0xA1B3, 0xA1B4, 0xA1B5, 0xA1B6, 0xA1B7, 0xA1B8, 0xA1B9,
   0xA1BA, 0xA1BB, 0xA1BE, 0xA1BF, 0xA3A1, 0xA3A8, 0xA3A9, 0xA3AC,
   0xA3AD, 0xA3AE, 0xA3BA, 0xA3BB, 0xA3BF, 0xE0C5]

/-- `DispBitmap`: the pointer `data` is an offset in a block. -/
structure DispBitmap where
  width : UInt16
  height : UInt16
  bpp : UInt8
  data : Block
  offset : ℤ

namespace DispBitmap

/-- The bytes of one row. -/
def rowBytes (b : DispBitmap) : ℤ := ((b.width : ℤ) + 7) / 8

/-- Is the bit of the column `bx` and the row `by` set? -/
def bitAt (b : DispBitmap) (bx by' : ℤ) : Bool :=
  b.data.mem (b.offset + (b.rowBytes * by' + bx / 8)) &&& (0x80 >>> UInt8.ofNat (bx % 8).toNat) ≠ 0

end DispBitmap

/-- `getFontBitmap`. -/
def getFontBitmap (fonts : Fonts) (charcode : UInt16) : DispBitmap :=
  let info := fonts.dispFonts fonts.currFontId
  let blank : DispBitmap := ⟨info.width.toUInt16, info.height.toUInt16, 1, fonts.blankChar, 0⟩
  match info.data with
  | some data =>
    if charcode ≥ info.start ∧ charcode ≤ info.stop then
      { blank with data, offset := ((charcode : ℤ) - info.start) * info.size.toNat }
    else blank
  | none => blank

/-- The search in `sansHzFont16ExtOffset`. -/
def extIndex (charcode : UInt16) : List UInt16 → Option ℕ
  | [] => none
  | entry :: rest =>
    if charcode < entry then none
    else if charcode = entry then some 0
    else (extIndex charcode rest).map (· + 1)

/-- `getHzBitmap`. -/
def getHzBitmap (fonts : Fonts) (charcode : UInt16) : DispBitmap :=
  let info := fonts.dispHzFont
  let blank : DispBitmap := ⟨info.width.toUInt16, info.height.toUInt16, 1, fonts.blankChar, 0⟩
  match info.data with
  | some data =>
    let byte1 : ℤ := charcode.toNat / 2 ^ 8
    let byte2 : ℤ := charcode.toNat % 2 ^ 8
    if (byte1 ≥ 0xB0 ∧ byte1 ≤ 0xF7) ∧ byte2 ≥ 0xA1 ∧ byte2 ≤ 0xFE then
      { blank with data, offset := ((byte1 - 0xB0) * (0xFE - 0xA1 + 1) + byte2 - 0xA1) * info.size.toNat }
    else match extIndex charcode sansHzFont16ExtOffset with
      | some index => { blank with data := fonts.sansHzFont16ExtData, offset := index * info.size.toNat }
      | none => blank
  | none => blank

/-- `getCharBitmap` without `FONT_ESPANA_SUPPORT`. -/
def getCharBitmap (fonts : Fonts) (charcode : UInt16) : DispBitmap :=
  if charcode ≥ 0xA0A0 then getHzBitmap fonts charcode else getFontBitmap fonts charcode

/-! ### Drawing a glyph -/

/-- The loops of `disp_bitmap_bpp1` and `disp_1bitbmp_bpp16`: column by column, as far as the screen
goes, the bits that are set. -/
def glyphPuts (lcd : Lcd) (b : DispBitmap) (startX startY : UInt16) (ink : Ink) : List Put :=
  let endX := min (lcd.width : ℤ) (startX + b.width)
  let endY := min (lcd.height : ℤ) (startY + b.height)
  (Int.range startX endX).flatMap fun x => (Int.range startY endY).flatMap fun y =>
    if b.bitAt (x - startX) (y - startY) then [⟨y, x, ink⟩] else []

/-- `disp_bitmap_bpp1`. -/
def dispBitmapBpp1 (lcd : Lcd) (b : DispBitmap) (startX startY : UInt16) : List Put :=
  if b.bpp ≠ 1 then [] else glyphPuts lcd b startX startY (.bit (lcd.fills lcd.dispColor))

/-- `disp_1bitbmp_bpp16`; its assertion is `getCharBitmap_bpp`. -/
def disp1bitbmpBpp16 (lcd : Lcd) (b : DispBitmap) (startX startY : UInt16) : List Put :=
  glyphPuts lcd b startX startY (.pixel (lcd.busPixel lcd.dispColor))

/-! ### Text -/

/-- What the bits of a glyph become. -/
def textInk (lcd : Lcd) : Ink :=
  if lcd.bpp = 1 then .bit (lcd.fills lcd.dispColor) else .pixel (lcd.busPixel lcd.dispColor)

/-- What one pass of the loop takes from the string. -/
inductive TextItem where
  | lineBreak
  | char (charcode : UInt16)
deriving DecidableEq, Repr

/-- The passes over a C string.  Its NUL comes after the last character. -/
def textItems : Bytes → List TextItem
  | [] => []
  | [c] =>
    if c = 0x0D ∨ c = 0x0A then [.lineBreak]
    else if c &&& 0x80 ≠ 0 then [.char 0x3F]
    else [.char c.toUInt16]
  | c :: c₂ :: rest =>
    if c = 0x0D ∨ c = 0x0A then .lineBreak :: textItems (c₂ :: rest)
    else if c &&& 0x80 ≠ 0 then
      if c₂ &&& 0x80 ≠ 0 then .char (c.toUInt16 <<< 8 ||| c₂.toUInt16) :: textItems rest
      else .char 0x3F :: textItems (c₂ :: rest)
    else .char c.toUInt16 :: textItems (c₂ :: rest)

/-- `x`, `y` and `bitmap`. -/
structure TextCursor where
  x : UInt16
  y : UInt16
  bitmap : DispBitmap

namespace TextCursor

/-- From `next_line` on. -/
def advance (lcd : Lcd) (t : TextCursor) : TextCursor :=
  let t :=
    if (t.x : ℤ) + t.bitmap.width ≥ lcd.width then { t with y := t.y + t.bitmap.height, x := 0 }
    else { t with x := t.x + t.bitmap.width }
  if t.y ≥ lcd.height then { t with y := 0 } else t

/-- One pass of the loop. -/
def pass (lcd : Lcd) (fonts : Fonts) (t : TextCursor) : TextItem → TextCursor × List Put
  | .lineBreak => (t.advance lcd, [])
  | .char charcode =>
    let bitmap := getCharBitmap fonts charcode
    if lcd.bpp = 1 then
      if bitmap.width = 14 ∧ bitmap.height = 14 then
        ({ t with bitmap := { bitmap with width := 16, height := 16 } }.advance lcd,
          dispBitmapBpp1 lcd bitmap (t.x + 1) (t.y + 1))
      else ({ t with bitmap }.advance lcd, dispBitmapBpp1 lcd bitmap t.x t.y)
    else ({ t with bitmap }.advance lcd, disp1bitbmpBpp16 lcd bitmap t.x t.y)

/-- The passes of the loop. -/
def run (lcd : Lcd) (fonts : Fonts) : TextCursor → List TextItem → List Put
  | _, [] => []
  | t, item :: items => (t.pass lcd fonts item).2 ++ run lcd fonts (t.pass lcd fonts item).1 items

end TextCursor

/-- `platform_disp_puttext`.  `bitmap` is what its local variable holds in the beginning. -/
def platformDispPuttext (lcd : Lcd) (fonts : Fonts) (bitmap : DispBitmap) (string : Bytes)
    (x y : UInt16) : List Put :=
  let x := if x ≥ lcd.width then 0 else x
  let y := if y ≥ lcd.height then 0 else y
  TextCursor.run lcd fonts ⟨x, y, bitmap⟩ (textItems string)

/-! ### What is drawn is on the screen -/

section

variable {lcd : Lcd} {fonts : Fonts} {b : DispBitmap} {startX startY x y : UInt16} {ink : Ink}
  {string : Bytes} {charcode : UInt16} {p : Put}

theorem getFontBitmap_bpp : (getFontBitmap fonts charcode).bpp = 1 := by
  unfold getFontBitmap
  dsimp only
  split
  · split_ifs <;> rfl
  · rfl

theorem getHzBitmap_bpp : (getHzBitmap fonts charcode).bpp = 1 := by
  unfold getHzBitmap
  dsimp only
  split
  · split_ifs
    · rfl
    · cases extIndex charcode sansHzFont16ExtOffset <;> rfl
  · rfl

/-- **Every glyph has one bit for a pixel.** -/
theorem getCharBitmap_bpp : (getCharBitmap fonts charcode).bpp = 1 := by
  unfold getCharBitmap
  split_ifs
  · exact getHzBitmap_bpp
  · exact getFontBitmap_bpp

/-- **A pixel of a glyph**: a bit that is set, of a row and a column that are on the screen. -/
theorem mem_glyphPuts (h : p ∈ glyphPuts lcd b startX startY ink) :
    p.InScreen lcd ∧ p.ink = ink ∧ b.bitAt (p.col - startX) (p.row - startY) = true := by
  obtain ⟨x, hx, hcol⟩ := List.mem_flatMap.1 h
  obtain ⟨y, hy, hp⟩ := List.mem_flatMap.1 hcol
  rw [Int.mem_range_iff] at hx hy
  split_ifs at hp with hbit
  · obtain rfl := List.mem_singleton.1 hp
    refine ⟨⟨?_, ?_⟩, rfl, hbit⟩
    · dsimp only
      omega
    · dsimp only
      omega
  · cases hp

theorem mem_dispBitmapBpp1 (hbpp : lcd.bpp = 1) (h : p ∈ dispBitmapBpp1 lcd b startX startY) :
    p ∈ glyphPuts lcd b startX startY (textInk lcd) := by
  unfold dispBitmapBpp1 at h
  rw [textInk, if_pos hbpp]
  split_ifs at h
  · cases h
  · exact h

/-- A pass draws a glyph somewhere, in the ink of the screen. -/
theorem TextCursor.mem_pass {t : TextCursor} {item : TextItem} (h : p ∈ (t.pass lcd fonts item).2) :
    ∃ b startX startY, p ∈ glyphPuts lcd b startX startY (textInk lcd) := by
  cases item with
  | lineBreak => cases h
  | char charcode =>
    unfold pass at h
    dsimp only at h
    split_ifs at h with hbpp
    · exact ⟨_, _, _, mem_dispBitmapBpp1 hbpp h⟩
    · exact ⟨_, _, _, mem_dispBitmapBpp1 hbpp h⟩
    · rw [textInk, if_neg hbpp]
      exact ⟨_, _, _, h⟩

theorem TextCursor.mem_run {items : List TextItem} {t : TextCursor} (h : p ∈ t.run lcd fonts items) :
    ∃ b startX startY, p ∈ glyphPuts lcd b startX startY (textInk lcd) := by
  induction items generalizing t with
  | nil => cases h
  | cons item items ih =>
    rcases List.mem_append.1 h with hpass | hrest
    · exact mem_pass hpass
    · exact ih hrest

/-- **Text is clipped at the edges of the screen**, and all of it has one ink. -/
theorem mem_puttext {bitmap : DispBitmap} (h : p ∈ platformDispPuttext lcd fonts bitmap string x y) :
    p.InScreen lcd ∧ p.ink = textInk lcd := by
  obtain ⟨b, startX, startY, hp⟩ := TextCursor.mem_run h
  exact ⟨(mem_glyphPuts hp).1, (mem_glyphPuts hp).2.1⟩

end

end OsdCore
