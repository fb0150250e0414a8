import OsdCore.Disp.Fonts

/-!
# The layout of a text

* `Glyph`, `screenGlyph` : the bits of a character as the screen has them.
* `Caret` : where the next character comes, and the glyph before it; `Caret.step` is the layout.
* `Follows` : `platform_disp_puttext` draws every character at the caret, and its cursor goes with it.
* `ItemFits` : when it does, for one character or line break; a line break ends a line only where the
  line is full.
* `puttext_iff` : it does for a string if it does for each item of it.
-/

namespace OsdCore

/-! ### Glyphs -/

/-- The bits of a character. -/
structure Glyph where
  width : ℤ
  height : ℤ
  bit : ℤ → ℤ → Bool

namespace Glyph

/-- A bit of the glyph that is set. -/
def Has (g : Glyph) (bx by' : ℤ) : Prop :=
  (0 ≤ bx ∧ bx < g.width) ∧ (0 ≤ by' ∧ by' < g.height) ∧ g.bit bx by' = true

/-- The glyph with an empty border of one pixel. -/
def framed (g : Glyph) : Glyph where
  width := g.width + 2
  height := g.height + 2
  bit bx by' := decide ((1 ≤ bx ∧ bx ≤ g.width) ∧ 1 ≤ by' ∧ by' ≤ g.height) && g.bit (bx - 1) (by' - 1)

end Glyph

/-- The glyph of a bitmap. -/
def DispBitmap.glyph (b : DispBitmap) : Glyph := ⟨b.width, b.height, b.bitAt⟩

/-- The glyph of a character: on a 1-bpp screen one of 14 by 14 pixels has 16 by 16. -/
def screenGlyph (lcd : Lcd) (fonts : Fonts) (charcode : UInt16) : Glyph :=
  let g := (getCharBitmap fonts charcode).glyph
  if lcd.bpp = 1 ∧ g.width = 14 ∧ g.height = 14 then g.framed else g

/-! ### The layout -/

/-- The place of the next character, and the glyph of the last one. -/
structure Caret where
  x : ℤ
  y : ℤ
  last : Option Glyph

namespace Caret

/-- The beginning of the next line, which is at the top of the screen if there is no more place. -/
def newLine (lcd : Lcd) (c : Caret) (g : Glyph) : Caret :=
  ⟨0, if lcd.height ≤ c.y + g.height then 0 else c.y + g.height, some g⟩

/-- Behind a glyph, or on the next line if that is the right edge. -/
def after (lcd : Lcd) (c : Caret) (g : Glyph) : Caret :=
  if lcd.width ≤ c.x + g.width then c.newLine lcd g else ⟨c.x + g.width, c.y, some g⟩

/-- The caret after an item; a line break has the height of the glyph before it. -/
def step (lcd : Lcd) (fonts : Fonts) (c : Caret) : TextItem → Option Caret
  | .lineBreak => c.last.map (c.newLine lcd)
  | .char charcode => some (c.after lcd (screenGlyph lcd fonts charcode))

/-- The first caret. -/
def start (lcd : Lcd) (x y : UInt16) : Caret :=
  ⟨if lcd.width ≤ x then 0 else x, if lcd.height ≤ y then 0 else y, none⟩

/-- What is stored for an item: the bits of the glyph that fall on the screen. -/
def Draws (lcd : Lcd) (fonts : Fonts) (c : Caret) : TextItem → List Put → Prop
  | .lineBreak, puts => puts = []
  | .char charcode, puts => ∀ p, p ∈ puts ↔ p.InScreen lcd ∧ p.ink = textInk lcd ∧
      (screenGlyph lcd fonts charcode).Has (p.col - c.x) (p.row - c.y)

/-- The cursor of the code is there. -/
def At (c : Caret) (t : TextCursor) : Prop := c.x = t.x ∧ c.y = t.y

end Caret

/-- The puts are those of the items, each at its caret, and the cursor of the code goes with the caret.
-/
def Follows (lcd : Lcd) (fonts : Fonts) : Caret → TextCursor → List TextItem → List Put → Prop
  | c, t, [], puts => c.At t ∧ puts = []
  | c, t, item :: items, puts => c.At t ∧ ∃ drawn rest c', puts = drawn ++ rest ∧
      c.Draws lcd fonts item drawn ∧ c.step lcd fonts item = some c' ∧
      Follows lcd fonts c' (t.pass lcd fonts item).1 items rest

/-- The cursor of `platform_disp_puttext` before the loop. -/
def TextCursor.start (lcd : Lcd) (bitmap : DispBitmap) (x y : UInt16) : TextCursor :=
  ⟨if x ≥ lcd.width then 0 else x, if y ≥ lcd.height then 0 else y, bitmap⟩

/-- A text is laid out as the caret says, whatever the local variable `bitmap` holds in the beginning.
-/
def LaidOut (lcd : Lcd) (fonts : Fonts) (string : Bytes) (x y : UInt16) : Prop :=
  ∀ bitmap, Follows lcd fonts (.start lcd x y) (.start lcd bitmap x y) (textItems string)
    (platformDispPuttext lcd fonts bitmap string x y)

/-! ### When it is -/

/-- An item is laid out: the row of a new line is not reduced, and a line break comes where the line is
full, or moves nothing. -/
def ItemFits (lcd : Lcd) (fonts : Fonts) (c : Caret) : TextItem → Prop
  | .char charcode => c.x + (screenGlyph lcd fonts charcode).width < lcd.width ∨
      c.y + (screenGlyph lcd fonts charcode).height ≤ 2 ^ 16
  | .lineBreak => ∃ g, c.last = some g ∧
      ((lcd.width ≤ c.x + g.width ∧ c.y + g.height ≤ 2 ^ 16) ∨
        (c.x + g.width = 0 ∧ (c.newLine lcd g).y = c.y))

/-- Every item is laid out. -/
def ItemsFit (lcd : Lcd) (fonts : Fonts) : Caret → List TextItem → Prop
  | _, [] => True
  | c, item :: items => ItemFits lcd fonts c item ∧
      ∀ c', c.step lcd fonts item = some c' → ItemsFit lcd fonts c' items

/-! ### The cursor of the code -/

section

variable {lcd : Lcd} {fonts : Fonts} {c c' : Caret} {t : TextCursor} {g : Glyph} {item : TextItem}
  {items : List TextItem} {puts : List Put} {charcode : UInt16} {x y : UInt16}

namespace TextCursor

@[simp] theorem advance_bitmap (lcd : Lcd) (t : TextCursor) : (t.advance lcd).bitmap = t.bitmap := by
  unfold advance
  dsimp only
  split_ifs <;> rfl

/-- The column after `next_line`. -/
theorem advance_x (lcd : Lcd) (t : TextCursor) : ((t.advance lcd).x : ℤ) =
    if (lcd.width : ℤ) ≤ t.x + t.bitmap.width then 0 else (t.x : ℤ) + t.bitmap.width := by
  have hcol : (t.advance lcd).x =
      if (t.x : ℤ) + t.bitmap.width ≥ lcd.width then 0 else t.x + t.bitmap.width := by
    unfold advance
    dsimp only
    split_ifs <;> rfl
  have hwidth := lcd.width.toNat_lt
  rw [hcol]
  by_cases hedge : (lcd.width : ℤ) ≤ t.x + t.bitmap.width
  · rw [if_pos hedge, if_pos hedge]
    rfl
  · rw [if_neg hedge, if_neg hedge, coe_add, u16_of_range (by omega) (by omega)]

/-- The row after `next_line`. -/
theorem advance_y (lcd : Lcd) (t : TextCursor) : ((t.advance lcd).y : ℤ) =
    let y := if (lcd.width : ℤ) ≤ t.x + t.bitmap.width then u16 (t.y + t.bitmap.height) else t.y
    if lcd.height ≤ y then 0 else y := by
  have hrow : (t.advance lcd).y =
      let y := if (t.x : ℤ) + t.bitmap.width ≥ lcd.width then t.y + t.bitmap.height else t.y
      if y ≥ lcd.height then 0 else y := by
    unfold advance
    dsimp only
    split_ifs <;> rfl
  have hend : ∀ y : UInt16, ((if y ≥ lcd.height then 0 else y : UInt16) : ℤ) =
      if (lcd.height : ℤ) ≤ y then 0 else (y : ℤ) := by
    intro y
    by_cases hy : lcd.height ≤ y
    · rw [if_pos hy, if_pos (Int.ofNat_le.2 (UInt16.le_iff_toNat_le.1 hy))]
      rfl
    · rw [if_neg hy, if_neg fun hle => hy (UInt16.le_iff_toNat_le.2 (Int.ofNat_le.1 hle))]
  rw [hrow]
  dsimp only
  rw [hend]
  by_cases hedge : (lcd.width : ℤ) ≤ t.x + t.bitmap.width
  · rw [if_pos hedge, if_pos hedge, coe_add]
  · rw [if_neg hedge, if_neg hedge]

end TextCursor

/-! ### The caret and the cursor -/

/-- What holds when the cursor is at the caret. -/
structure Caret.Sim (lcd : Lcd) (c : Caret) (t : TextCursor) : Prop where
  place : c.At t
  size : ∀ g, c.last = some g → g.width = t.bitmap.width ∧ g.height = t.bitmap.height ∧ g.height < 2 ^ 8
  column : c.x < lcd.width ∨ c.x = 0
  row : c.y < lcd.height ∨ c.y = 0

/-- A new line begins at the same row if the sum is not reduced, or gives 0. -/
theorem newRow_eq_iff {height y h : ℤ} (hheight : height < 2 ^ 16) (hy : 0 ≤ y ∧ (y < height ∨ y = 0))
    (hh : 0 ≤ h ∧ h < 2 ^ 8) :
    (if height ≤ y + h then 0 else y + h) = (if height ≤ u16 (y + h) then 0 else u16 (y + h)) ↔
      y + h ≤ 2 ^ 16 := by
  unfold u16
  split_ifs <;> omega

namespace Caret

/-- Behind a glyph: the cursor goes with the caret if the row of a new line is not reduced. -/
theorem after_at_iff (hplace : c.At t) (hrow : c.y < lcd.height ∨ c.y = 0)
    (hsize : g.width = t.bitmap.width ∧ g.height = t.bitmap.height ∧ g.height < 2 ^ 8) :
    (c.after lcd g).At (t.advance lcd) ↔
      c.x + g.width < lcd.width ∨ c.y + g.height ≤ 2 ^ 16 := by
  obtain ⟨hx, hy⟩ := hplace
  obtain ⟨hw, hh, hsmall⟩ := hsize
  have hheight := lcd.height.toNat_lt
  rw [At, TextCursor.advance_x, TextCursor.advance_y, ← hx, ← hy, ← hw, ← hh, after]
  by_cases hedge : (lcd.width : ℤ) ≤ c.x + g.width
  · simp only [if_pos hedge, newLine, true_and]
    rw [newRow_eq_iff (by omega) ⟨by omega, hrow⟩ ⟨by omega, hsmall⟩]
    exact (or_iff_right (not_lt.2 hedge)).symm
  · have hsame : c.y = if (lcd.height : ℤ) ≤ c.y then 0 else c.y := by
      split_ifs <;> omega
    simp only [if_neg hedge, true_and]
    exact ⟨fun _ => .inl (not_le.1 hedge), fun _ => hsame⟩

/-- A line break: the cursor goes with the caret if the line is full, or nothing moves. -/
theorem newLine_at_iff (hplace : c.At t) (hrow : c.y < lcd.height ∨ c.y = 0)
    (hsize : g.width = t.bitmap.width ∧ g.height = t.bitmap.height ∧ g.height < 2 ^ 8) :
    (c.newLine lcd g).At (t.advance lcd) ↔
      (lcd.width ≤ c.x + g.width ∧ c.y + g.height ≤ 2 ^ 16) ∨
        (c.x + g.width = 0 ∧ (c.newLine lcd g).y = c.y) := by
  obtain ⟨hx, hy⟩ := hplace
  obtain ⟨hw, hh, hsmall⟩ := hsize
  have hheight := lcd.height.toNat_lt
  rw [At, TextCursor.advance_x, TextCursor.advance_y, ← hx, ← hy, ← hw, ← hh]
  by_cases hedge : (lcd.width : ℤ) ≤ c.x + g.width
  · simp only [if_pos hedge, newLine, true_and]
    rw [newRow_eq_iff (by omega) ⟨by omega, hrow⟩ ⟨by omega, hsmall⟩]
    refine ⟨fun h => .inl ⟨hedge, h⟩, ?_⟩
    rintro (h | ⟨-, hsame⟩)
    · exact h.2
    · split_ifs at hsame <;> omega
  · have hsame : (if (lcd.height : ℤ) ≤ c.y then 0 else c.y) = c.y := by
      split_ifs <;> omega
    simp only [if_neg hedge, newLine, hsame]
    refine ⟨fun h => .inr ⟨h.1.symm, h.2⟩, ?_⟩
    rintro (h | h)
    · exact absurd h.1 hedge
    · exact ⟨h.1.symm, h.2⟩

end Caret

/-! ### What a pass draws -/

/-- The dimensions of a bitmap come from a font. -/
theorem getCharBitmap_size (fonts : Fonts) (charcode : UInt16) :
    ∃ info : FontInfo, (getCharBitmap fonts charcode).width = info.width.toUInt16 ∧
      (getCharBitmap fonts charcode).height = info.height.toUInt16 := by
  unfold getCharBitmap
  split_ifs
  · refine ⟨fonts.dispHzFont, ?_⟩
    unfold getHzBitmap
    dsimp only
    split
    · split_ifs
      · exact ⟨rfl, rfl⟩
      · split <;> exact ⟨rfl, rfl⟩
    · exact ⟨rfl, rfl⟩
  · refine ⟨fonts.current, ?_⟩
    unfold getFontBitmap Fonts.current
    dsimp only
    split
    · split_ifs <;> exact ⟨rfl, rfl⟩
    · exact ⟨rfl, rfl⟩

theorem height_getCharBitmap_lt (fonts : Fonts) (charcode : UInt16) :
    ((getCharBitmap fonts charcode).height : ℤ) < 2 ^ 8 := by
  obtain ⟨info, -, hheight⟩ := getCharBitmap_size fonts charcode
  have hlt := info.height.toNat_lt
  rw [hheight, UInt8.toNat_toUInt16]
  omega

/-- The loops store the bits of the glyph. -/
theorem mem_glyphPuts_iff {b : DispBitmap} {ink : Ink} {p : Put} : p ∈ glyphPuts lcd b x y ink ↔
    p.InScreen lcd ∧ p.ink = ink ∧ b.glyph.Has (p.col - x) (p.row - y) := by
  unfold glyphPuts Put.InScreen Glyph.Has DispBitmap.glyph
  simp only [List.mem_flatMap, Int.mem_range_iff]
  constructor
  · rintro ⟨i, hi, j, hj, hp⟩
    split_ifs at hp with hbit
    · obtain rfl := List.mem_singleton.1 hp
      exact ⟨by dsimp only; omega, rfl, by dsimp only; omega, by dsimp only; omega, hbit⟩
    · cases hp
  · rintro ⟨hscreen, rfl, hcol, hrow, hbit⟩
    refine ⟨p.col, by omega, p.row, by omega, ?_⟩
    rw [if_pos hbit]
    exact List.mem_singleton.2 rfl

/-- The glyph of 14 by 14 pixels, one pixel further on. -/
theorem has_framed (g : Glyph) (bx by' : ℤ) : g.framed.Has (bx + 1) (by' + 1) ↔ g.Has bx by' := by
  unfold Glyph.framed Glyph.Has
  dsimp only
  rw [Bool.and_eq_true, decide_eq_true_iff, add_sub_cancel_right, add_sub_cancel_right]
  constructor
  · rintro ⟨-, -, hin, hbit⟩
    exact ⟨by omega, by omega, hbit⟩
  · rintro ⟨hcol, hrow, hbit⟩
    exact ⟨by omega, by omega, by omega, hbit⟩

/-- It is stored there. -/
theorem mem_framed_iff {b : DispBitmap} {ink : Ink} {p : Put} (hx : (x : ℤ) < lcd.width ∨ (x : ℤ) = 0)
    (hy : (y : ℤ) < lcd.height ∨ (y : ℤ) = 0) : p ∈ glyphPuts lcd b (x + 1) (y + 1) ink ↔
      p.InScreen lcd ∧ p.ink = ink ∧ b.glyph.framed.Has (p.col - x) (p.row - y) := by
  have hwidth := lcd.width.toNat_lt
  have hheight := lcd.height.toNat_lt
  have hone : ((1 : UInt16) : ℤ) = 1 := rfl
  have hplace : ((x + 1 : UInt16) : ℤ) = x + 1 ∧ ((y + 1 : UInt16) : ℤ) = y + 1 := by
    rw [coe_add, coe_add, hone, u16_of_range (by omega) (by omega), u16_of_range (by omega) (by omega)]
    exact ⟨rfl, rfl⟩
  have hshift : ∀ a b : ℤ, a - b = a - (b + 1) + 1 := by
    intro a b
    ring
  rw [mem_glyphPuts_iff, hplace.1, hplace.2, hshift p.col x, hshift p.row y, has_framed]

/-- The test for such a glyph. -/
theorem screenGlyph_eq (lcd : Lcd) (fonts : Fonts) (charcode : UInt16) : screenGlyph lcd fonts charcode =
    if lcd.bpp = 1 ∧ (getCharBitmap fonts charcode).width = 14 ∧ (getCharBitmap fonts charcode).height = 14
      then (getCharBitmap fonts charcode).glyph.framed else (getCharBitmap fonts charcode).glyph := by
  have h14 : ∀ a : UInt16, (a : ℤ) = 14 ↔ a = 14 := by
    intro a
    rw [← UInt16.toNat_inj]
    exact Int.ofNat_inj
  simp only [screenGlyph, DispBitmap.glyph, h14]

/-- **A pass draws its item at the caret.** -/
theorem pass_draws (hsim : c.Sim lcd t) (item : TextItem) :
    c.Draws lcd fonts item (t.pass lcd fonts item).2 := by
  obtain ⟨hx, hy⟩ := hsim.place
  cases item with
  | lineBreak => rfl
  | char charcode =>
    intro p
    have hbits : (getCharBitmap fonts charcode).bpp = 1 := getCharBitmap_bpp
    rw [screenGlyph_eq, hx, hy, TextCursor.pass]
    by_cases h1 : lcd.bpp = 1
    · have hink : textInk lcd = .bit (lcd.fills lcd.dispColor) := if_pos h1
      have hdraw : ∀ x y, dispBitmapBpp1 lcd (getCharBitmap fonts charcode) x y =
          glyphPuts lcd (getCharBitmap fonts charcode) x y (textInk lcd) := by
        intro x y
        rw [dispBitmapBpp1, if_neg (not_not.2 hbits), hink]
      by_cases hframe : (getCharBitmap fonts charcode).width = 14 ∧
          (getCharBitmap fonts charcode).height = 14
      · have hcolumn := hsim.column
        have hrow := hsim.row
        rw [hx] at hcolumn
        rw [hy] at hrow
        rw [if_pos h1, if_pos hframe, if_pos ⟨h1, hframe⟩]
        dsimp only
        rw [hdraw]
        exact mem_framed_iff hcolumn hrow
      · rw [if_pos h1, if_neg hframe, if_neg fun h => hframe h.2]
        dsimp only
        rw [hdraw]
        exact mem_glyphPuts_iff
    · have hink : textInk lcd = .pixel (lcd.busPixel lcd.dispColor) := if_neg h1
      rw [if_neg h1, if_neg fun h => h1 h.1, hink]
      exact mem_glyphPuts_iff

/-- The bitmap that the tail of a pass uses is as large as the glyph. -/
theorem pass_char (t : TextCursor) (charcode : UInt16) :
    ∃ bitmap : DispBitmap,
      (t.pass lcd fonts (.char charcode)).1 = TextCursor.advance lcd { t with bitmap } ∧
      (screenGlyph lcd fonts charcode).width = bitmap.width ∧
        (screenGlyph lcd fonts charcode).height = bitmap.height ∧
          (screenGlyph lcd fonts charcode).height < 2 ^ 8 := by
  have hlt := height_getCharBitmap_lt fonts charcode
  rw [screenGlyph_eq, TextCursor.pass]
  by_cases h1 : lcd.bpp = 1
  · by_cases hframe : (getCharBitmap fonts charcode).width = 14 ∧
        (getCharBitmap fonts charcode).height = 14
    · rw [if_pos h1, if_pos hframe, if_pos ⟨h1, hframe⟩]
      refine ⟨_, rfl, ?_⟩
      dsimp only [Glyph.framed, DispBitmap.glyph]
      rw [hframe.1, hframe.2]
      exact ⟨rfl, rfl, by decide⟩
    · rw [if_pos h1, if_neg hframe, if_neg fun h => hframe h.2]
      exact ⟨_, rfl, rfl, rfl, hlt⟩
  · rw [if_neg h1, if_neg fun h => h1 h.1]
    exact ⟨_, rfl, rfl, rfl, hlt⟩

/-! ### One pass, and all of them -/

/-- **One pass**: the cursor goes with the caret if the item fits. -/
theorem step_at_iff (hsim : c.Sim lcd t) :
    (∃ c', c.step lcd fonts item = some c' ∧ c'.At (t.pass lcd fonts item).1) ↔
      ItemFits lcd fonts c item := by
  cases item with
  | lineBreak =>
    constructor
    · rintro ⟨c', hstep, hat⟩
      obtain ⟨g, hg, rfl⟩ := Option.map_eq_some_iff.1 hstep
      exact ⟨g, hg, (Caret.newLine_at_iff hsim.place hsim.row (hsim.size g hg)).1 hat⟩
    · rintro ⟨g, hg, hfits⟩
      refine ⟨c.newLine lcd g, Option.map_eq_some_iff.2 ⟨g, hg, rfl⟩, ?_⟩
      exact (Caret.newLine_at_iff hsim.place hsim.row (hsim.size g hg)).2 hfits
  | char charcode =>
    obtain ⟨bitmap, hpass, hsize⟩ := @pass_char lcd fonts t charcode
    have hiff := @Caret.after_at_iff lcd c { t with bitmap } (screenGlyph lcd fonts charcode) hsim.place
      hsim.row hsize
    rw [hpass]
    constructor
    · rintro ⟨c', hstep, hat⟩
      obtain rfl := Option.some.inj hstep
      exact hiff.1 hat
    · intro hfits
      exact ⟨_, rfl, hiff.2 hfits⟩

/-- The caret stays on the screen. -/
theorem Caret.step_inScreen (hstep : c.step lcd fonts item = some c')
    (hrow : c.y < lcd.height ∨ c.y = 0) :
    (c'.x < lcd.width ∨ c'.x = 0) ∧ (c'.y < lcd.height ∨ c'.y = 0) := by
  have hline : ∀ g : Glyph, (c.newLine lcd g).y < lcd.height ∨ (c.newLine lcd g).y = 0 := by
    intro g
    dsimp only [newLine]
    split_ifs with hend
    · exact .inr rfl
    · exact .inl (not_le.1 hend)
  cases item with
  | lineBreak =>
    obtain ⟨g, -, rfl⟩ := Option.map_eq_some_iff.1 hstep
    exact ⟨.inr rfl, hline g⟩
  | char charcode =>
    obtain rfl := Option.some.inj hstep
    rw [after]
    split_ifs with hedge
    · exact ⟨.inr rfl, hline _⟩
    · exact ⟨.inl (not_le.1 hedge), hrow⟩

/-- What holds at the caret holds at the next one. -/
theorem Caret.Sim.step (hsim : c.Sim lcd t) (hstep : c.step lcd fonts item = some c')
    (hat : c'.At (t.pass lcd fonts item).1) : c'.Sim lcd (t.pass lcd fonts item).1 := by
  obtain ⟨hcolumn, hrow⟩ := Caret.step_inScreen hstep hsim.row
  refine ⟨hat, ?_, hcolumn, hrow⟩
  intro g hlast
  cases item with
  | lineBreak =>
    obtain ⟨g', hg', rfl⟩ := Option.map_eq_some_iff.1 hstep
    obtain rfl := Option.some.inj hlast
    rw [TextCursor.pass, TextCursor.advance_bitmap]
    exact hsim.size g' hg'
  | char charcode =>
    obtain ⟨bitmap, hpass, hsize⟩ := @pass_char lcd fonts t charcode
    obtain rfl := Option.some.inj hstep
    have hglyph : (c.after lcd (screenGlyph lcd fonts charcode)).last =
        some (screenGlyph lcd fonts charcode) := by
      unfold Caret.after
      split_ifs <;> rfl
    obtain rfl := Option.some.inj (hglyph.symm.trans hlast)
    rw [hpass, TextCursor.advance_bitmap]
    exact hsize

theorem Follows.at (h : Follows lcd fonts c t items puts) : c.At t := by
  cases items with
  | nil => exact h.1
  | cons item items => exact h.1

/-- **All passes**: the text is laid out if every item fits, -/
theorem follows_run (hsim : c.Sim lcd t) (hfit : ItemsFit lcd fonts c items) :
    Follows lcd fonts c t items (t.run lcd fonts items) := by
  induction items generalizing c t with
  | nil => exact ⟨hsim.place, rfl⟩
  | cons item items ih =>
    obtain ⟨c', hstep, hat⟩ := (step_at_iff hsim).2 hfit.1
    exact ⟨hsim.place, _, _, c', rfl, pass_draws hsim item, hstep,
      ih (hsim.step hstep hat) (hfit.2 c' hstep)⟩

/-- and only then. -/
theorem fit_of_follows (hsim : c.Sim lcd t) (h : Follows lcd fonts c t items puts) :
    ItemsFit lcd fonts c items := by
  induction items generalizing c t puts with
  | nil => trivial
  | cons item items ih =>
    obtain ⟨-, drawn, rest, c', -, -, hstep, hrest⟩ := h
    refine ⟨(step_at_iff hsim).1 ⟨c', hstep, hrest.at⟩, ?_⟩
    intro c'' hstep'
    obtain rfl := Option.some.inj (hstep.symm.trans hstep')
    exact ih (hsim.step hstep hrest.at) hrest

/-- The first cursor is at the first caret. -/
theorem start_sim (lcd : Lcd) (bitmap : DispBitmap) (x y : UInt16) :
    (Caret.start lcd x y).Sim lcd (.start lcd bitmap x y) := by
  -- a coordinate that is not on the screen becomes 0
  have hclip : ∀ limit a : UInt16,
      (if limit ≤ a then (0 : ℤ) else a) = ((if a ≥ limit then 0 else a : UInt16) : ℤ) ∧
      ((if limit ≤ a then (0 : ℤ) else a) < limit ∨ (if limit ≤ a then (0 : ℤ) else a) = 0) := by
    intro limit a
    by_cases h : limit ≤ a
    · rw [if_pos h, if_pos h]
      exact ⟨rfl, .inr rfl⟩
    · rw [if_neg h, if_neg h]
      exact ⟨rfl, .inl (Int.ofNat_lt.2 (UInt16.lt_iff_toNat_lt.1 (UInt16.not_le.1 h)))⟩
  refine ⟨⟨(hclip _ x).1, (hclip _ y).1⟩, ?_, (hclip _ x).2, (hclip _ y).2⟩
  intro g hlast
  cases hlast

/-- **A text is laid out** if each of its items fits, and only then. -/
theorem puttext_iff (lcd : Lcd) (fonts : Fonts) (string : Bytes) (x y : UInt16) :
    LaidOut lcd fonts string x y ↔ ItemsFit lcd fonts (.start lcd x y) (textItems string) := by
  constructor
  · intro h
    exact fit_of_follows (start_sim lcd _ x y) (h ⟨0, 0, 1, fonts.blankChar, 0⟩)
  · intro hfit bitmap
    exact follows_run (start_sim lcd bitmap x y) hfit

end

/-- "A", a line break and "B" on a screen of 128 by 64 pixels: "B" is beside "A", and not below it. -/
theorem not_puttext_laidOut :
    ¬ ∀ (lcd : Lcd) (fonts : Fonts) (string : Bytes) (x y : UInt16), LaidOut lcd fonts string x y := by
  intro h
  obtain ⟨-, _, _, c₁, -, -, hA, -, _, _, c₂, -, -, hbreak, hrest⟩ :=
    h { width := 128, height := 64, bpp := 16, bus := .PLATFORM_LCD_BUS_SPI }
      (fontInit (fun _ => 0) .null ⟨0, fun _ => 0⟩) [0x41, 0x0A, 0x42] 0 0 ⟨0, 0, 1, ⟨0, fun _ => 0⟩, 0⟩
  obtain rfl := Option.some.inj hA
  obtain rfl := Option.some.inj hbreak
  exact absurd hrest.at.1 (by decide)

end OsdCore
