import OsdCore.Disp.Blit
import OsdCore.Disp.Shapes

/-!
# What `platform_disp_drawrect` draws

* `Rect`, `Rect.Covers` : a rectangle, and the pixels of it that a colour asks for: all of them, or the
  border.
* `DrawrectCorrect` : these pixels of the screen have the colour, in the byte order of the bus, the
  others are unchanged, and everything is stored in the framebuffer.
* `DrawrectArguments` : the arguments for which it is so.
* `drawrect_bpp16_iff`, `drawrect_bpp1_iff` : the loops for the two kinds of screen.
* `drawrect_iff` : both of them.
-/

namespace OsdCore

/-! ### Rectangles -/

/-- A rectangle with two rows and two columns at least; its last row and column are part of it. -/
structure Rect where
  x1 : ℤ
  y1 : ℤ
  x2 : ℤ
  y2 : ℤ
  columns : x1 < x2
  rows : y1 < y2

namespace Rect

/-- A pixel of the rectangle. -/
def Has (r : Rect) (row col : ℤ) : Prop :=
  (r.x1 ≤ col ∧ col ≤ r.x2) ∧ r.y1 ≤ row ∧ row ≤ r.y2

/-- A pixel of its border. -/
def Border (r : Rect) (row col : ℤ) : Prop :=
  r.Has row col ∧ ((row = r.y1 ∨ row = r.y2) ∨ col = r.x1 ∨ col = r.x2)

/-- The pixels that are drawn on a 16-bpp screen: a colour of -1 asks for the outline. -/
def Covers (r : Rect) (color : Colour) (row col : ℤ) : Prop :=
  r.Has row col ∧ (color = -1 → r.Border row col)

end Rect

/-! ### What it is to draw one -/

/-- The call. -/
def drawrect (lcd : Lcd) (r : Rect) (color : Colour) : DispResult × List Put :=
  platformDispDrawrect lcd r.x1 r.y1 r.x2 r.y2 color

/-- The pixel of a colour, as the bus takes it; an outline has the colour that has been set. -/
def rectPixel (lcd : Lcd) (color : Colour) : BitVec 16 :=
  lcd.busPixel (if color = -1 then lcd.dispColor else color)

/-- The rectangle is shown, as far as it is on the screen; the other pixels are unchanged. -/
structure RectShown (lcd : Lcd) (r : Rect) (color : Colour) (framebuffer after : Ptr) : Prop where
  pixel : lcd.bpp = 16 → ∀ row col : ℤ, (0 ≤ col ∧ col < lcd.width) → (0 ≤ row ∧ row < lcd.height) →
    (r.Covers color row col → pixelAt lcd.width after row col = rectPixel lcd color) ∧
      (¬ r.Covers color row col →
        pixelAt lcd.width after row col = pixelAt lcd.width framebuffer row col)
  bit : lcd.bpp = 1 → ∀ row col : ℤ, (0 ≤ col ∧ col < lcd.width) → (0 ≤ row ∧ row < lcd.height) →
    (r.Has row col → bitAtPos lcd.width after row col = lcd.fills color) ∧
      (¬ r.Has row col → bitAtPos lcd.width after row col = bitAtPos lcd.width framebuffer row col)

/-- The call is correct: if it succeeds, the rectangle is shown, and everything is stored in the
framebuffer. -/
def DrawrectCorrect (lcd : Lcd) (r : Rect) (color : Colour) : Prop :=
  (drawrect lcd r color).1 = .PLATFORM_OK → InFramebuffer lcd (drawrect lcd r color).2 ∧
    ∀ framebuffer, RectShown lcd r color framebuffer (Put.drawn lcd (drawrect lcd r color).2 framebuffer)

/-! ### For which arguments it is -/

namespace Rect

/-- The rectangle is accepted: it is more than the last column or row of the screen, or what is behind
it. -/
def Accepted (r : Rect) (lcd : Lcd) : Prop := r.x1 < (lcd.width : ℤ) - 1 ∧ r.y1 < (lcd.height : ℤ) - 1

/-- No pixel of it is on the screen. -/
def Off (r : Rect) (lcd : Lcd) : Prop :=
  r.x2 < 0 ∨ r.y2 < 0 ∨ (lcd.width : ℤ) = 0 ∨ (lcd.height : ℤ) = 0

/-- The outline of what is left of the rectangle has no pixel of its interior. -/
def OutlineFits (r : Rect) (lcd : Lcd) : Prop :=
  (r.x2 < lcd.width ∧ r.y2 < lcd.height) ∨ (r.y2 < lcd.height ∧ r.y2 = r.y1 + 1) ∨
    (r.x2 < lcd.width ∧ r.x2 = r.x1 + 1)

end Rect

/-- The rectangle is refused; or nothing of it is on a 1-bpp screen; or, on a 16-bpp screen, it does not
begin before the screen, an outline is not cut off, and the bytes of a colour to fill it with need not
change places. -/
def DrawrectArguments (lcd : Lcd) (r : Rect) (color : Colour) : Prop :=
  r.Accepted lcd → (lcd.bpp = 1 → r.Off lcd) ∧ (lcd.bpp = 16 → (0 ≤ r.x1 ∧ 0 ≤ r.y1) ∧
    (color = -1 → r.OutlineFits lcd) ∧ (color ≠ -1 → lcd.busPixel color = color.setWidth 16))

/-! ### What the loops store -/

section

variable {lcd : Lcd} {r : Rect} {color : Colour} {p : Put} {ink : Ink} {row col : ℤ}

/-- The part that is left on the right and at the bottom. -/
def Rect.clip (r : Rect) (lcd : Lcd) (h : r.Accepted lcd) : Rect where
  x1 := r.x1
  y1 := r.y1
  x2 := min r.x2 (lcd.width - 1)
  y2 := min r.y2 (lcd.height - 1)
  columns := lt_min r.columns h.1
  rows := lt_min r.rows h.2

theorem Rect.covers_outline (hcolor : color = -1) : r.Covers color row col ↔ r.Border row col :=
  ⟨fun h => h.2 hcolor, fun h => ⟨h.1, fun _ => h⟩⟩

theorem Rect.covers_fill (hcolor : color ≠ -1) : r.Covers color row col ↔ r.Has row col :=
  ⟨fun h => h.1, fun h => ⟨h, fun h' => absurd h' hcolor⟩⟩

theorem mem_rectFill_iff :
    p ∈ rectFill r.x1 r.y1 r.x2 r.y2 ink ↔ p.ink = ink ∧ r.Has p.row p.col := by
  unfold rectFill Rect.Has
  simp only [List.mem_flatMap, List.mem_map, Int.mem_range_iff]
  constructor
  · rintro ⟨j, hj, i, hi, rfl⟩
    exact ⟨rfl, by dsimp only; omega, by dsimp only; omega⟩
  · rintro ⟨rfl, hcol, hrow⟩
    exact ⟨p.row, by omega, p.col, by omega, rfl⟩

theorem mem_rectOutline_iff :
    p ∈ rectOutline r.x1 r.y1 r.x2 r.y2 ink ↔ p.ink = ink ∧ r.Border p.row p.col := by
  have hcolumns := r.columns
  have hrows := r.rows
  unfold rectOutline Rect.Border Rect.Has
  simp only [List.mem_append, List.mem_flatMap, List.mem_cons, List.not_mem_nil, or_false,
    Int.mem_range_iff]
  constructor
  · rintro (⟨i, hi, rfl | rfl⟩ | ⟨j, hj, rfl | rfl⟩)
    all_goals
      dsimp only
      exact ⟨rfl, by omega⟩
  · rintro ⟨rfl, ⟨hcol, hrow⟩, (h | h) | h | h⟩
    · exact .inl ⟨p.col, by omega, .inl (by rw [← h])⟩
    · exact .inl ⟨p.col, by omega, .inr (by rw [← h])⟩
    · exact .inr ⟨p.row, by omega, .inl (by rw [← h])⟩
    · exact .inr ⟨p.row, by omega, .inr (by rw [← h])⟩

theorem drawrect_refused (h : ¬ r.Accepted lcd) : (drawrect lcd r color).1 ≠ .PLATFORM_OK := by
  have hcolumns := r.columns
  have hrows := r.rows
  unfold Rect.Accepted at h
  rw [drawrect, platformDispDrawrect, if_pos (by omega)]
  exact DispResult.noConfusion

theorem drawrect_other (h16 : lcd.bpp ≠ 16) (h1 : lcd.bpp ≠ 1) :
    (drawrect lcd r color).1 ≠ .PLATFORM_OK := by
  rw [drawrect, platformDispDrawrect]
  split_ifs <;> exact DispResult.noConfusion

/-- What is stored for a colour on a 16-bpp screen. -/
def storedPixel (lcd : Lcd) (color : Colour) : BitVec 16 :=
  if color = -1 then lcd.busPixel lcd.dispColor else color.setWidth 16

/-- **On a 16-bpp screen** the rectangle that is left is stored. -/
theorem drawrect_bpp16 (h : r.Accepted lcd) (h16 : lcd.bpp = 16) : (drawrect lcd r color).1 = .PLATFORM_OK ∧
    ∀ p, p ∈ (drawrect lcd r color).2 ↔
      p.ink = .pixel (storedPixel lcd color) ∧ (r.clip lcd h).Covers color p.row p.col := by
  have hcolumns := (r.clip lcd h).columns
  have hrows := (r.clip lcd h).rows
  have hx : min r.x1 ((lcd.width : ℤ) - 1) = (r.clip lcd h).x1 := min_eq_left h.1.le
  have hy : min r.y1 ((lcd.height : ℤ) - 1) = (r.clip lcd h).y1 := min_eq_left h.2.le
  unfold drawrect platformDispDrawrect
  dsimp only
  rw [hx, hy, if_neg (by dsimp only [Rect.clip] at hcolumns hrows ⊢; omega), if_pos h16]
  by_cases hcolor : color = -1
  · rw [if_pos hcolor.symm, storedPixel, if_pos hcolor]
    refine ⟨rfl, fun p => ?_⟩
    rw [Rect.covers_outline hcolor]
    exact mem_rectOutline_iff
  · rw [if_neg (Ne.symm hcolor), storedPixel, if_neg hcolor]
    refine ⟨rfl, fun p => ?_⟩
    rw [Rect.covers_fill hcolor]
    exact mem_rectFill_iff

/-- **On a 1-bpp screen** the last row and the last column are not stored. -/
theorem drawrect_bpp1 (h : r.Accepted lcd) (h1 : lcd.bpp = 1) : (drawrect lcd r color).1 = .PLATFORM_OK ∧
    ∀ p ∈ (drawrect lcd r color).2, (p.InScreen lcd ∧ p.ink = .bit (lcd.fills color)) ∧
      p.col < (r.clip lcd h).x2 ∧ p.row < (r.clip lcd h).y2 := by
  have hcolumns := (r.clip lcd h).columns
  have hrows := (r.clip lcd h).rows
  have hput := fun p => @platformDispDrawrect_bpp1 lcd r.x1 r.y1 r.x2 r.y2 color p h1
  have hx : min r.x1 ((lcd.width : ℤ) - 1) = (r.clip lcd h).x1 := min_eq_left h.1.le
  have hy : min r.y1 ((lcd.height : ℤ) - 1) = (r.clip lcd h).y1 := min_eq_left h.2.le
  have h16 := Lcd.bpp_ne_sixteen h1
  unfold drawrect
  unfold platformDispDrawrect at hput ⊢
  dsimp only at hput ⊢
  rw [hx, hy, if_neg (by dsimp only [Rect.clip] at hcolumns hrows ⊢; omega), if_neg h16, if_pos h1]
    at hput ⊢
  by_cases hcolor : color = COLOR_BLACK ∨ color = COLOR_WHITE
  · rw [if_pos hcolor] at hput ⊢
    refine ⟨rfl, fun p hp => ⟨hput p hp, ?_⟩⟩
    obtain ⟨x, hx, hcol⟩ := List.mem_flatMap.1 hp
    obtain ⟨y, hy, rfl⟩ := List.mem_map.1 hcol
    exact ⟨(Int.mem_range_iff.1 hx).2, (Int.mem_range_iff.1 hy).2⟩
  · rw [if_neg hcolor]
    refine ⟨rfl, fun p hp => ?_⟩
    cases hp

/-! ### What the screen shows -/

/-- **A pixel that is stored** is one of the rectangle, and has its colour, where the rectangle is
shown. -/
theorem covers_of_stored {puts : List Put} {value : BitVec 16} (h16 : lcd.bpp = 16)
    (hink : ∀ p ∈ puts, p.ink = .pixel value)
    (hshown : ∀ framebuffer, RectShown lcd r color framebuffer (Put.drawn lcd puts framebuffer))
    (hcol : 0 ≤ col ∧ col < lcd.width) (hrow : 0 ≤ row ∧ row < lcd.height)
    (hex : ∃ p ∈ puts, row * (lcd.width : ℤ) + col = p.row * lcd.width + p.col) :
    r.Covers color row col ∧ value = rectPixel lcd color := by
  obtain ⟨framebuffer, hne⟩ := exists_pixelAt_ne lcd.width value
  have hstored : pixelAt lcd.width (Put.drawn lcd puts framebuffer) row col = value :=
    pixelAt_foldl_same hink (.inl hex)
  obtain ⟨hin, hout⟩ := (hshown framebuffer).pixel h16 row col hcol hrow
  have hcovers : r.Covers color row col := by
    by_contra hno
    exact hne row col ((hout hno).symm.trans hstored)
  exact ⟨hcovers, hstored.symm.trans (hin hcovers)⟩

/-- The corner of the rectangle is stored. -/
theorem Rect.covers_corner (r : Rect) (color : Colour) : r.Covers color r.y1 r.x1 := by
  have hcolumns := r.columns
  have hrows := r.rows
  have hhas : r.Has r.y1 r.x1 := ⟨⟨le_refl _, by omega⟩, le_refl _, by omega⟩
  exact ⟨hhas, fun _ => ⟨hhas, .inl (.inl rfl)⟩⟩

/-- A place before a row is in a row before it. -/
theorem exists_place {width index row : ℤ} (hindex : 0 ≤ index) (hwidth : 0 < width)
    (hlt : index < row * width) :
    ∃ row' col', (0 ≤ row' ∧ row' < row) ∧ (0 ≤ col' ∧ col' < width) ∧ row' * width + col' = index := by
  refine ⟨index / width, index % width,
    ⟨Int.ediv_nonneg hindex hwidth.le, Int.ediv_lt_of_lt_mul hwidth hlt⟩,
    ⟨Int.emod_nonneg _ hwidth.ne', Int.emod_lt_of_pos _ hwidth⟩, ?_⟩
  rw [Int.mul_comm]
  exact Int.mul_ediv_add_emod index width

/-- **A rectangle that begins before the screen** is stored in the rows before its own, or before the
framebuffer. -/
theorem nonneg_of_correct (h : r.Accepted lcd) (h16 : lcd.bpp = 16)
    (hin : InFramebuffer lcd (drawrect lcd r color).2)
    (hshown : ∀ framebuffer, RectShown lcd r color framebuffer
      (Put.drawn lcd (drawrect lcd r color).2 framebuffer)) : 0 ≤ r.x1 ∧ 0 ≤ r.y1 := by
  obtain ⟨-, hputs⟩ := @drawrect_bpp16 lcd r color h h16
  have hcorner : ⟨r.y1, r.x1, .pixel (storedPixel lcd color)⟩ ∈ (drawrect lcd r color).2 :=
    (hputs _).2 ⟨rfl, (r.clip lcd h).covers_corner color⟩
  have hindex : 0 ≤ r.y1 * lcd.width + r.x1 := by
    have hfirst := (hin _ hcorner (2 * (r.y1 * lcd.width + r.x1)) List.mem_cons_self).1
    omega
  obtain ⟨hx, hy⟩ := h
  have hx₀ : 0 ≤ r.x1 := by
    by_contra hneg
    have hwidth : 0 < (lcd.width : ℤ) := by
      by_contra hzero
      have hw : (lcd.width : ℤ) = 0 := by omega
      rw [hw] at hindex
      omega
    have hlt : r.y1 * lcd.width + r.x1 < r.y1 * lcd.width := by omega
    obtain ⟨row, col, hrow, hcol, hplace⟩ := exists_place hindex hwidth hlt
    have hcovers := (covers_of_stored h16 (fun p hp => ((hputs p).1 hp).1) hshown hcol
      ⟨hrow.1, by omega⟩ ⟨_, hcorner, hplace⟩).1
    have hbelow := hcovers.1.2.1
    omega
  refine ⟨hx₀, ?_⟩
  by_contra hneg
  have hrow : r.y1 * (lcd.width : ℤ) ≤ -1 * lcd.width :=
    Int.mul_le_mul_of_nonneg_right (by omega) (by omega)
  omega

/-- An outline that is cut off has a pixel inside the rectangle. -/
theorem exists_inner (h : r.Accepted lcd) (hstart : 0 ≤ r.x1 ∧ 0 ≤ r.y1) (hcut : ¬ r.OutlineFits lcd) :
    ∃ row col, (r.clip lcd h).Border row col ∧ ¬ r.Border row col ∧
      (0 ≤ col ∧ col < lcd.width) ∧ 0 ≤ row ∧ row < lcd.height := by
  have hcolumns := r.columns
  have hrows := r.rows
  obtain ⟨hx, hy⟩ := h
  unfold Rect.OutlineFits at hcut
  unfold Rect.Border Rect.Has Rect.clip
  dsimp only
  by_cases hx2 : r.x2 < lcd.width
  · -- the last column is there, and the last row of the screen takes the place of the last row
    exact ⟨lcd.height - 1, r.x1 + 1, by omega, by omega, by omega, by omega⟩
  · by_cases hy2 : r.y2 < lcd.height
    · exact ⟨r.y1 + 1, lcd.width - 1, by omega, by omega, by omega, by omega⟩
    · exact ⟨lcd.height - 1, lcd.width - 1, by omega, by omega, by omega, by omega⟩

/-- The part that is left covers what is on the screen. -/
theorem clip_covers_iff (h : r.Accepted lcd) (hfits : color = -1 → r.OutlineFits lcd)
    (hcol : 0 ≤ col ∧ col < lcd.width) (hrow : 0 ≤ row ∧ row < lcd.height) :
    (r.clip lcd h).Covers color row col ↔ r.Covers color row col := by
  have hhas : (r.clip lcd h).Has row col ↔ r.Has row col := by
    unfold Rect.Has Rect.clip
    dsimp only
    omega
  by_cases hcolor : color = -1
  · have hcolumns := r.columns
    have hrows := r.rows
    have hfits := hfits hcolor
    obtain ⟨hx, hy⟩ := h
    rw [Rect.covers_outline hcolor, Rect.covers_outline hcolor]
    unfold Rect.OutlineFits at hfits
    unfold Rect.Border Rect.Has Rect.clip
    dsimp only
    omega
  · rw [Rect.covers_fill hcolor, Rect.covers_fill hcolor, hhas]

/-- What is left of a rectangle that does not begin before the screen is on the screen. -/
theorem clip_inScreen (h : r.Accepted lcd) (hstart : 0 ≤ r.x1 ∧ 0 ≤ r.y1)
    (hp : (r.clip lcd h).Covers color p.row p.col) : p.InScreen lcd := by
  obtain ⟨⟨hcol, hrow⟩, -⟩ := hp
  unfold Rect.clip at hcol hrow
  unfold Put.InScreen
  dsimp only at hcol hrow
  omega

/-- An outline that is shown is not cut off. -/
theorem outlineFits_of_correct (h : r.Accepted lcd) (h16 : lcd.bpp = 16) (hcolor : color = -1)
    (hstart : 0 ≤ r.x1 ∧ 0 ≤ r.y1)
    (hshown : ∀ framebuffer, RectShown lcd r color framebuffer
      (Put.drawn lcd (drawrect lcd r color).2 framebuffer)) : r.OutlineFits lcd := by
  obtain ⟨-, hputs⟩ := @drawrect_bpp16 lcd r color h h16
  by_contra hcut
  obtain ⟨row, col, hborder, hinner, hcol, hrow⟩ := exists_inner h hstart hcut
  have hput := (hputs ⟨row, col, _⟩).2 ⟨rfl, (Rect.covers_outline hcolor).2 hborder⟩
  have hcovers := (covers_of_stored h16 (fun p hp => ((hputs p).1 hp).1) hshown hcol hrow
    ⟨_, hput, rfl⟩).1
  exact hinner (hcovers.2 hcolor)

/-- A rectangle that is shown has the bytes of its colour in the order of the bus. -/
theorem storedPixel_of_correct (h : r.Accepted lcd) (h16 : lcd.bpp = 16) (hstart : 0 ≤ r.x1 ∧ 0 ≤ r.y1)
    (hshown : ∀ framebuffer, RectShown lcd r color framebuffer
      (Put.drawn lcd (drawrect lcd r color).2 framebuffer)) : storedPixel lcd color = rectPixel lcd color := by
  obtain ⟨-, hputs⟩ := @drawrect_bpp16 lcd r color h h16
  have hput := (hputs ⟨r.y1, r.x1, _⟩).2 ⟨rfl, (r.clip lcd h).covers_corner color⟩
  have hcol : r.x1 < lcd.width := h.1.trans (sub_one_lt _)
  have hrow : r.y1 < lcd.height := h.2.trans (sub_one_lt _)
  exact (covers_of_stored h16 (fun p hp => ((hputs p).1 hp).1) hshown ⟨hstart.1, hcol⟩ ⟨hstart.2, hrow⟩
    ⟨_, hput, rfl⟩).2

/-- The bytes of an outline are in this order; those of a fill are if they need not change places. -/
theorem storedPixel_eq_iff :
    storedPixel lcd color = rectPixel lcd color ↔ (color ≠ -1 → lcd.busPixel color = color.setWidth 16) := by
  unfold storedPixel rectPixel
  by_cases hcolor : color = -1
  · rw [if_pos hcolor, if_pos hcolor]
    exact ⟨fun _ hno => absurd hcolor hno, fun _ => rfl⟩
  · rw [if_neg hcolor, if_neg hcolor]
    exact ⟨fun heq _ => heq.symm, fun heq => (heq hcolor).symm⟩

/-- **The rectangle is shown**, where nothing of this goes wrong. -/
theorem correct_of_bpp16 (h : r.Accepted lcd) (h16 : lcd.bpp = 16) (hstart : 0 ≤ r.x1 ∧ 0 ≤ r.y1)
    (hfits : color = -1 → r.OutlineFits lcd) (hvalue : storedPixel lcd color = rectPixel lcd color) :
    DrawrectCorrect lcd r color := by
  intro _
  obtain ⟨-, hputs⟩ := @drawrect_bpp16 lcd r color h h16
  have hscreen : ∀ p ∈ (drawrect lcd r color).2, p.InScreen lcd ∧ ∃ value, p.ink = .pixel value :=
    fun p hp => ⟨clip_inScreen h hstart ((hputs p).1 hp).2, _, ((hputs p).1 hp).1⟩
  have h1 := Lcd.bpp_ne_one h16
  refine ⟨inFramebuffer_of_pixels h16 hscreen, fun framebuffer => ⟨fun _ => ?_, fun hno => absurd hno h1⟩⟩
  intro row col hcol hrow
  have hclip := @clip_covers_iff lcd r color row col h hfits hcol hrow
  rw [Put.drawn, pixelAt_foldl hscreen hcol]
  constructor
  · intro hcovers
    refine Put.paint_of_mem ⟨⟨row, col, _⟩, (hputs _).2 ⟨rfl, hclip.2 hcovers⟩, rfl, rfl⟩ ?_
    intro p hp _
    rw [((hputs p).1 hp).1]
    exact congrArg some hvalue
  · intro hno
    refine Put.paint_of_forall_ne ?_
    rintro p hp ⟨rfl, rfl⟩
    exact hno (hclip.1 ((hputs p).1 hp).2)

/-- **A 16-bpp screen.** -/
theorem drawrect_bpp16_iff (h : r.Accepted lcd) (h16 : lcd.bpp = 16) : DrawrectCorrect lcd r color ↔
    (0 ≤ r.x1 ∧ 0 ≤ r.y1) ∧ (color = -1 → r.OutlineFits lcd) ∧
      (color ≠ -1 → lcd.busPixel color = color.setWidth 16) := by
  rw [← storedPixel_eq_iff]
  constructor
  · intro hcorrect
    obtain ⟨hin, hshown⟩ := hcorrect (drawrect_bpp16 h h16).1
    have hstart := nonneg_of_correct h h16 hin hshown
    exact ⟨hstart, fun hcolor => outlineFits_of_correct h h16 hcolor hstart hshown,
      storedPixel_of_correct h h16 hstart hshown⟩
  · rintro ⟨hstart, hfits, hvalue⟩
    exact correct_of_bpp16 h h16 hstart hfits hvalue

/-- The last pixel that is left of a rectangle is on the screen, if some pixel is. -/
theorem clip_corner_inScreen (h : r.Accepted lcd) (hon : ¬ r.Off lcd) :
    (0 ≤ (r.clip lcd h).x2 ∧ (r.clip lcd h).x2 < lcd.width) ∧
      (0 ≤ (r.clip lcd h).y2 ∧ (r.clip lcd h).y2 < lcd.height) ∧
        r.Has (r.clip lcd h).y2 (r.clip lcd h).x2 := by
  have hcolumns := r.columns
  have hrows := r.rows
  obtain ⟨hx, hy⟩ := h
  unfold Rect.Off at hon
  unfold Rect.Has Rect.clip
  dsimp only
  omega

/-- On a 1-bpp screen it is not stored, so that a rectangle that is shown is not on the screen. -/
theorem off_of_correct (h : r.Accepted lcd) (h1 : lcd.bpp = 1) (hcorrect : DrawrectCorrect lcd r color) :
    r.Off lcd := by
  obtain ⟨hok, hputs⟩ := @drawrect_bpp1 lcd r color h h1
  by_contra hon
  obtain ⟨hcol, hrow, hhas⟩ := clip_corner_inScreen h hon
  obtain ⟨framebuffer, hne⟩ := exists_bitAtPos_ne lcd.width (lcd.fills color)
  have hbit := (((hcorrect hok).2 framebuffer).bit h1 _ _ hcol hrow).1 hhas
  rw [Put.drawn, bitAtPos_foldl (fun p hp => ⟨(hputs p hp).1.1, _, (hputs p hp).1.2⟩) hcol,
    Put.paint_of_forall_ne] at hbit
  · exact hne _ _ hbit
  · rintro p hp ⟨-, hat⟩
    exact absurd hat (hputs p hp).2.1.ne

/-- Nothing is stored of a rectangle that is not on the screen. -/
theorem drawrect_off (h : r.Accepted lcd) (h1 : lcd.bpp = 1) (hoff : r.Off lcd) :
    (drawrect lcd r color).2 = [] := by
  obtain ⟨-, hputs⟩ := @drawrect_bpp1 lcd r color h h1
  refine List.eq_nil_iff_forall_not_mem.2 fun p hp => ?_
  obtain ⟨⟨⟨hcol, hrow⟩, -⟩, hx, hy⟩ := hputs p hp
  unfold Rect.clip at hx hy
  unfold Rect.Off at hoff
  dsimp only at hx hy
  omega

/-- **A 1-bpp screen**: the last column is not stored. -/
theorem drawrect_bpp1_iff (h : r.Accepted lcd) (h1 : lcd.bpp = 1) :
    DrawrectCorrect lcd r color ↔ r.Off lcd := by
  have h16 := Lcd.bpp_ne_sixteen h1
  constructor
  · exact off_of_correct h h1
  · intro hoff _
    rw [drawrect_off h h1 hoff]
    refine ⟨?_, fun framebuffer => ⟨fun hno => absurd hno h16, fun _ => ?_⟩⟩
    · intro p hp
      cases hp
    · intro row col hcol hrow
      have hout : ¬ r.Has row col := by
        rintro ⟨hcol', hrow'⟩
        unfold Rect.Off at hoff
        omega
      exact ⟨fun hin => absurd hin hout, fun _ => rfl⟩

/-- **`platform_disp_drawrect` is correct** for these arguments, and for no others. -/
theorem drawrect_iff (lcd : Lcd) (r : Rect) (color : Colour) :
    DrawrectCorrect lcd r color ↔ DrawrectArguments lcd r color := by
  by_cases h : r.Accepted lcd
  · rw [DrawrectArguments, forall_prop_of_true h]
    by_cases h16 : lcd.bpp = 16
    · have h1 := Lcd.bpp_ne_one h16
      rw [drawrect_bpp16_iff h h16, and_iff_right fun hno => absurd hno h1, forall_prop_of_true h16]
    · by_cases h1 : lcd.bpp = 1
      · rw [drawrect_bpp1_iff h h1, forall_prop_of_true h1, and_iff_left fun hno => absurd hno h16]
      · exact ⟨fun _ => ⟨fun hno => absurd hno h1, fun hno => absurd hno h16⟩,
          fun _ hok => absurd hok (drawrect_other h16 h1)⟩
  · exact ⟨fun _ hno => absurd hno h, fun _ hok => absurd hok (drawrect_refused h)⟩

end

/-- The rectangle from (2, 2) to (5, 5), filled with black on a 1-bpp screen of 16 by 16 pixels: its
last column is not drawn. -/
theorem not_drawrect_correct :
    ¬ ∀ (lcd : Lcd) (r : Rect) (color : Colour), DrawrectCorrect lcd r color := by
  intro h
  have hcorrect := h { width := 16, height := 16, bpp := 1, bus := .PLATFORM_LCD_BUS_SPI }
    ⟨2, 2, 5, 5, by decide, by decide⟩ COLOR_BLACK
  have hbit := (((hcorrect (by decide)).2 fun _ => 0).bit rfl 3 5 (by decide) (by decide)).1
    ⟨by decide, by decide⟩
  exact absurd hbit (by decide)

end OsdCore
