import OsdCore.Disp.Basic

/-!
# Rectangles and QR codes

* `platformDispDrawrect` : on a 16-bpp screen an outline, or a filled rectangle with its last row and
  column; on a 1-bpp screen a filled rectangle without them.
* `platformDispQrcode` : a square of modules, each as large as the place allows.
* `platformDispDrawrect_bpp1`, `platformDispQrcode_inScreen` : what the two store is on the screen; of a
  QR code, where it does not begin below the screen.
-/

namespace OsdCore

/-! ### `platform_disp_drawrect` -/

/-- The outline: the two rows, then the two columns. -/
def rectOutline (x1 y1 x2 y2 : ℤ) (ink : Ink) : List Put :=
  ((Int.range x1 (x2 + 1)).flatMap fun i => [⟨y1, i, ink⟩, ⟨y2, i, ink⟩]) ++
    (Int.range y1 (y2 + 1)).flatMap fun j => [⟨j, x1, ink⟩, ⟨j, x2, ink⟩]

/-- The rectangle, row by row. -/
def rectFill (x1 y1 x2 y2 : ℤ) (ink : Ink) : List Put :=
  (Int.range y1 (y2 + 1)).flatMap fun j => (Int.range x1 (x2 + 1)).map fun i => ⟨j, i, ink⟩

/-- The rectangle on a 1-bpp screen, column by column: `x` and `y` are `u16`s, and end before `x2` and
`y2`. -/
def rectFillBpp1 (x1 y1 x2 y2 : ℤ) (ink : Ink) : List Put :=
  (Int.range (u16 x1) x2).flatMap fun x => (Int.range (u16 y1) y2).map fun y => ⟨y, x, ink⟩

/-- `platform_disp_drawrect`. -/
def platformDispDrawrect (lcd : Lcd) (x1 y1 x2 y2 : ℤ) (color : Colour) : DispResult × List Put :=
  let x1 := min x1 (lcd.width - 1)
  let x2 := min x2 (lcd.width - 1)
  let y1 := min y1 (lcd.height - 1)
  let y2 := min y2 (lcd.height - 1)
  if x1 ≥ x2 ∨ y1 ≥ y2 then (.PLATFORM_ERR, [])
  else if lcd.bpp = 16 then
    if -1 = color then (.PLATFORM_OK, rectOutline x1 y1 x2 y2 (.pixel (lcd.busPixel lcd.dispColor)))
    else (.PLATFORM_OK, rectFill x1 y1 x2 y2 (.pixel (color.setWidth 16)))
  else if lcd.bpp = 1 then
    if color = COLOR_BLACK ∨ color = COLOR_WHITE then
      (.PLATFORM_OK, rectFillBpp1 x1 y1 x2 y2 (.bit (lcd.fills color)))
    else (.PLATFORM_OK, [])
  else (.PLATFORM_ERR, [])

section

variable {lcd : Lcd} {x1 y1 x2 y2 : ℤ} {color : Colour} {p : Put}

/-- **What is stored on a 1-bpp screen** is a bit, of a row and a column that are on the screen. -/
theorem platformDispDrawrect_bpp1 (hbpp : lcd.bpp = 1)
    (hp : p ∈ (platformDispDrawrect lcd x1 y1 x2 y2 color).2) :
    p.InScreen lcd ∧ p.ink = .bit (lcd.fills color) := by
  unfold platformDispDrawrect at hp
  dsimp only at hp
  split_ifs at hp with _ h16
  · cases hp
  · rw [hbpp] at h16
    cases h16
  · rw [hbpp] at h16
    cases h16
  · obtain ⟨x, hx, hcol⟩ := List.mem_flatMap.1 hp
    obtain ⟨y, hy, rfl⟩ := List.mem_map.1 hcol
    rw [Int.mem_range_iff] at hx hy
    have hx₀ := u16_range (min x1 (lcd.width - 1))
    have hy₀ := u16_range (min y1 (lcd.height - 1))
    refine ⟨⟨?_, ?_⟩, rfl⟩
    · dsimp only
      omega
    · dsimp only
      omega
  · cases hp

end

/-! ### `platform_disp_qrcode` -/

/-- The loops of `platform_disp_qrcode`, column by column. -/
def qrcodePuts (data : Ptr) (w scale : ℤ) (startX startY endX endY : ℤ) (ink : Colour → Ink) : List Put :=
  (Int.range startX endX).flatMap fun i => (Int.range startY endY).map fun j =>
    let dark := data ((i - startX) / scale + (j - startY) / scale * w) &&& 1 ≠ 0
    ⟨j, i, ink (if dark then COLOR_BLACK else COLOR_WHITE)⟩

/-- `disp_w` after it has been compared with the free width and height, which may be negative: it is a
`u16`. -/
def qrcodeSide (lcd : Lcd) (dispW startX startY : UInt16) : ℤ :=
  u16 (min (dispW : ℤ) (min ((lcd.width : ℤ) - startX) (lcd.height - startY)))

/-- `platform_disp_qrcode`, with the pixels that it counts; `none` is the division by a `w` of 0. -/
def platformDispQrcode (lcd : Lcd) (data : Ptr) (w dispW startX startY : UInt16) :
    Option (ℕ × List Put) :=
  if dispW < w ∨ startX ≥ lcd.width ∨ startY ≥ lcd.width then some (0, [])
  else if qrcodeSide lcd dispW startX startY < w then some (0, [])
  else if w = 0 then none
  else
    let scale := qrcodeSide lcd dispW startX startY / w
    let dispW := u16 (w * scale)
    let puts := qrcodePuts data w scale startX startY (u16 (dispW + startX)) (u16 (dispW + startY))
    if lcd.bpp = 1 then
      let puts := puts fun color => .bit (lcd.fills color)
      some (puts.length, puts)
    else if lcd.bpp = 16 then
      let puts := puts fun color => .pixel (color.setWidth 16)
      some (puts.length, puts)
    else some (0, [])

section

variable {lcd : Lcd} {data : Ptr} {w dispW startX startY : UInt16} {n : ℕ} {puts : List Put} {p : Put}
  {scale x y endX endY : ℤ} {ink : Colour → Ink}

theorem mem_qrcodePuts (hp : p ∈ qrcodePuts data w scale x y endX endY ink) :
    (x ≤ p.col ∧ p.col < endX) ∧ (y ≤ p.row ∧ p.row < endY) ∧ ∃ color, p.ink = ink color := by
  obtain ⟨i, hi, hcol⟩ := List.mem_flatMap.1 hp
  obtain ⟨j, hj, rfl⟩ := List.mem_map.1 hcol
  exact ⟨Int.mem_range_iff.1 hi, Int.mem_range_iff.1 hj, _, rfl⟩

theorem exists_qrcodePuts {i j : ℤ} (hi : x ≤ i ∧ i < endX) (hj : y ≤ j ∧ j < endY) :
    ∃ p ∈ qrcodePuts data w scale x y endX endY ink, p.row = j ∧ p.col = i :=
  ⟨_, List.mem_flatMap.2 ⟨i, Int.mem_range_iff.2 hi, List.mem_map_of_mem (Int.mem_range_iff.2 hj)⟩, rfl, rfl⟩

/-- What is stored has a place in the square that the code computes. -/
theorem mem_qrcode (h : platformDispQrcode lcd data w dispW startX startY = some (n, puts))
    (hp : p ∈ puts) :
    ((startX < lcd.width ∧ startY < lcd.width) ∧ w ≠ 0 ∧ (w : ℤ) ≤ qrcodeSide lcd dispW startX startY) ∧
      ∃ ink, p ∈ qrcodePuts data w (qrcodeSide lcd dispW startX startY / w) startX startY
          (u16 (u16 (w * (qrcodeSide lcd dispW startX startY / w)) + startX))
          (u16 (u16 (w * (qrcodeSide lcd dispW startX startY / w)) + startY)) ink ∧
        (lcd.bpp = 1 → ink = fun color => .bit (lcd.fills color)) := by
  unfold platformDispQrcode at h
  dsimp only at h
  split_ifs at h with hrefused hfree hw hbpp hbpp'
  · obtain ⟨-, rfl⟩ := Prod.mk.inj (Option.some.inj h)
    cases hp
  · obtain ⟨-, rfl⟩ := Prod.mk.inj (Option.some.inj h)
    cases hp
  · obtain ⟨-, rfl⟩ := Prod.mk.inj (Option.some.inj h)
    rw [not_or, not_or] at hrefused
    exact ⟨⟨⟨UInt16.not_le.1 hrefused.2.1, UInt16.not_le.1 hrefused.2.2⟩, hw, not_lt.1 hfree⟩,
      _, hp, fun _ => rfl⟩
  · obtain ⟨-, rfl⟩ := Prod.mk.inj (Option.some.inj h)
    rw [not_or, not_or] at hrefused
    exact ⟨⟨⟨UInt16.not_le.1 hrefused.2.1, UInt16.not_le.1 hrefused.2.2⟩, hw, not_lt.1 hfree⟩,
      _, hp, fun h1 => absurd h1 hbpp⟩
  · obtain ⟨-, rfl⟩ := Prod.mk.inj (Option.some.inj h)
    cases hp

/-- **A QR code is on the screen**, unless it begins below the screen. -/
theorem platformDispQrcode_inScreen
    (h : platformDispQrcode lcd data w dispW startX startY = some (n, puts))
    (hstart : startY ≤ lcd.height ∨ lcd.width ≤ startY) (hp : p ∈ puts) : p.InScreen lcd := by
  obtain ⟨⟨⟨hx, hy⟩, hw, hside⟩, ink, hput, -⟩ := mem_qrcode h hp
  obtain ⟨hcol, hrow, -⟩ := mem_qrcodePuts hput
  rw [UInt16.lt_iff_toNat_lt] at hx hy
  rw [UInt16.le_iff_toNat_le, UInt16.le_iff_toNat_le] at hstart
  have hwidth := lcd.width.toNat_lt
  have hheight := lcd.height.toNat_lt
  have hdisp := dispW.toNat_lt
  -- neither the free width nor the free height is negative
  have hfree : qrcodeSide lcd dispW startX startY =
      min (dispW : ℤ) (min ((lcd.width : ℤ) - startX) (lcd.height - startY)) :=
    u16_of_range (by omega) (by omega)
  have hlen : (w : ℤ) * (qrcodeSide lcd dispW startX startY / w) ≤ qrcodeSide lcd dispW startX startY :=
    Int.mul_ediv_self_le fun h0 => hw (UInt16.toNat_inj.1 (by simpa using h0))
  have hlen₀ : 0 ≤ (w : ℤ) * (qrcodeSide lcd dispW startX startY / w) :=
    Int.mul_nonneg (by omega) (Int.ediv_nonneg (by omega) (by omega))
  rw [u16_of_range hlen₀ (by omega), u16_of_range (by omega) (by omega)] at hcol hrow
  unfold Put.InScreen
  omega

/-- Below the screen the free height is negative, and becomes a side of almost 65536. -/
theorem qrcodeSide_below (dispW : UInt16) (hx : startX < lcd.width) (hy : lcd.height < startY) :
    qrcodeSide lcd dispW startX startY = 2 ^ 16 - ((startY : ℤ) - lcd.height) := by
  rw [UInt16.lt_iff_toNat_lt] at hx hy
  have hstart := startY.toNat_lt
  unfold qrcodeSide u16
  omega

/-- **A QR code that begins below the screen is drawn there**, if its modules do not fill this side, but
leave more than the height of the screen. -/
theorem mem_qrcode_below (hbpp : lcd.bpp = 1) (hx : startX < lcd.width) (hy : lcd.height < startY)
    (hy' : startY < lcd.width) (hw : w ≠ 0 ∧ w ≤ dispW)
    (hside : (w : ℤ) ≤ qrcodeSide lcd dispW startX startY)
    (hrest : (lcd.height : ℤ) < qrcodeSide lcd dispW startX startY % w)
    (hcol : (startX : ℤ) < startY - lcd.height + qrcodeSide lcd dispW startX startY % w) :
    ∃ n puts, platformDispQrcode lcd data w dispW startX startY = some (n, puts) ∧
      ∃ p ∈ puts, p.row = startY ∧ p.col = startX := by
  have hm := qrcodeSide_below dispW hx hy
  rw [hm] at hside hrest hcol
  have hstart := startY.toNat_lt
  have hy₀ := UInt16.lt_iff_toNat_lt.1 hy
  have hw₀ : (w : ℤ) ≠ 0 := fun h0 => hw.1 (UInt16.toNat_inj.1 (by simpa using h0))
  -- the square without the rest
  have hrem := Int.emod_lt_of_pos (2 ^ 16 - ((startY : ℤ) - lcd.height)) (by omega : 0 < (w : ℤ))
  have hsquare := Int.mul_ediv_add_emod (2 ^ 16 - ((startY : ℤ) - lcd.height)) w
  have hlt : (startX : ℤ) < u16 (u16 (w * ((2 ^ 16 - ((startY : ℤ) - lcd.height)) / w)) + startX) ∧
      (startY : ℤ) < u16 (u16 (w * ((2 ^ 16 - ((startY : ℤ) - lcd.height)) / w)) + startY) := by
    rw [u16_of_range (a := w * _) (by omega) (by omega), u16_of_range (by omega) (by omega),
      u16_of_range (by omega) (by omega)]
    omega
  unfold platformDispQrcode
  rw [hm, if_neg, if_neg (not_lt.2 hside), if_neg hw.1, if_pos hbpp]
  · exact ⟨_, _, rfl, exists_qrcodePuts ⟨le_refl _, hlt.1⟩ ⟨le_refl _, hlt.2⟩⟩
  · rw [not_or, not_or]
    exact ⟨UInt16.not_lt.2 hw.2, UInt16.not_le.2 hx, UInt16.not_le.2 hy'⟩

theorem platformDispQrcode_bit (hbpp : lcd.bpp = 1)
    (h : platformDispQrcode lcd data w dispW startX startY = some (n, puts)) (hp : p ∈ puts) :
    ∃ on, p.ink = .bit on := by
  obtain ⟨-, ink, hput, hink⟩ := mem_qrcode h hp
  obtain ⟨-, -, color, hcolor⟩ := mem_qrcodePuts hput
  rw [hink hbpp] at hcolor
  exact ⟨_, hcolor⟩

end

end OsdCore
