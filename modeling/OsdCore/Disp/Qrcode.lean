import OsdCore.Disp.Blit
import OsdCore.Disp.Shapes

/-!
# What `disp.putqrcode` draws

`disp_qrcode` tests its `int`s, and passes them on as `u16`s.

* `QrcodeCorrect` : the code does not divide by zero, stays in the framebuffer, and draws the modules.
* `QrcodeArguments` : the arguments for which it does that.
* `qrcode_within`, `qrcode_below` : a code that begins on the screen, and one that begins below it.
* `disp_qrcode_iff` : all of it.
-/

namespace OsdCore

/-! ### `disp_qrcode` -/

/-- An `int` that is passed as a `u16`. -/
def toU16 (a : ℤ) : UInt16 := UInt16.ofNat (u16 a).toNat

@[simp] theorem coe_toU16 (a : ℤ) : ((toU16 a).toNat : ℤ) = u16 a := by
  obtain ⟨hpos, hlt⟩ := u16_range a
  have hsize : (u16 a).toNat < UInt16.size := by
    rw [UInt16.size]
    omega
  rw [toU16, UInt16.toNat_ofNat_of_lt' hsize, Int.toNat_of_nonneg hpos]

/-- `disp_qrcode`, with a string of `len` bytes. -/
def dispQrcode (lcd : Lcd) (data : Ptr) (len : ℕ) (w dispW startX startY : ℤ) :
    Option (ℕ × List Put) :=
  if w ≤ 0 ∨ dispW ≤ 0 ∨ startX < 0 ∨ startY < 0 then some (0, [])
  else if (len : ℤ) ≠ u32 (w * w) then some (0, [])
  else platformDispQrcode lcd data (toU16 w) (toU16 dispW) (toU16 startX) (toU16 startY)

/-- The tests of `disp_qrcode`. -/
structure QrcodeAccepted (len : ℕ) (w dispW startX startY : ℤ) : Prop where
  modules : 0 < w
  width : 0 < dispW
  column : 0 ≤ startX
  row : 0 ≤ startY
  length : (len : ℤ) = u32 (w * w)

/-! ### What it is to draw -/

/-- The colour of a module. -/
def moduleColour (data : Ptr) (w mx my : ℤ) : Colour :=
  if data (mx + my * w) &&& 1 ≠ 0 then COLOR_BLACK else COLOR_WHITE

/-- A square of `w` by `w` modules, each of `scale` by `scale` pixels, is on the screen; the other
pixels are unchanged. -/
structure QrcodeShown (lcd : Lcd) (data : Ptr) (w scale x y : ℤ) (framebuffer after : Ptr) : Prop where
  pixel : lcd.bpp = 16 → ∀ i j : ℤ, (0 ≤ i ∧ i < w * scale) → (0 ≤ j ∧ j < w * scale) →
    pixelAt lcd.width after (y + j) (x + i) = (moduleColour data w (i / scale) (j / scale)).setWidth 16
  bit : lcd.bpp = 1 → ∀ i j : ℤ, (0 ≤ i ∧ i < w * scale) → (0 ≤ j ∧ j < w * scale) →
    bitAtPos lcd.width after (y + j) (x + i) = lcd.fills (moduleColour data w (i / scale) (j / scale))
  others : ∀ row col : ℤ, (0 ≤ col ∧ col < lcd.width) →
    ¬ ((x ≤ col ∧ col < x + w * scale) ∧ y ≤ row ∧ row < y + w * scale) →
      (lcd.bpp = 16 → pixelAt lcd.width after row col = pixelAt lcd.width framebuffer row col) ∧
        (lcd.bpp = 1 → bitAtPos lcd.width after row col = bitAtPos lcd.width framebuffer row col)

/-- The scale that the place allows. -/
def qrcodeScale (lcd : Lcd) (w dispW startX startY : ℤ) : ℤ :=
  min dispW (min (lcd.width - startX) (lcd.height - startY)) / w

/-- What has been drawn when `n` pixels are counted: the first equation is about the scale of the code.
-/
structure QrcodeDrawn (lcd : Lcd) (data : Ptr) (w dispW startX startY : ℤ) (n : ℕ) (puts : List Put) :
    Prop where
  scale : qrcodeSide lcd (toU16 dispW) (toU16 startX) (toU16 startY) / (toU16 w) =
    qrcodeScale lcd w dispW startX startY
  shown : ∀ framebuffer, QrcodeShown lcd data w (qrcodeScale lcd w dispW startX startY) startX startY
    framebuffer (Put.drawn lcd puts framebuffer)
  count : (n : ℤ) = (w * qrcodeScale lcd w dispW startX startY) ^ 2

/-- The call is correct: it does not divide by zero, it stays in the framebuffer, and what it counts it
has drawn. -/
def QrcodeCorrect (lcd : Lcd) (data : Ptr) (len : ℕ) (w dispW startX startY : ℤ) : Prop :=
  ∃ n puts, dispQrcode lcd data len w dispW startX startY = some (n, puts) ∧ InFramebuffer lcd puts ∧
    (n ≠ 0 → QrcodeDrawn lcd data w dispW startX startY n puts)

/-! ### For which arguments it does -/

/-- A code that begins on the screen, or right below it: it does not fit, or its arguments are `u16`s,
the width that is asked for gives the same scale as a `u16`, and, on a 1-bpp screen, its last byte is
one of the framebuffer. -/
def QrcodeWithin (lcd : Lcd) (w dispW startX startY : ℤ) : Prop :=
  min (u16 dispW) (min (lcd.width - u16 startX) (lcd.height - u16 startY)) < u16 w ∨
    (w < 2 ^ 16 ∧ startX < 2 ^ 16 ∧ startY < 2 ^ 16 ∧
      qrcodeScale lcd w dispW startX startY = qrcodeScale lcd w (u16 dispW) startX startY ∧
      (lcd.bpp = 1 →
        (startY + w * qrcodeScale lcd w dispW startX startY - 1) / 8 * lcd.width +
          (startX + w * qrcodeScale lcd w dispW startX startY - 1) < lcd.framebufferSize))

/-- A code that begins below the screen: the negative height, as a `u16`, has no room for it, or its
square ends behind 65535. -/
def QrcodeBelow (lcd : Lcd) (w startX startY : ℤ) : Prop :=
  let height := 2 ^ 16 - (u16 startY - lcd.height)
  height < u16 w ∨ height % u16 w ≤ lcd.height ∨ u16 startY - lcd.height + height % u16 w ≤ u16 startX

/-- The call is refused, or nothing is drawn on such a screen, or the code has its place. -/
def QrcodeArguments (lcd : Lcd) (w dispW startX startY : ℤ) : Prop :=
  (u16 dispW < u16 w ∨ lcd.width ≤ u16 startX ∨ lcd.width ≤ u16 startY) ∨
    u16 w ≠ 0 ∧
      ((lcd.bpp ≠ 1 ∧ lcd.bpp ≠ 16) ∨
        (u16 startY ≤ lcd.height ∧ QrcodeWithin lcd w dispW startX startY) ∨
        (lcd.height < u16 startY ∧ QrcodeBelow lcd w startX startY))

/-! ### The cases of the function -/

/-- What is stored for a colour. -/
def qrcodeInk (lcd : Lcd) (color : Colour) : Ink :=
  if lcd.bpp = 1 then .bit (lcd.fills color) else .pixel (color.setWidth 16)

section

variable {lcd : Lcd} {data : Ptr} {w dispW startX startY : UInt16} {p : Put}
  {scale x y endX endY : ℤ} {ink : Colour → Ink}

/-- What the loops store. -/
theorem mem_qrcodePuts_iff {w : ℤ} : p ∈ qrcodePuts data w scale x y endX endY ink ↔
    ∃ i j, (x ≤ i ∧ i < endX) ∧ (y ≤ j ∧ j < endY) ∧
      p = ⟨j, i, ink (moduleColour data w ((i - x) / scale) ((j - y) / scale))⟩ := by
  unfold qrcodePuts
  simp only [List.mem_flatMap, List.mem_map, Int.mem_range_iff]
  constructor
  · rintro ⟨i, hi, j, hj, rfl⟩
    exact ⟨i, j, hi, hj, rfl⟩
  · rintro ⟨i, j, hi, hj, rfl⟩
    exact ⟨i, hi, j, hj, rfl⟩

/-- How many pixels the loops store. -/
theorem length_qrcodePuts {w : ℤ} : (qrcodePuts data w scale x y endX endY ink).length =
    (endX - x).toNat * (endY - y).toNat := by
  unfold qrcodePuts
  rw [List.length_flatMap]
  simp only [List.length_map, List.map_const', List.sum_replicate, Int.range, List.length_range]
  rfl

theorem qrcode_refused (h : dispW < w ∨ lcd.width ≤ startX ∨ lcd.width ≤ startY) :
    platformDispQrcode lcd data w dispW startX startY = some (0, []) := by
  rw [platformDispQrcode, if_pos h]

theorem qrcode_small (h : qrcodeSide lcd dispW startX startY < w) :
    platformDispQrcode lcd data w dispW startX startY = some (0, []) := by
  rw [platformDispQrcode, if_pos h]
  split <;> rfl

theorem qrcode_zero (h : ¬ (dispW < w ∨ lcd.width ≤ startX ∨ lcd.width ≤ startY)) (hw : w = 0) :
    platformDispQrcode lcd data w dispW startX startY = none := by
  have hside : ¬ qrcodeSide lcd dispW startX startY < (0 : UInt16) := not_lt.2 (u16_range _).1
  subst hw
  rw [platformDispQrcode, if_neg h, if_neg hside, if_pos rfl]

theorem qrcode_other (h : ¬ (lcd.bpp = 1 ∨ lcd.bpp = 16)) (hw : w ≠ 0) :
    platformDispQrcode lcd data w dispW startX startY = some (0, []) := by
  rw [not_or] at h
  rw [platformDispQrcode, if_neg hw]
  simp only [if_neg h.1, if_neg h.2, ite_self]

/-- What the loops store for a side. -/
def qrcodeStored (lcd : Lcd) (data : Ptr) (w startX startY : UInt16) (side : ℤ) : List Put :=
  qrcodePuts data w (side / w) startX startY (u16 (u16 (w * (side / w)) + startX))
    (u16 (u16 (w * (side / w)) + startY)) (qrcodeInk lcd)

/-- Everything else comes to the loops. -/
theorem qrcode_loops (h : ¬ (dispW < w ∨ lcd.width ≤ startX ∨ lcd.width ≤ startY))
    (hside : (w : ℤ) ≤ qrcodeSide lcd dispW startX startY) (hw : w ≠ 0)
    (hbpp : lcd.bpp = 1 ∨ lcd.bpp = 16) :
    platformDispQrcode lcd data w dispW startX startY =
      let puts := qrcodeStored lcd data w startX startY (qrcodeSide lcd dispW startX startY)
      some (puts.length, puts) := by
  rw [platformDispQrcode, if_neg h, if_neg (not_lt.2 hside), if_neg hw]
  rcases hbpp with h1 | h16
  · have hink : qrcodeInk lcd = fun color => .bit (lcd.fills color) := by
      funext color
      rw [qrcodeInk, if_pos h1]
    simp only [if_pos h1, qrcodeStored, hink]
  · have h1 := Lcd.bpp_ne_one h16
    have hink : qrcodeInk lcd = fun color => .pixel (color.setWidth 16) := by
      funext color
      rw [qrcodeInk, if_neg h1]
    simp only [if_neg h1, if_pos h16, qrcodeStored, hink]

end

/-! ### What is drawn -/

/-- The square that is drawn: its modules are of `scale` pixels, its corner is at `(x, y)`. -/
def qrcodeSquare (lcd : Lcd) (data : Ptr) (w scale x y : ℤ) : List Put :=
  qrcodePuts data w scale x y (x + w * scale) (y + w * scale) (qrcodeInk lcd)

section

variable {lcd : Lcd} {data : Ptr} {w scale x y row col : ℤ}

/-- A square that has its place is on the screen. -/
theorem qrcodeSquare_inScreen (hx : 0 ≤ x ∧ x + w * scale ≤ lcd.width)
    (hy : 0 ≤ y ∧ y + w * scale ≤ lcd.height) {p : Put}
    (hp : p ∈ qrcodeSquare lcd data w scale x y) :
    p.InScreen lcd := by
  obtain ⟨i, j, hi, hj, rfl⟩ := mem_qrcodePuts_iff.1 hp
  unfold Put.InScreen
  dsimp only
  omega

/-- What is painted in the square is its module. -/
theorem paint_qrcodeSquare {α : Type} {value : Ink → Option α} {colour : Colour → α} {before : α}
    (hvalue : ∀ color, value (qrcodeInk lcd color) = some (colour color)) {i j : ℤ}
    (hi : 0 ≤ i ∧ i < w * scale) (hj : 0 ≤ j ∧ j < w * scale) :
    Put.paint value (qrcodeSquare lcd data w scale x y) (y + j) (x + i) before =
      colour (moduleColour data w (i / scale) (j / scale)) := by
  have hsub : x + i - x = i ∧ y + j - y = j := by omega
  refine Put.paint_of_mem ⟨_, mem_qrcodePuts_iff.2 ⟨x + i, y + j, by omega, by omega, rfl⟩, rfl, rfl⟩ ?_
  intro p hp hat
  obtain ⟨i', j', -, -, rfl⟩ := mem_qrcodePuts_iff.1 hp
  obtain ⟨hrow, hcol⟩ := hat
  dsimp only at hrow hcol
  rw [hrow, hcol, hvalue, hsub.1, hsub.2]

/-- Nothing is painted beside it. -/
theorem qrcodeSquare_not_at
    (hout : ¬ ((x ≤ col ∧ col < x + w * scale) ∧ y ≤ row ∧ row < y + w * scale)) {p : Put}
    (hp : p ∈ qrcodeSquare lcd data w scale x y) : ¬ p.At row col := by
  rintro ⟨rfl, rfl⟩
  obtain ⟨i, j, hi, hj, rfl⟩ := mem_qrcodePuts_iff.1 hp
  exact hout ⟨hi, hj⟩

theorem qrcodeInk_pixel (h16 : lcd.bpp = 16) (color : Colour) :
    qrcodeInk lcd color = .pixel (color.setWidth 16) :=
  if_neg (Lcd.bpp_ne_one h16)

theorem qrcodeInk_bit (h1 : lcd.bpp = 1) (color : Colour) : qrcodeInk lcd color = .bit (lcd.fills color) :=
  if_pos h1

/-- On a 16-bpp screen it is made of pixels. -/
theorem qrcodeSquare_pixels (h16 : lcd.bpp = 16) (hx : 0 ≤ x ∧ x + w * scale ≤ lcd.width)
    (hy : 0 ≤ y ∧ y + w * scale ≤ lcd.height) {p : Put}
    (hp : p ∈ qrcodeSquare lcd data w scale x y) :
    p.InScreen lcd ∧ ∃ value, p.ink = .pixel value := by
  obtain ⟨i, j, -, -, hput⟩ := mem_qrcodePuts_iff.1 hp
  refine ⟨qrcodeSquare_inScreen hx hy hp, ?_⟩
  rw [hput]
  exact ⟨_, qrcodeInk_pixel h16 _⟩

/-- On a 1-bpp screen it is made of bits. -/
theorem qrcodeSquare_bits (h1 : lcd.bpp = 1) (hx : 0 ≤ x ∧ x + w * scale ≤ lcd.width)
    (hy : 0 ≤ y ∧ y + w * scale ≤ lcd.height) {p : Put}
    (hp : p ∈ qrcodeSquare lcd data w scale x y) :
    p.InScreen lcd ∧ ∃ on, p.ink = .bit on := by
  obtain ⟨i, j, -, -, hput⟩ := mem_qrcodePuts_iff.1 hp
  refine ⟨qrcodeSquare_inScreen hx hy hp, ?_⟩
  rw [hput]
  exact ⟨_, qrcodeInk_bit h1 _⟩

/-- **The square is shown**, where it has its place. -/
theorem qrcodeSquare_shown (hx : 0 ≤ x ∧ x + w * scale ≤ lcd.width)
    (hy : 0 ≤ y ∧ y + w * scale ≤ lcd.height) (framebuffer : Ptr) :
    QrcodeShown lcd data w scale x y framebuffer
      (Put.drawn lcd (qrcodeSquare lcd data w scale x y) framebuffer) := by
  constructor
  · intro h16 i j hi hj
    rw [Put.drawn, pixelAt_foldl (fun p hp => qrcodeSquare_pixels h16 hx hy hp) (by omega)]
    exact paint_qrcodeSquare (fun color => by rw [qrcodeInk_pixel h16]; rfl) hi hj
  · intro h1 i j hi hj
    rw [Put.drawn, bitAtPos_foldl (fun p hp => qrcodeSquare_bits h1 hx hy hp) (by omega)]
    exact paint_qrcodeSquare (fun color => by rw [qrcodeInk_bit h1]; rfl) hi hj
  · intro row col hcol hout
    refine ⟨fun h16 => ?_, fun h1 => ?_⟩
    · rw [Put.drawn, pixelAt_foldl (fun p hp => qrcodeSquare_pixels h16 hx hy hp) hcol]
      exact Put.paint_of_forall_ne fun p hp => qrcodeSquare_not_at hout hp
    · rw [Put.drawn, bitAtPos_foldl (fun p hp => qrcodeSquare_bits h1 hx hy hp) hcol]
      exact Put.paint_of_forall_ne fun p hp => qrcodeSquare_not_at hout hp

/-- **It is in the framebuffer** if its last corner is, which has to be asked on a 1-bpp screen. -/
theorem qrcodeSquare_inFramebuffer_iff (hbpp : lcd.bpp = 1 ∨ lcd.bpp = 16)
    (hx : 0 ≤ x ∧ x + w * scale ≤ lcd.width) (hy : 0 ≤ y ∧ y + w * scale ≤ lcd.height)
    (hlen : 0 < w * scale) (data : Ptr) :
    InFramebuffer lcd (qrcodeSquare lcd data w scale x y) ↔
      (lcd.bpp = 1 → (y + w * scale - 1) / 8 * lcd.width + (x + w * scale - 1) < lcd.framebufferSize) := by
  constructor
  · intro hin h1
    have hlast := hin _
      (mem_qrcodePuts_iff.2 ⟨x + w * scale - 1, y + w * scale - 1, by omega, by omega, rfl⟩)
    rw [qrcodeInk_bit h1] at hlast
    exact (hlast _ (List.mem_singleton.2 rfl)).2
  · intro hcorner
    rcases hbpp with h1 | h16
    · intro p hp k hk
      obtain ⟨i, j, hi, hj, rfl⟩ := mem_qrcodePuts_iff.1 hp
      rw [qrcodeInk_bit h1] at hk
      obtain rfl := List.mem_singleton.1 hk
      have hcorner := hcorner h1
      have hpos : 0 ≤ j / 8 * (lcd.width : ℤ) := Int.mul_nonneg (by omega) (by omega)
      have hpage : j / 8 * (lcd.width : ℤ) ≤ (y + w * scale - 1) / 8 * lcd.width :=
        Int.mul_le_mul_of_nonneg_right (Int.ediv_le_ediv (by decide) (by omega)) (by omega)
      dsimp only [Put.index]
      omega
    · exact inFramebuffer_of_pixels h16 fun p hp => qrcodeSquare_pixels h16 hx hy hp

end

/-! ### A code that begins on the screen -/

section

variable {lcd : Lcd} {data : Ptr} {len : ℕ} {w dispW startX startY : ℤ}

/-- The side that the loops get, where the free height is not negative. -/
theorem qrcodeSide_within (dispW : ℤ) (hx : u16 startX < lcd.width) (hy : u16 startY ≤ lcd.height) :
    qrcodeSide lcd (toU16 dispW) (toU16 startX) (toU16 startY) =
      min (u16 dispW) (min (lcd.width - u16 startX) (lcd.height - u16 startY)) := by
  obtain ⟨hpos, hlt⟩ := u16_range dispW
  simp only [qrcodeSide, coe_toU16]
  exact u16_of_range (by omega) (by omega)

/-- A side holds the square. -/
theorem square_le_side {w : UInt16} {side : ℤ} (hw : w ≠ 0) (hside : (w : ℤ) ≤ side) :
    0 < (w : ℤ) ∧ 1 ≤ side / w ∧ 0 < w * (side / w) ∧ w * (side / w) ≤ side := by
  have hpos : 0 < (w : ℤ) := by
    have hne : w.toNat ≠ 0 := fun h0 => hw (UInt16.toNat_inj.1 h0)
    omega
  have hscale : 1 ≤ side / w := (Int.le_ediv_iff_mul_le hpos).2 (by omega)
  exact ⟨hpos, hscale, Int.mul_pos hpos hscale, Int.mul_ediv_self_le hpos.ne'⟩

/-- **The loops store the square**, where it has its place. -/
theorem qrcodeStored_within {w startX startY : UInt16} {side : ℤ} (hw : w ≠ 0) (hside : (w : ℤ) ≤ side)
    (hx : startX + side ≤ lcd.width) (hy : startY + side ≤ lcd.height) :
    qrcodeStored lcd data w startX startY side = qrcodeSquare lcd data w (side / w) startX startY := by
  obtain ⟨-, -, hpos, hle⟩ := square_le_side hw hside
  have hwidth := lcd.width.toNat_lt
  have hheight := lcd.height.toNat_lt
  rw [qrcodeStored, qrcodeSquare, u16_of_range (a := w * (side / w)) (by omega) (by omega),
    u16_of_range (by omega) (by omega), u16_of_range (by omega) (by omega), add_comm _ (startX : ℤ),
    add_comm _ (startY : ℤ)]

theorem length_qrcodeSquare {scale x y : ℤ} (hlen : 0 ≤ w * scale) :
    ((qrcodeSquare lcd data w scale x y).length : ℤ) = (w * scale) ^ 2 := by
  rw [qrcodeSquare, length_qrcodePuts, add_sub_cancel_left, add_sub_cancel_left, Nat.cast_mul,
    Int.toNat_of_nonneg hlen, sq]

/-- The call comes to `platform_disp_qrcode`. -/
theorem dispQrcode_accepted (h : QrcodeAccepted len w dispW startX startY) :
    dispQrcode lcd data len w dispW startX startY =
      platformDispQrcode lcd data (toU16 w) (toU16 dispW) (toU16 startX) (toU16 startY) := by
  have hpos := h.modules
  have hwidth := h.width
  have hcolumn := h.column
  have hrow := h.row
  rw [dispQrcode, if_neg (by omega), if_neg (not_not.2 h.length)]

/-- Nothing is stored, and nothing is counted. -/
theorem qrcodeCorrect_of_nothing
    (h : dispQrcode lcd data len w dispW startX startY = some (0, [])) :
    QrcodeCorrect lcd data len w dispW startX startY := by
  refine ⟨0, [], h, ?_, fun hne => absurd rfl hne⟩
  intro p hp
  cases hp

/-- A scale of 1 or more: the arguments are less than the screen. -/
theorem lt_of_one_le_qrcodeScale (h : QrcodeAccepted len w dispW startX startY)
    (hscale : 1 ≤ qrcodeScale lcd w dispW startX startY) :
    w < 2 ^ 16 ∧ startX < 2 ^ 16 ∧ startY < 2 ^ 16 ∧ startY < lcd.height := by
  have hwidth := lcd.width.toNat_lt
  have hheight := lcd.height.toNat_lt
  have hpos := h.modules
  have hcolumn := h.column
  have hrow := h.row
  have hle := (Int.le_ediv_iff_mul_le hpos).1 hscale
  rw [Int.one_mul, le_min_iff, le_min_iff] at hle
  omega

theorem toU16_eq_zero_iff {a : ℤ} : toU16 a = 0 ↔ u16 a = 0 := by
  rw [← coe_toU16, ← UInt16.toNat_inj]
  exact Int.natCast_eq_zero.symm

/-- The test of `platform_disp_qrcode`. -/
theorem refused_iff :
    (toU16 dispW < toU16 w ∨ lcd.width ≤ toU16 startX ∨ lcd.width ≤ toU16 startY) ↔
      (u16 dispW < u16 w ∨ lcd.width ≤ u16 startX ∨ lcd.width ≤ u16 startY) := by
  simp only [UInt16.lt_iff_toNat_lt, UInt16.le_iff_toNat_le, ← coe_toU16, Int.ofNat_lt, Int.ofNat_le]

/-- What is drawn of a code that fits. -/
theorem dispQrcode_within (data : Ptr) (hcall : QrcodeAccepted len w dispW startX startY)
    (hcond : ¬ (u16 dispW < u16 w ∨ lcd.width ≤ u16 startX ∨ lcd.width ≤ u16 startY))
    (hw : u16 w ≠ 0)
    (hbpp : lcd.bpp = 1 ∨ lcd.bpp = 16) (hy : u16 startY ≤ lcd.height)
    (hfits : u16 w ≤ min (u16 dispW) (min (lcd.width - u16 startX) (lcd.height - u16 startY))) :
    qrcodeSide lcd (toU16 dispW) (toU16 startX) (toU16 startY) / toU16 w =
        qrcodeScale lcd (u16 w) (u16 dispW) (u16 startX) (u16 startY) ∧
      dispQrcode lcd data len w dispW startX startY =
        let puts := qrcodeSquare lcd data (u16 w)
          (qrcodeScale lcd (u16 w) (u16 dispW) (u16 startX) (u16 startY)) (u16 startX) (u16 startY)
        some (puts.length, puts) := by
  have hw' : toU16 w ≠ 0 := fun h0 => hw (toU16_eq_zero_iff.1 h0)
  have hside := @qrcodeSide_within lcd startX startY dispW (by omega) hy
  have hle : (toU16 w : ℤ) ≤ qrcodeSide lcd (toU16 dispW) (toU16 startX) (toU16 startY) := by
    rw [hside, coe_toU16]
    exact hfits
  have hscale : qrcodeSide lcd (toU16 dispW) (toU16 startX) (toU16 startY) / toU16 w =
      qrcodeScale lcd (u16 w) (u16 dispW) (u16 startX) (u16 startY) := by
    rw [hside, coe_toU16]
    rfl
  refine ⟨hscale, ?_⟩
  rw [dispQrcode_accepted hcall, qrcode_loops (fun h => hcond (refused_iff.1 h)) hle hw' hbpp,
    qrcodeStored_within hw' hle, hscale]
  · simp only [coe_toU16]
  · rw [coe_toU16]
    omega
  · rw [coe_toU16]
    omega

/-- The square of a code that fits has its place. -/
theorem square_le (hw : 0 < u16 w)
    (hfits : u16 w ≤ min (u16 dispW) (min (lcd.width - u16 startX) (lcd.height - u16 startY))) :
    let scale := qrcodeScale lcd (u16 w) (u16 dispW) (u16 startX) (u16 startY)
    1 ≤ scale ∧ 0 < u16 w * scale ∧ u16 startX + u16 w * scale ≤ lcd.width ∧
      u16 startY + u16 w * scale ≤ lcd.height := by
  have hscale : 1 ≤ qrcodeScale lcd (u16 w) (u16 dispW) (u16 startX) (u16 startY) :=
    (Int.le_ediv_iff_mul_le hw).2 (by omega)
  have hle : u16 w * qrcodeScale lcd (u16 w) (u16 dispW) (u16 startX) (u16 startY) ≤
      min (u16 dispW) (min (lcd.width - u16 startX) (lcd.height - u16 startY)) :=
    Int.mul_ediv_self_le hw.ne'
  exact ⟨hscale, Int.mul_pos hw hscale, by omega, by omega⟩

/-- **A code that begins on the screen**, or right below it. -/
theorem qrcode_within (hcall : QrcodeAccepted len w dispW startX startY)
    (hcond : ¬ (u16 dispW < u16 w ∨ lcd.width ≤ u16 startX ∨ lcd.width ≤ u16 startY))
    (hw : u16 w ≠ 0)
    (hbpp : lcd.bpp = 1 ∨ lcd.bpp = 16) (hy : u16 startY ≤ lcd.height) :
    QrcodeCorrect lcd data len w dispW startX startY ↔ QrcodeWithin lcd w dispW startX startY := by
  have hpos : 0 < u16 w := lt_of_le_of_ne (u16_range w).1 (Ne.symm hw)
  by_cases hsmall : min (u16 dispW) (min (lcd.width - u16 startX) (lcd.height - u16 startY)) < u16 w
  · -- the code does not fit
    refine ⟨fun _ => .inl hsmall, fun _ => qrcodeCorrect_of_nothing ?_⟩
    rw [dispQrcode_accepted hcall, qrcode_small]
    rw [qrcodeSide_within dispW (by omega) hy, coe_toU16]
    exact hsmall
  obtain ⟨hscale, hputs⟩ := dispQrcode_within data hcall hcond hw hbpp hy (not_lt.1 hsmall)
  obtain ⟨hone, hlen, hx', hy'⟩ := square_le hpos (not_lt.1 hsmall)
  have hstart : 0 ≤ u16 startX ∧ 0 ≤ u16 startY := ⟨(u16_range _).1, (u16_range _).1⟩
  have hin := qrcodeSquare_inFramebuffer_iff hbpp ⟨hstart.1, hx'⟩ ⟨hstart.2, hy'⟩ hlen data
  have hcount := @length_qrcodeSquare lcd data _ _ (u16 startX) (u16 startY) hlen.le
  have hmodules := hcall.modules
  have hcolumn := hcall.column
  have hrow := hcall.row
  constructor
  · rintro ⟨n, puts, hsome, hinside, hdrawn⟩
    obtain ⟨rfl, rfl⟩ := Prod.mk.inj (Option.some.inj (hputs.symm.trans hsome))
    have hne : (qrcodeSquare lcd data (u16 w)
        (qrcodeScale lcd (u16 w) (u16 dispW) (u16 startX) (u16 startY)) (u16 startX)
        (u16 startY)).length ≠ 0 := by
      intro h0
      rw [h0] at hcount
      exact absurd hcount.symm (pow_ne_zero 2 hlen.ne')
    have hsame := (hdrawn hne).scale
    rw [hscale] at hsame
    obtain ⟨hw', hx'', hy'', -⟩ := lt_of_one_le_qrcodeScale hcall (hsame ▸ hone)
    rw [u16_of_range hmodules.le hw', u16_of_range hcolumn hx'', u16_of_range hrow hy'']
      at hsame hin hinside
    refine .inr ⟨hw', hx'', hy'', hsame.symm, ?_⟩
    rw [← hsame]
    exact hin.1 hinside
  · rintro (hno | ⟨hw', hx'', hy'', hsame, hcorner⟩)
    · exact absurd hno hsmall
    · rw [u16_of_range hmodules.le hw', u16_of_range hcolumn hx'', u16_of_range hrow hy'', ← hsame]
        at hscale hputs hin hcount hx' hy'
      refine ⟨_, _, hputs, hin.2 hcorner, fun _ => ⟨?_, ?_, hcount⟩⟩
      · exact hscale
      · exact qrcodeSquare_shown ⟨hcolumn, hx'⟩ ⟨hrow, hy'⟩

/-! ### A code that begins below the screen -/

/-- The side is that of `qrcodeSide_below`. -/
theorem qrcodeSide_below_eq (hx : u16 startX < lcd.width) (hy : lcd.height < u16 startY) :
    qrcodeSide lcd (toU16 dispW) (toU16 startX) (toU16 startY) = 2 ^ 16 - (u16 startY - lcd.height) := by
  have hx' : toU16 startX < lcd.width := by
    rw [UInt16.lt_iff_toNat_lt, ← Int.ofNat_lt, coe_toU16]
    exact hx
  have hy' : lcd.height < toU16 startY := by
    rw [UInt16.lt_iff_toNat_lt, ← Int.ofNat_lt, coe_toU16]
    exact hy
  rw [qrcodeSide_below _ hx' hy', coe_toU16]

/-- What the loops store: nothing if the square ends behind 65535. -/
theorem length_qrcodeStored_below (data : Ptr) (startX : ℤ) {side : ℤ} (hw : toU16 w ≠ 0)
    (hside : u16 w ≤ side) (hy : lcd.height < u16 startY)
    (heq : side = 2 ^ 16 - (u16 startY - lcd.height)) :
    (qrcodeStored lcd data (toU16 w) (toU16 startX) (toU16 startY) side).length = 0 ↔
      side % u16 w ≤ lcd.height ∨ u16 startY - lcd.height + side % u16 w ≤ u16 startX := by
  rw [← coe_toU16 w] at hside ⊢
  obtain ⟨hpos, -, hlen, hle⟩ := square_le_side hw hside
  have hrem := Int.emod_lt_of_pos side hpos
  have hrem₀ := Int.emod_nonneg side hpos.ne'
  have hsquare := Int.mul_ediv_add_emod side (toU16 w)
  have hx := u16_range startX
  have hy' := u16_range startY
  simp only [qrcodeStored, length_qrcodePuts, Nat.mul_eq_zero, coe_toU16 startX, coe_toU16 startY]
  rw [u16_of_range (a := (toU16 w : ℤ) * (side / toU16 w)) (by omega) (by omega)]
  generalize ((toU16 w : ℤ)) * (side / toU16 w) = square at *
  generalize side % (toU16 w : ℤ) = rest at *
  rw [u16.eq_def (square + u16 startX), u16.eq_def (square + u16 startY)]
  omega

/-- **A code that begins below the screen** is correct if nothing is drawn. -/
theorem qrcode_below (hcall : QrcodeAccepted len w dispW startX startY)
    (hcond : ¬ (u16 dispW < u16 w ∨ lcd.width ≤ u16 startX ∨ lcd.width ≤ u16 startY))
    (hw : u16 w ≠ 0)
    (hbpp : lcd.bpp = 1 ∨ lcd.bpp = 16) (hy : lcd.height < u16 startY) :
    QrcodeCorrect lcd data len w dispW startX startY ↔ QrcodeBelow lcd w startX startY := by
  have hw' : toU16 w ≠ 0 := fun h0 => hw (toU16_eq_zero_iff.1 h0)
  have hside := @qrcodeSide_below_eq lcd dispW startX startY (by omega) hy
  by_cases hsmall : 2 ^ 16 - (u16 startY - lcd.height) < u16 w
  · -- the code does not fit
    refine ⟨fun _ => .inl hsmall, fun _ => qrcodeCorrect_of_nothing ?_⟩
    rw [dispQrcode_accepted hcall, qrcode_small]
    rw [hside, coe_toU16]
    exact hsmall
  have hle : (toU16 w : ℤ) ≤ qrcodeSide lcd (toU16 dispW) (toU16 startX) (toU16 startY) := by
    rw [hside, coe_toU16]
    exact not_lt.1 hsmall
  have hcount := length_qrcodeStored_below data startX hw' (not_lt.1 hsmall) hy rfl
  have hputs := @dispQrcode_accepted lcd data _ _ _ _ _ hcall
  rw [qrcode_loops (fun h => hcond (refused_iff.1 h)) hle hw' hbpp, hside] at hputs
  constructor
  · rintro ⟨n, puts, hsome, -, hdrawn⟩
    obtain ⟨rfl, rfl⟩ := Prod.mk.inj (Option.some.inj (hputs.symm.trans hsome))
    refine .inr (hcount.1 ?_)
    by_contra hne
    -- the scale that has been drawn is 1 or more, and there is no room for it
    have hsame := (hdrawn hne).scale
    have hone := (square_le_side hw' hle).2.1
    obtain ⟨-, -, hlt, hheight⟩ := lt_of_one_le_qrcodeScale hcall (hsame ▸ hone)
    rw [u16_of_range hcall.row hlt] at hy
    omega
  · rintro (hno | hends)
    · exact absurd hno hsmall
    · have hnil := List.length_eq_zero_iff.1 (hcount.2 hends)
      rw [hnil] at hputs
      exact qrcodeCorrect_of_nothing hputs

/-! ### All of it -/

/-- **`disp.putqrcode` is correct** for these arguments, and for no others that it accepts. -/
theorem disp_qrcode_iff (hcall : QrcodeAccepted len w dispW startX startY) :
    QrcodeCorrect lcd data len w dispW startX startY ↔ QrcodeArguments lcd w dispW startX startY := by
  by_cases hcond : u16 dispW < u16 w ∨ lcd.width ≤ u16 startX ∨ lcd.width ≤ u16 startY
  · refine ⟨fun _ => .inl hcond, fun _ => qrcodeCorrect_of_nothing ?_⟩
    rw [dispQrcode_accepted hcall, qrcode_refused (refused_iff.2 hcond)]
  by_cases hw : u16 w = 0
  · refine ⟨?_, ?_⟩
    · -- the division by zero
      rintro ⟨n, puts, hsome, -⟩
      rw [dispQrcode_accepted hcall,
        qrcode_zero (fun h => hcond (refused_iff.1 h)) (toU16_eq_zero_iff.2 hw)]
        at hsome
      cases hsome
    · rintro (h | ⟨hne, -⟩)
      · exact absurd h hcond
      · exact absurd hw hne
  have hrest : QrcodeArguments lcd w dispW startX startY ↔ ((lcd.bpp ≠ 1 ∧ lcd.bpp ≠ 16) ∨
      (u16 startY ≤ lcd.height ∧ QrcodeWithin lcd w dispW startX startY) ∨
      (lcd.height < u16 startY ∧ QrcodeBelow lcd w startX startY)) := by
    rw [QrcodeArguments, or_iff_right hcond]
    exact and_iff_right hw
  rw [hrest]
  by_cases hbpp : lcd.bpp = 1 ∨ lcd.bpp = 16
  · rw [or_iff_right (fun h => hbpp.elim h.1 h.2)]
    rcases le_or_gt (u16 startY) lcd.height with hy | hy
    · rw [qrcode_within hcall hcond hw hbpp hy, or_iff_left (fun h => not_lt.2 hy h.1)]
      exact (and_iff_right hy).symm
    · rw [qrcode_below hcall hcond hw hbpp hy, or_iff_right (fun h => not_le.2 hy h.1)]
      exact (and_iff_right hy).symm
  · refine ⟨fun _ => .inl (not_or.1 hbpp), fun _ => qrcodeCorrect_of_nothing ?_⟩
    rw [dispQrcode_accepted hcall, qrcode_other hbpp fun h0 => hw (toU16_eq_zero_iff.1 h0)]

end

/-- A 1-bpp screen of 128 by 64 pixels. -/
def wideLcd : Lcd := { width := 128, height := 64, bpp := 1, bus := .PLATFORM_LCD_BUS_SPI }

/-- 21 modules in 63 pixels: it is correct on this screen. -/
theorem disp_qrcode_iff_wide : QrcodeCorrect wideLcd (fun _ => 1) 441 21 64 10 0 := by
  refine (disp_qrcode_iff ⟨by decide, by decide, by decide, by decide, by decide⟩).2 (.inr ⟨by decide, ?_⟩)
  refine .inr (.inl ⟨by decide, .inr ⟨by decide, by decide, by decide, by decide, fun _ => ?_⟩⟩)
  decide

/-- Row 100 is below the screen, but 100 is less than its width: a code of 120 modules is drawn there,
and the first bit is behind the framebuffer. -/
theorem not_disp_qrcode_correct :
    QrcodeAccepted 14400 120 120 0 100 ∧ ¬ QrcodeCorrect wideLcd (fun _ => 0) 14400 120 120 0 100 := by
  have hcall : QrcodeAccepted 14400 120 120 0 100 :=
    ⟨by decide, by decide, by decide, by decide, by decide⟩
  refine ⟨hcall, ?_⟩
  rintro ⟨n, puts, hsome, hin, -⟩
  rw [dispQrcode_accepted hcall] at hsome
  obtain ⟨n', puts', hdrawn, p, hp, hrow, hcol⟩ := @mem_qrcode_below wideLcd (fun _ => 0) (toU16 120)
    (toU16 120) (toU16 0) (toU16 100) rfl (by decide) (by decide) (by decide) (by decide) (by decide)
    (by decide) (by decide)
  obtain ⟨rfl, rfl⟩ := Prod.mk.inj (Option.some.inj (hdrawn.symm.trans hsome))
  obtain ⟨on, hon⟩ := platformDispQrcode_bit rfl hdrawn hp
  have hlt := (hin p hp (100 / 8 * 128) (by
    simp only [Put.offsets, Put.index, hon, hrow, hcol]
    decide)).2
  exact absurd hlt (by decide)

end OsdCore
