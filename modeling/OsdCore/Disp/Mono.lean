import OsdCore.Disp.Image
import OsdCore.Disp.Shapes
import OsdCore.Disp.Text
import OsdCore.Prog.Machine

/-!
# One-bit screens

The calls that draw on a 1-bpp screen, one after the other.  The framebuffer has 8 rows to a page, and
its size is `width * height / 8`.

* `DispCall.puts_inScreen` : every call is clipped at the edges of the screen, but a QR code that begins
  below it.
* `framebuffer_of_notMem_written` : `Display.written` has every byte that a run changes.
* `framebuffer_bounded_iff` : the runs without such a QR code stay inside the framebuffer if and only if
  the last page is whole.
-/

namespace OsdCore

/-- A call, with the arguments that its caller can pass.  The fonts are those at the time of the call. -/
inductive DispCall where
  | setcolor (color : Colour)
  | setbkcolor (color : Colour)
  | puttext (fonts : Fonts) (bitmap : DispBitmap) (string : Bytes) (x y : UInt16)
  | putBmp (bitmapBuffer : Ptr) (x y : UInt16) (transcolor : Colour) (left top right bottom : UInt16)
  | drawrect (x1 y1 x2 y2 : ℤ) (color : Colour)
  | qrcode (data : Ptr) (w dispW startX startY : UInt16)

namespace DispCall

/-- What is stored in the framebuffer. -/
def puts (lcd : Lcd) : DispCall → Option (List Put)
  | setcolor _ => some []
  | setbkcolor _ => some []
  | puttext fonts bitmap string x y => some (platformDispPuttext lcd fonts bitmap string x y)
  | putBmp bitmapBuffer x y transcolor left top right bottom =>
    some (putBmpFileBuff lcd bitmapBuffer x y transcolor ⟨left, top, right, bottom⟩).2
  | drawrect x1 y1 x2 y2 color => some (platformDispDrawrect lcd x1 y1 x2 y2 color).2
  | qrcode data w dispW startX startY => (platformDispQrcode lcd data w dispW startX startY).map (·.2)

/-- The settings afterwards. -/
def lcdAfter (lcd : Lcd) : DispCall → Lcd
  | setcolor color => (platformDispSetcolor lcd color).2
  | setbkcolor color => (platformDispSetbkcolor lcd color).2
  | _ => lcd

end DispCall

/-- The screen, its framebuffer, and the offsets of all the bytes that have been written. -/
structure Display where
  lcd : Lcd
  framebuffer : Ptr
  written : List ℤ

/-- One call; `none` where it has no defined behaviour. -/
def dispStep (s : Display) (c : DispCall) : Option Display :=
  (c.puts s.lcd).map fun puts =>
    { lcd := c.lcdAfter s.lcd
      framebuffer := puts.foldl (Put.store s.lcd.width) s.framebuffer
      written := s.written ++ puts.flatMap (Put.offsets s.lcd.width) }

/-- A QR code does not begin below the screen, or it is refused. -/
def BeginsOnScreen (s : Display) : DispCall → Prop
  | .qrcode _ _ _ _ startY => startY ≤ s.lcd.height ∨ s.lcd.width ≤ startY
  | _ => True

/-! ### A call -/

section

variable {lcd : Lcd} {c : DispCall} {puts : List Put} {p : Put} {s s' : Display}

/-- **What a call stores on a 1-bpp screen**: bits, of rows and columns that are on the screen. -/
theorem DispCall.puts_inScreen {framebuffer : Ptr} {written : List ℤ} (hbpp : lcd.bpp = 1)
    (hc : BeginsOnScreen ⟨lcd, framebuffer, written⟩ c) (h : c.puts lcd = some puts) (hp : p ∈ puts) :
    p.InScreen lcd ∧ ∃ on, p.ink = .bit on := by
  cases c with
  | setcolor color =>
    obtain rfl := Option.some.inj h
    cases hp
  | setbkcolor color =>
    obtain rfl := Option.some.inj h
    cases hp
  | puttext fonts bitmap string x y =>
    obtain rfl := Option.some.inj h
    obtain ⟨hscreen, hink⟩ := mem_puttext hp
    rw [textInk, if_pos hbpp] at hink
    exact ⟨hscreen, _, hink⟩
  | putBmp bitmapBuffer x y transcolor left top right bottom =>
    obtain rfl := Option.some.inj h
    exact ⟨putBmp_inScreen (Int.natCast_nonneg _) (Int.natCast_nonneg _) hp, putBmp_bit hbpp hp⟩
  | drawrect x1 y1 x2 y2 color =>
    obtain rfl := Option.some.inj h
    have hrect := platformDispDrawrect_bpp1 hbpp hp
    exact ⟨hrect.1, _, hrect.2⟩
  | qrcode data w dispW startX startY =>
    obtain ⟨⟨n, puts⟩, hqr, rfl⟩ := Option.map_eq_some_iff.1 h
    exact ⟨platformDispQrcode_inScreen hqr hc hp, platformDispQrcode_bit hbpp hqr hp⟩

theorem DispCall.lcdAfter_size (c : DispCall) (lcd : Lcd) :
    (c.lcdAfter lcd).width = lcd.width ∧ (c.lcdAfter lcd).height = lcd.height ∧
      (c.lcdAfter lcd).bpp = lcd.bpp := by
  cases c <;> exact ⟨rfl, rfl, rfl⟩

end

/-! ### Pages -/

section

variable {row col width height : ℤ}

/-- Where the last page is whole, a bit of the screen is inside the framebuffer. -/
theorem page_index_lt (h8 : height % 8 = 0) (hcol : 0 ≤ col ∧ col < width) (hrow : 0 ≤ row ∧ row < height) :
    0 ≤ row / 8 * width + col ∧ row / 8 * width + col < width * height / 8 := by
  obtain ⟨q, rfl⟩ := Int.dvd_of_emod_eq_zero h8
  have hsize : width * (8 * q) / 8 = q * width := by
    rw [show width * (8 * q) = q * width * 8 by ring, Int.mul_ediv_cancel _ (by decide)]
  have hpage : 0 ≤ row / 8 * width := Int.mul_nonneg (by omega) (by omega)
  have hlast : row / 8 * width ≤ (q - 1) * width :=
    Int.mul_le_mul_of_nonneg_right (by omega) (by omega)
  rw [sub_one_mul] at hlast
  omega

/-- Where the last page is not whole, the last bit of the screen is behind the framebuffer. -/
theorem size_le_page_index (width height : ℤ) (h8 : height % 8 ≠ 0) (hwidth : 0 < width) :
    width * height / 8 ≤ (height - 1) / 8 * width + (width - 1) := by
  have hpage : (height - 1) / 8 = height / 8 := by omega
  have hsplit : width * height = height / 8 * width * 8 + height % 8 * width := by
    calc width * height = (height % 8 + 8 * (height / 8)) * width := by
          rw [Int.emod_add_mul_ediv, mul_comm]
      _ = height / 8 * width * 8 + height % 8 * width := by ring
  have hpart : height % 8 * width ≤ 7 * width := Int.mul_le_mul_of_nonneg_right (by omega) hwidth.le
  rw [hpage]
  omega

end

/-! ### Runs -/

/-- **The bytes that no call has written are unchanged**, on every screen and in every run. -/
theorem framebuffer_of_notMem_written {ok : Display → DispCall → Prop} {lcd : Lcd} {framebuffer : Ptr}
    {s : Display} (h : Steps dispStep ok ⟨lcd, framebuffer, []⟩ s) :
    ∀ i ∉ s.written, s.framebuffer i = framebuffer i := by
  refine h.invariant (I := fun s => ∀ i ∉ s.written, s.framebuffer i = framebuffer i)
    (fun _ _ => rfl) ?_
  intro s c s' hs _ hstep i hi
  obtain ⟨puts, -, rfl⟩ := Option.map_eq_some_iff.1 hstep
  rw [List.mem_append, not_or] at hi
  exact (Put.foldl_store_of_notMem hi.2).trans (hs i hi.1)

/-- A 1-bpp screen whose framebuffer has been written inside only. -/
structure Display.Good (lcd : Lcd) (s : Display) : Prop where
  width : s.lcd.width = lcd.width
  height : s.lcd.height = lcd.height
  bpp : s.lcd.bpp = 1
  inside : ∀ i ∈ s.written, 0 ≤ i ∧ i < (lcd.width : ℤ) * lcd.height / 8

section

variable {lcd lcd₀ : Lcd} {param : DispInitParam} {size : ℤ} {framebuffer : Ptr} {s s' : Display}
  {c : DispCall}

/-- A bit on the screen is inside the framebuffer. -/
theorem Put.InScreen.offset_lt {p : Put} {i : ℤ} {on : Bool} (h : p.InScreen lcd) (hink : p.ink = .bit on)
    (h8 : (lcd.height : ℤ) % 8 = 0 ∨ (lcd.width : ℤ) = 0) (hi : i ∈ p.offsets lcd.width) :
    0 ≤ i ∧ i < (lcd.width : ℤ) * lcd.height / 8 := by
  unfold offsets index at hi
  rw [hink] at hi
  obtain rfl := List.mem_singleton.1 hi
  obtain ⟨hcol, hrow⟩ := h
  exact page_index_lt (h8.resolve_right (by omega)) hcol hrow

/-- **A call writes inside the framebuffer.** -/
theorem Display.good_step (h8 : (lcd.height : ℤ) % 8 = 0 ∨ (lcd.width : ℤ) = 0) (hs : s.Good lcd)
    (hc : BeginsOnScreen s c) (h : dispStep s c = some s') : s'.Good lcd := by
  obtain ⟨puts, hputs, rfl⟩ := Option.map_eq_some_iff.1 h
  obtain ⟨hw, hh, hb⟩ := c.lcdAfter_size s.lcd
  refine ⟨hw.trans hs.width, hh.trans hs.height, hb.trans hs.bpp, ?_⟩
  intro i hi
  rcases List.mem_append.1 hi with hold | hnew
  · exact hs.inside i hold
  · obtain ⟨p, hp, hoff⟩ := List.mem_flatMap.1 hnew
    obtain ⟨hscreen, on, hink⟩ := DispCall.puts_inScreen hs.bpp hc hputs hp
    rw [← hs.width, ← hs.height] at h8 ⊢
    exact hscreen.offset_lt hink h8 hoff

/-- What `platform_disp_init` makes of a 1-bpp screen. -/
theorem platformDispInit_bpp1 (hbpp : param.bpp = 1)
    (hinit : platformDispInit lcd₀ param = some (lcd, size)) :
    (lcd.width = param.width ∧ lcd.height = param.height ∧ lcd.bpp = 1) ∧
      size = (param.width : ℤ) * param.height / 8 := by
  unfold platformDispInit at hinit
  dsimp only at hinit
  rw [if_pos (.inr (.inr hbpp)), if_pos hbpp, hbpp] at hinit
  obtain ⟨rfl, rfl⟩ := Prod.mk.inj (Option.some.inj hinit)
  exact ⟨⟨rfl, rfl, rfl⟩, congrArg (· / 8) (mul_one ((param.width : ℤ) * param.height))⟩

/-- A BMP of one pixel, of one bit. -/
def dotBmp : Ptr := Ptr.ofBytes
  [0x42, 0x4D, 66, 0, 0, 0, 0, 0, 0, 0, 62, 0, 0, 0,
   40, 0, 0, 0, 1, 0, 0, 0, 1, 0, 0, 0, 1, 0, 1, 0, 0, 0, 0, 0, 4, 0, 0, 0,
   0, 0, 0, 0, 0, 0, 0, 0, 0, 0, 0, 0, 0, 0, 0, 0,
   0, 0, 0, 0, 0xFF, 0xFF, 0xFF, 0, 0x80, 0, 0, 0]

theorem bmpHeader_dotBmp : bmpHeader dotBmp = ⟨62, 1, 1, 1, 1⟩ := by decide

theorem range_succ_self (a : ℤ) : Int.range a (a + 1) = [a] := by
  unfold Int.range
  rw [add_sub_cancel_left]
  exact congrArg (fun r => [r]) (add_zero a)

/-- Where the dot is on the screen, it is drawn there. -/
theorem mem_putBmp_dot {x y : UInt16} (hbpp : lcd.bpp = 1) (hx : x < lcd.width) (hy : y < lcd.height) :
    ∃ on, ⟨y, x, .bit on⟩ ∈ (putBmpFileBuff lcd dotBmp x y (-1) ⟨0, 0, 0, 0⟩).2 := by
  rw [UInt16.lt_iff_toNat_lt] at hx hy
  have hwidth := lcd.width.toNat_lt
  have hheight := lcd.height.toNat_lt
  have hendX : BmpHeader.endX ⟨62, 1, 1, 1, 1⟩ lcd x ⟨0, 0, 0, 0⟩ = (x : ℤ) + 1 := by
    unfold BmpHeader.endX
    rw [if_pos (by decide)]
    dsimp only
    rw [u32_of_range (by omega) (by omega), u16_of_range (by omega) (by omega)]
    omega
  have hendY : BmpHeader.endY ⟨62, 1, 1, 1, 1⟩ lcd y ⟨0, 0, 0, 0⟩ = (y : ℤ) + 1 := by
    unfold BmpHeader.endY
    rw [if_pos (by decide)]
    dsimp only
    rw [u32_of_range (by omega) (by omega), u16_of_range (by omega) (by omega)]
    omega
  have hrows : bmpRows ⟨62, 1, 1, 1, 1⟩ lcd y ⟨0, 0, 0, 0⟩ = [((y : ℤ), 0)] := by
    unfold bmpRows
    dsimp only
    rw [hendY, u16_of_range (by omega) (by omega), range_succ_self, List.map_singleton, sub_self]
    rfl
  have hcells : bmpCells ⟨62, 1, 1, 1, 1⟩ lcd x y ⟨0, 0, 0, 0⟩ = [⟨y, x, 0, 0⟩] := by
    unfold bmpCells
    rw [hrows, hendX, u16_of_range (by omega) (by omega), range_succ_self, List.flatMap_singleton,
      List.map_singleton, sub_self]
    rfl
  unfold putBmpFileBuff
  dsimp only
  rw [if_neg (by decide), bmpHeader_dotBmp, if_pos ⟨hbpp, rfl⟩, hcells]
  exact ⟨_, List.mem_singleton_self _⟩

theorem toNat_sub_one {a : UInt16} (h : 0 < (a : ℤ)) : ((a - 1 : UInt16) : ℤ) = a - 1 := by
  have h1 : (1 : UInt16) ≤ a := UInt16.le_iff_toNat_le.2 (by change 1 ≤ a.toNat; omega)
  rw [UInt16.toNat_sub_of_le _ _ h1]
  change ((a.toNat - 1 : ℕ) : ℤ) = _
  omega

/-- Every run writes inside a framebuffer of this size, if its QR codes do not begin below the screen. -/
def RunsInside (lcd : Lcd) (framebuffer : Ptr) (size : ℤ) : Prop :=
  ∀ s, Steps dispStep BeginsOnScreen ⟨lcd, framebuffer, []⟩ s → ∀ i ∈ s.written, 0 ≤ i ∧ i < size

/-- **One-bit display bounds.**  The runs of a 1-bpp screen in which no QR code begins below the screen
write inside the framebuffer that `platform_disp_init` has allocated, if and only if the last page is
whole. -/
theorem framebuffer_bounded_iff (hbpp : param.bpp = 1)
    (hinit : platformDispInit lcd₀ param = some (lcd, size)) :
    RunsInside lcd framebuffer size ↔ param.height % 8 = 0 ∨ param.width = 0 := by
  obtain ⟨⟨hw, hh, hb⟩, rfl⟩ := platformDispInit_bpp1 hbpp hinit
  rw [← hw, ← hh]
  have h8 : lcd.height % 8 = 0 ∨ lcd.width = 0 ↔ (lcd.height : ℤ) % 8 = 0 ∨ (lcd.width : ℤ) = 0 := by
    rw [← UInt16.toNat_inj, ← UInt16.toNat_inj, UInt16.toNat_mod]
    change _ % 8 = 0 ∨ _ = 0 ↔ _
    omega
  rw [h8]
  constructor
  · intro hall
    by_contra hpart
    have hwidth := lcd.width.toNat_lt
    have hheight := lcd.height.toNat_lt
    -- the dot is drawn in the lower right corner
    have hx := toNat_sub_one (a := lcd.width) (by omega)
    have hy := toNat_sub_one (a := lcd.height) (by omega)
    obtain ⟨on, hdot⟩ := mem_putBmp_dot (x := lcd.width - 1) (y := lcd.height - 1) hb
      (UInt16.lt_iff_toNat_lt.2 (by omega)) (UInt16.lt_iff_toNat_lt.2 (by omega))
    have hstep : Steps dispStep BeginsOnScreen ⟨lcd, framebuffer, []⟩ _ :=
      .single (a := .putBmp dotBmp (lcd.width - 1) (lcd.height - 1) (-1) 0 0 0 0) trivial rfl
    have hcorner := (hall _ hstep _ (List.mem_flatMap.2 ⟨_, hdot, List.mem_singleton_self _⟩)).2
    have hbehind := size_le_page_index lcd.width lcd.height (by omega) (by omega)
    unfold Put.index at hcorner
    dsimp only at hcorner
    rw [hx, hy] at hcorner
    omega
  · intro h s hs
    refine (hs.invariant (I := Display.Good lcd) ⟨rfl, rfl, hb, ?_⟩ ?_).inside
    · intro i hi
      cases hi
    · intro s c s' hgood hc hstep
      exact Display.good_step h hgood hc hstep

end

/-- A 1-bpp screen of 128 by 64 pixels. -/
def oledParam : DispInitParam :=
  { width := 128, height := 64, bpp := 1, bus := .PLATFORM_LCD_BUS_SPI, hwfillcolor := -1 }

def oledLcd : Lcd := { width := 128, height := 64, bpp := 1, bus := .PLATFORM_LCD_BUS_SPI }

theorem framebuffer_bounded_oled : RunsInside oledLcd (fun _ => 0) 1024 := by
  have hinit : platformDispInit oledLcd oledParam = some (oledLcd, 1024) := rfl
  exact (framebuffer_bounded_iff rfl hinit).2 (.inl rfl)

/-- A screen of 8 by 4 pixels has 4 bytes; the dot in its lower right corner is in byte 7. -/
theorem not_framebuffer_bounded :
    ¬ ∀ (param : DispInitParam) (lcd₀ lcd : Lcd) (size : ℤ) (framebuffer : Ptr), param.bpp = 1 →
      platformDispInit lcd₀ param = some (lcd, size) →
        ∀ s, Steps dispStep (fun _ _ => True) ⟨lcd, framebuffer, []⟩ s →
          ∀ i ∈ s.written, 0 ≤ i ∧ i < size := by
  intro h
  have hrun : (replay dispStep (fun _ _ => True) [.putBmp dotBmp 7 3 (-1) 0 0 0 0]
      ⟨{ width := 8, height := 4, bpp := 1, bus := .PLATFORM_LCD_BUS_SPI }, fun _ => 0, []⟩).any
        (fun s => s.written.any (4 ≤ ·)) = true := by decide
  obtain ⟨s, hs, hcorner⟩ := exists_of_replay hrun
  obtain ⟨i, hi, h4⟩ := List.any_eq_true.1 hcorner
  have hlt := (h ⟨8, 4, 1, .PLATFORM_LCD_BUS_SPI, -1⟩ oledLcd _ _ _ rfl rfl s hs i hi).2
  exact absurd hlt (not_lt.2 (of_decide_eq_true h4))

end OsdCore
