import Mathlib.Data.Int.Range
import Mathlib.Logic.Function.Basic
import OsdCore.Format.Bytes

/-!
# The screen and its framebuffer: `common_disp.c`

An `int` is an integer.  A `u16` or `u32` expression is an integer that has been reduced; a `u16`
parameter is a `UInt16`.  Memory is modelled from a pointer on, so that an index may be negative or too
large.

* `Lcd`, `platformDispInit` : the settings of the screen, and the size of the framebuffer that is
  allocated.
* `Put` : one bit or one pixel that a drawing routine stores; every routine is modelled by the list of
  them.
* `Put.InScreen` : its row and its column are on the screen.
-/

namespace OsdCore

/-! ### Integers and memory -/

/-- An `int` stored in a `u16`. -/
def u16 (a : ℤ) : ℤ := a % 2 ^ 16

/-- An `int` in a `u32` expression. -/
def u32 (a : ℤ) : ℤ := a % 2 ^ 32

theorem u16_range (a : ℤ) : 0 ≤ u16 a ∧ u16 a < 2 ^ 16 := by
  unfold u16
  omega

theorem u16_of_range {a : ℤ} (h : 0 ≤ a) (h' : a < 2 ^ 16) : u16 a = a := Int.emod_eq_of_lt h h'

theorem u32_range (a : ℤ) : 0 ≤ u32 a ∧ u32 a < 2 ^ 32 := by
  unfold u32
  omega

theorem u32_of_range {a : ℤ} (h : 0 ≤ a) (h' : a < 2 ^ 32) : u32 a = a := Int.emod_eq_of_lt h h'

/-- A `u16` in an `int` expression. -/
instance coeUInt16 : Coe UInt16 ℤ := ⟨fun a => (a.toNat : ℤ)⟩

/-- A sum of `u16`s that is stored in a `u16`. -/
theorem coe_add (a b : UInt16) : ((a + b : UInt16) : ℤ) = u16 (a + b) := by
  rw [UInt16.toNat_add, u16]
  omega

/-- The bytes from a pointer on. -/
abbrev Ptr := ℤ → UInt8

namespace Ptr

/-- A packed `u16`. -/
def u16At (m : Ptr) (i : ℤ) : ℤ := (m i).toNat + 2 ^ 8 * (m (i + 1)).toNat

/-- A packed `u32`. -/
def u32At (m : Ptr) (i : ℤ) : ℤ := m.u16At i + 2 ^ 16 * m.u16At (i + 2)

/-- The bytes of a buffer; behind it and before it there is 0. -/
def ofBytes (b : Bytes) : Ptr := fun i => if 0 ≤ i then b.getD i.toNat 0 else 0

end Ptr

/-! ### The screen -/

/-- A colour, an `int`. -/
abbrev Colour := BitVec 32

def COLOR_WHITE : Colour := 0xffff
def COLOR_BLACK : Colour := 0x0000

/-- `PlatformLcdBus`. -/
inductive LcdBus where
  | PLATFORM_LCD_BUS_SPI4LINE
  | PLATFORM_LCD_BUS_PARALLEL
  | PLATFORM_LCD_BUS_I2C
  | PLATFORM_LCD_BUS_SPI
deriving DecidableEq, Repr

/-- What the drawing routines return: `PLATFORM_ERR`, `PLATFORM_OK`. -/
inductive DispResult where
  | PLATFORM_ERR
  | PLATFORM_OK
deriving DecidableEq, Repr

/-- The variables `lcd_*` and `disp_*`. -/
structure Lcd where
  width : UInt16
  height : UInt16
  bpp : UInt8
  bus : LcdBus
  dispColor : Colour := COLOR_BLACK
  dispBkcolor : Colour := COLOR_WHITE
  hwfillcolor : Colour := COLOR_BLACK
deriving DecidableEq, Repr

/-- What `platform_disp_init` itself reads of `PlatformDispInitParam`. -/
structure DispInitParam where
  width : UInt16
  height : UInt16
  bpp : UInt8
  bus : LcdBus
  hwfillcolor : Colour
deriving DecidableEq, Repr

/-- `platform_disp_init` without `AM_LAYER_SUPPORT`: the screen, and the size of its framebuffer in
bytes; `none` where the assertion fails. -/
def platformDispInit (lcd : Lcd) (p : DispInitParam) : Option (Lcd × ℤ) :=
  if p.bpp = 16 ∨ p.bpp = 24 ∨ p.bpp = 1 then
    let lcd := { lcd with width := p.width, height := p.height, bpp := p.bpp, bus := p.bus }
    let size := (lcd.width : ℤ) * lcd.height * lcd.bpp.toNat / 8
    if lcd.bpp = 1 then
      some ({ lcd with
        dispBkcolor := COLOR_WHITE
        dispColor := COLOR_BLACK
        hwfillcolor := if p.hwfillcolor ≠ -1 then p.hwfillcolor else lcd.hwfillcolor }, size)
    else some (lcd, size)
  else none

namespace Lcd

/-- A colour as a pixel of the framebuffer: an SPI bus takes the upper byte first. -/
def busPixel (lcd : Lcd) (color : Colour) : BitVec 16 :=
  if lcd.bus ≠ .PLATFORM_LCD_BUS_SPI then color.setWidth 16
  else (color.sshiftRight 8 ||| (color &&& 0xff) <<< 8).setWidth 16

/-- Is a bit of this colour set in the framebuffer: `color ^ lcd_hwfillcolor` is 0? -/
def fills (lcd : Lcd) (color : Colour) : Bool := color ^^^ lcd.hwfillcolor == 0

/-- A screen is not of both kinds. -/
theorem bpp_ne_one {lcd : Lcd} (h16 : lcd.bpp = 16) : lcd.bpp ≠ 1 := by
  rw [h16]
  decide

theorem bpp_ne_sixteen {lcd : Lcd} (h1 : lcd.bpp = 1) : lcd.bpp ≠ 16 := by
  rw [h1]
  decide

end Lcd

/-- `platform_disp_setcolor`. -/
def platformDispSetcolor (lcd : Lcd) (color : Colour) : Colour × Lcd :=
  (lcd.dispColor, { lcd with dispColor := color })

/-- `platform_disp_setbkcolor`. -/
def platformDispSetbkcolor (lcd : Lcd) (color : Colour) : Colour × Lcd :=
  (lcd.dispBkcolor, { lcd with dispBkcolor := color })

/-! ### What is stored -/

/-- What is stored at a place. -/
inductive Ink where
  /-- A bit is set or cleared, and the other bits of its byte are kept. -/
  | bit (on : Bool)
  | pixel (value : BitVec 16)
deriving DecidableEq, Repr

/-- A row, a column, and what is stored there. -/
structure Put where
  row : ℤ
  col : ℤ
  ink : Ink
deriving DecidableEq, Repr

namespace Put

/-- The index in the framebuffer: of a byte, 8 rows to a page, or of a pixel. -/
def index (lcdWidth : ℤ) (p : Put) : ℤ :=
  match p.ink with
  | .bit _ => p.row / 8 * lcdWidth + p.col
  | .pixel _ => p.row * lcdWidth + p.col

/-- The offsets of the bytes it changes. -/
def offsets (lcdWidth : ℤ) (p : Put) : List ℤ :=
  match p.ink with
  | .bit _ => [p.index lcdWidth]
  | .pixel _ => [2 * p.index lcdWidth, 2 * p.index lcdWidth + 1]

/-- The framebuffer afterwards. -/
def store (lcdWidth : ℤ) (framebuffer : Ptr) (p : Put) : Ptr :=
  let i := p.index lcdWidth
  match p.ink with
  | .bit on =>
    let mask : UInt8 := 1 <<< UInt8.ofNat (p.row % 8).toNat
    Function.update framebuffer i (if on then framebuffer i ||| mask else framebuffer i &&& ~~~mask)
  | .pixel value =>
    Function.update (Function.update framebuffer (2 * i) (UInt8.ofNat value.toNat)) (2 * i + 1)
      (UInt8.ofNat (value.toNat / 2 ^ 8))

/-- It is on the screen. -/
def InScreen (lcd : Lcd) (p : Put) : Prop :=
  (0 ≤ p.col ∧ p.col < lcd.width) ∧ 0 ≤ p.row ∧ p.row < lcd.height

instance (lcd : Lcd) (p : Put) : Decidable (p.InScreen lcd) :=
  inferInstanceAs (Decidable ((_ ∧ _) ∧ _ ∧ _))

variable {lcd : Lcd} {p : Put} {framebuffer : Ptr} {i : ℤ}

/-- **The other bytes are unchanged.** -/
theorem store_of_notMem (h : i ∉ p.offsets lcd.width) :
    store lcd.width framebuffer p i = framebuffer i := by
  unfold store
  unfold offsets at h
  cases hink : p.ink with
  | bit on =>
    rw [hink] at h
    exact Function.update_of_ne (List.ne_of_not_mem_cons h) ..
  | pixel value =>
    rw [hink] at h
    obtain ⟨hlow, hhigh⟩ := List.ne_and_not_mem_of_not_mem_cons h
    dsimp only
    rw [Function.update_of_ne (List.ne_of_not_mem_cons hhigh), Function.update_of_ne hlow]

theorem foldl_store_of_notMem {puts : List Put} (h : i ∉ puts.flatMap (offsets lcd.width)) :
    puts.foldl (store lcd.width) framebuffer i = framebuffer i := by
  induction puts generalizing framebuffer with
  | nil => rfl
  | cons p puts ih =>
    rw [List.flatMap_cons, List.mem_append, not_or] at h
    rw [List.foldl_cons, ih h.2, store_of_notMem h.1]

end Put

end OsdCore
