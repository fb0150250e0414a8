import Mathlib.Data.Rat.Floor
import OsdCore.Format.Bytes

/-!
# The pressure sensor: `bmp280.c`

A `double` is a rational number, and what is computed with it is exact.  The registers of the sensor are a
function, of which the driver reads the bytes; its bus is there.

* `Bmp280.init` : the calibration words, as `bmp280_init` stores them.
* `bmp280Temperature`, `bmp280Pressure` : what the driver computes.
* `luaBmp280Temperature`, `luaBmp280Pressure` : what the two calls return; `none` where a `double` does not
  fit in an `int`.
* `Calibration`, `Calibration.temperature`, `Calibration.pressure` : the same of the datasheet.
-/

namespace OsdCore

/-- The registers of the sensor. -/
abbrev Registers := UInt8 → UInt8

/-- A word of two registers, the lower byte first. -/
def Registers.word (regs : Registers) (addr : UInt8) : UInt16 :=
  (regs (addr + 1)).toUInt16 <<< 8 ||| (regs addr).toUInt16

/-- A raw reading of 20 bits: the two upper bytes, and the upper half of the third. -/
def Registers.raw (regs : Registers) (addr : UInt8) : ℕ :=
  (regs addr).toNat <<< 12 ||| (regs (addr + 1)).toNat <<< 4 ||| (regs (addr + 2)).toNat >>> 4

/-- The integer part of a number. -/
def truncate (q : ℚ) : ℤ := if 0 ≤ q then ⌊q⌋ else ⌈q⌉

/-- A `double` in an `int`; `none` where it does not fit: no defined behaviour. -/
def doubleToInt (q : ℚ) : Option ℤ :=
  if -2 ^ 31 ≤ truncate q ∧ truncate q < 2 ^ 31 then some (truncate q) else none

/-! ### The driver -/

/-- `bmp280_tdata` and `bmp280_pdata`. -/
structure Bmp280 where
  tdata : Fin 3 → UInt16
  pdata : Fin 9 → UInt16

/-- `bmp280_init` : the words that it reads. -/
def Bmp280.init (regs : Registers) : Bmp280 where
  tdata i := regs.word (0x88 + 2 * UInt8.ofNat i)
  pdata i := regs.word (0x8e + 2 * UInt8.ofNat i)

/-- A calibration word, as a `double`. -/
def double (w : UInt16) : ℚ := w.toNat

/-- `bmp280_temperature`. -/
def bmp280Temperature (cal : Bmp280) (regs : Registers) : ℚ :=
  let adcT : ℚ := regs.raw 0xfa
  let var1 := (adcT / 16384 - double (cal.tdata 0) / 1024) * double (cal.tdata 1)
  let var2 := ((adcT / 131072 - double (cal.tdata 0) / 8192) *
    (adcT / 131072 - double (cal.tdata 0) / 8192)) * double (cal.tdata 2)
  (var1 + var2) / 5120

/-- `bmp280_pressure`. -/
def bmp280Pressure (cal : Bmp280) (regs : Registers) (temperature : ℚ) : ℚ :=
  let tFine := temperature * 5120
  let adcP : ℚ := regs.raw 0xf7
  let var1 := tFine / 2 - 64000
  let var2 := var1 * var1 * double (cal.pdata 5) / 32768
  let var2 := var2 + var1 * double (cal.pdata 4) * 2
  let var2 := var2 / 4 + double (cal.pdata 3) * 65536
  let var1 := (double (cal.pdata 2) * var1 * var1 / 524288 + double (cal.pdata 1) * var1) / 524288
  let var1 := (1 + var1 / 32768) * double (cal.pdata 0)
  if var1 = 0 then 0
  else
    let pressure := 1048576 - adcP
    let pressure := (pressure - var2 / 4096) * 6250 / var1
    let var1 := double (cal.pdata 8) * pressure * pressure / 2147483648
    let var2 := pressure * double (cal.pdata 7) / 32768
    pressure + (var1 + var2 + double (cal.pdata 6)) / 16

/-- `lua_bmp280_temperature`. -/
def luaBmp280Temperature (cal : Bmp280) (regs : Registers) : Option ℤ :=
  doubleToInt (bmp280Temperature cal regs)

/-- `lua_bmp280_pressure` : the temperature is an `int` between the two. -/
def luaBmp280Pressure (cal : Bmp280) (regs : Registers) : Option ℤ :=
  (doubleToInt (bmp280Temperature cal regs)).bind fun temperature =>
    doubleToInt (bmp280Pressure cal regs temperature)

/-! ### The datasheet -/

/-- The calibration of the datasheet: `T1` and `P1` are unsigned, the others signed. -/
structure Calibration where
  digT1 : ℤ
  digT2 : ℤ
  digT3 : ℤ
  digP1 : ℤ
  digP2 : ℤ
  digP3 : ℤ
  digP4 : ℤ
  digP5 : ℤ
  digP6 : ℤ
  digP7 : ℤ
  digP8 : ℤ
  digP9 : ℤ
deriving DecidableEq, Repr

namespace Calibration

/-- What the registers hold. -/
def ofRegisters (regs : Registers) : Calibration where
  digT1 := (regs.word 0x88).toNat
  digT2 := (regs.word 0x8a).toBitVec.toInt
  digT3 := (regs.word 0x8c).toBitVec.toInt
  digP1 := (regs.word 0x8e).toNat
  digP2 := (regs.word 0x90).toBitVec.toInt
  digP3 := (regs.word 0x92).toBitVec.toInt
  digP4 := (regs.word 0x94).toBitVec.toInt
  digP5 := (regs.word 0x96).toBitVec.toInt
  digP6 := (regs.word 0x98).toBitVec.toInt
  digP7 := (regs.word 0x9a).toBitVec.toInt
  digP8 := (regs.word 0x9c).toBitVec.toInt
  digP9 := (regs.word 0x9e).toBitVec.toInt

variable (c : Calibration)

/-- The fine temperature, before it is made an integer. -/
def fineReal (adcT : ℕ) : ℚ :=
  let var1 : ℚ := ((adcT : ℚ) / 16384 - c.digT1 / 1024) * c.digT2
  let var2 : ℚ := ((adcT : ℚ) / 131072 - c.digT1 / 8192) * ((adcT : ℚ) / 131072 - c.digT1 / 8192) * c.digT3
  var1 + var2

/-- `t_fine`, an integer. -/
def tFine (adcT : ℕ) : ℤ := truncate (c.fineReal adcT)

/-- The temperature in degrees. -/
def temperature (adcT : ℕ) : ℚ := c.fineReal adcT / 5120

/-- The pressure in Pa. -/
def pressure (adcT adcP : ℕ) : ℚ :=
  let var1 : ℚ := c.tFine adcT / 2 - 64000
  let var2 : ℚ := var1 * var1 * c.digP6 / 32768
  let var2 : ℚ := var2 + var1 * c.digP5 * 2
  let var2 : ℚ := var2 / 4 + c.digP4 * 65536
  let var1 : ℚ := (c.digP3 * var1 * var1 / 524288 + c.digP2 * var1) / 524288
  let var1 : ℚ := (1 + var1 / 32768) * c.digP1
  if var1 = 0 then 0
  else
    let p : ℚ := 1048576 - adcP
    let p : ℚ := (p - var2 / 4096) * 6250 / var1
    let var1 : ℚ := c.digP9 * p * p / 2147483648
    let var2 : ℚ := p * c.digP8 / 32768
    p + (var1 + var2 + c.digP7) / 16

/-- No signed word is negative: of the temperature, and of both. -/
def TUnsigned : Prop := 0 ≤ c.digT2 ∧ 0 ≤ c.digT3

def PUnsigned : Prop :=
  0 ≤ c.digP2 ∧ 0 ≤ c.digP3 ∧ 0 ≤ c.digP4 ∧ 0 ≤ c.digP5 ∧ 0 ≤ c.digP6 ∧ 0 ≤ c.digP7 ∧ 0 ≤ c.digP8 ∧
    0 ≤ c.digP9

/-- A pressure that the driver gets right: without `P1`, or with no negative word and a fine temperature of
whole degrees, where the pressure fits in an `int`. -/
def PressureRight (adcT adcP : ℕ) : Prop :=
  c.digP1 = 0 ∨
    c.TUnsigned ∧ c.PUnsigned ∧ 5120 ∣ c.tFine adcT ∧ -2 ^ 31 ≤ truncate (c.pressure adcT adcP) ∧
      truncate (c.pressure adcT adcP) < 2 ^ 31

end Calibration

end OsdCore
