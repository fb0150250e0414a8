import OsdCore.Format.Bytes

/-!
# The bits of a byte

* `bitsLsb`, `bitsMsb` : the bits in their two orders.
* `byteOfBits` : the byte that bits are shifted into, from the right.
* `byteOfBits_bitsMsb` : the bits from the highest on, shifted in, are the byte.
-/

namespace OsdCore

/-- The bits of a byte, the lowest first. -/
def bitsLsb (b : BitVec 8) : List Bool := (List.range 8).map b.getLsbD

/-- The bits of a byte, the highest first. -/
def bitsMsb (b : BitVec 8) : List Bool := (List.range 8).map b.getMsbD

/-- A bit is shifted into a byte. -/
def shiftBit (r : UInt8) (bit : Bool) : UInt8 := r <<< 1 ||| if bit then 1 else 0

/-- The byte that bits are shifted into. -/
def byteOfBits (bits : List Bool) : UInt8 := bits.foldl shiftBit 0

@[simp] theorem length_bitsMsb (b : BitVec 8) : (bitsMsb b).length = 8 := rfl

@[simp] theorem byteOfBits_bitsMsb (b : UInt8) : byteOfBits (bitsMsb b.toBitVec) = b :=
  forall_byte (P := fun b => byteOfBits (bitsMsb b.toBitVec) = b) (by decide +kernel) b

end OsdCore
