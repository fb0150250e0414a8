import Mathlib.Data.List.GetD
import OsdCore.Format.Bits

/-!
# A device on three wires

A device with a chip select, a clock and a data wire, as it sees the levels change.  While it is selected
(the level is low) it takes the data wire at each rising edge of the clock; a frame is what it has taken
when it is no longer selected.  In a read, which is a frame whose first bit is 1, it answers the first byte
with a byte, of which it shows each bit, the highest first, from the falling edge before its clock on.

* `Bus` : what a program does with the wires.
* `Slave.set` : a level changes.
* `Slave.clock_eq` : a clock, in a frame that is open.
-/

namespace OsdCore

/-- The wires that are set. -/
inductive Wire where
  | ncs | sck | sdi
deriving DecidableEq, Repr

/-- A set of wires, and one that is read: what a program needs of a device. -/
structure Bus (S : Type) where
  set : Wire → Bool → S → S
  get : S → Bool

/-- What has been taken while the device was selected. -/
abbrev Frame := List Bool

/-- The device. -/
structure Slave where
  ncs : Bool
  sck : Bool
  sdi : Bool
  sdo : Bool
  /-- The frame that is open. -/
  sampled : Frame
  /-- The frames that are finished. -/
  frames : List Frame
deriving DecidableEq, Repr

/-- The byte that the device answers an address with, after the frames before. -/
abbrev Answer := List Frame → UInt8 → UInt8

namespace Slave

/-- What it shows after a falling edge: in a read, the next bit of the answer. -/
def shows (answer : Answer) (frames : List Frame) (sampled : Frame) (sdo : Bool) : Bool :=
  if sampled.head? = some true ∧ 8 ≤ sampled.length ∧ sampled.length < 16 then
    (bitsMsb (answer frames (byteOfBits (sampled.take 8))).toBitVec).getD (sampled.length - 8) false
  else sdo

/-- A level changes. -/
def set (answer : Answer) (wire : Wire) (level : Bool) (s : Slave) : Slave :=
  match wire with
  | .ncs =>
    match s.ncs, level with
    | true, false => { s with ncs := false, sampled := [] }
    | false, true => { s with ncs := true, sampled := [], frames := s.frames ++ [s.sampled] }
    | _, _ => s
  | .sck =>
    match s.sck, level with
    | false, true => { s with sck := true, sampled := if s.ncs then s.sampled else s.sampled ++ [s.sdi] }
    | true, false =>
      { s with sck := false, sdo := if s.ncs then s.sdo else shows answer s.frames s.sampled s.sdo }
    | _, _ => s
  | .sdi => { s with sdi := level }

/-- The device as a bus. -/
def bus (answer : Answer) : Bus Slave := ⟨set answer, sdo⟩

/-! ### A frame that is open -/

/-- It is selected, and the clock is low. -/
def Listens (s : Slave) : Prop := s.ncs = false ∧ s.sck = false

/-- A clock, with this level of the data wire. -/
def clock (answer : Answer) (s : Slave) (bit : Bool) : Slave :=
  { s with
    sdi := bit
    sampled := s.sampled ++ [bit]
    sdo := shows answer s.frames (s.sampled ++ [bit]) s.sdo }

/-- Clocks one after the other. -/
def clocks (answer : Answer) (bits : List Bool) (s : Slave) : Slave := bits.foldl (clock answer) s

variable {answer : Answer} {s : Slave} {bit : Bool} {bits : List Bool}

/-- **A rising edge and a falling edge** are a clock. -/
theorem set_sck_eq (h : s.Listens) :
    set answer .sck false (set answer .sck true s) = clock answer s s.sdi := by
  obtain ⟨ncs, sck, sdi, sdo, sampled, frames⟩ := s
  obtain ⟨rfl, rfl⟩ := h
  rfl

theorem Listens.set_sdi (h : s.Listens) (answer : Answer) (level : Bool) :
    (set answer .sdi level s).Listens := h

theorem Listens.clock (h : s.Listens) (answer : Answer) (bit : Bool) : (clock answer s bit).Listens := h

theorem Listens.clocks (h : s.Listens) (answer : Answer) (bits : List Bool) :
    (clocks answer bits s).Listens := by
  induction bits generalizing s with
  | nil => exact h
  | cons bit bits ih => exact ih (h.clock answer bit)

/-- **What clocks take** is added to the frame, and nothing else is finished. -/
theorem clocks_frame (answer : Answer) (bits : List Bool) (s : Slave) :
    (clocks answer bits s).sampled = s.sampled ++ bits ∧ (clocks answer bits s).frames = s.frames := by
  induction bits generalizing s with
  | nil => exact ⟨(List.append_nil _).symm, rfl⟩
  | cons bit bits ih =>
    obtain ⟨hsampled, hframes⟩ := ih (clock answer s bit)
    exact ⟨hsampled.trans (List.append_assoc s.sampled [bit] bits), hframes⟩

theorem clocks_concat (bits : List Bool) (bit : Bool) (s : Slave) :
    clocks answer (bits ++ [bit]) s = clock answer (clocks answer bits s) bit := List.foldl_append

/-- The data wire keeps the last bit. -/
theorem clocks_concat_sdi (bits : List Bool) (bit : Bool) (s : Slave) :
    (clocks answer (bits ++ [bit]) s).sdi = bit := by
  rw [clocks_concat]
  rfl

/-- What is shown after the last clock. -/
theorem clocks_concat_sdo (bits : List Bool) (bit : Bool) (s : Slave) :
    (clocks answer (bits ++ [bit]) s).sdo =
      shows answer s.frames (s.sampled ++ bits ++ [bit]) (clocks answer bits s).sdo := by
  obtain ⟨hsampled, hframes⟩ := clocks_frame answer bits s
  rw [clocks_concat, ← hsampled, ← hframes]
  rfl

/-- What is shown in a read, in the frame `sampled`. -/
theorem shows_read {frames : List Frame} {sampled : Frame} {addr : UInt8} {sdo : Bool} {k : ℕ}
    (haddr : sampled.take 8 = bitsMsb addr.toBitVec) (hread : addr.toBitVec.msb = true)
    (hlen : sampled.length = 8 + k) (hk : k < 8) :
    shows answer frames sampled sdo = (bitsMsb (answer frames addr).toBitVec).getD k false := by
  have hhead : sampled.head? = some true := by
    have htake : (sampled.take 8).head? = sampled.head? := List.head?_take
    rw [← htake, haddr, ← hread, BitVec.msb_eq_getMsbD_zero]
    rfl
  rw [shows, if_pos ⟨hhead, by omega, by omega⟩, haddr, byteOfBits_bitsMsb, hlen, Nat.add_sub_cancel_left]

/-! ### Between the frames -/

/-- A frame begins. -/
theorem set_ncs_false (hncs : s.ncs = true) :
    set answer .ncs false (set answer .sck false s) =
      { s with ncs := false, sck := false, sampled := [] } := by
  obtain ⟨ncs, sck, sdi, sdo, sampled, frames⟩ := s
  obtain rfl : ncs = true := hncs
  cases sck <;> rfl

/-- **A frame ends.** -/
theorem set_ncs_true (h : s.Listens) :
    set answer .sdi true (set answer .sck true (set answer .ncs true s)) =
      { s with
        ncs := true
        sck := true
        sdi := true
        sampled := []
        frames := s.frames ++ [s.sampled] } := by
  obtain ⟨ncs, sck, sdi, sdo, sampled, frames⟩ := s
  obtain ⟨rfl, rfl⟩ := h
  rfl

end Slave

end OsdCore
