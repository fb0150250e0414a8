import Mathlib.Data.List.Zip
import OsdCore.Format.Bits

/-!
# Shift registers with feedback

A cyclic redundancy check is the remainder that is left in a shift register after the bits of a message
have gone through it.  A bit that comes out of the register and differs from the bit of the message feeds
the polynomial back.

* `FeedbackRegister` : a register of `w` bits, by what a shift does and which bit it pushes out.
* `run` : the bits of a message go in, one at a time.
* `run_xor` : the register is linear in what it holds and in the message, together.
* `run_eq_table` : **the rule for tables**: to take in a few bits is to shift, and to add what an empty
  register makes of the sum of these bits and those that are shifted out.
* `reflected`, `normal` : the registers that shift to the right, and to the left.
-/

namespace OsdCore

/-- A shift register with feedback. -/
structure FeedbackRegister (w : ℕ) where
  /-- The register after a shift without feedback. -/
  shift : BitVec w → BitVec w
  /-- The bit that the shift pushes out. -/
  out : BitVec w → Bool
  poly : BitVec w
  shift_xor : ∀ r s, shift (r ^^^ s) = shift r ^^^ shift s
  out_xor : ∀ r s, out (r ^^^ s) = (out r ^^ out s)

namespace FeedbackRegister

variable {w : ℕ} (R : FeedbackRegister w)

/-- One bit of the message goes in. -/
def step (r : BitVec w) (bit : Bool) : BitVec w :=
  if R.out r ^^ bit then R.shift r ^^^ R.poly else R.shift r

/-- The bits of the message go in one after the other. -/
def run (r : BitVec w) (message : List Bool) : BitVec w := message.foldl R.step r

/-- `n` shifts without feedback. -/
def shifts : ℕ → BitVec w → BitVec w
  | 0, r => r
  | n + 1, r => shifts n (R.shift r)

/-- The bits that they push out. -/
def outs : ℕ → BitVec w → List Bool
  | 0, _ => []
  | n + 1, r => R.out r :: outs n (R.shift r)

@[simp] theorem run_nil (r : BitVec w) : R.run r [] = r := rfl

@[simp] theorem run_cons (r : BitVec w) (bit : Bool) (message : List Bool) :
    R.run r (bit :: message) = R.run (R.step r bit) message := rfl

theorem run_append (r : BitVec w) (a b : List Bool) : R.run r (a ++ b) = R.run (R.run r a) b :=
  List.foldl_append ..

@[simp] theorem length_outs (n : ℕ) (r : BitVec w) : (R.outs n r).length = n := by
  induction n generalizing r with
  | zero => rfl
  | succ n ih => rw [outs, List.length_cons, ih]

/-- **One step is linear.** -/
theorem step_xor (r s : BitVec w) (a b : Bool) :
    R.step (r ^^^ s) (a ^^ b) = R.step r a ^^^ R.step s b := by
  have hout : (R.out (r ^^^ s) ^^ (a ^^ b)) = ((R.out r ^^ a) ^^ (R.out s ^^ b)) := by
    rw [R.out_xor]
    cases R.out r <;> cases R.out s <;> cases a <;> cases b <;> rfl
  rw [step, step, step, hout, R.shift_xor]
  cases R.out r ^^ a <;> cases R.out s ^^ b
  · rfl
  · exact BitVec.xor_assoc ..
  · rw [Bool.true_xor, Bool.not_false, if_pos rfl, if_pos rfl, if_neg Bool.false_ne_true,
      BitVec.xor_assoc, BitVec.xor_comm (R.shift s), ← BitVec.xor_assoc]
  · -- the feedback of the two cancels
    rw [Bool.true_xor, Bool.not_true, if_neg Bool.false_ne_true, if_pos rfl, if_pos rfl,
      BitVec.xor_assoc (R.shift r), BitVec.xor_comm (R.shift s), ← BitVec.xor_assoc R.poly,
      BitVec.xor_self, BitVec.zero_xor]

/-- **A run is linear** in the register and the message. -/
theorem run_xor {a b : List Bool} (h : a.length = b.length) (r s : BitVec w) :
    R.run (r ^^^ s) (List.zipWith xor a b) = R.run r a ^^^ R.run s b := by
  induction a generalizing b r s with
  | nil =>
    obtain rfl : b = [] := List.length_eq_zero_iff.1 h.symm
    rfl
  | cons x a ih =>
    cases b with
    | nil => cases h
    | cons y b =>
      rw [List.zipWith_cons_cons, run_cons, run_cons, run_cons, step_xor]
      exact ih (Nat.succ.inj h) _ _

/-- Nothing is fed back, where the message is what the register pushes out. -/
theorem run_outs (n : ℕ) (r : BitVec w) : R.run r (R.outs n r) = R.shifts n r := by
  induction n generalizing r with
  | zero => rfl
  | succ n ih =>
    rw [outs, run_cons, step, Bool.xor_self, if_neg Bool.false_ne_true]
    exact ih _

/-- A message is what is pushed out, and the difference to it. -/
theorem zipWith_xor_outs {out message : List Bool} (h : out.length = message.length) :
    List.zipWith xor out (List.zipWith xor out message) = message := by
  induction out generalizing message with
  | nil => exact (List.length_eq_zero_iff.1 h.symm).symm
  | cons x out ih =>
    cases message with
    | nil => cases h
    | cons y message =>
      rw [List.zipWith_cons_cons, List.zipWith_cons_cons, ih (Nat.succ.inj h), ← Bool.xor_assoc,
        Bool.xor_self, Bool.false_xor]

/-- **The rule for tables.** -/
theorem run_eq_table (r : BitVec w) (message : List Bool) :
    R.run r message = R.shifts message.length r ^^^
      R.run 0#w (List.zipWith xor (R.outs message.length r) message) := by
  have hlen : (R.outs message.length r).length = message.length := R.length_outs _ _
  have hsplit := R.run_xor (a := R.outs message.length r)
    (b := List.zipWith xor (R.outs message.length r) message)
    (by rw [List.length_zipWith, hlen, Nat.min_self]) r 0#w
  rwa [zipWith_xor_outs hlen, BitVec.xor_zero, run_outs] at hsplit

end FeedbackRegister

/-! ### To the right, and to the left -/

/-- The register that shifts to the right. -/
def reflected {w : ℕ} (poly : BitVec w) : FeedbackRegister w where
  shift r := r >>> 1
  out r := r.getLsbD 0
  poly := poly
  shift_xor r s := BitVec.ushiftRight_xor_distrib r s 1
  out_xor _ _ := BitVec.getLsbD_xor

/-- The register that shifts to the left. -/
def normal {w : ℕ} (poly : BitVec w) : FeedbackRegister w where
  shift r := r <<< 1
  out r := r.msb
  poly := poly
  shift_xor r s := BitVec.shiftLeft_xor_distrib r s 1
  out_xor _ _ := BitVec.msb_xor

section

variable {w : ℕ} (poly r : BitVec w)

theorem shifts_reflected (n : ℕ) : (reflected poly).shifts n r = r >>> n := by
  induction n generalizing r with
  | zero => rfl
  | succ n ih =>
    rw [FeedbackRegister.shifts, ih, reflected]
    dsimp only
    rw [← BitVec.shiftRight_add, Nat.add_comm]

theorem outs_reflected (n : ℕ) : (reflected poly).outs n r = (List.range n).map r.getLsbD := by
  induction n generalizing r with
  | zero => rfl
  | succ n ih =>
    rw [FeedbackRegister.outs, ih, List.range_succ_eq_map, List.map_cons, List.map_map, reflected]
    congr 1
    apply List.map_congr_left
    intro i _
    simp [Nat.add_comm]

theorem shifts_normal (n : ℕ) : (normal poly).shifts n r = r <<< n := by
  induction n generalizing r with
  | zero => exact (BitVec.shiftLeft_zero r).symm
  | succ n ih =>
    rw [FeedbackRegister.shifts, ih, normal]
    dsimp only
    rw [← BitVec.shiftLeft_add, Nat.add_comm]

theorem outs_normal (n : ℕ) : (normal poly).outs n r = (List.range n).map r.getMsbD := by
  induction n generalizing r with
  | zero => rfl
  | succ n ih =>
    rw [FeedbackRegister.outs, ih, List.range_succ_eq_map, List.map_cons, List.map_map, normal]
    dsimp only
    rw [BitVec.msb_eq_getMsbD_zero]
    congr 1
    apply List.map_congr_left
    intro i _
    rw [BitVec.getMsbD_shiftLeft, Function.comp_apply]

/-- The differences of the bits of two bytes. -/
theorem zipWith_xor_map {α : Type} (l : List α) (f g : α → Bool) :
    List.zipWith xor (l.map f) (l.map g) = l.map fun a => f a ^^ g a := by
  rw [List.zipWith_map, List.zipWith_self]

/-- **A byte goes into a register that shifts to the right.** -/
theorem run_reflected (b : BitVec 8) : (reflected poly).run r (bitsLsb b) =
    r >>> 8 ^^^ (reflected poly).run 0#w (bitsLsb (r.setWidth 8 ^^^ b)) := by
  have hbits : bitsLsb (r.setWidth 8 ^^^ b) =
      List.zipWith xor ((reflected poly).outs 8 r) (bitsLsb b) := by
    rw [outs_reflected, bitsLsb, bitsLsb, zipWith_xor_map]
    apply List.map_congr_left
    intro i hi
    rw [BitVec.getLsbD_xor, BitVec.getLsbD_setWidth, decide_eq_true (List.mem_range.1 hi), Bool.true_and]
  rw [FeedbackRegister.run_eq_table, hbits, ← shifts_reflected poly]
  rfl

/-- **A byte goes into a register of 8 bits that shifts to the left.** -/
theorem run_normal (poly r b : BitVec 8) :
    (normal poly).run r (bitsMsb b) = (normal poly).run 0#8 (bitsMsb (r ^^^ b)) := by
  have hlen : (bitsMsb b).length = 8 := rfl
  have hbits : bitsMsb (r ^^^ b) = List.zipWith xor ((normal poly).outs 8 r) (bitsMsb b) := by
    rw [outs_normal, bitsMsb, bitsMsb, zipWith_xor_map]
    apply List.map_congr_left
    intro i _
    rw [BitVec.getMsbD_xor]
  rw [FeedbackRegister.run_eq_table, hlen, hbits, shifts_normal, BitVec.shiftLeft_eq_zero (Nat.le_refl 8),
    BitVec.zero_xor]

end

end OsdCore
