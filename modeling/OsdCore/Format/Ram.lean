import Mathlib.Logic.Function.Basic
import Mathlib.Data.UInt

/-!
# A memory with addresses of 32 bits

* `memcpy` : so many bytes are copied to an address.
* `memcpy_succ` : one byte more is one byte stored behind them.
* `memcpy_add_three` : three bytes more, stored from the last to the first.
-/

namespace OsdCore

/-- The bytes of a memory. -/
abbrev Ram := UInt32 → UInt8

/-- `n` bytes of `src` are copied to `dst`. -/
def memcpy (m : Ram) (dst : UInt32) (src : Ram) (n : ℕ) : Ram := fun addr =>
  if (addr - dst).toNat < n then src (addr - dst) else m addr

variable {m src : Ram} {dst : UInt32} {n : ℕ}

@[simp] theorem memcpy_zero (m : Ram) (dst : UInt32) (src : Ram) : memcpy m dst src 0 = m := rfl

/-- **One byte more.** -/
theorem memcpy_succ (m : Ram) (dst : UInt32) (src : Ram) (h : n < 2 ^ 32) :
    memcpy m dst src (n + 1) =
      Function.update (memcpy m dst src n) (dst + UInt32.ofNat n) (src (UInt32.ofNat n)) := by
  have hn : (UInt32.ofNat n).toNat = n := UInt32.toNat_ofNat_of_lt' h
  funext addr
  by_cases haddr : addr = dst + UInt32.ofNat n
  · subst haddr
    have hsub : dst + UInt32.ofNat n - dst = UInt32.ofNat n := by
      rw [UInt32.add_comm, UInt32.add_sub_cancel]
    rw [Function.update_self, memcpy, hsub, hn, if_pos (Nat.lt_succ_self n)]
  · have hne : (addr - dst).toNat ≠ n := fun heq => haddr (by
      rw [← heq, UInt32.ofNat_toNat, UInt32.add_comm, UInt32.sub_add_cancel])
    rw [Function.update_of_ne haddr]
    unfold memcpy
    by_cases hlt : (addr - dst).toNat < n
    · rw [if_pos hlt, if_pos (Nat.lt_succ_of_lt hlt)]
    · rw [if_neg hlt, if_neg (by omega)]

/-- Three bytes more, of which the last is stored first. -/
theorem memcpy_add_three (m : Ram) (dst : UInt32) (src : Ram) (h : n + 2 < 2 ^ 32) :
    memcpy m dst src (n + 3) =
      Function.update
        (Function.update
          (Function.update (memcpy m dst src n) (dst + UInt32.ofNat (n + 2)) (src (UInt32.ofNat (n + 2))))
          (dst + UInt32.ofNat (n + 1)) (src (UInt32.ofNat (n + 1))))
        (dst + UInt32.ofNat n) (src (UInt32.ofNat n)) := by
  have hne : ∀ {i j : ℕ}, i < 2 ^ 32 → j < 2 ^ 32 → i ≠ j → dst + UInt32.ofNat i ≠ dst + UInt32.ofNat j := by
    intro i j hi hj hij heq
    have hnat := congrArg UInt32.toNat ((UInt32.add_right_inj dst).1 heq)
    rw [UInt32.toNat_ofNat_of_lt' hi, UInt32.toNat_ofNat_of_lt' hj] at hnat
    exact hij hnat
  rw [memcpy_succ m dst src (by omega : n + 2 < 2 ^ 32), memcpy_succ m dst src (by omega : n + 1 < 2 ^ 32),
    memcpy_succ m dst src (by omega : n < 2 ^ 32),
    Function.update_comm (hne (by omega) (by omega) (by omega)),
    Function.update_comm (hne (by omega) (by omega) (by omega : n ≠ n + 2)),
    Function.update_comm (hne (by omega) (by omega) (by omega : n ≠ n + 1))]

end OsdCore
