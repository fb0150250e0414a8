import Mathlib.Data.Nat.ModEq
import Mathlib.Tactic.Ring

/-!
# Bounded queues that drop their oldest elements, and rings that hold them

* `Fifo α n` is a queue of at most `n` elements.  Inserting into a full queue drops the oldest elements;
  deleting takes the oldest ones out.
* `RingHolds buf start items` says that the array `buf`, read as a ring from `start` on, holds `items`.
  `ringHolds_push`, `ringHolds_rotate` and `ringHolds_pop` are the three ways to move on a ring: into
  a free cell, over the oldest element, and past it; `eq_of_ringHolds` reads the ring.
-/

namespace OsdCore

variable {α : Type} {n : ℕ}

/-! ### Queues -/

/-- A queue of at most `n` elements, the oldest first. -/
structure Fifo (α : Type) (n : ℕ) where
  items : List α
  length_le : items.length ≤ n

namespace Fifo

/-- The empty queue. -/
def empty : Fifo α n := ⟨[], Nat.zero_le n⟩

/-- Put elements in; of all of them the last `n` stay. -/
def insert (q : Fifo α n) (xs : List α) : Fifo α n where
  items := (q.items ++ xs).drop ((q.items ++ xs).length - n)
  length_le := by
    rw [List.length_drop]
    omega

/-- Take the `k` oldest elements out, or all of them if there are fewer. -/
def delete (q : Fifo α n) (k : ℕ) : Fifo α n where
  items := q.items.drop k
  length_le := by
    rw [List.length_drop]
    have := q.length_le
    omega

theorem insert_nil (q : Fifo α n) : q.insert [] = q := by
  have hle := q.length_le
  unfold insert
  simp only [List.append_nil, show q.items.length - n = 0 by omega, List.drop_zero]

/-- Elements may be put in one by one. -/
theorem insert_cons (q : Fifo α n) (x : α) (xs : List α) :
    q.insert (x :: xs) = (q.insert [x]).insert xs := by
  have hle := q.length_le
  have hitems : (q.items ++ x :: xs).drop ((q.items ++ x :: xs).length - n) =
      ((q.items ++ [x]).drop ((q.items ++ [x]).length - n) ++ xs).drop
        (((q.items ++ [x]).drop ((q.items ++ [x]).length - n) ++ xs).length - n) := by
    rw [← List.drop_append_of_le_length (by omega), List.drop_drop]
    simp only [List.append_assoc, List.singleton_append, List.length_drop, List.length_append,
      List.length_cons, List.length_nil]
    congr 1
    omega
  unfold insert
  simp only [hitems]

/-- There is room for one more. -/
theorem items_insert_of_lt {q : Fifo α n} (h : q.items.length < n) (x : α) :
    (q.insert [x]).items = q.items ++ [x] := by
  simp only [insert, List.length_append, List.length_singleton,
    show q.items.length + 1 - n = 0 by omega, List.drop_zero]

/-- The oldest element has to go. -/
theorem items_insert_of_full {q : Fifo α n} (h : q.items.length = n) (hn : 0 < n) (x : α) :
    (q.insert [x]).items = q.items.drop 1 ++ [x] := by
  simp only [insert, List.length_append, List.length_singleton, h, Nat.add_sub_cancel_left]
  exact List.drop_append_of_le_length (by omega)

end Fifo

/-! ### Rings -/

/-- Different cells of a ring are different. -/
theorem ring_index_ne {s i j : ℕ} (hi : i < n) (hj : j < n) (hne : i ≠ j) :
    (s + i) % n ≠ (s + j) % n := by
  intro h
  have hmod : i ≡ j [MOD n] := Nat.ModEq.add_left_cancel' s h
  exact hne (hmod.eq_of_lt_of_lt hi hj)

/-- The cells of `buf` from `start` on, around its end, hold `items`. -/
def RingHolds (buf : List α) (start : ℕ) (items : List α) : Prop :=
  ∀ i < items.length, buf[(start + i) % buf.length]? = items[i]?

variable {buf items : List α} {s : ℕ}

theorem ringHolds_nil : RingHolds buf s [] := fun i hi => by simp at hi

/-- **An element goes into the first free cell.** -/
theorem ringHolds_push (h : RingHolds buf s items) (hlt : items.length < buf.length) (x : α) :
    RingHolds (buf.set ((s + items.length) % buf.length) x) s (items ++ [x]) := by
  intro i hi
  rw [List.length_set]
  rw [List.length_append, List.length_singleton] at hi
  by_cases hlast : i = items.length
  · subst hlast
    rw [List.getElem?_set_self (Nat.mod_lt _ (by omega))]
    simp
  · have hlt' : i < items.length := by omega
    rw [List.getElem?_set_ne (ring_index_ne hlt (by omega) (Ne.symm hlast)), h i hlt',
      List.getElem?_append_left hlt']

/-- **The oldest element goes out.** -/
theorem ringHolds_pop {x : α} (h : RingHolds buf s (x :: items)) :
    buf[s % buf.length]? = some x ∧ RingHolds buf ((s + 1) % buf.length) items := by
  refine ⟨by simpa using h 0 (by simp), fun i hi => ?_⟩
  have hnext := h (i + 1) (by simpa using hi)
  rw [List.getElem?_cons_succ] at hnext
  rw [← hnext, Nat.mod_add_mod, show s + 1 + i = s + (i + 1) by ring]

/-- The `k` oldest elements go out. -/
theorem ringHolds_drop (h : RingHolds buf s items) (k : ℕ) :
    RingHolds buf ((s + min k items.length) % buf.length) (items.drop k) := by
  intro i hi
  rw [List.length_drop] at hi
  rw [List.getElem?_drop, ← h (k + i) (by omega), Nat.mod_add_mod, Nat.min_eq_left (by omega),
    Nat.add_assoc]

/-- **An element goes over the oldest one**, when the ring is full. -/
theorem ringHolds_rotate (h : RingHolds buf s items) (hfull : items.length = buf.length)
    (hpos : 0 < buf.length) (x : α) :
    RingHolds (buf.set (s % buf.length) x) ((s + 1) % buf.length) (items.drop 1 ++ [x]) := by
  cases items with
  | nil => simp at hfull; omega
  | cons y items =>
    rw [List.length_cons] at hfull
    obtain ⟨-, hrest⟩ := ringHolds_pop h
    have hpush := ringHolds_push hrest (by omega) x
    rw [Nat.mod_add_mod, show s + 1 + items.length = s + buf.length by omega,
      Nat.add_mod_right] at hpush
    simpa using hpush

/-- **Reading the ring** gives what it holds. -/
theorem eq_of_ringHolds (h : RingHolds buf s items) (x : α) :
    (List.range items.length).map (fun i => (buf[(s + i) % buf.length]?).getD x) = items := by
  refine List.ext_getElem? fun i => ?_
  by_cases hi : i < items.length
  · simp [h i hi, hi]
  · rw [List.getElem?_eq_none (by simpa using hi), List.getElem?_eq_none (by simpa using hi)]

end OsdCore
