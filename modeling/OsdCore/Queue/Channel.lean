import Mathlib.Data.List.Perm.Basic
import Mathlib.Data.List.Pairwise
import Mathlib.Data.List.GetD
import OsdCore.Queue.Fifo

/-!
# Channels that lose their oldest elements

Elements arrive on a line and wait in a bounded queue that drops its oldest ones; a reader takes them out in
blocks.  The elements are known by their numbers, in the order in which they arrive.

* `Channel n` : which elements wait, which ones have been taken, and which ones have been lost.  That each
  of them is at one place only, and that they are in order, is part of the structure.
* `OnceInOrder` : what comes out of the channel are the elements of the line, each once and in order,
  without the ones that have been lost.
-/

namespace OsdCore

variable {α β : Type} {n : ℕ}

namespace Fifo

/-- The queue of other elements. -/
def map (f : α → β) (q : Fifo α n) : Fifo β n where
  items := q.items.map f
  length_le := by
    rw [List.length_map]
    exact q.length_le

theorem map_insert (f : α → β) (q : Fifo α n) (xs : List α) :
    (q.insert xs).map f = (q.map f).insert (xs.map f) := by
  simp only [map, insert, List.map_drop, List.map_append, List.length_append, List.length_map]

theorem map_delete (f : α → β) (q : Fifo α n) (k : ℕ) : (q.delete k).map f = (q.map f).delete k := by
  simp only [map, delete, List.map_drop]

theorem map_congr {f g : α → β} {q : Fifo α n} (h : ∀ x ∈ q.items, f x = g x) : q.map f = q.map g := by
  simp only [map, List.map_congr_left h]

end Fifo

/-! ### The channel -/

/-- Where the elements are that have arrived. -/
structure Channel (n : ℕ) where
  arrived : ℕ
  waiting : Fifo ℕ n
  taken : List ℕ
  lost : List ℕ
  sorted : (taken ++ waiting.items).Pairwise (· < ·)
  perm : (taken ++ waiting.items ++ lost).Perm (List.range arrived)

namespace Channel

/-- Nothing has arrived. -/
def empty : Channel n where
  arrived := 0
  waiting := .empty
  taken := []
  lost := []
  sorted := .nil
  perm := .refl _

variable (c : Channel n) {i : ℕ}

theorem mem_iff : i ∈ c.taken ∨ i ∈ c.waiting.items ∨ i ∈ c.lost ↔ i < c.arrived := by
  rw [← List.mem_range, ← c.perm.mem_iff, List.mem_append, List.mem_append, or_assoc]

theorem lt_of_taken (h : i ∈ c.taken) : i < c.arrived := c.mem_iff.1 (.inl h)

theorem lt_of_waiting (h : i ∈ c.waiting.items) : i < c.arrived := c.mem_iff.1 (.inr (.inl h))

/-- The numbers of the next `k` elements. -/
def next (k : ℕ) : List ℕ := List.range' c.arrived k

/-- The number of elements for which there is no room when `k` more arrive. -/
def excess (k : ℕ) : ℕ := (c.waiting.items ++ c.next k).length - n

/-- `k` elements arrive; the oldest ones are lost. -/
def arrive (k : ℕ) : Channel n where
  arrived := c.arrived + k
  waiting := c.waiting.insert (c.next k)
  taken := c.taken
  lost := c.lost ++ (c.waiting.items ++ c.next k).take (c.excess k)
  sorted := by
    have hnext : (c.taken ++ (c.waiting.items ++ c.next k)).Pairwise (· < ·) := by
      rw [← List.append_assoc]
      refine List.pairwise_append.2 ⟨c.sorted, List.pairwise_lt_range', ?_⟩
      intro i hi j hj
      have hlt : i < c.arrived := by
        rcases List.mem_append.1 hi with htaken | hwaiting
        · exact c.lt_of_taken htaken
        · exact c.lt_of_waiting hwaiting
      exact hlt.trans_le (List.mem_range'_1.1 hj).1
    exact hnext.sublist (.append_left (List.drop_sublist _ _) _)
  perm := by
    have hrange : List.range (c.arrived + k) = List.range c.arrived ++ c.next k := by
      have happend := @List.range'_append_1 0 c.arrived k
      rw [Nat.zero_add] at happend
      rw [next, List.range_eq_range', List.range_eq_range', happend]
    have hlost : ((c.waiting.items ++ c.next k).drop (c.excess k) ++
        (c.lost ++ (c.waiting.items ++ c.next k).take (c.excess k))).Perm
        (c.lost ++ (c.waiting.items ++ c.next k)) := by
      refine List.perm_append_comm.trans ?_
      rw [List.append_assoc, List.take_append_drop]
    have hswap : (c.lost ++ (c.waiting.items ++ c.next k)).Perm
        (c.waiting.items ++ (c.lost ++ c.next k)) := by
      rw [← List.append_assoc, ← List.append_assoc]
      exact List.perm_append_comm.append_right _
    rw [hrange]
    refine .trans ?_ (c.perm.append_right _)
    simp only [List.append_assoc]
    exact (hlost.trans hswap).append_left _

/-- The reader takes `k` elements out, or all of them if there are fewer. -/
def take (k : ℕ) : Channel n where
  arrived := c.arrived
  waiting := c.waiting.delete k
  taken := c.taken ++ c.waiting.items.take k
  lost := c.lost
  sorted := by
    rw [List.append_assoc]
    exact (List.take_append_drop k c.waiting.items).symm ▸ c.sorted
  perm := by
    have hsplit : c.waiting.items.take k ++ (c.waiting.delete k).items = c.waiting.items :=
      List.take_append_drop k c.waiting.items
    rw [List.append_assoc c.taken, hsplit]
    exact c.perm

@[simp] theorem arrived_arrive (k : ℕ) : (c.arrive k).arrived = c.arrived + k := rfl

@[simp] theorem waiting_arrive (k : ℕ) : (c.arrive k).waiting = c.waiting.insert (c.next k) := rfl

@[simp] theorem taken_arrive (k : ℕ) : (c.arrive k).taken = c.taken := rfl

@[simp] theorem arrived_take (k : ℕ) : (c.take k).arrived = c.arrived := rfl

@[simp] theorem waiting_take (k : ℕ) : (c.take k).waiting = c.waiting.delete k := rfl

@[simp] theorem taken_take (k : ℕ) : (c.take k).taken = c.taken ++ c.waiting.items.take k := rfl

end Channel

/-! ### What comes out -/

/-- `out` is what is left of the elements of `sent`, in their order, without those whose numbers are in
`lost`. -/
def OnceInOrder (sent : List α) (lost : List ℕ) (out : List α) : Prop :=
  ∃ kept : List ℕ, kept.Pairwise (· < ·) ∧ (kept ++ lost).Perm (List.range sent.length) ∧
    out.map some = kept.map (sent[·]?)

variable {sent out : List α} {c : Channel n}

/-- **The channel** delivers its elements once and in order. -/
theorem Channel.onceInOrder (x : α) (hsent : c.arrived = sent.length)
    (hout : out = (c.taken ++ c.waiting.items).map (sent.getD · x)) :
    OnceInOrder sent c.lost out := by
  refine ⟨_, c.sorted, hsent ▸ c.perm, ?_⟩
  rw [hout, List.map_map]
  refine List.map_congr_left fun i hi => ?_
  have hlt : i < sent.length := by
    rw [← hsent]
    exact c.mem_iff.1 (by rw [← or_assoc, ← List.mem_append]; exact .inl hi)
  rw [Function.comp_apply, List.getD_eq_getElem _ _ hlt, List.getElem?_eq_getElem hlt]

/-- Where nothing has been lost, everything comes out. -/
theorem OnceInOrder.eq_of_lost_nil (h : OnceInOrder sent [] out) : out = sent := by
  obtain ⟨kept, hsorted, hperm, hout⟩ := h
  rw [List.append_nil] at hperm
  have hkept : kept = List.range sent.length :=
    hperm.eq_of_pairwise (fun a b _ _ hab hba => absurd hba (Nat.lt_asymm hab)) hsorted
      List.pairwise_lt_range
  have hmap : out.map some = sent.map some := by
    rw [hout, hkept]
    refine List.ext_getElem (by simp) fun i hi hi' => ?_
    simp at hi
    simp [hi]
  exact List.map_injective_iff.2 (Option.some_injective α) hmap

end OsdCore
