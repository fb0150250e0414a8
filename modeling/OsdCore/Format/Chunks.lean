import Mathlib.Data.List.Basic

/-!
# Functions applied chunk by chunk

`chunkwise f k l` cuts the list `l` into chunks of `k` elements, the last one possibly shorter, and
applies `f`, which keeps lengths, to every chunk.

* `chunkwise_append` : a part that is a whole number of chunks may be treated alone.
* `chunkwise_drop`, `chunkwise_take`, `chunkwise_window` : so may a window whose bounds are multiples
  of `k`; only the end of the list may cut it short.
-/

namespace OsdCore

variable {α : Type}

/-- Apply `f` to each of the first `n` chunks, and to what is left. -/
def mapChunks (f : List α → List α) (k : ℕ) : ℕ → List α → List α
  | 0, l => f l
  | n + 1, l => f (l.take k) ++ mapChunks f k n (l.drop k)

/-- Apply `f` to every chunk. -/
def chunkwise (f : List α → List α) (k : ℕ) (l : List α) : List α := mapChunks f k (l.length / k) l

variable {f : List α → List α} {k : ℕ}

theorem length_mapChunks (hf : ∀ l, (f l).length = l.length) (n : ℕ) (l : List α) :
    (mapChunks f k n l).length = l.length := by
  induction n generalizing l with
  | zero => exact hf l
  | succ n ih =>
    rw [mapChunks, List.length_append, hf, ih, List.length_take, List.length_drop]
    omega

@[simp] theorem length_chunkwise (hf : ∀ l, (f l).length = l.length) (l : List α) :
    (chunkwise f k l).length = l.length :=
  length_mapChunks hf _ l

/-- The first chunk. -/
theorem chunkwise_of_le (hk : 0 < k) {l : List α} (h : k ≤ l.length) :
    chunkwise f k l = f (l.take k) ++ chunkwise f k (l.drop k) := by
  have hn : l.length / k = (l.length - k) / k + 1 := by
    rw [← Nat.add_div_right _ hk, Nat.sub_add_cancel h]
  rw [chunkwise, hn, mapChunks, chunkwise, List.length_drop]

theorem chunkwise_nil (hf : ∀ l, (f l).length = l.length) : chunkwise f k [] = [] :=
  List.length_eq_zero_iff.1 (length_chunkwise hf [])

/-- **Whole chunks may be treated alone.** -/
theorem chunkwise_append (hf : ∀ l, (f l).length = l.length) (hk : 0 < k) {a : List α}
    (ha : k ∣ a.length) (b : List α) :
    chunkwise f k (a ++ b) = chunkwise f k a ++ chunkwise f k b := by
  obtain ⟨m, hm⟩ := ha
  induction m generalizing a with
  | zero =>
    obtain rfl : a = [] := List.length_eq_zero_iff.1 hm
    rw [chunkwise_nil hf, List.nil_append, List.nil_append]
  | succ m ih =>
    have hle : k ≤ a.length := by
      rw [hm, Nat.mul_succ]
      omega
    have hrest : (a.drop k).length = k * m := by
      rw [List.length_drop, hm, Nat.mul_succ]
      omega
    rw [chunkwise_of_le hk (by rw [List.length_append]; omega), chunkwise_of_le hk hle,
      List.take_append_of_le_length hle, List.drop_append_of_le_length hle, ih hrest,
      List.append_assoc]

theorem length_take_of_dvd {m : ℕ} (hm : k ∣ m) {l : List α} (h : m ≤ l.length) :
    k ∣ (l.take m).length := by
  rwa [List.length_take, Nat.min_eq_left h]

theorem chunkwise_drop (hf : ∀ l, (f l).length = l.length) (hk : 0 < k) {m : ℕ} (hm : k ∣ m)
    (l : List α) : (chunkwise f k l).drop m = chunkwise f k (l.drop m) := by
  by_cases h : m ≤ l.length
  · have hlen : (chunkwise f k (l.take m)).length = m := by
      rw [length_chunkwise hf, List.length_take, Nat.min_eq_left h]
    conv_lhs => rw [← List.take_append_drop m l, chunkwise_append hf hk (length_take_of_dvd hm h)]
    rw [List.drop_append_of_le_length (by omega), List.drop_of_length_le (by omega),
      List.nil_append]
  · rw [List.drop_of_length_le (by rw [length_chunkwise hf]; omega),
      List.drop_of_length_le (by omega), chunkwise_nil hf]

theorem chunkwise_take (hf : ∀ l, (f l).length = l.length) (hk : 0 < k) {m : ℕ} (hm : k ∣ m)
    (l : List α) : (chunkwise f k l).take m = chunkwise f k (l.take m) := by
  by_cases h : m ≤ l.length
  · have hlen : (chunkwise f k (l.take m)).length = m := by
      rw [length_chunkwise hf, List.length_take, Nat.min_eq_left h]
    conv_lhs => rw [← List.take_append_drop m l, chunkwise_append hf hk (length_take_of_dvd hm h)]
    rw [List.take_append_of_le_length (by omega), List.take_of_length_le (by omega)]
  · rw [List.take_of_length_le (by rw [length_chunkwise hf]; omega),
      List.take_of_length_le (by omega)]

/-- **A window of whole chunks** may be treated alone. -/
theorem chunkwise_window (hf : ∀ l, (f l).length = l.length) (hk : 0 < k) {i n : ℕ} (hi : k ∣ i)
    (hn : k ∣ n) (l : List α) :
    chunkwise f k ((l.drop i).take n) = ((chunkwise f k l).drop i).take n := by
  rw [chunkwise_drop hf hk hi, chunkwise_take hf hk hn]

end OsdCore
