import OsdCore.Format.Bytes

/-!
# C strings

Comparisons that read a buffer byte by byte, from a given index on, and up to the first difference;
`none` is a read outside the buffer.  `strncmpAt_append` says what they compute at the end of a
buffer.  A `LuaString` is a string with its length, as the modules get it from the interpreter.
-/

namespace OsdCore

/-- A path: a C string without its NUL. -/
abbrev Path := Bytes

/-- The C string that starts at a buffer: everything before the first NUL. -/
def cstr (b : Bytes) : Bytes := b.takeWhile (· ≠ 0)

/-- A `/`. -/
def slash : UInt8 := 0x2F

/-- A string as `luaL_checklstring` returns it: its length and its terminator fit a `size_t`. -/
structure LuaString where
  /-- The bytes before the terminator; NUL may be one of them. -/
  bytes : Bytes
  length_lt : bytes.length + 1 < 2 ^ 32

/-- The storage of the string. -/
def LuaString.storage (s : LuaString) : Bytes := s.bytes ++ [0]

/-- `strstr` finds something. -/
def strstr (s pattern : Bytes) : Bool := s.tails.any fun rest => pattern.isPrefixOf rest

/-- Read one byte at an index that may be negative. -/
def readAt (buf : Bytes) (i : ℤ) : Option UInt8 := if i < 0 then none else buf[i.toNat]?

/-- `strncmp(&buf[i], pat, strlen(pat)) == 0`. -/
def strncmpAt (buf : Bytes) : ℤ → Bytes → Option Bool
  | _, [] => some true
  | i, c :: pat => do
    let b ← readAt buf i
    if b = c then strncmpAt buf (i + 1) pat else some false

/-- `strcmp(&buf[i], pat) == 0`. -/
def strcmpAt (buf : Bytes) (i : ℤ) (pat : Bytes) : Option Bool := strncmpAt buf i (pat ++ [0])

theorem readAt_eq_none {buf : Bytes} {i : ℤ} (h : i < 0 ∨ buf.length ≤ i) : readAt buf i = none := by
  unfold readAt
  split_ifs with hi
  · rfl
  · exact List.getElem?_eq_none (by omega)

theorem strncmpAt_cons_none {buf pat : Bytes} {i : ℤ} {c : UInt8} (h : readAt buf i = none) :
    strncmpAt buf i (c :: pat) = none := by
  simp [strncmpAt, h]

/-- Inside the buffer, `strncmp` looks for the pattern at the index. -/
theorem strncmpAt_eq {buf pat : Bytes} {i : ℕ} (h : i + pat.length ≤ buf.length) :
    strncmpAt buf i pat = some (decide (pat <+: buf.drop i)) := by
  induction pat generalizing i with
  | nil => simp [strncmpAt]
  | cons c pat ih =>
    rw [List.length_cons] at h
    have hi : i < buf.length := by omega
    have hread : readAt buf i = some buf[i] := by simp [readAt, hi]
    have hdrop : buf.drop i = buf[i] :: buf.drop (i + 1) := List.drop_eq_getElem_cons hi
    simp only [strncmpAt, hread, Option.bind_eq_bind, Option.bind_some, hdrop,
      List.cons_prefix_cons]
    by_cases hc : buf[i] = c
    · have hnext := @ih (i + 1) (by omega)
      push_cast at hnext
      simp [hc, hnext]
    · simp [hc, Ne.symm hc]

/-- At its own length before the end of `pre`, `strncmp` tests whether `pre` ends with the
pattern. -/
theorem strncmpAt_append {pre pat : Bytes} (post : Bytes) (h : pat.length ≤ pre.length) :
    strncmpAt (pre ++ post) ((pre.length - pat.length : ℕ) : ℤ) pat =
      some (decide (pat <:+ pre)) := by
  rw [strncmpAt_eq (by rw [List.length_append]; omega)]
  congr 1
  rw [decide_eq_decide, List.drop_append_of_le_length (by omega), List.suffix_iff_eq_drop]
  have hlen : pat.length = (pre.drop (pre.length - pat.length)).length := by
    rw [List.length_drop]; omega
  constructor
  · rintro ⟨t, ht⟩
    exact (List.append_inj ht hlen).1
  · intro heq
    exact ⟨post, by rw [← heq]⟩

/-- `strcmp` at its own length before the end of a terminated string. -/
theorem strcmpAt_append {s pat : Bytes} (h : pat.length ≤ s.length) :
    strcmpAt (s ++ [0]) ((s.length - pat.length : ℕ) : ℤ) pat = some (decide (pat <:+ s)) := by
  have hs : (s ++ [0]).length - (pat ++ [0]).length = s.length - pat.length := by simp
  have happ := @strncmpAt_append (s ++ [0]) (pat ++ [0]) [] (by simpa using h)
  rw [List.append_nil, hs] at happ
  rw [strcmpAt, happ]
  congr 1
  rw [decide_eq_decide]
  constructor
  · rintro ⟨t, ht⟩
    exact ⟨t, List.append_cancel_right (by rw [← ht, List.append_assoc] : t ++ pat ++ [0] = s ++ [0])⟩
  · rintro ⟨t, rfl⟩
    exact ⟨t, by rw [List.append_assoc]⟩

end OsdCore
