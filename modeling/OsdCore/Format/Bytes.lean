import Mathlib.Data.List.Basic
import Mathlib.Tactic.Ring

/-!
# Byte buffers and bounded reads

A buffer is a list of bytes.  `rd` and `rdN` read it and stop the computation with `Stop.oob` at an
index outside it, so that a computation in `Except Stop` that does not end in `oob` has read inside
its buffers only.  `le16` and `le32` are the little-endian numbers, `checksum` the 16-bit sum.
-/

namespace OsdCore

/-- A byte buffer. -/
abbrev Bytes := List UInt8

/-- The bytes of an ASCII text. -/
def ascii (s : String) : Bytes := s.toList.map fun c => UInt8.ofNat c.toNat

/-- Why a computation over a buffer stops early. -/
inductive Stop where
  /-- It gives up with an error code. -/
  | exit (err : ℤ)
  /-- It reads outside a buffer: no defined behaviour. -/
  | oob
  /-- It did not end within its fuel. -/
  | fuel
deriving DecidableEq, Repr

/-- What holds of all 256 bytes. -/
theorem forall_byte {P : UInt8 → Prop} (h : ∀ n < 256, P (UInt8.ofNat n)) (b : UInt8) : P b := by
  have hb := h b.toNat b.toNat_lt
  rwa [UInt8.ofNat_toNat] at hb

/-- Read one byte. -/
def rd (d : Bytes) (i : ℕ) : Except Stop UInt8 :=
  match d[i]? with
  | some b => .ok b
  | none => .error .oob

/-- Read `n` bytes. -/
def rdN (d : Bytes) (i n : ℕ) : Except Stop Bytes :=
  if ((d.drop i).take n).length = n then .ok ((d.drop i).take n) else .error .oob

theorem drop_succ_of_drop {d rest : Bytes} {i : ℕ} {b : UInt8} (h : d.drop i = b :: rest) :
    d.drop (i + 1) = rest := by
  rw [← List.tail_drop, h, List.tail_cons]

theorem drop_add_of_drop {d v rest : Bytes} {i : ℕ} (h : d.drop i = v ++ rest) :
    d.drop (i + v.length) = rest := by
  rw [← List.drop_drop, h, List.drop_left]

theorem rd_of_drop {d rest : Bytes} {i : ℕ} {b : UInt8} (h : d.drop i = b :: rest) :
    rd d i = .ok b := by
  have hi : d[i]? = some b := by
    rw [← Nat.add_zero i, ← List.getElem?_drop, h, List.getElem?_cons_zero]
  simp only [rd, hi]

theorem rd_of_drop_nil {d : Bytes} {i : ℕ} (h : d.drop i = []) : rd d i = .error .oob := by
  have hi : d[i]? = none := List.getElem?_eq_none (List.drop_eq_nil_iff.1 h)
  simp only [rd, hi]

theorem rdN_of_drop {d v rest : Bytes} {i : ℕ} (h : d.drop i = v ++ rest) :
    rdN d i v.length = .ok v := by
  simp [rdN, h]

theorem rdN_ok {d v : Bytes} {i n : ℕ} (h : rdN d i n = .ok v) :
    v.length = n ∧ d.drop i = v ++ d.drop (i + n) := by
  unfold rdN at h
  split_ifs at h with hn
  cases h
  exact ⟨hn, by rw [← List.drop_drop, List.take_append_drop]⟩

theorem rdN_oob {d : Bytes} {i n : ℕ} {e : Stop} (h : rdN d i n = .error e) :
    e = .oob ∧ (d.drop i).length < n := by
  unfold rdN at h
  split_ifs at h with hn
  cases h
  rw [List.length_take] at hn
  exact ⟨rfl, by omega⟩

/-- The bytes of a range that lies inside the buffer. -/
def slice (d : Bytes) (i n : ℕ) : Bytes := (d.drop i).take n

theorem length_slice {d : Bytes} {i n : ℕ} (h : i + n ≤ d.length) : (slice d i n).length = n := by
  simp only [slice, List.length_take, List.length_drop]
  omega

/-! ### Little-endian numbers -/

/-- The 16-bit number of the first two bytes. -/
def le16 : Bytes → ℕ
  | a :: b :: _ => a.toNat ||| (b.toNat <<< 8)
  | _ => 0

/-- The 32-bit number of the first four bytes. -/
def le32 (v : Bytes) : ℕ := le16 v ||| (le16 (v.drop 2) <<< 16)

/-- The two bytes of a 16-bit number. -/
def toLe16 (n : ℕ) : Bytes := [UInt8.ofNat n, UInt8.ofNat (n / 256)]

/-- The four bytes of a 32-bit number. -/
def toLe32 (n : ℕ) : Bytes := toLe16 n ++ toLe16 (n / 65536)

@[simp] theorem length_toLe16 (n : ℕ) : (toLe16 n).length = 2 := rfl

@[simp] theorem length_toLe32 (n : ℕ) : (toLe32 n).length = 4 := rfl

theorem or_shift_eq_add {a b k : ℕ} (h : a < 2 ^ k) : a ||| (b <<< k) = a + b * 2 ^ k := by
  rw [Nat.or_comm, ← Nat.shiftLeft_add_eq_or_of_lt h, Nat.shiftLeft_eq, Nat.add_comm]

theorem le16_cons (a b : UInt8) (rest : Bytes) :
    le16 (a :: b :: rest) = a.toNat + b.toNat * 256 :=
  or_shift_eq_add (k := 8) a.toNat_lt

theorem le16_lt (v : Bytes) : le16 v < 2 ^ 16 := by
  match v with
  | [] => exact Nat.two_pow_pos 16
  | [_] => exact Nat.two_pow_pos 16
  | a :: b :: rest =>
    have ha := a.toNat_lt
    have hb := b.toNat_lt
    rw [le16_cons]
    omega

theorem le32_eq (v : Bytes) : le32 v = le16 v + le16 (v.drop 2) * 65536 :=
  or_shift_eq_add (k := 16) (le16_lt v)

theorem le32_lt (v : Bytes) : le32 v < 2 ^ 32 := by
  have h1 := le16_lt v
  have h2 := le16_lt (v.drop 2)
  rw [le32_eq]
  omega

theorem le16_toLe16_append {n : ℕ} (h : n < 2 ^ 16) (rest : Bytes) :
    le16 (toLe16 n ++ rest) = n := by
  simp only [toLe16, List.cons_append, List.nil_append, le16_cons, UInt8.toNat_ofNat']
  omega

theorem le16_toLe16 {n : ℕ} (h : n < 2 ^ 16) : le16 (toLe16 n) = n := by
  simpa using le16_toLe16_append h []

theorem le32_toLe32 {n : ℕ} (h : n < 2 ^ 32) : le32 (toLe32 n) = n := by
  have hlow : le16 (toLe32 n) = n % 65536 := by
    have := le16_toLe16_append (n := n % 65536) (by omega) (toLe16 (n / 65536))
    simp only [toLe32, toLe16, List.cons_append, List.nil_append, le16_cons,
      UInt8.toNat_ofNat'] at this ⊢
    omega
  have hhigh : (toLe32 n).drop 2 = toLe16 (n / 65536) := rfl
  rw [le32_eq, hlow, hhigh, le16_toLe16 (by omega)]
  omega

/-! ### Checksums -/

/-- The sum of the bytes. -/
def byteSum (d : Bytes) : ℕ := (d.map UInt8.toNat).sum

@[simp] theorem byteSum_nil : byteSum [] = 0 := rfl

@[simp] theorem byteSum_cons (b : UInt8) (d : Bytes) : byteSum (b :: d) = b.toNat + byteSum d := by
  simp [byteSum]

@[simp] theorem byteSum_append (a b : Bytes) : byteSum (a ++ b) = byteSum a + byteSum b := by
  simp [byteSum]

/-- The 16-bit sum of the bytes. -/
def checksum (d : Bytes) : ℕ := byteSum d % 2 ^ 16

theorem checksum_lt (d : Bytes) : checksum d < 2 ^ 16 := Nat.mod_lt _ (by decide)

end OsdCore
