import OsdCore.Format.Bytes

/-!
# The string buffer of the JSON library: `strbuf.c`, `strbuf.h`

A buffer holds `length` bytes in `size` bytes of storage. A write behind the storage stops the computation
with `Stop.overrun`. Lengths are natural numbers: a text whose length does not fit an `int` does not fit the
memory either. `realloc` always finds memory.

* `Strbuf.Writes` : a computation appends the text of another one, or fails as it does.
* `Writes.bind`, `Writes.appendMem`, `Writes.appendChar` : its rules.
-/

namespace OsdCore

namespace Json

/-- The errors that are raised, with the values in their texts. -/
inductive Error
  | cannotSerialise (typename reason : String)
  | encodeNesting (depth : ℕ)
  | expected (exp found : String) (character : ℕ)
  | decodeNesting (depth character : ℕ)
  | unsupportedEncoding
deriving DecidableEq, Repr

/-- The text of an error. -/
def Error.text : Error → String
  | cannotSerialise typename reason => "Cannot serialise " ++ typename ++ ": " ++ reason
  | encodeNesting depth => "Cannot serialise, excessive nesting (" ++ toString depth ++ ")"
  | expected exp found character =>
    "Expected " ++ exp ++ " but found " ++ found ++ " at character " ++ toString character
  | decodeNesting depth character =>
    "Found too many nested data structures (" ++ toString depth ++ ") at character " ++ toString character
  | unsupportedEncoding => "JSON parser does not support UTF-16 or UTF-32"

/-- Why a computation ends early. -/
inductive Stop
  /-- `luaL_error`. -/
  | raise (e : Error)
  /-- A read outside the text. -/
  | oob
  /-- A write outside a buffer. -/
  | overrun
  /-- `die`. -/
  | die
  /-- It did not end within its fuel. -/
  | fuel
deriving DecidableEq, Repr

theorem ok_bind {ε α β : Type} (a : α) (f : α → Except ε β) : (Except.ok a >>= f) = f a := rfl

/-- `strbuf_t`: `size`, and the bytes up to `length`. `strbuf_init(s, 0)` makes the default. -/
structure Strbuf where
  size : ℕ := 1023
  bytes : Bytes := []
deriving DecidableEq, Repr

namespace Strbuf

/-- The loop of `calculate_new_size`. -/
def doubleSize (reqsize : ℕ) : ℕ → ℕ → Except Stop ℕ
  | 0, _ => .error .fuel
  | fuel + 1, newsize => if newsize < reqsize then doubleSize reqsize fuel (newsize * 2) else .ok newsize

/-- `calculate_new_size`; the increment is always the default, -2. -/
def calculateNewSize (s : Strbuf) (len : ℕ) : Except Stop ℕ :=
  if len = 0 then .error .die
  else if len + 1 < s.size then .ok (len + 1)
  else doubleSize (len + 1) (len + 2) s.size

/-- `strbuf_resize`. -/
def resize (s : Strbuf) (len : ℕ) : Except Stop Strbuf := do
  let newsize ← s.calculateNewSize len
  pure { s with size := newsize }

/-- `strbuf_append_char_unsafe`. -/
def appendCharUnsafe (s : Strbuf) (c : UInt8) : Except Stop Strbuf :=
  if s.bytes.length < s.size then .ok { s with bytes := s.bytes ++ [c] } else .error .overrun

/-- `strbuf_append_mem_unsafe`. -/
def appendMemUnsafe (s : Strbuf) (c : Bytes) : Except Stop Strbuf :=
  if s.bytes.length + c.length ≤ s.size then .ok { s with bytes := s.bytes ++ c } else .error .overrun

/-- `strbuf_ensure_null`, which writes behind the last byte. -/
def ensureNull (s : Strbuf) : Except Stop Unit :=
  if s.bytes.length < s.size then .ok () else .error .overrun

/-- A buffer always has room for the terminator. -/
def Good (s : Strbuf) : Prop := s.bytes.length < s.size

theorem Good.pos {s : Strbuf} (h : s.Good) : 0 < s.size := (Nat.zero_le _).trans_lt h

/-- Doubling ends, at a size that is enough. -/
theorem doubleSize_spec {reqsize : ℕ} (k newsize : ℕ) (hpos : 0 < newsize) (hk : reqsize ≤ newsize + k) :
    ∃ size, doubleSize reqsize (k + 1) newsize = .ok size ∧ reqsize ≤ size := by
  induction k generalizing newsize with
  | zero => exact ⟨newsize, if_neg (not_lt.2 hk), hk⟩
  | succ k ih =>
    rw [doubleSize]
    split_ifs with hlt
    · exact ih (newsize * 2) (Nat.mul_pos hpos Nat.two_pos) (by omega)
    · exact ⟨newsize, rfl, not_lt.1 hlt⟩

/-- A resize that asks for more than there is gets it. -/
theorem resize_spec {s : Strbuf} {len : ℕ} (hpos : 0 < s.size) (hlen : 0 < len) (hle : s.size ≤ len + 1) :
    ∃ size, s.resize len = .ok { s with size } ∧ len < size := by
  obtain ⟨size, hsize, hle'⟩ := doubleSize_spec (len + 1) s.size hpos (Nat.le_add_left (len + 1) s.size)
  refine ⟨size, ?_, hle'⟩
  rw [resize, calculateNewSize, if_neg hlen.ne', if_neg (not_lt.2 hle), hsize]
  rfl

/-- One text and then another. -/
def andThen (t t' : Except Error Bytes) : Except Error Bytes := do
  let m ← t
  let m' ← t'
  pure (m ++ m')

theorem andThen_ok (m m' : Bytes) : andThen (.ok m) (.ok m') = .ok (m ++ m') := rfl

/-- The computation appends the text that the other one computes, or raises its error. -/
def Writes (s : Strbuf) (r : Except Stop Strbuf) : Except Error Bytes → Prop
  | .ok m => ∃ s', r = .ok s' ∧ s'.Good ∧ s'.bytes = s.bytes ++ m
  | .error e => r = .error (.raise e)

namespace Writes

variable {s : Strbuf} {r : Except Stop Strbuf}

theorem nothing (h : s.Good) : Writes s (.ok s) (.ok []) := ⟨s, rfl, h, (List.append_nil _).symm⟩

theorem raised (s : Strbuf) (e : Error) : Writes s (.error (.raise e)) (.error e) := rfl

/-- **One after the other.** -/
theorem bind {t t' : Except Error Bytes} {f : Strbuf → Except Stop Strbuf} (h : Writes s r t)
    (hf : ∀ s' : Strbuf, s'.Good → Writes s' (f s') t') :
    Writes s (r >>= f) (andThen t t') := by
  cases t with
  | error e =>
    have hr : r = .error (.raise e) := h
    rw [hr]
    exact raised s e
  | ok m =>
    obtain ⟨s₁, rfl, h₁, hm⟩ := h
    cases t' with
    | error e => exact hf s₁ h₁
    | ok m' =>
      obtain ⟨s₂, hf₂, h₂, hm'⟩ := hf s₁ h₁
      exact ⟨s₂, hf₂, h₂, by rw [hm', hm, List.append_assoc]⟩

end Writes

end Strbuf

end Json

end OsdCore
