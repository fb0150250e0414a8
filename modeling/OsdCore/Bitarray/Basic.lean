import OsdCore.Format.Fields
import OsdCore.Format.Bytes

/-!
# The bit array: `bitarray.c`

* `validElsize` : the check of the element size.
* `Bitarray` : the array, with the bytes that start at its values.
* `bitarrayGetval`, `bitarrayGet`, `bitarraySet` : reading and storing.
* `bitarrayNew` : the allocation, with the faults that it has besides its errors.
* `elemBytes` : the bytes that an element is in.
-/

namespace OsdCore

/-- The check of `bitarray_new`. -/
def validElsize (elsize : UInt8) : Bool := 0 < elsize && elsize ≤ 32 && elsize &&& (elsize - 1) == 0

/-- `bitarray_t`. -/
structure Bitarray where
  capacity : UInt32
  elsize : UInt8
  /-- The bytes from `values` on, those behind the array as well. -/
  values : ℕ → UInt8
  valid : validElsize elsize = true

/-- `bitarray_index_shift`. -/
def bitarrayIndexShift (elsize : UInt8) : UInt8 := [0, 3, 2, 0, 1].getD elsize.toNat 0

/-- `bitarray_index_mask`. -/
def bitarrayIndexMask (elsize : UInt8) : UInt8 := [0, 0x01, 0x03, 0, 0x0f].getD elsize.toNat 0

/-! ### The place of an element of less than a byte -/

/-- `shift` : the byte, of an index from 0. -/
def byteIdx (elsize : UInt8) (idx : UInt32) : UInt32 := idx >>> (bitarrayIndexShift elsize).toUInt32

/-- `mask` and `rest` : how far the element is from the lowest bits. -/
def fieldShift (elsize : UInt8) (idx : UInt32) : UInt8 :=
  let mask : UInt8 := 1 <<< bitarrayIndexShift elsize
  let rest : UInt8 := (idx &&& (mask - 1).toUInt32).toUInt8
  (mask - 1 - rest) * elsize

/-! ### Reading and storing -/

/-- `*( ( u16* )values + idx )`. -/
def getU16 (values : ℕ → UInt8) (idx : ℕ) : UInt32 :=
  (values (2 * idx)).toUInt32 ||| (values (2 * idx + 1)).toUInt32 <<< 8

/-- `*( ( u32* )values + idx )`. -/
def getU32 (values : ℕ → UInt8) (idx : ℕ) : UInt32 :=
  (values (4 * idx)).toUInt32 ||| (values (4 * idx + 1)).toUInt32 <<< 8 |||
    (values (4 * idx + 2)).toUInt32 <<< 16 ||| (values (4 * idx + 3)).toUInt32 <<< 24

/-- A number is stored in `n` bytes, the lowest first. -/
def putBytes (values : ℕ → UInt8) (start n : ℕ) (val : UInt32) : ℕ → UInt8 := fun addr =>
  if start ≤ addr ∧ addr < start + n then (val >>> (8 * UInt32.ofNat (addr - start))).toUInt8 else values addr

/-- `bitarray_getval` -/
def bitarrayGetval (pa : Bitarray) (idx : UInt32) : UInt32 :=
  let idx := idx - 1
  if pa.elsize < 8 then
    let val := (pa.values (byteIdx pa.elsize idx).toNat).toUInt32
    val >>> (fieldShift pa.elsize idx).toUInt32 &&& (bitarrayIndexMask pa.elsize).toUInt32
  else if pa.elsize = 8 then (pa.values idx.toNat).toUInt32
  else if pa.elsize = 16 then getU16 pa.values idx.toNat
  else if pa.elsize = 32 then getU32 pa.values idx.toNat
  else 0

/-- `bitarray_get` -/
def bitarrayGet (pa : Bitarray) (idx : UInt32) : Except String UInt32 :=
  if idx ≤ 0 ∨ pa.capacity < idx then .error "invalid index." else .ok (bitarrayGetval pa idx)

/-- The bytes after a store, of an index from 0. -/
def storedValues (pa : Bitarray) (idx newval : UInt32) : ℕ → UInt8 :=
  let val : UInt32 := 0
  if pa.elsize < 8 then
    let shift := (byteIdx pa.elsize idx).toNat
    let val := (pa.values shift).toUInt32
    let val := val &&& ~~~((bitarrayIndexMask pa.elsize).toUInt32 <<< (fieldShift pa.elsize idx).toUInt32)
    let val := val ||| newval <<< (fieldShift pa.elsize idx).toUInt32
    putBytes pa.values shift 1 val
  -- the new value is not what the wider elements store
  else if pa.elsize = 8 then putBytes pa.values idx.toNat 1 val
  else if pa.elsize = 16 then putBytes pa.values (2 * idx.toNat) 2 val
  else if pa.elsize = 32 then putBytes pa.values (4 * idx.toNat) 4 val
  else pa.values

/-- The array after a store. -/
def Bitarray.store (pa : Bitarray) (idx newval : UInt32) : Bitarray :=
  { pa with values := storedValues pa (idx - 1) newval }

/-- `bitarray_set` -/
def bitarraySet (pa : Bitarray) (idx newval : UInt32) : Except String Bitarray :=
  if idx ≤ 0 ∨ pa.capacity < idx then .error "invalid index."
  else .ok (pa.store idx newval)

/-- An index of the array. -/
def Bitarray.InRange (pa : Bitarray) (idx : UInt32) : Prop := 1 ≤ idx ∧ idx ≤ pa.capacity

/-- What a store is for: the element reads back, of its width, and no other changes. -/
def StoreLaw (pa : Bitarray) (idx newval : UInt32) : Prop :=
  ∃ pa', bitarraySet pa idx newval = .ok pa' ∧
    bitarrayGet pa' idx = .ok (UInt32.ofNat (newval.toNat % 2 ^ pa.elsize.toNat)) ∧
    ∀ idx', idx' ≠ idx → bitarrayGet pa' idx' = bitarrayGet pa idx'

/-- The stores that do so: of a value whose bits above a small element fall on bits of the byte that are set,
and of a 0 in a wide one. -/
def StoreRight (pa : Bitarray) (idx newval : UInt32) : Prop :=
  if pa.elsize < 8 then
    SpillSet (pa.values (byteIdx pa.elsize (idx - 1)).toNat).toBitVec (fieldShift pa.elsize (idx - 1)).toNat
      pa.elsize.toNat newval.toUInt8.toBitVec
  else newval.toNat % 2 ^ pa.elsize.toNat = 0

/-! ### The allocation -/

/-- An argument of a call, as the library sees it. -/
inductive LuaArg where
  /-- What `lua_isnumber` accepts, as an integer. -/
  | number (n : BitVec 32)
  /-- A string that is no number. -/
  | string (len : UInt32) (bytes : ℕ → UInt8)
  /-- A table, by `lua_objlen` and by what `lua_tointeger` gives for its elements. -/
  | table (objlen : UInt32) (elems : ℕ → BitVec 32)
  | other

/-- What a call ends with, if it does not return. -/
inductive NewFault where
  | luaError (msg : String)
  | divisionByZero
  /-- The values are written past their end. -/
  | overrun
deriving DecidableEq, Repr

/-- The element size: 8, if it is no number. -/
def elsizeArg : LuaArg → UInt8
  | .number n => ⟨n.setWidth 8⟩
  | _ => 8

/-- The fill value: 0, if it is no number. -/
def fillArg : LuaArg → UInt8
  | .number n => ⟨n.setWidth 8⟩
  | _ => 0

/-- `ROUND_SIZE` -/
def roundSize (s : UInt32) : UInt32 := s >>> 3 + if s &&& 7 ≠ 0 then 1 else 0

/-- A capacity, from the length of a string or a table. -/
def lengthCapacity (temp : UInt32) (elsize : UInt8) : Except NewFault UInt32 :=
  if elsize = 0 then .error .divisionByZero
  else if temp <<< 3 % elsize.toUInt32 ≠ 0 then
    .error (.luaError "length is not a multiple of element size.")
  else .ok (temp <<< 3 / elsize.toUInt32)

/-- The checks, `lua_newuserdata`, and `count` bytes that are written.  `userdata` is what the new memory
holds, if there is any. -/
def allocate (userdata : Option (ℕ → UInt8)) (capacity : UInt32) (elsize : UInt8) (count : UInt32 → UInt32)
    (bytes : ℕ → UInt8) : Except NewFault (Bitarray × UInt32) :=
  if h : validElsize elsize = true then
    let total := roundSize (capacity * elsize.toUInt32)
    if total ≤ 0 then .error (.luaError "invalid arguments.")
    else
      match userdata with
      | none => .error (.luaError "not enough memory")
      | some old =>
        if total < count total then .error .overrun
        else
          let values addr := if addr < (count total).toNat then bytes addr else old addr
          .ok (⟨capacity, elsize, values, h⟩, total)
  else .error (.luaError "invalid element size.")

/-- `bitarray_new` : the array, and the size of the values area that it was given. -/
def bitarrayNew (userdata : Option (ℕ → UInt8)) (a1 a2 a3 : LuaArg) : Except NewFault (Bitarray × UInt32) :=
  match a1 with
  | .number n => allocate userdata ⟨n⟩ (elsizeArg a2) id fun _ => fillArg a3
  | .string temp bytes =>
    (lengthCapacity temp (elsizeArg a2)).bind fun capacity =>
      allocate userdata capacity (elsizeArg a2) (fun _ => temp) bytes
  | .table temp elems =>
    (lengthCapacity temp (elsizeArg a2)).bind fun capacity =>
      allocate userdata capacity (elsizeArg a2) (fun _ => temp) fun addr => ⟨(elems (addr + 1)).setWidth 8⟩
  | .other => .error (.luaError "invalid arguments.")

/-- The bytes that an element is in, of an index from 1. -/
def elemBytes (elsize : UInt8) (idx : UInt32) : List ℕ :=
  let idx := idx - 1
  if elsize < 8 then [(byteIdx elsize idx).toNat]
  else if elsize = 8 then [idx.toNat]
  else if elsize = 16 then [2 * idx.toNat, 2 * idx.toNat + 1]
  else if elsize = 32 then [4 * idx.toNat, 4 * idx.toNat + 1, 4 * idx.toNat + 2, 4 * idx.toNat + 3]
  else []

/-- What a call may end with: an error, or an array all of whose elements are within the values area. -/
def NewSafe : Except NewFault (Bitarray × UInt32) → Prop
  | .ok (pa, total) => ∀ idx, pa.InRange idx → ∀ k ∈ elemBytes pa.elsize idx, k < total.toNat
  | .error (.luaError _) => True
  | .error _ => False

/-- The arguments of which a call ends with nothing else. -/
def NewRight (userdata : Option (ℕ → UInt8)) (elsize : UInt8) : LuaArg → Prop
  | .number n =>
    validElsize elsize = false ∨ userdata = none ∨ n.toNat * elsize.toNat < 2 ^ 32 ∨
      2 ^ 32 ∣ n.toNat * elsize.toNat
  | .string temp _ | .table temp _ =>
    elsize ≠ 0 ∧ (validElsize elsize = false ∨ userdata = none ∨ temp.toNat < 2 ^ 29 ∨ 2 ^ 29 ∣ temp.toNat ∨
      ¬ elsize.toNat ∣ 8 * temp.toNat)
  | .other => True

end OsdCore
