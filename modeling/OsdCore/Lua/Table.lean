import Mathlib.Data.Nat.Size
import Mathlib.Tactic.Ring
import OsdCore.Scatter.Basic

/-!
# The tables of the interpreter: `ltable.c`

A number is a `long` (`LUA_NUMBER_INTEGRAL`), a string is the address of its only copy, and an object its
address and its type. A value that is not nil is any value of `V`; nil is `none`. The node vector is a
`Scatter`; `dummy` says that it is `dummynode`, which all tables without a hash part share. Keys that the
collector has marked dead are left out, and so is memory that runs out.

* `luaHGet`, `luaHGetnum`, `luaHGetstr` : where a key is.
* `newkey`, `rehash`, `resize` : a place for a key that has none.
* `luaHNext`, `luaHGetn` : the traversal and the length.
-/

namespace OsdCore

namespace Lua

def MAXBITS : ℕ := 26
def MAXASIZE : ℕ := 2 ^ MAXBITS
def MAX_INT : ℕ := 2 ^ 31 - 1 - 2

/-- The types of the objects that are compared by their address, strings apart. -/
inductive ObjectType
  | LUA_TTABLE | LUA_TFUNCTION | LUA_TUSERDATA | LUA_TTHREAD
deriving DecidableEq, Repr

/-- A `TValue` that can be a key: any but nil. -/
inductive Key
  | number (n : BitVec 32)
  | string (s : BitVec 32)
  | boolean (b : Bool)
  | lightuserdata (p : BitVec 32)
  | object (tt : ObjectType) (p : BitVec 32)
deriving DecidableEq, Repr

/-- How a call ends that does not return. `stuck` is none of the code's own errors: a chain that does not
end or does not come where it should, an index outside a vector, or keys put in again at greater depth
than the model goes. -/
inductive Error
  | indexIsNil | tableOverflow | invalidKeyToNext | stuck
deriving DecidableEq, Repr

/-- `Table`. -/
structure Table (V : Type) where
  sizearray : ℕ
  array : List (Option V)
  dummy : Bool
  node : Scatter Key V

/-- What a `TValue*` into a table points to. -/
inductive Slot
  | array (i : ℕ)
  | node (i : ℕ)
deriving DecidableEq, Repr

/-- `dummynode_`. -/
def dummynode {V : Type} : Scatter Key V := ⟨1, fun _ => {}, 0⟩

/-! ### Logarithms -/

/-- The table of `luaO_log2`. -/
def log2 : List ℕ :=
  [0] ++ [1] ++ List.replicate 2 2 ++ List.replicate 4 3 ++ List.replicate 8 4 ++ List.replicate 16 5 ++
    List.replicate 32 6 ++ List.replicate 64 7 ++ List.replicate 128 8

/-- The loop of `luaO_log2`. -/
def log2Loop (l : ℤ) (x : ℕ) : ℤ :=
  if 256 ≤ x then log2Loop (l + 8) (x >>> 8) else l + log2.getD x 0
termination_by x
decreasing_by
  rw [Nat.shiftRight_eq_div_pow]
  exact Nat.div_lt_self (by omega) (by decide)

/-- `luaO_log2`. -/
def luaOLog2 (x : ℕ) : ℤ := log2Loop (-1) x

/-- `ceillog2`, which is not called with 0. -/
def ceillog2 (x : ℕ) : ℕ := (luaOLog2 (x - 1) + 1).toNat

/-! ### Hashes -/

/-- `hashmod`. -/
def hashmod (size n : ℕ) : ℕ := n % ((size - 1) ||| 1)

/-- `hashpow2`. -/
def hashpow2 (size n : ℕ) : ℕ := n &&& (size - 1)

/-- `hashnum`. -/
def hashnum (size : ℕ) (n : BitVec 32) : ℕ := if n = 0 then 0 else hashmod size n.toNat

/-- `mainposition`; `hash` is the field of that name of a string. -/
def mainposition (hash : BitVec 32 → BitVec 32) (size : ℕ) : Key → ℕ
  | .number n => hashnum size n
  | .string s => hashpow2 size (hash s).toNat
  | .boolean b => hashpow2 size b.toNat
  | .lightuserdata p => hashmod size p.toNat
  | .object _ p => hashmod size p.toNat

/-- `arrayindex`. -/
def arrayindex : Key → ℤ
  | .number n => n.toInt
  | _ => -1

/-- The key that is the number `i`. -/
def intKey (i : ℕ) : Key := .number (BitVec.ofNat 32 i)

/-! ### Counting -/

/-- The loop of `computesizes`: `rest` entries of `nums` are left. -/
def computesizesLoop (nums : ℕ → ℕ) (narray : ℕ) :
    ℕ → (i twotoi a na n : ℕ) → Except Error (ℕ × ℕ)
  | rest, i, twotoi, a, na, n =>
    if twotoi / 2 < narray then
      match rest with
      | 0 => .error .stuck
      | rest + 1 =>
        let a' := a + nums i
        let grow : Bool := 0 < nums i ∧ twotoi / 2 < a'
        let na' := if grow then a' else na
        let n' := if grow then twotoi else n
        if a' = narray then .ok (na', n') else computesizesLoop nums narray rest (i + 1) (2 * twotoi) a' na' n'
    else .ok (na, n)

/-- `computesizes`: how many keys go to the array part, and its size. -/
def computesizes (nums : ℕ → ℕ) (narray : ℕ) : Except Error (ℕ × ℕ) :=
  computesizesLoop nums narray (MAXBITS + 1) 0 1 0 0 0

/-- `countint`: whether the key is counted, and `nums`. -/
def countint (key : Key) (nums : ℕ → ℕ) : ℕ × (ℕ → ℕ) :=
  let k := arrayindex key
  if 0 < k ∧ k ≤ MAXASIZE then
    (1, Function.update nums (ceillog2 k.toNat) (nums (ceillog2 k.toNat) + 1))
  else (0, nums)

namespace Table

variable {V : Type}

/-- What a slot holds. -/
def val (t : Table V) : Slot → Option V
  | .array i => t.array.getD i none
  | .node i => (t.node.node i).val

/-- `setobj2t` through a slot. -/
def store (t : Table V) (s : Slot) (v : Option V) : Table V :=
  match s with
  | .array i => { t with array := t.array.set i v }
  | .node i => { t with node := t.node.put i { t.node.node i with val := v } }

end Table

section Count

variable {V : Type}

/-- The loop over the slices of the array part: the slice `lg` begins with the key `i`. -/
def numusearrayLoop (t : Table V) : ℕ → (lg ttlg i ause : ℕ) → (ℕ → ℕ) → ℕ × (ℕ → ℕ)
  | 0, _, _, _, ause, nums => (ause, nums)
  | rest + 1, lg, ttlg, i, ause, nums =>
    let lim := if t.sizearray < ttlg then t.sizearray else ttlg
    if t.sizearray < ttlg ∧ lim < i then (ause, nums)
    else
      let lc := (List.range' i (lim + 1 - i)).countP fun i => (t.array.getD (i - 1) none).isSome
      numusearrayLoop t rest (lg + 1) (2 * ttlg) (max i (lim + 1)) (ause + lc)
        (Function.update nums lg (nums lg + lc))

/-- `numusearray`. -/
def numusearray (t : Table V) (nums : ℕ → ℕ) : ℕ × (ℕ → ℕ) :=
  numusearrayLoop t (MAXBITS + 1) 0 1 1 0 nums

/-- One turn of the loop of `numusehash`: `nums`, `ause` and `totaluse`. -/
def numusehashStep (n : Node Key V) (c : (ℕ → ℕ) × ℕ × ℕ) : (ℕ → ℕ) × ℕ × ℕ :=
  match n.val, n.key with
  | some _, some k => ((countint k c.1).2, c.2.1 + (countint k c.1).1, c.2.2 + 1)
  | some _, none => (c.1, c.2.1, c.2.2 + 1)
  | none, _ => c

/-- `numusehash`: `nums`, what is added to `*pnasize`, and the result. -/
def numusehash (t : Table V) (nums : ℕ → ℕ) : (ℕ → ℕ) × ℕ × ℕ :=
  (List.range t.node.size).reverse.foldl (fun c i => numusehashStep (t.node.node i) c) (nums, 0, 0)

/-- `setarrayvector`. -/
def setarrayvector (t : Table V) (size : ℕ) : Table V :=
  { t with
    array := t.array.take size ++ List.replicate (size - t.sizearray) none
    sizearray := size }

/-- `setnodevector`. -/
def setnodevector (t : Table V) (size : ℕ) : Except Error (Table V) :=
  if size = 0 then .ok { t with node := dummynode, dummy := true }
  else if MAXBITS < ceillog2 size then .error .tableOverflow
  else .ok { t with node := .empty (2 ^ ceillog2 size), dummy := false }

/-- `luaH_new`. -/
def luaHNew (narray nhash : ℕ) : Except Error (Table V) :=
  setnodevector (setarrayvector ⟨0, [], true, dummynode⟩ narray) nhash

end Count

section Access

variable {V : Type} (hash : BitVec 32 → BitVec 32)

/-- The search along the chain of a key. -/
def Table.search (t : Table V) (k : Key) : Except Error (Option Slot) :=
  match t.node.find (mainposition hash t.node.size) k with
  | none => .error .stuck
  | some i => .ok (i.map .node)

/-- `luaH_getnum`; no slot is `luaO_nilobject`. -/
def luaHGetnum (t : Table V) (key : BitVec 32) : Except Error (Option Slot) :=
  if (key - 1).toNat < t.sizearray then .ok (some (.array (key - 1).toNat))
  else t.search hash (.number key)

/-- `luaH_getstr`. -/
def luaHGetstr (t : Table V) (key : BitVec 32) : Except Error (Option Slot) := t.search hash (.string key)

/-- `luaH_get`. -/
def luaHGet (t : Table V) : Option Key → Except Error (Option Slot)
  | none => .ok none
  | some (.string s) => luaHGetstr hash t s
  | some (.number n) => luaHGetnum hash t n
  | some k => t.search hash k

/-- What is read through the result of a search. -/
def Table.read (t : Table V) (s : Option Slot) : Option V := s.bind t.val

/-- `luaH_set`, where `new` is `newkey`. -/
def setWith (new : Table V → Key → Except Error (Table V × Slot)) (t : Table V) (key : Option Key) :
    Except Error (Table V × Slot) := do
  match ← luaHGet hash t key with
  | some p => .ok (t, p)
  | none =>
    match key with
    | none => .error .indexIsNil
    | some k => new t k

/-- `luaH_setnum`, where `new` is `newkey`. -/
def setnumWith (new : Table V → Key → Except Error (Table V × Slot)) (t : Table V) (key : BitVec 32) :
    Except Error (Table V × Slot) := do
  match ← luaHGetnum hash t key with
  | some p => .ok (t, p)
  | none => new t (.number key)

/-- One turn of the first loop of `resize`: an element of the slice that vanishes. -/
def reinsertArray (new : Table V → Key → Except Error (Table V × Slot)) (t : Table V) (i : ℕ) :
    Except Error (Table V) :=
  match t.array.getD i none with
  | none => .ok t
  | some v => do
    let (t, p) ← setnumWith hash new t (BitVec.ofNat 32 (i + 1))
    .ok (t.store p (some v))

/-- One turn of the second loop of `resize`: a node of the old hash part. -/
def reinsertNode (new : Table V → Key → Except Error (Table V × Slot)) (t : Table V) (old : Node Key V) :
    Except Error (Table V) :=
  match old.val with
  | none => .ok t
  | some v => do
    let (t, p) ← setWith hash new t old.key
    .ok (t.store p (some v))

/-- `resize`, where `new` is `newkey`. -/
def resize (new : Table V → Key → Except Error (Table V × Slot)) (t : Table V) (nasize nhsize : ℕ) :
    Except Error (Table V) := do
  let oldasize := t.sizearray
  let nold := t.node
  let t := if oldasize < nasize then setarrayvector t nasize else t
  let t ← setnodevector t nhsize
  let t ←
    if nasize < oldasize then do
      let t ← (List.range' nasize (oldasize - nasize)).foldlM (reinsertArray hash new)
        { t with sizearray := nasize }
      .ok { t with array := t.array.take nasize }
    else .ok t
  (List.range nold.size).reverse.foldlM (fun t i => reinsertNode hash new t (nold.node i)) t

/-- `rehash`, where `new` is `newkey`. -/
def rehash (new : Table V → Key → Except Error (Table V × Slot)) (t : Table V) (ek : Key) :
    Except Error (Table V) := do
  let (nasize, nums) := numusearray t fun _ => 0
  let (nums, ause, use) := numusehash t nums
  let (extra, nums) := countint ek nums
  let totaluse := nasize + use + 1
  let (na, nasize) ← computesizes nums (nasize + ause + extra)
  resize hash new t nasize (totaluse - na)

/-- `newkey`, which puts keys in again to the depth `d`. -/
def newkey : ℕ → Table V → Key → Except Error (Table V × Slot)
  | 0, _, _ => .error .stuck
  | d + 1, t, key =>
    let grow (t : Table V) : Except Error (Table V × Slot) := do
      let t ← rehash hash (newkey d) t key
      setWith hash (newkey d) t (some key)
    if t.dummy then grow t
    else
      match t.node.insert (mainposition hash t.node.size) key with
      | .placed n i => .ok ({ t with node := n }, .node i)
      | .full n => grow { t with node := n }
      | .lost => .error .stuck

/-- `luaH_set`. -/
def luaHSet (d : ℕ) (t : Table V) (key : Option Key) : Except Error (Table V × Slot) :=
  setWith hash (newkey hash d) t key

/-- `luaH_setnum`. -/
def luaHSetnum (d : ℕ) (t : Table V) (key : BitVec 32) : Except Error (Table V × Slot) :=
  setnumWith hash (newkey hash d) t key

/-- `luaH_resizearray`. -/
def luaHResizearray (d : ℕ) (t : Table V) (nasize : ℕ) : Except Error (Table V) :=
  resize hash (newkey hash d) t nasize (if t.dummy then 0 else t.node.size)

/-- `lua_rawget`. -/
def luaRawget (t : Table V) (key : Option Key) : Except Error (Option V) := do
  .ok (t.read (← luaHGet hash t key))

/-- `lua_rawset`. -/
def luaRawset (d : ℕ) (t : Table V) (key : Option Key) (v : Option V) : Except Error (Table V) := do
  let (t, p) ← luaHSet hash d t key
  .ok (t.store p v)

/-- `lua_rawseti`. -/
def luaRawseti (d : ℕ) (t : Table V) (n : BitVec 32) (v : Option V) : Except Error (Table V) := do
  let (t, p) ← luaHSetnum hash d t n
  .ok (t.store p v)

/-! ### The traversal -/

/-- `findindex`. -/
def findindex (t : Table V) : Option Key → Except Error ℤ
  | none => .ok (-1)
  | some key =>
    if 0 < arrayindex key ∧ arrayindex key ≤ t.sizearray then .ok (arrayindex key - 1)
    else
      match t.node.find (mainposition hash t.node.size) key with
      | none => .error .stuck
      | some none => .error .invalidKeyToNext
      | some (some i) => .ok (i + t.sizearray)

/-- The first element of the array part from `i` on. -/
def nextArray (t : Table V) (i : ℕ) : Option (Key × V) :=
  (List.range' i (t.sizearray - i)).findSome? fun j => (t.array.getD j none).map (intKey (j + 1), ·)

/-- The first element of the hash part from `i` on. -/
def nextNode (t : Table V) (i : ℕ) : Option (Key × V) :=
  (List.range' i (t.node.size - i)).findSome? fun j =>
    (t.node.node j).val.bind fun v => (t.node.node j).key.map (·, v)

/-- `luaH_next`. -/
def luaHNext (t : Table V) (key : Option Key) : Except Error (Option (Key × V)) := do
  let i ← findindex hash t key
  let i := (i + 1).toNat
  .ok ((nextArray t i).or (nextNode t (max i t.sizearray - t.sizearray)))

/-! ### The length -/

/-- `luaH_getnum` of an `unsigned int`, read. -/
def getnumVal (t : Table V) (j : ℕ) : Except Error (Option V) := do
  .ok (t.read (← luaHGetnum hash t (BitVec.ofNat 32 j)))

/-- The binary search in the array part. -/
def arraySearch (t : Table V) (i j : ℕ) : ℕ :=
  if 1 < j - i then
    if (t.array.getD ((i + j) / 2 - 1) none).isNone then arraySearch t i ((i + j) / 2)
    else arraySearch t ((i + j) / 2) j
  else i
termination_by j - i

/-- The binary search of `unbound_search`. -/
def numSearch (t : Table V) (i j : ℕ) : Except Error ℕ :=
  if 1 < j - i then do
    match ← getnumVal hash t ((i + j) / 2) with
    | none => numSearch t i ((i + j) / 2)
    | some _ => numSearch t ((i + j) / 2) j
  else .ok i
termination_by j - i

/-- The linear search of `unbound_search`. -/
def linearSearch (t : Table V) : ℕ → ℕ → Except Error ℕ
  | 0, _ => .error .stuck
  | rest + 1, i => do
    match ← getnumVal hash t i with
    | none => .ok (i - 1)
    | some _ => linearSearch t rest (i + 1)

/-- The loop of `unbound_search` that looks for a key that is absent. -/
def doubleSearch (t : Table V) : ℕ → (i j : ℕ) → Except Error ℕ
  | 0, _, _ => .error .stuck
  | rest + 1, i, j => do
    match ← getnumVal hash t j with
    | none => numSearch hash t i j
    | some _ =>
      if MAX_INT < 2 * j then linearSearch hash t (t.sizearray + t.node.size + 1) 1
      else doubleSearch t rest j (2 * j)

/-- `unbound_search`. -/
def unboundSearch (t : Table V) (j : ℕ) : Except Error ℕ := doubleSearch hash t 32 j (j + 1)

/-- `luaH_getn`. -/
def luaHGetn (t : Table V) : Except Error ℕ :=
  let j := t.sizearray
  if 0 < j ∧ (t.array.getD (j - 1) none).isNone then .ok (arraySearch t 0 j)
  else if t.dummy then .ok j
  else unboundSearch hash t j

end Access

end Lua

end OsdCore
