import Mathlib.Logic.Function.Basic
import OsdCore.Format.CString
import OsdCore.Prog.Basic

/-!
# The flash file system

The platform's file system, as far as the loader uses it: the seven entry points of the platform's
vector table, on a disk that is a map from paths to contents.  Paths are compared as strings: the
device layer opens `/dir/file` on the root device under the name `dir/file`, and this is the file
that `delete_file` and `remove_dir` know as `/dir/file`.

* `DevOp.handle` is the device on which every operation succeeds.
* `device F` may in addition fail, as far as `F : Faults` admits it, and lose power in the middle of
  a write (a prefix of the bytes is stored) or of a recursive removal (some of the files are gone).
-/

namespace OsdCore

/-- The files, by path. -/
abbrev Disk := Path → Option Bytes

/-- `dir` and everything under it are removed. -/
def Disk.removeDir (d : Disk) (dir : Path) : Disk :=
  fun p => if dir ++ ascii "/" <+: p then none else d p

/-- An open file, as the device knows it: which file, and where the next byte goes. -/
structure Descriptor where
  path : Path := []
  pos : ℕ := 0
deriving DecidableEq, Repr

/-- Replace the bytes from `pos` on; a gap before them is filled with zeros. -/
def splice (old : Bytes) (pos : ℕ) (buf : Bytes) : Bytes :=
  old.take pos ++ List.replicate (pos - old.length) 0 ++ buf ++ old.drop (pos + buf.length)

@[simp] theorem splice_nil_zero (buf : Bytes) : splice [] 0 buf = buf := by simp [splice]

/-- The disk after `buf` is written through a descriptor. -/
def Disk.write (d : Disk) (fd : Descriptor) (buf : Bytes) : Disk :=
  match d fd.path with
  | some old => Function.update d fd.path (some (splice old fd.pos buf))
  | none => d

/-! ### Flags of `open_file` and positions of `seek_file` -/

def O_APPEND : ℕ := 1 <<< 0
def O_TRUNC : ℕ := 1 <<< 1
def O_CREAT : ℕ := 1 <<< 2
def O_RDONLY : ℕ := 1 <<< 3
def O_WRONLY : ℕ := 1 <<< 4
def O_RDWR : ℕ := O_RDONLY ||| O_WRONLY

/-- The origin of a seek. -/
inductive Whence where
  | SEEK_SET | SEEK_CUR | SEEK_END
deriving DecidableEq, Repr

/-! ### Operations -/

/-- The entry points of the platform's vector table. -/
inductive DevOp where
  | openFile (path : Path) (flags : ℕ)
  | closeFile (fd : Descriptor)
  | writeFile (fd : Descriptor) (buf : Bytes)
  | readFile (fd : Descriptor) (n : ℕ)
  | seekFile (fd : Descriptor) (offset : ℤ) (whence : Whence)
  | deleteFile (path : Path)
  | removeDir (path : Path)
deriving DecidableEq, Repr

/-- What they answer.  A negative descriptor or byte count is `none`, and an operation on an open
file also gives its descriptor with the new position. -/
@[reducible] def DevOp.Resp : DevOp → Type
  | openFile .. => Option Descriptor
  | closeFile .. => ℤ
  | writeFile .. => ℤ × Descriptor
  | readFile .. => Option Bytes × Descriptor
  | seekFile .. => ℤ × Descriptor
  | deleteFile .. => ℤ
  | removeDir .. => ℤ

/-- A `u32` as an `s32`. -/
def toInt32 (n : ℕ) : ℤ := if n % 2 ^ 32 < 2 ^ 31 then (n % 2 ^ 32 : ℕ) else (n % 2 ^ 32 : ℕ) - 2 ^ 32

theorem toInt32_of_lt {n : ℕ} (h : n < 2 ^ 31) : toInt32 n = n := by
  unfold toInt32
  rw [Nat.mod_eq_of_lt (by omega), if_pos h]

theorem toInt32_nonneg_iff {n : ℕ} (h : n < 2 ^ 32) : 0 ≤ toInt32 n ↔ n < 2 ^ 31 := by
  unfold toInt32
  rw [Nat.mod_eq_of_lt h]
  split_ifs <;> omega

/-- The position a seek asks for. -/
def seekPos (d : Disk) (fd : Descriptor) (offset : ℤ) : Whence → ℤ
  | .SEEK_SET => offset
  | .SEEK_CUR => fd.pos + offset
  | .SEEK_END => ((d fd.path).getD []).length + offset

/-- The device on which every operation succeeds.  Counts and positions are `int`s: a count that is
too large is reported as a negative number, and a position that is too large is not taken. -/
def DevOp.handle : (o : DevOp) → Disk → o.Resp × Disk
  | openFile path flags, d =>
    if (d path).isSome ∨ flags &&& O_CREAT ≠ 0 then
      (some { path := path },
        if (d path).isNone ∨ flags &&& O_TRUNC ≠ 0 then Function.update d path (some []) else d)
    else (none, d)
  | closeFile _, d => (0, d)
  | writeFile fd buf, d =>
    ((toInt32 buf.length, { fd with pos := fd.pos + buf.length }), d.write fd buf)
  | readFile fd n, d =>
    let got := (((d fd.path).getD []).drop fd.pos).take n
    if (d fd.path).isSome ∧ got.length < 2 ^ 31 then
      ((some got, { fd with pos := fd.pos + got.length }), d)
    else ((none, fd), d)
  | seekFile fd offset whence, d =>
    let pos := seekPos d fd offset whence
    if 0 ≤ pos ∧ pos < 2 ^ 31 then ((pos, { fd with pos := pos.toNat }), d) else ((-1, fd), d)
  | deleteFile path, d => (if (d path).isSome then 0 else -1, Function.update d path none)
  | removeDir path, d => (0, d.removeDir path)

/-- Which operations may fail. -/
structure Faults where
  /-- Writes may store and report fewer bytes than they were given. -/
  write : Prop
  /-- Everything else may fail. -/
  other : Prop

/-- No operation fails. -/
def Faults.none : Faults := ⟨False, False⟩

/-- Only writes may fail. -/
def Faults.writes : Faults := ⟨True, False⟩

/-- Every operation may fail. -/
def Faults.all : Faults := ⟨True, True⟩

/-- Some of the files under `dir` are removed. -/
def Disk.RemovesSome (d : Disk) (dir : Path) (d' : Disk) : Prop :=
  ∀ p, d' p = d p ∨ (dir ++ ascii "/" <+: p ∧ d' p = none)

/-- How an operation fails. -/
inductive DevOp.Fails (F : Faults) (d : Disk) : (o : DevOp) → o.Resp → Disk → Prop
  | openFile {path : Path} {flags : ℕ} : F.other → Fails F d (.openFile path flags) none d
  | closeFile {fd : Descriptor} {r : ℤ} : F.other → Fails F d (.closeFile fd) r d
  | writeFile {fd fd' : Descriptor} {buf : Bytes} {r : ℤ} {k : ℕ} : F.write →
      buf.length < 2 ^ 31 → r < buf.length →
      Fails F d (.writeFile fd buf) (r, fd') (d.write fd (buf.take k))
  | readFile {fd : Descriptor} {n : ℕ} : F.other → Fails F d (.readFile fd n) (none, fd) d
  | seekFile {fd : Descriptor} {offset : ℤ} {whence : Whence} : F.other →
      Fails F d (.seekFile fd offset whence) (-1, fd) d
  | deleteFile {path : Path} : F.other → Fails F d (.deleteFile path) (-1 : ℤ) d
  | removeDir {path : Path} {d' : Disk} : F.other → d.RemovesSome path d' →
      Fails F d (.removeDir path) (-1 : ℤ) d'

/-- What a power failure in the middle of an operation leaves behind. -/
inductive DevOp.Cut (d : Disk) : DevOp → Disk → Prop
  | writeFile {fd : Descriptor} {buf : Bytes} (k : ℕ) :
      Cut d (.writeFile fd buf) (d.write fd (buf.take k))
  | removeDir {path : Path} {d' : Disk} : d.RemovesSome path d' → Cut d (.removeDir path) d'

/-- The device whose operations may fail as far as `F` admits. -/
def device (F : Faults) : Device DevOp DevOp.Resp Disk where
  step o d r d' := (r, d') = o.handle d ∨ o.Fails F d r d'
  mid o d m := o.Cut d m

theorem device_step_handle (F : Faults) (o : DevOp) (d : Disk) :
    (device F).step o d (o.handle d).1 (o.handle d).2 := Or.inl rfl

/-- Without faults, the device is a function. -/
theorem device_none_step {o : DevOp} {d d' : Disk} {r : o.Resp} :
    (device .none).step o d r d' ↔ (r, d') = o.handle d := by
  refine ⟨fun h => h.elim id fun h => ?_, Or.inl⟩
  cases h <;> contradiction

end OsdCore
