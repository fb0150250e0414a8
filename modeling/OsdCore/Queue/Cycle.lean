import OsdCore.Device.Disk
import OsdCore.Queue.Fifo

/-!
# The ring buffer of the serial ports: `cycle_queue`

`queueClean`, `queueInsert` and `queueDelete` are the three functions of the ring buffer, `none` where
they would leave the buffer.

* `CycleQueue.Refines` : the ring buffer holds what a bounded queue that drops its oldest bytes does.
* `queue_refines` : any sequence of calls, from a cleaned ring buffer on, does what it does to the
  bounded queue.
-/

namespace OsdCore

/-- The ring buffer. -/
structure CycleQueue where
  buf : Bytes
  size : ℕ
  head : ℕ := 0
  tail : ℕ := 0
  empty : Bool := true
  full : Bool := false
  overflow : Bool := false
deriving DecidableEq, Repr

/-- Move a cursor on, as a `uint32`. -/
def CycleQueue.next (q : CycleQueue) (cursor : ℕ) : ℕ := (cursor + 1) % 2 ^ 32 % q.size

/-- `QueueClean`. -/
def queueClean (q : CycleQueue) : CycleQueue :=
  { q with head := 0, tail := 0, empty := true, full := false, overflow := false }

/-- The body of the loop of `QueueInsert`: when the queue is full, the byte goes over the oldest one,
and the tail is left behind. -/
def CycleQueue.put (q : CycleQueue) (b : UInt8) : Option CycleQueue :=
  if q.head < q.buf.length then
    some { q with
      buf := q.buf.set q.head b
      overflow := (q.full && q.head == q.tail) || q.overflow
      head := q.next q.head
      full := q.next q.head == q.tail || q.full
      empty := false }
  else none

/-- The loop of `QueueInsert`. -/
def insertLoop : Bytes → CycleQueue → Option CycleQueue
  | [], q => some q
  | b :: data, q => (q.put b).bind (insertLoop data)

/-- `QueueInsert`: the tail catches up at the end. -/
def queueInsert (q : CycleQueue) (data : Bytes) : Option (ℤ × CycleQueue) :=
  (insertLoop data q).map fun q =>
    (toInt32 data.length, if q.overflow then { q with tail := q.head } else q)

/-- The loop of `QueueDelete`, for at most this many bytes. -/
def deleteLoop : ℕ → CycleQueue → Option (Bytes × CycleQueue)
  | 0, q => some ([], q)
  | len + 1, q => do
    let b ← q.buf[q.tail]?
    let q := { q with tail := q.next q.tail }
    if q.tail = q.head then some ([b], { q with empty := true })
    else do
      let (data, q) ← deleteLoop len q
      some (b :: data, q)

/-- `QueueDelete`: the result, and the bytes that it stores. -/
def queueDelete (q : CycleQueue) (len : ℕ) : Option (ℤ × Bytes × CycleQueue) := do
  let (data, q) ← if q.empty then some ([], q) else deleteLoop len q
  some (toInt32 data.length, data,
    if 0 < data.length ∧ q.full then { q with full := false, overflow := false } else q)

/-! ### What the ring buffer holds -/

/-- Where the oldest byte is. -/
def CycleQueue.start (q : CycleQueue) : ℕ := if q.overflow then q.head else q.tail

/-- The number of bytes stored. -/
def CycleQueue.stored (q : CycleQueue) : ℕ :=
  if q.empty then 0 else if q.full then q.size else (q.head + q.size - q.tail) % q.size

/-- The bytes stored, the oldest first. -/
def CycleQueue.content (q : CycleQueue) : Bytes :=
  (List.range q.stored).map fun i => (q.buf[(q.tail + i) % q.size]?).getD 0

/-- **The ring buffer holds the bytes of the bounded queue.**  Inside `QueueInsert` the tail may be
behind, and `start` says where the oldest byte is. -/
structure CycleQueue.Holds (q : CycleQueue) {n : ℕ} (a : Fifo UInt8 n) : Prop where
  size : q.size = n
  length_buf : q.buf.length = n
  pos : 0 < n
  size_lt : n < 2 ^ 32
  head_lt : q.head < n
  tail_lt : q.tail < n
  ring : RingHolds q.buf q.start a.items
  head_eq : q.head = (q.start + a.items.length) % n
  empty_iff : q.empty = true ↔ a.items.length = 0
  full_iff : q.full = true ↔ a.items.length = n
  overflow : q.overflow = true → q.full = true

/-- Between the calls, the tail is where the oldest byte is. -/
structure CycleQueue.Refines (q : CycleQueue) {n : ℕ} (a : Fifo UInt8 n) : Prop
    extends q.Holds a where
  tail_eq : q.tail = q.start

namespace CycleQueue

variable {q q' : CycleQueue} {n : ℕ} {a : Fifo UInt8 n}

theorem Holds.next_eq (h : q.Holds a) {cursor : ℕ} (hlt : cursor < n) :
    q.next cursor = (cursor + 1) % n := by
  have hsize := h.size_lt
  rw [next, h.size, Nat.mod_eq_of_lt (show cursor + 1 < 2 ^ 32 by omega)]

theorem Holds.start_lt (h : q.Holds a) : q.start < n := by
  unfold start
  split_ifs
  · exact h.head_lt
  · exact h.tail_lt

/-- When the queue is full, the head is where the oldest byte is. -/
theorem Holds.head_eq_start (h : q.Holds a) (hfull : a.items.length = n) : q.head = q.start := by
  rw [h.head_eq, hfull, Nat.add_mod_right, Nat.mod_eq_of_lt h.start_lt]

/-- While there is room, the tail is. -/
theorem Holds.tail_eq_start (h : q.Holds a) (hlt : a.items.length < n) :
    q.overflow = false ∧ q.tail = q.start := by
  have hover : q.overflow = false := by
    by_contra hover
    have hfull := h.full_iff.1 (h.overflow (by simpa using hover))
    omega
  exact ⟨hover, by simp [start, hover]⟩

/-- **One byte is put in.** -/
theorem Holds.put (h : q.Holds a) (b : UInt8) :
    ∃ q', q.put b = some q' ∧ q'.Holds (a.insert [b]) := by
  have hle := a.length_le
  have hpos := h.pos
  have hhead := h.head_lt
  have hnext := h.next_eq hhead
  have hnext_lt : q.next q.head < n := by rw [hnext]; exact Nat.mod_lt _ hpos
  rw [CycleQueue.put, if_pos (by rw [h.length_buf]; exact hhead)]
  refine ⟨_, rfl, ?_⟩
  by_cases hfull : a.items.length = n
  · -- over the oldest byte
    have hitems := Fifo.items_insert_of_full hfull hpos b
    have hlen : (a.insert [b]).items.length = n := by
      rw [hitems, List.length_append, List.length_drop, List.length_singleton]
      omega
    have hf : q.full = true := h.full_iff.2 hfull
    have hstart := h.head_eq_start hfull
    have hover : (q.full && q.head == q.tail || q.overflow) = true := by
      cases ho : q.overflow with
      | true => simp
      | false =>
        simp only [start, ho, Bool.false_eq_true, ↓reduceIte] at hstart
        simp [hf, hstart]
    have hring := ringHolds_rotate h.ring (hfull.trans h.length_buf.symm)
      (by rw [h.length_buf]; exact hpos) b
    rw [h.length_buf, ← hstart, Nat.mod_eq_of_lt hhead, ← hnext, ← hitems] at hring
    simp only [hf, Bool.true_and, Bool.or_true] at hover ⊢
    refine ⟨h.size, by rw [List.length_set, h.length_buf], hpos, h.size_lt, hnext_lt, h.tail_lt, ?_, ?_,
      by simp [hlen, hpos.ne'], by simp [hlen], fun _ => rfl⟩
    · simpa only [start, hover, ↓reduceIte] using hring
    · simp only [start, hover, ↓reduceIte]
      rw [hlen, Nat.add_mod_right, Nat.mod_eq_of_lt hnext_lt]
  · -- into a free cell
    have hlt : a.items.length < n := by omega
    have hitems := Fifo.items_insert_of_lt hlt b
    have hlen : (a.insert [b]).items.length = a.items.length + 1 := by
      rw [hitems, List.length_append, List.length_singleton]
    have hf : q.full = false := by simpa using mt h.full_iff.1 hfull
    obtain ⟨hover, htail⟩ := h.tail_eq_start hlt
    have hring := ringHolds_push h.ring (by rw [h.length_buf]; exact hlt) b
    have hheadeq := h.head_eq
    rw [h.length_buf, ← hheadeq, ← hitems] at hring
    rw [← htail] at hring hheadeq
    have hnext' : q.next q.head = (q.tail + (a.items.length + 1)) % n := by
      rw [hnext, hheadeq, Nat.mod_add_mod, Nat.add_assoc]
    -- the head comes round to the tail when the last cell is taken
    have hround : q.next q.head = q.tail ↔ a.items.length + 1 = n := by
      rw [hnext']
      constructor
      · intro heq
        by_contra hne
        refine ring_index_ne (n := n) (s := q.tail) (by omega) hpos (by omega) (heq.trans ?_)
        rw [Nat.add_zero, Nat.mod_eq_of_lt h.tail_lt]
      · intro heq
        rw [heq, Nat.add_mod_right, Nat.mod_eq_of_lt h.tail_lt]
    simp only [hf, Bool.false_and, Bool.or_false, hover]
    refine ⟨h.size, by rw [List.length_set, h.length_buf], hpos, h.size_lt, hnext_lt, h.tail_lt, ?_, ?_,
      by simp [hlen], by simp [hlen, hround], by simp⟩
    · simpa only [start, Bool.false_eq_true, ↓reduceIte] using hring
    · simpa only [start, Bool.false_eq_true, ↓reduceIte, hlen] using hnext'

theorem Holds.insertLoop (h : q.Holds a) (data : Bytes) :
    ∃ q', OsdCore.insertLoop data q = some q' ∧ q'.Holds (a.insert data) := by
  induction data generalizing q a with
  | nil => exact ⟨q, rfl, by rwa [Fifo.insert_nil]⟩
  | cons b data ih =>
    obtain ⟨q₁, hput, h₁⟩ := h.put b
    obtain ⟨q₂, hrest, h₂⟩ := ih h₁
    refine ⟨q₂, ?_, by rwa [Fifo.insert_cons]⟩
    rw [OsdCore.insertLoop, hput, Option.bind_some, hrest]

/-- **`QueueInsert`** puts all the bytes in. -/
theorem Refines.insert (h : q.Refines a) (data : Bytes) :
    ∃ q', queueInsert q data = some (toInt32 data.length, q') ∧ q'.Refines (a.insert data) := by
  obtain ⟨q₁, hloop, h₁⟩ := h.toHolds.insertLoop data
  rw [queueInsert, hloop]
  refine ⟨_, rfl, ?_⟩
  cases hover : q₁.overflow with
  | false => exact ⟨h₁, by simp [start, hover]⟩
  | true =>
    have hring := h₁.ring
    have hhead := h₁.head_eq
    simp only [start, hover, ↓reduceIte] at hring hhead
    refine ⟨⟨h₁.size, h₁.length_buf, h₁.pos, h₁.size_lt, h₁.head_lt, h₁.head_lt, ?_, ?_, h₁.empty_iff,
      h₁.full_iff, fun _ => h₁.overflow hover⟩, ?_⟩
    · simpa only [start, ↓reduceIte] using hring
    · simpa only [start, ↓reduceIte] using hhead
    · simp [start]

/-- The loop of `QueueDelete` takes the oldest bytes. -/
theorem deleteLoop_eq {items : Bytes} (hsize : q.size = n) (hbuf : q.buf.length = n) (hn : n < 2 ^ 32)
    (htail : q.tail < n) (hle : items.length ≤ n) (hpos : items ≠ [])
    (hhead : q.head = (q.tail + items.length) % n) (hring : RingHolds q.buf q.tail items) (len : ℕ) :
    deleteLoop len q = some (items.take len, { q with
      tail := (q.tail + min len items.length) % n
      empty := decide (items.length ≤ len) || q.empty }) := by
  induction len generalizing q items with
  | zero =>
    have hlen : ¬ items.length ≤ 0 := by simpa using hpos
    simp [deleteLoop, hpos, Nat.mod_eq_of_lt htail]
  | succ len ih =>
    obtain ⟨x, items, rfl⟩ := List.exists_cons_of_ne_nil hpos
    rw [List.length_cons] at hle hhead
    obtain ⟨hx, hrest⟩ := ringHolds_pop hring
    rw [hbuf, Nat.mod_eq_of_lt htail] at hx
    rw [hbuf] at hrest
    have hnext : q.next q.tail = (q.tail + 1) % n := by
      rw [next, hsize, Nat.mod_eq_of_lt (show q.tail + 1 < 2 ^ 32 by omega)]
    have hnext_lt : (q.tail + 1) % n < n := Nat.mod_lt _ (by omega)
    have hmod : (q.tail + 1 + items.length) % n = ((q.tail + 1) % n + items.length) % n := by
      rw [Nat.mod_add_mod]
    -- the tail comes round to the head with the last byte
    have hround : q.next q.tail = q.head ↔ items = [] := by
      rw [hnext, hhead]
      constructor
      · intro heq
        by_contra hne
        have hlen : 0 < items.length := List.length_pos_iff.2 hne
        refine ring_index_ne (n := n) (s := q.tail + 1) (show 0 < n by omega)
          (show items.length < n by omega) (by omega) ?_
        rw [Nat.add_zero, heq]
        congr 1
        omega
      · rintro rfl
        rfl
    rw [deleteLoop, hx]
    by_cases hnil : items = []
    · subst hnil
      simp [hround.2 rfl, ← hnext]
    · have hcond : ¬ (q.next q.tail = q.head) := fun heq => hnil (hround.1 heq)
      have hih := ih (q := { q with tail := q.next q.tail }) hsize hbuf
        (by rw [hnext]; exact hnext_lt) (by omega) hnil
        (by rw [hnext, ← hmod, hhead]; congr 1; omega) (by rw [hnext]; exact hrest)
      simp only [Option.bind_eq_bind, Option.bind_some, hcond, ↓reduceIte, hih, List.take_succ_cons,
        List.length_cons]
      rw [hnext, Nat.mod_add_mod]
      congr 4
      · omega
      · simp

/-- **`QueueDelete`** takes the oldest bytes out. -/
theorem Refines.delete (h : q.Refines a) (len : ℕ) :
    ∃ q', queueDelete q len = some (toInt32 (a.items.take len).length, a.items.take len, q') ∧
      q'.Refines (a.delete len) := by
  have hle := a.length_le
  have hpos := h.pos
  have hring := h.ring
  have hhead := h.head_eq
  rw [← h.tail_eq] at hring hhead
  cases hempty : q.empty with
  | true =>
    have hnil : a.items = [] := List.length_eq_zero_iff.1 (h.empty_iff.1 hempty)
    refine ⟨q, by simp [queueDelete, hempty, hnil], ?_⟩
    have hsame : a.delete len = a := by
      cases a
      simp only at hnil
      subst hnil
      simp [Fifo.delete]
    rwa [hsame]
  | false =>
    have hne : a.items ≠ [] := fun hnil => by simpa [hempty] using h.empty_iff.2 (by rw [hnil]; rfl)
    have hloop := deleteLoop_eq h.size h.length_buf h.size_lt h.tail_lt hle hne hhead hring len
    have hlen : (a.items.take len).length = min len a.items.length := List.length_take
    have hlen0 : 0 < a.items.length := List.length_pos_iff.2 hne
    cases len with
    | zero =>
      refine ⟨q, ?_, by simpa [Fifo.delete] using h⟩
      have hno : ¬ a.items.length ≤ 0 := by omega
      simp only [Nat.zero_min, Nat.add_zero, Nat.mod_eq_of_lt h.tail_lt, hno, decide_false,
        Bool.false_or] at hloop
      have hsame : { q with empty := false } = q := by rw [← hempty]
      simp [queueDelete, hempty, hloop, hsame]
    | succ len =>
      -- the flags are cleared, if they were set
      have hres : queueDelete q (len + 1) = some (toInt32 (a.items.take (len + 1)).length,
          a.items.take (len + 1), { q with
            tail := (q.tail + min (len + 1) a.items.length) % n
            empty := decide (a.items.length ≤ len + 1)
            full := false
            overflow := false }) := by
        have hpos' : 0 < (a.items.take (len + 1)).length := by omega
        simp only [queueDelete, hempty, Bool.false_eq_true, ↓reduceIte, hloop, Option.bind_eq_bind,
          Option.bind_some, hpos', true_and, Bool.or_false]
        cases hfull : q.full with
        | true => rfl
        | false =>
          have hover : q.overflow = false := by
            simpa [hfull] using mt h.overflow
          simp [hover]
      refine ⟨_, hres, ⟨h.size, h.length_buf, hpos, h.size_lt, h.head_lt, Nat.mod_lt _ hpos, ?_, ?_, ?_,
        ?_, by simp⟩, rfl⟩
      · have hdrop := ringHolds_drop hring (len + 1)
        rwa [h.length_buf] at hdrop
      · simp only [start, Bool.false_eq_true, ↓reduceIte, Fifo.delete, List.length_drop]
        rw [hhead, Nat.mod_add_mod]
        congr 1
        omega
      · simp only [Fifo.delete, List.length_drop, decide_eq_true_eq]
        omega
      · simp only [Fifo.delete, List.length_drop, Bool.false_eq_true, false_iff]
        omega

/-- A cleaned ring buffer is empty. -/
theorem refines_clean (hpos : 0 < q.size) (hlt : q.size < 2 ^ 32) (hbuf : q.buf.length = q.size) :
    (queueClean q).Refines (Fifo.empty : Fifo UInt8 q.size) where
  size := rfl
  length_buf := hbuf
  pos := hpos
  size_lt := hlt
  head_lt := hpos
  tail_lt := hpos
  ring := ringHolds_nil
  head_eq := (Nat.zero_mod _).symm
  empty_iff := by simp [queueClean, Fifo.empty]
  full_iff := by simp [queueClean, Fifo.empty, hpos.ne]
  overflow := by simp [queueClean]
  tail_eq := rfl

theorem Refines.clean (h : q.Refines a) : (queueClean q).Refines (Fifo.empty : Fifo UInt8 n) := by
  obtain rfl := h.size
  exact refines_clean h.pos h.size_lt h.length_buf

/-- The number of bytes, by the cursors and the flags. -/
theorem Refines.stored_eq (h : q.Refines a) : q.stored = a.items.length := by
  have hle := a.length_le
  have htail := h.tail_lt
  have hhead := h.head_eq
  rw [← h.tail_eq] at hhead
  unfold stored
  split_ifs with hempty hfull
  · exact (h.empty_iff.1 hempty).symm
  · rw [h.size, h.full_iff.1 hfull]
  · have hne : a.items.length ≠ n := mt h.full_iff.2 hfull
    rw [h.size, hhead]
    rcases lt_or_ge (q.tail + a.items.length) n with hlt | hge
    · rw [Nat.mod_eq_of_lt hlt, show q.tail + a.items.length + n - q.tail = a.items.length + n by omega,
        Nat.add_mod_right, Nat.mod_eq_of_lt (by omega)]
    · have hround : (q.tail + a.items.length) % n = q.tail + a.items.length - n := by
        rw [Nat.mod_eq_sub_mod hge, Nat.mod_eq_of_lt (by omega)]
      rw [hround, show q.tail + a.items.length - n + n - q.tail = a.items.length by omega,
        Nat.mod_eq_of_lt (by omega)]

/-- **What the ring buffer holds** is what the bounded queue does. -/
theorem Refines.content_eq (h : q.Refines a) : q.content = a.items := by
  have hring := h.ring
  rw [← h.tail_eq] at hring
  have hread := eq_of_ringHolds hring 0
  rw [h.length_buf] at hread
  rw [content, h.stored_eq, h.size, hread]

end CycleQueue

/-! ### Sequences of calls -/

/-- A call. -/
inductive QueueOp where
  | clean
  | insert (data : Bytes)
  | delete (len : ℕ)
deriving DecidableEq, Repr

/-- What a call returns, if anything, the bytes that it stores, and the ring buffer after it. -/
def QueueOp.run (q : CycleQueue) : QueueOp → Option ((ℤ × Bytes) × CycleQueue)
  | clean => some ((0, []), queueClean q)
  | insert data => (queueInsert q data).map fun r => ((r.1, []), r.2)
  | delete len => (queueDelete q len).map fun r => ((r.1, r.2.1), r.2.2)

/-- The same for the bounded queue. -/
def QueueOp.spec {n : ℕ} (a : Fifo UInt8 n) : QueueOp → (ℤ × Bytes) × Fifo UInt8 n
  | clean => ((0, []), Fifo.empty)
  | insert data => ((toInt32 data.length, []), a.insert data)
  | delete len => ((toInt32 (min len a.items.length), a.items.take len), a.delete len)

/-- Call after call. -/
def runQueue : List QueueOp → CycleQueue → Option (List (ℤ × Bytes) × CycleQueue)
  | [], q => some ([], q)
  | op :: ops, q => (op.run q).bind fun r => (runQueue ops r.2).map fun rs => (r.1 :: rs.1, rs.2)

def specQueue {n : ℕ} : List QueueOp → Fifo UInt8 n → List (ℤ × Bytes) × Fifo UInt8 n
  | [], a => ([], a)
  | op :: ops, a =>
    let rs := specQueue ops (op.spec a).2
    ((op.spec a).1 :: rs.1, rs.2)

/-- One call. -/
theorem CycleQueue.Refines.step {q : CycleQueue} {n : ℕ} {a : Fifo UInt8 n} (h : q.Refines a)
    (op : QueueOp) : ∃ q', op.run q = some ((op.spec a).1, q') ∧ q'.Refines (op.spec a).2 := by
  cases op with
  | clean => exact ⟨_, rfl, h.clean⟩
  | insert data =>
    obtain ⟨q', hq, h'⟩ := h.insert data
    exact ⟨q', by rw [QueueOp.run, hq]; rfl, h'⟩
  | delete len =>
    obtain ⟨q', hq, h'⟩ := h.delete len
    refine ⟨q', ?_, h'⟩
    rw [QueueOp.run, hq, List.length_take]
    rfl

/-- All calls. -/
theorem CycleQueue.Refines.run {q : CycleQueue} {n : ℕ} {a : Fifo UInt8 n} (h : q.Refines a)
    (ops : List QueueOp) :
    ∃ q', runQueue ops q = some ((specQueue ops a).1, q') ∧ q'.Refines (specQueue ops a).2 := by
  induction ops generalizing q a with
  | nil => exact ⟨q, rfl, h⟩
  | cons op ops ih =>
    obtain ⟨q₁, hop, h₁⟩ := h.step op
    obtain ⟨q₂, hops, h₂⟩ := ih h₁
    exact ⟨q₂, by rw [runQueue, hop, Option.bind_some, hops]; rfl, h₂⟩

/-- **The ring buffer refines the bounded queue**: after any sequence of calls, all of them have
returned what the bounded queue does, the content is its content, and the two flags say whether it
is empty or full. -/
theorem queue_refines {q : CycleQueue} (hpos : 0 < q.size) (hlt : q.size < 2 ^ 32)
    (hbuf : q.buf.length = q.size) (ops : List QueueOp) :
    ∃ q', runQueue ops (queueClean q) =
        some ((specQueue ops (Fifo.empty : Fifo UInt8 q.size)).1, q') ∧
      q'.content = (specQueue ops (Fifo.empty : Fifo UInt8 q.size)).2.items ∧
      (q'.empty = true ↔ q'.content.length = 0) ∧ (q'.full = true ↔ q'.content.length = q.size) := by
  obtain ⟨q', hrun, h⟩ := (CycleQueue.refines_clean hpos hlt hbuf).run ops
  exact ⟨q', hrun, h.content_eq, by rw [h.content_eq, h.empty_iff], by rw [h.content_eq, h.full_iff]⟩

/-- Three bytes through a ring buffer of two. -/
theorem queue_refines_two : ∃ q', runQueue [.insert [1, 2, 3], .delete 1]
      (queueClean ⟨[0, 0], 2, 0, 0, true, false, false⟩) = some ([(3, []), (1, [2])], q') ∧
    q'.content = [3] ∧ (q'.empty = true ↔ q'.content.length = 0) ∧
      (q'.full = true ↔ q'.content.length = 2) :=
  queue_refines (q := ⟨[0, 0], 2, 0, 0, true, false, false⟩) (by decide) (by decide) rfl
    [.insert [1, 2, 3], .delete 1]

end OsdCore
