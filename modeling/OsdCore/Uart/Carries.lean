import OsdCore.Uart.Basic

/-!
# What the receive buffers carry

`Carries` relates the buffers of a port, and the call that reads from them, to the passage of the bytes.
`Carries.insert` and `Carries.readStep` say what `QueueInsert` and a step of a read loop do to it, and
`Carries.onceInOrder` what it means for the callers.
-/

namespace OsdCore

/-- The bytes that a call has stored. -/
def storedData : Option ReadCall → Bytes
  | none => []
  | some (.loop _ data) => data
  | some (.refilled _ data) => data

/-- The bytes of the read buffer that are still to be read. -/
def RxBuffers.unread (b : RxBuffers) : Option ReadCall → Bytes
  | none => (b.readbuf.take b.readsize).drop b.readindex
  | some (.loop _ _) => (b.readbuf.take b.readsize).drop b.readindex
  -- the index is still the old one
  | some (.refilled _ _) => b.readbuf.take b.readsize

/-- The call that goes on. -/
def ReadOutcome.call : ReadOutcome → Option ReadCall
  | .go call => some call
  | .done _ _ => none

variable {n : ℕ}

/-- The reader leaves the line as it is. -/
@[simp] theorem Passage.byte_after (p : Passage n) (bufSize : ℕ) (out : ReadOutcome) :
    (p.after bufSize out).byte = p.byte := by
  rcases out with (_ | _) | _ <;> rfl

/-- **The buffers carry the bytes of the passage**: the ring holds those that wait, and those that have been
taken out of it are with the callers, with the call or in the read buffer. -/
structure Carries (bufSize : ℕ) (b : RxBuffers) (call : Option ReadCall) (p : Passage n) : Prop where
  ring : b.rxqueue.Refines (p.history.waiting.map p.byte)
  length_readbuf : b.readbuf.length = bufSize
  readsize_le : b.readsize ≤ bufSize
  arrived : p.history.arrived = p.line.length
  flow : p.received ++ storedData call ++ b.unread call = p.history.taken.map p.byte
  -- a call fills the buffer only if it needs more
  short : ∀ length data, call = some (.refilled length data) → data.length < length

/-- What a caller learns from a step of its call: it returns too few bytes only after it has filled the read
buffer in vain, and that is so only if the ring was empty. -/
def ReadOutcome.Tells (b : RxBuffers) (call : ReadCall) (b' : RxBuffers) : ReadOutcome → Prop
  | .go (.loop _ _) => True
  | .go (.refilled _ _) => b'.readsize = 0 → b'.rxqueue.content = []
  | .done length data =>
    data.length < length → call = .refilled length data ∧ b.readsize = 0 ∧ b' = { b with readindex := 0 }

namespace Carries

variable {w bufSize : ℕ} {b : RxBuffers} {call : Option ReadCall} {p : Passage n}

/-- The bytes that have arrived stay what they are. -/
theorem byte_arrive (h : Carries bufSize b call p) (data : Bytes) {i : ℕ} (hi : i < p.history.arrived) :
    (p.arrive data).byte i = p.byte i := by
  rw [h.arrived] at hi
  exact List.getD_append _ _ _ _ hi

/-- The new ones are those of `data`. -/
theorem map_next (h : Carries bufSize b call p) (data : Bytes) :
    (p.history.next data.length).map (p.arrive data).byte = data := by
  refine List.ext_getElem (by simp [Channel.next]) fun i hi hi' => ?_
  have harrived := h.arrived
  simp [Channel.next, Passage.byte, Passage.arrive, harrived, hi']

/-- **`QueueInsert`**, with the bytes that arrive. -/
theorem insert (h : Carries bufSize b call p) (data : Bytes) :
    ∃ q, queueInsert b.rxqueue data = some (toInt32 data.length, q) ∧
      Carries bufSize { b with rxqueue := q } call (p.arrive data) := by
  obtain ⟨q, hq, hring⟩ := h.ring.insert data
  have hwaiting : (p.history.waiting.map (p.arrive data).byte) = p.history.waiting.map p.byte :=
    Fifo.map_congr fun i hi => h.byte_arrive data (p.history.lt_of_waiting hi)
  have htaken : p.history.taken.map (p.arrive data).byte = p.history.taken.map p.byte :=
    List.map_congr_left fun i hi => h.byte_arrive data (p.history.lt_of_taken hi)
  refine ⟨q, hq, ?_, h.length_readbuf, h.readsize_le, ?_, ?_, h.short⟩
  · have hmap : (p.arrive data).history.waiting.map (p.arrive data).byte =
        (p.history.waiting.map p.byte).insert data := by
      rw [show (p.arrive data).history = p.history.arrive data.length from rfl, Channel.waiting_arrive,
        Fifo.map_insert, hwaiting, h.map_next]
    rw [hmap]
    exact hring
  · have harrived := h.arrived
    simp [Passage.arrive, harrived]
  · exact h.flow.trans htaken.symm

/-- **A byte is copied** from the read buffer. -/
theorem copyByte {length : ℕ} {data : Bytes} (hw : bufSize < 2 ^ w)
    (h : Carries bufSize b (some (.loop length data)) p) (hlt : b.readindex < b.readsize) :
    ∃ b' out, OsdCore.copyByte w b length data = some (b', out) ∧
      Carries bufSize b' out.call (p.after bufSize out) ∧ ∀ b call, out.Tells b call b' := by
  have hsize := h.readsize_le
  have hbuf := h.length_readbuf
  have hindex : (b.readindex + 1) % 2 ^ w = b.readindex + 1 := Nat.mod_eq_of_lt (by omega)
  have hget := List.getElem?_eq_getElem (show b.readindex < b.readbuf.length by omega)
  have hflow := h.flow
  rw [RxBuffers.unread, List.drop_eq_getElem_cons (by rw [List.length_take]; omega),
    List.getElem_take] at hflow
  rw [OsdCore.copyByte, hget, Option.map_some, hindex]
  refine ⟨_, _, rfl, ⟨h.ring, hbuf, hsize, h.arrived, ?_, nofun⟩, fun _ _ => trivial⟩
  simpa [storedData, RxBuffers.unread, ReadOutcome.call, Passage.after] using hflow

/-- **The call returns.** -/
theorem done {length : ℕ} {data : Bytes} (h : Carries bufSize b (some (.loop length data)) p) :
    Carries bufSize b none (p.after bufSize (.done length data)) := by
  refine ⟨h.ring, h.length_readbuf, h.readsize_le, h.arrived, ?_, nofun⟩
  have hflow := h.flow
  rw [Passage.byte_after]
  simpa [storedData, RxBuffers.unread, Passage.after] using hflow

/-- **The read buffer is filled again.** -/
theorem refill {length : ℕ} {data : Bytes} (hpos : 0 < bufSize) (hw : bufSize < 2 ^ w)
    (h31 : bufSize < 2 ^ 31)
    (h : Carries bufSize b (some (.loop length data)) p) (hmore : data.length < length)
    (hempty : b.readsize ≤ b.readindex) :
    ∃ b', OsdCore.readStep w bufSize b (.loop length data) = some (b', .go (.refilled length data)) ∧
      Carries bufSize b' (some (.refilled length data)) (p.after bufSize (.go (.refilled length data))) ∧
      (b'.readsize = 0 → b'.rxqueue.content = []) := by
  obtain ⟨q, hq, hring⟩ := h.ring.delete bufSize
  set bytes := (p.history.waiting.map p.byte).items.take bufSize with hbytes
  have hlen : bytes.length ≤ bufSize := by
    rw [hbytes, List.length_take]
    omega
  have hsize : (toInt32 bytes.length % 2 ^ w).toNat = bytes.length := by
    have hmod : ((bytes.length : ℤ) % 2 ^ w) = bytes.length :=
      Int.emod_eq_of_lt (by omega) (by exact_mod_cast hlen.trans_lt hw)
    rw [toInt32_of_lt (by omega), hmod, Int.toNat_natCast]
  have hbuf := h.length_readbuf
  have hflow := h.flow
  rw [RxBuffers.unread, List.drop_eq_nil_of_le (by rw [List.length_take]; omega), List.append_nil] at hflow
  rw [OsdCore.readStep, if_pos hmore, if_pos hempty, hq]
  have hcontent := hring.content_eq
  rw [← Fifo.map_delete] at hring
  refine ⟨_, rfl, ⟨hring, ?_, ?_, h.arrived, ?_, ?_⟩, ?_⟩
  · simp only [List.length_append, List.length_drop]
    omega
  · simp only [hsize]
    exact hlen
  · rw [Passage.byte_after]
    simp only [RxBuffers.unread, hsize, List.take_left, Passage.after, Channel.taken_take, List.map_append,
      storedData] at hflow ⊢
    rw [← hflow, hbytes, Fifo.map, List.map_take]
  · rintro length' data' hcall
    cases hcall
    exact hmore
  · intro hzero
    have hlength : bytes.length = min bufSize (p.history.waiting.map p.byte).items.length :=
      List.length_take
    have hzero' : bytes.length = 0 := hsize.symm.trans hzero
    rw [hcontent]
    exact List.drop_eq_nil_of_le (by omega)

/-- The call goes on with what it has taken. -/
theorem resume {length : ℕ} {data : Bytes} (h : Carries bufSize b (some (.refilled length data)) p) :
    Carries bufSize { b with readindex := 0 } (some (.loop length data)) p :=
  ⟨h.ring, h.length_readbuf, h.readsize_le, h.arrived, h.flow, nofun⟩

/-- **A step of a read loop.** -/
theorem readStep {call : ReadCall} (hpos : 0 < bufSize) (hw : bufSize < 2 ^ w) (h31 : bufSize < 2 ^ 31)
    (h : Carries bufSize b (some call) p) :
    ∃ b' out, OsdCore.readStep w bufSize b call = some (b', out) ∧
      Carries bufSize b' out.call (p.after bufSize out) ∧ out.Tells b call b' := by
  cases call with
  | loop length data =>
    by_cases hmore : data.length < length
    · by_cases hempty : b.readsize ≤ b.readindex
      · obtain ⟨b', hstep, h', hnone⟩ := h.refill hpos hw h31 hmore hempty
        exact ⟨b', _, hstep, h', hnone⟩
      · rw [OsdCore.readStep, if_pos hmore, if_neg hempty]
        obtain ⟨b', out, hcopy, h', htells⟩ := h.copyByte hw (not_le.1 hempty)
        exact ⟨b', out, hcopy, h', htells _ _⟩
    · rw [OsdCore.readStep, if_neg hmore]
      exact ⟨b, _, rfl, h.done, fun hless => absurd hless hmore⟩
  | refilled length data =>
    simp only [OsdCore.readStep]
    split_ifs with hnone
    · exact ⟨_, _, rfl, h.resume.done, fun _ => ⟨rfl, hnone, rfl⟩⟩
    · obtain ⟨b', out, hcopy, h', htells⟩ := h.resume.copyByte hw (Nat.pos_of_ne_zero hnone)
      exact ⟨b', out, hcopy, h', htells _ _⟩

/-- **What the callers receive**, what is on its way to them and what the ring holds. -/
theorem onceInOrder (h : Carries bufSize b call p) :
    OnceInOrder p.line p.history.lost
      (p.received ++ storedData call ++ b.unread call ++ b.rxqueue.content) := by
  refine Channel.onceInOrder 0 h.arrived ?_
  rw [h.flow, h.ring.content_eq, List.map_append]
  rfl

end Carries

end OsdCore
