import OsdCore.Spi.Slave

/-!
# The wires of the chip: `at7456e.c`

The driver sets the pins one after the other; `delay_spi` only waits.

* `writeAt7456AddrData`, `writeAt7456Data`, `readAt7456AddrData` : the three transfers, on any bus.
* `SpiCall.frame` : the bits that the chip has to take.
* `spi_calls` : over every sequence of calls the chip takes these frames, one for each call, and each read
  returns the byte that the chip answers.
-/

namespace OsdCore

/-! ### The driver -/

section

variable {S : Type} (B : Bus S)

/-- `at7456e_set_pinval`. -/
def at7456eSetPinval (pin : Wire) (val : ℤ) (s : S) : S := B.set pin (val == 1) s

/-- `at7456e_get_pinval`, of the only pin that is read. -/
def at7456eGetPinval (s : S) : ℤ := if B.get s then 1 else 0

/-- A turn of the loops that write: the highest bit goes out. -/
def writeBit (b : UInt8) (s : S) : S :=
  let s := at7456eSetPinval B .sdi (if b &&& 0x80 == 0 then 0 else 1) s
  let s := at7456eSetPinval B .sck 1 s
  at7456eSetPinval B .sck 0 s

/-- The loops that write, with `n` turns left. -/
def writeBits : ℕ → UInt8 → S → S
  | 0, _, s => s
  | n + 1, b, s => writeBits n (b <<< 1) (writeBit B b s)

/-- The loop that reads, with `n` turns left. -/
def readBits : ℕ → UInt8 → S → UInt8 × S
  | 0, r, s => (r, s)
  | n + 1, r, s =>
    let r := r <<< 1
    let r := if at7456eGetPinval B s == 1 then r ||| 1 else r
    let s := at7456eSetPinval B .sck 1 s
    readBits n r (at7456eSetPinval B .sck 0 s)

/-- How all transfers begin. -/
def beginTransfer (s : S) : S := at7456eSetPinval B .ncs 0 (at7456eSetPinval B .sck 0 s)

/-- How all transfers end. -/
def endTransfer (s : S) : S :=
  at7456eSetPinval B .sdi 1 (at7456eSetPinval B .sck 1 (at7456eSetPinval B .ncs 1 s))

/-- `write_at7456_addr_data`. -/
def writeAt7456AddrData (addr dat : UInt8) (s : S) : S :=
  endTransfer B (writeBits B 8 dat (writeBits B 8 addr (beginTransfer B s)))

/-- `write_at7456_data`. -/
def writeAt7456Data (dat : UInt8) (s : S) : S :=
  endTransfer B (writeBits B 8 dat (beginTransfer B s))

/-- `read_at7456_addr_data`. -/
def readAt7456AddrData (addr : UInt8) (s : S) : UInt8 × S :=
  let (r, s) := readBits B 8 0 (writeBits B 8 (addr ||| 0x80) (beginTransfer B s))
  (r, endTransfer B s)

/-- A call of one of the three. -/
inductive SpiCall where
  | writeAddrData (addr dat : UInt8)
  | writeData (dat : UInt8)
  | readAddrData (addr : UInt8)
deriving DecidableEq, Repr

/-- What a call returns, and what it leaves. -/
def SpiCall.run : SpiCall → S → Option UInt8 × S
  | .writeAddrData addr dat, s => (none, writeAt7456AddrData B addr dat s)
  | .writeData dat, s => (none, writeAt7456Data B dat s)
  | .readAddrData addr, s =>
    let (r, s) := readAt7456AddrData B addr s
    (some r, s)

/-- Calls one after the other. -/
def runSpiCalls : List SpiCall → S → List (Option UInt8) × S
  | [], s => ([], s)
  | call :: calls, s =>
    let (r, s) := call.run B s
    let (rs, s) := runSpiCalls calls s
    (r :: rs, s)

end

/-! ### What the chip has to see -/

namespace SpiCall

/-- The bits of a call: the address, with the top bit set in a read, and the data; in a read the data wire
keeps the last bit of the address. -/
def frame : SpiCall → Frame
  | writeAddrData addr dat => bitsMsb addr.toBitVec ++ bitsMsb dat.toBitVec
  | writeData dat => bitsMsb dat.toBitVec
  | readAddrData addr =>
    bitsMsb (addr ||| 0x80).toBitVec ++ List.replicate 8 (addr.toBitVec.getLsbD 0)

/-- What a call has to return, where the chip has taken these frames before. -/
def result (answer : Answer) (frames : List Frame) : SpiCall → Option UInt8
  | readAddrData addr => some (answer frames (addr ||| 0x80))
  | _ => none

/-- What the calls have to return, one after the other. -/
def results (answer : Answer) : List Frame → List SpiCall → List (Option UInt8)
  | _, [] => []
  | frames, call :: calls => call.result answer frames :: results answer (frames ++ [call.frame]) calls

end SpiCall

/-! ### The transfers on the chip -/

section

open Slave

variable {answer : Answer} {s : Slave} {n : ℕ}

/-- The highest bit, as the driver tests it. -/
theorem level_of_byte (b : UInt8) : ((if b &&& 0x80 == 0 then (0 : ℤ) else 1) == 1) = b.toBitVec.msb :=
  forall_byte (P := fun b => ((if b &&& 0x80 == 0 then (0 : ℤ) else 1) == 1) = b.toBitVec.msb)
    (by decide +kernel) b

theorem writeBit_eq (h : s.Listens) (b : UInt8) :
    writeBit (bus answer) b s = clock answer s b.toBitVec.msb := by
  rw [← level_of_byte]
  exact set_sck_eq (h.set_sdi answer _)

/-- The loops that write are `n` clocks. -/
theorem writeBits_clocks (h : s.Listens) (b : UInt8) :
    writeBits (bus answer) n b s = clocks answer ((List.range n).map b.toBitVec.getMsbD) s := by
  induction n generalizing b s with
  | zero => rfl
  | succ n ih =>
    have hbits : (List.range (n + 1)).map b.toBitVec.getMsbD =
        b.toBitVec.msb :: (List.range n).map (b <<< 1).toBitVec.getMsbD := by
      rw [List.range_succ_eq_map, List.map_cons, List.map_map, BitVec.msb_eq_getMsbD_zero]
      congr 1
      apply List.map_congr_left
      intro i _
      exact (BitVec.getMsbD_shiftLeft b.toBitVec 1).symm
    rw [writeBits, writeBit_eq h, ih (h.clock answer _), hbits]
    rfl

/-- **A byte is written.** -/
theorem writeBits_eq (h : s.Listens) (b : UInt8) :
    writeBits (bus answer) 8 b s = clocks answer (bitsMsb b.toBitVec) s := writeBits_clocks h b

/-- A bit that is read is shifted in. -/
theorem shiftBit_eq (r : UInt8) (sdo : Bool) :
    (if (if sdo then (1 : ℤ) else 0) == 1 then r <<< 1 ||| 1 else r <<< 1) = shiftBit r sdo := by
  cases sdo with
  | true => rfl
  | false => exact (UInt8.or_zero).symm

/-- The loop that reads, where the chip shows the bits of `dat` from the bit `8 - n` on. -/
theorem readBits_clocks (h : s.Listens) {addr : UInt8} (haddr : s.sampled.take 8 = bitsMsb addr.toBitVec)
    (hread : addr.toBitVec.msb = true) (hn : n ≤ 8) (hlen : s.sampled.length = 8 + (8 - n))
    (hsdo : 0 < n → s.sdo = (bitsMsb (answer s.frames addr).toBitVec).getD (8 - n) false) (r : UInt8) :
    readBits (bus answer) n r s =
      (((bitsMsb (answer s.frames addr).toBitVec).drop (8 - n)).foldl shiftBit r,
        clocks answer (List.replicate n s.sdi) s) := by
  induction n generalizing s r with
  | zero => rfl
  | succ n ih =>
    have hbits : (bitsMsb (answer s.frames addr).toBitVec).drop (8 - (n + 1)) =
        s.sdo :: (bitsMsb (answer s.frames addr).toBitVec).drop (8 - n) := by
      have hlt : 8 - (n + 1) < (bitsMsb (answer s.frames addr).toBitVec).length := by
        rw [length_bitsMsb]
        omega
      rw [hsdo (by omega), List.getD_eq_getElem _ _ hlt, List.drop_eq_getElem_cons hlt]
      congr 2
      omega
    have hshift : (if at7456eGetPinval (bus answer) s == 1 then r <<< 1 ||| 1 else r <<< 1) =
        shiftBit r s.sdo := shiftBit_eq r s.sdo
    -- the frame after the clock, of which the chip shows the next bit
    have haddr' : (s.sampled ++ [s.sdi]).take 8 = bitsMsb addr.toBitVec := by
      rw [List.take_append_of_le_length (by omega), haddr]
    have hlen' : (s.sampled ++ [s.sdi]).length = 8 + (8 - n) := by
      rw [List.length_append, hlen, List.length_singleton]
      omega
    have hnext := ih (h.clock answer s.sdi) haddr' (by omega) hlen'
      (fun hpos => shows_read haddr' hread hlen' (by omega)) (shiftBit r s.sdo)
    rw [hbits, List.foldl_cons]
    calc readBits (bus answer) (n + 1) r s
        = readBits (bus answer) n (shiftBit r s.sdo) (set answer .sck false (set answer .sck true s)) := by
          rw [← hshift]
          rfl
      _ = _ := by
          rw [set_sck_eq h, hnext]
          rfl

/-- **A byte is read**, after an address whose top bit is set. -/
theorem readBits_eq (h : s.Listens) {addr : UInt8} (hread : addr.toBitVec.msb = true)
    (hsampled : s.sampled = []) :
    readBits (bus answer) 8 0 (clocks answer (bitsMsb addr.toBitVec) s) =
      (answer s.frames addr,
        clocks answer (bitsMsb addr.toBitVec ++ List.replicate 8 (addr.toBitVec.getLsbD 0)) s) := by
  obtain ⟨htaken, hframes⟩ := clocks_frame answer (bitsMsb addr.toBitVec) s
  rw [hsampled, List.nil_append] at htaken
  -- the last bit of the address, after which the first bit of the answer is shown
  have hlast : bitsMsb addr.toBitVec =
      (List.range 7).map addr.toBitVec.getMsbD ++ [addr.toBitVec.getLsbD 0] := rfl
  have hsdi : (clocks answer (bitsMsb addr.toBitVec) s).sdi = addr.toBitVec.getLsbD 0 := by
    rw [hlast, clocks_concat_sdi]
  have hsdo : (clocks answer (bitsMsb addr.toBitVec) s).sdo =
      (bitsMsb (answer s.frames addr).toBitVec).getD 0 false := by
    rw [hlast, clocks_concat_sdo, List.append_assoc, ← hlast, hsampled, List.nil_append]
    exact shows_read (List.take_of_length_le (Nat.le_refl 8)) hread rfl (by decide)
  rw [readBits_clocks (h.clocks answer _) (by rw [htaken]; rfl) hread (Nat.le_refl 8) (by rw [htaken]; rfl)
    (fun _ => by rw [hsdo, hframes]), hsdi, hframes]
  refine Prod.ext ?_ ?_
  · exact byteOfBits_bitsMsb _
  · rw [clocks, clocks, clocks, List.foldl_append]

/-- The chip at the beginning of a transfer. -/
theorem beginTransfer_listens (answer : Answer) (hncs : s.ncs = true) :
    (beginTransfer (bus answer) s).Listens ∧ (beginTransfer (bus answer) s).sampled = [] ∧
      (beginTransfer (bus answer) s).frames = s.frames := by
  have hbegin : beginTransfer (bus answer) s = _ := set_ncs_false hncs
  rw [hbegin]
  exact ⟨⟨rfl, rfl⟩, rfl, rfl⟩

/-- The chip after a transfer that has taken these bits. -/
theorem endTransfer_clocks (answer : Answer) (hncs : s.ncs = true) (bits : List Bool) :
    (endTransfer (bus answer) (clocks answer bits (beginTransfer (bus answer) s))).ncs = true ∧
      (endTransfer (bus answer) (clocks answer bits (beginTransfer (bus answer) s))).frames =
        s.frames ++ [bits] := by
  obtain ⟨hlistens, hsampled, hframes⟩ := beginTransfer_listens answer hncs
  obtain ⟨htaken, hkept⟩ := clocks_frame answer bits (beginTransfer (bus answer) s)
  have hend : endTransfer (bus answer) (clocks answer bits (beginTransfer (bus answer) s)) = _ :=
    set_ncs_true (hlistens.clocks answer bits)
  rw [hend, htaken, hkept, hsampled, hframes]
  exact ⟨rfl, rfl⟩

/-- **One call**: the chip takes one frame, and a read returns its answer. -/
theorem SpiCall.run_eq (answer : Answer) (hncs : s.ncs = true) (call : SpiCall) :
    (call.run (bus answer) s).1 = call.result answer s.frames ∧
      (call.run (bus answer) s).2.ncs = true ∧
      (call.run (bus answer) s).2.frames = s.frames ++ [call.frame] := by
  obtain ⟨hlistens, hsampled, hframes⟩ := beginTransfer_listens answer hncs
  cases call with
  | writeAddrData addr dat =>
    have hrun : writeAt7456AddrData (bus answer) addr dat s = endTransfer (bus answer)
        (clocks answer (bitsMsb addr.toBitVec ++ bitsMsb dat.toBitVec) (beginTransfer (bus answer) s)) := by
      rw [writeAt7456AddrData, writeBits_eq hlistens, writeBits_eq (hlistens.clocks answer _), clocks, clocks,
        clocks, List.foldl_append]
    rw [SpiCall.run, hrun]
    exact ⟨rfl, endTransfer_clocks answer hncs _⟩
  | writeData dat =>
    rw [SpiCall.run, writeAt7456Data, writeBits_eq hlistens]
    exact ⟨rfl, endTransfer_clocks answer hncs _⟩
  | readAddrData addr =>
    have hread : (addr ||| 0x80).toBitVec.msb = true :=
      forall_byte (P := fun addr => (addr ||| 0x80).toBitVec.msb = true) (by decide +kernel) addr
    have hlow : (addr ||| 0x80).toBitVec.getLsbD 0 = addr.toBitVec.getLsbD 0 :=
      forall_byte (P := fun addr => (addr ||| 0x80).toBitVec.getLsbD 0 = addr.toBitVec.getLsbD 0)
        (by decide +kernel) addr
    have hrun : readAt7456AddrData (bus answer) addr s =
        (answer s.frames (addr ||| 0x80), endTransfer (bus answer)
          (clocks answer (SpiCall.readAddrData addr).frame (beginTransfer (bus answer) s))) := by
      rw [readAt7456AddrData, writeBits_eq hlistens, readBits_eq hlistens hread hsampled, hframes, hlow]
      rfl
    rw [SpiCall.run, hrun]
    exact ⟨rfl, endTransfer_clocks answer hncs _⟩

end

/-- Calls one after the other: each of them finds NCS high, and leaves it so. -/
theorem runSpiCalls_eq {s : Slave} (answer : Answer) (calls : List SpiCall) (hncs : s.ncs = true) :
    (runSpiCalls (Slave.bus answer) calls s).1 = SpiCall.results answer s.frames calls ∧
      (runSpiCalls (Slave.bus answer) calls s).2.frames = s.frames ++ calls.map SpiCall.frame ∧
      (runSpiCalls (Slave.bus answer) calls s).2.ncs = true := by
  induction calls generalizing s with
  | nil => exact ⟨rfl, (List.append_nil _).symm, hncs⟩
  | cons call calls ih =>
    obtain ⟨hresult, hncs', hframes⟩ := SpiCall.run_eq answer hncs call
    obtain ⟨hresults, hall, hend⟩ := ih hncs'
    refine ⟨?_, ?_, hend⟩
    · rw [SpiCall.results, ← hresult, ← hframes, ← hresults]
      rfl
    · rw [hframes, List.append_assoc] at hall
      exact hall

/-- **Over every sequence of calls** that begins with NCS high, the chip takes one frame for each call, in
their order, with exactly its bits; and each read returns the byte that the chip has answered. -/
theorem spi_calls (answer : Answer) (calls : List SpiCall) (s : Slave) (hncs : s.ncs = true) :
    (runSpiCalls (Slave.bus answer) calls s).2.frames = s.frames ++ calls.map SpiCall.frame ∧
      (runSpiCalls (Slave.bus answer) calls s).1 = SpiCall.results answer s.frames calls :=
  ⟨(runSpiCalls_eq answer calls hncs).2.1, (runSpiCalls_eq answer calls hncs).1⟩

/-- A write, a read and a byte of data. -/
theorem spi_calls_three :
    (runSpiCalls (Slave.bus fun _ _ => 0xA5)
        [.writeAddrData 0x04 0x01, .readAddrData 0x00, .writeData 0xFF]
        ⟨true, false, true, false, [], []⟩).1 = [none, some 0xA5, none] :=
  (spi_calls (fun _ _ => 0xA5) [.writeAddrData 0x04 0x01, .readAddrData 0x00, .writeData 0xFF]
    ⟨true, false, true, false, [], []⟩ rfl).2

end OsdCore
