import OsdCore.At7456e.Spi

/-!
# Texts: `at7456e.puttext`

A text is written in the mode in which the chip counts the address on, a transfer of one byte for each
character; the byte 0xFF ends the mode.

* `at7456eCode` : the code of a character; one that has none is sent as it is.
* `luaAt7456ePuttext` : the text, on any bus.
* `OsdChip.step` : what a frame does to the chip's address, mode and display memory.
* `osdText_iff` : the chip stores exactly the codes, at consecutive addresses, and leaves the mode after the
  last one only, if and only if no character is 0xFF and the narrowed row and column give the address.
-/

namespace OsdCore

/-! ### The driver -/

def DMM : UInt8 := 0x04
def DMAH : UInt8 := 0x05
def DMAL : UInt8 := 0x06

/-- The code of a character in the chip's font: the digits, the letters, the blank, and then
`( ) . ? ; : , ' / " - < > @`. -/
def at7456eCode (c : UInt8) : UInt8 :=
  if c ≥ 0x30 ∧ c ≤ 0x39 then if c = 0x30 then 10 else c - 0x31 + 1
  else if c ≥ 0x41 ∧ c ≤ 0x5A then c - 0x41 + 11
  else if c ≥ 0x61 ∧ c ≤ 0x7A then c - 0x61 + 37
  else if c = 0x20 then 0x00
  else if c = 0x28 then 0x3f
  else if c = 0x29 then 0x40
  else if c = 0x2E then 0x41
  else if c = 0x3F then 0x42
  else if c = 0x3B then 0x43
  else if c = 0x3A then 0x44
  else if c = 0x2C then 0x45
  else if c = 0x27 then 0x46
  else if c = 0x2F then 0x47
  else if c = 0x22 then 0x48
  else if c = 0x2D then 0x49
  else if c = 0x3C then 0x4a
  else if c = 0x3E then 0x4b
  else if c = 0x40 then 0x4c
  else c

section

variable {S : Type} (B : Bus S)

/-- The loop over the characters; `none` is a read behind the string. -/
def displayChars : Bytes → S → Option S
  | [], _ => none
  | c :: str, s =>
    if c = 0 then some (writeAt7456Data B 0xff s)
    else displayChars str (writeAt7456Data B (at7456eCode c) s)

/-- `at7456e_display_string`. -/
def at7456eDisplayString (row col : UInt8) (str : Bytes) (s : S) : Option S :=
  let kk := row.toNat * 30 + col.toNat
  let s := writeAt7456AddrData B DMAH (UInt8.ofNat (kk / 256)) s
  let s := writeAt7456AddrData B DMAL (UInt8.ofNat (kk % 256)) s
  let s := writeAt7456AddrData B DMM 0x01 s
  displayChars B str s

/-- An `int` in an `unsigned char`. -/
def uchar (a : ℤ) : UInt8 := UInt8.ofNat (a % 2 ^ 8).toNat

/-- `lua_at7456e_puttext` : the string is copied, with a terminator. -/
def luaAt7456ePuttext (putX putY : ℤ) (str : Bytes) (s : S) : Option S :=
  at7456eDisplayString B (uchar putY) (uchar putX) (str ++ [0]) s

end

/-! ### The chip -/

/-- What the chip has of the display memory: its address registers, the mode, the address that it counts on,
and what it has stored, in order. -/
structure OsdChip where
  dmah : UInt8
  dmal : UInt8
  autoInc : Bool
  address : ℕ
  stored : List (ℕ × UInt8)
deriving DecidableEq, Repr

namespace OsdChip

/-- A register is written. -/
def writeRegister (chip : OsdChip) (addr dat : UInt8) : OsdChip :=
  if addr = DMAH then { chip with dmah := dat }
  else if addr = DMAL then { chip with dmal := dat }
  else if addr = DMM then
    { chip with
      autoInc := dat &&& 1 ≠ 0
      address := chip.dmah.toNat * 256 + chip.dmal.toNat }
  else chip

/-- A byte of data. -/
def writeByte (chip : OsdChip) (dat : UInt8) : OsdChip :=
  if ¬ chip.autoInc then chip
  else if dat = 0xff then { chip with autoInc := false }
  else { chip with stored := chip.stored ++ [(chip.address, dat)], address := chip.address + 1 }

/-- A frame of 16 bits is an address and a byte, one of 8 bits a byte. -/
def step (chip : OsdChip) (frame : Frame) : OsdChip :=
  if frame.length = 16 then chip.writeRegister (byteOfBits (frame.take 8)) (byteOfBits (frame.drop 8))
  else if frame.length = 8 then chip.writeByte (byteOfBits frame)
  else chip

/-- The chip after frames. -/
def after (chip : OsdChip) (frames : List Frame) : OsdChip := frames.foldl step chip

end OsdChip

/-- Codes at consecutive addresses. -/
def consecutive : ℤ → List UInt8 → List (ℤ × UInt8)
  | _, [] => []
  | address, code :: codes => (address, code) :: consecutive (address + 1) codes

/-- **The text is shown**: after three frames the chip is in the mode, until the last code has been
stored; it has stored exactly the codes, from the address on; and then it leaves the mode. -/
structure TextShown (chip : OsdChip) (address : ℤ) (codes : List UInt8) (frames : List Frame) : Prop where
  stored : ((chip.after frames).stored.map fun w => ((w.1 : ℤ), w.2)) =
    (chip.stored.map fun w => ((w.1 : ℤ), w.2)) ++ consecutive address codes
  mode : ∀ k ≤ codes.length, (chip.after (frames.take (3 + k))).autoInc = true
  left : (chip.after frames).autoInc = false

/-! ### The frames of a text -/

section

variable {chip : OsdChip} {row col : UInt8} {str : Bytes} {codes : List UInt8} {s : Slave} {answer : Answer}

/-- The calls before the characters. -/
def textHead (row col : UInt8) : List SpiCall :=
  [.writeAddrData DMAH (UInt8.ofNat ((row.toNat * 30 + col.toNat) / 256)),
    .writeAddrData DMAL (UInt8.ofNat ((row.toNat * 30 + col.toNat) % 256)), .writeAddrData DMM 0x01]

/-- The loop makes a call for each character. -/
theorem displayChars_eq {S : Type} (B : Bus S) (h : 0 ∉ str) (s : S) :
    displayChars B (str ++ [0]) s =
      some (runSpiCalls B ((str.map at7456eCode).map SpiCall.writeData ++ [.writeData 0xff]) s).2 := by
  induction str generalizing s with
  | nil => rfl
  | cons c str ih =>
    obtain ⟨hc, hstr⟩ := List.ne_and_not_mem_of_not_mem_cons h
    rw [List.cons_append, displayChars, if_neg hc.symm, ih hstr]
    rfl

/-- The text is a sequence of calls. -/
theorem displayString_eq {S : Type} (B : Bus S) (h : 0 ∉ str) (s : S) :
    at7456eDisplayString B row col (str ++ [0]) s =
      some (runSpiCalls B (textHead row col ++
        ((str.map at7456eCode).map SpiCall.writeData ++ [.writeData 0xff])) s).2 :=
  displayChars_eq B h _

/-- What a call does to the chip. -/
theorem step_writeAddrData (addr dat : UInt8) :
    chip.step (SpiCall.writeAddrData addr dat).frame = chip.writeRegister addr dat := by
  have haddr : ((SpiCall.writeAddrData addr dat).frame).take 8 = bitsMsb addr.toBitVec := rfl
  have hdat : ((SpiCall.writeAddrData addr dat).frame).drop 8 = bitsMsb dat.toBitVec := rfl
  have hlen : (SpiCall.writeAddrData addr dat).frame.length = 16 := rfl
  rw [OsdChip.step, if_pos hlen, haddr, hdat, byteOfBits_bitsMsb, byteOfBits_bitsMsb]

theorem step_writeData (dat : UInt8) : chip.step (SpiCall.writeData dat).frame = chip.writeByte dat := by
  have hlen : (SpiCall.writeData dat).frame.length = 8 := rfl
  rw [OsdChip.step, if_neg (by rw [hlen]; decide), if_pos hlen, SpiCall.frame, byteOfBits_bitsMsb]

/-- **The chip before the characters**: it is in the mode, at the address of the row and the column. -/
theorem after_textHead (chip : OsdChip) (row col : UInt8) :
    (chip.after ((textHead row col).map SpiCall.frame)).autoInc = true ∧
      (chip.after ((textHead row col).map SpiCall.frame)).address = row.toNat * 30 + col.toNat ∧
      (chip.after ((textHead row col).map SpiCall.frame)).stored = chip.stored := by
  have hrow := row.toNat_lt
  have hcol := col.toNat_lt
  have hafter : chip.after ((textHead row col).map SpiCall.frame) =
      ((chip.writeRegister DMAH (UInt8.ofNat ((row.toNat * 30 + col.toNat) / 256))).writeRegister DMAL
        (UInt8.ofNat ((row.toNat * 30 + col.toNat) % 256))).writeRegister DMM 0x01 := by
    simp only [OsdChip.after, textHead, List.map_cons, List.map_nil, List.foldl_cons, List.foldl_nil,
      step_writeAddrData]
  rw [hafter]
  refine ⟨rfl, ?_, rfl⟩
  change (UInt8.ofNat _).toNat * 256 + (UInt8.ofNat _).toNat = _
  rw [UInt8.toNat_ofNat', UInt8.toNat_ofNat']
  omega

/-- The frames of some codes. -/
def codeFrames (codes : List UInt8) : List Frame := (codes.map SpiCall.writeData).map SpiCall.frame

/-- **The codes are stored**, one after the other, where none of them ends the mode. -/
theorem after_codeFrames (hmode : chip.autoInc = true) (hcodes : 0xff ∉ codes) :
    (chip.after (codeFrames codes)).autoInc = true ∧
      ((chip.after (codeFrames codes)).stored.map fun w => ((w.1 : ℤ), w.2)) =
        (chip.stored.map fun w => ((w.1 : ℤ), w.2)) ++ consecutive chip.address codes := by
  induction codes generalizing chip with
  | nil => exact ⟨hmode, (List.append_nil _).symm⟩
  | cons code codes ih =>
    obtain ⟨hcode, hrest⟩ := List.ne_and_not_mem_of_not_mem_cons hcodes
    have hstep : chip.step (SpiCall.writeData code).frame =
        { chip with stored := chip.stored ++ [(chip.address, code)], address := chip.address + 1 } := by
      rw [step_writeData, OsdChip.writeByte, if_neg (not_not.2 hmode), if_neg hcode.symm]
    have hnext : (chip.step (SpiCall.writeData code).frame).autoInc = true := by
      rw [hstep]
      exact hmode
    obtain ⟨hmode', hstored⟩ := ih hnext hrest
    refine ⟨hmode', hstored.trans ?_⟩
    rw [hstep]
    simp [consecutive]

/-- The mode is left at a code that ends it. -/
theorem after_codeFrames_end (chip : OsdChip) (hcodes : 0xff ∈ codes) :
    ∃ k ≤ codes.length, (chip.after (codeFrames (codes.take k))).autoInc = false := by
  induction codes generalizing chip with
  | nil => cases hcodes
  | cons code codes ih =>
    cases hmode : chip.autoInc with
    | false => exact ⟨0, Nat.zero_le _, hmode⟩
    | true =>
      rcases List.mem_cons.1 hcodes with rfl | hrest
      · refine ⟨1, Nat.le_add_left 1 _, ?_⟩
        change (chip.step (SpiCall.writeData 0xff).frame).autoInc = false
        rw [step_writeData, OsdChip.writeByte, if_neg (not_not.2 hmode), if_pos rfl]
      · obtain ⟨k, hk, hleft⟩ := ih (chip.step (SpiCall.writeData code).frame) hrest
        exact ⟨k + 1, Nat.succ_le_succ hk, hleft⟩

/-- The only character whose code ends the mode. -/
theorem at7456eCode_eq_end (c : UInt8) : at7456eCode c = 0xff ↔ c = 0xff :=
  forall_byte (P := fun c => at7456eCode c = 0xff ↔ c = 0xff) (by decide +kernel) c

theorem mem_map_code : 0xff ∈ str.map at7456eCode ↔ 0xff ∈ str := by
  rw [List.mem_map]
  constructor
  · rintro ⟨c, hc, hcode⟩
    rwa [← (at7456eCode_eq_end c).1 hcode]
  · exact fun h => ⟨0xff, h, rfl⟩

/-- Codes at consecutive addresses tell where they begin. -/
theorem consecutive_inj {a b : ℤ} (h : consecutive a codes = consecutive b codes) : codes = [] ∨ a = b := by
  cases codes with
  | nil => exact .inl rfl
  | cons code codes =>
    rw [consecutive, consecutive, List.cons.injEq, Prod.mk.injEq] at h
    exact .inr h.1.1

/-- The frames of a text. -/
def textFrames (row col : UInt8) (codes : List UInt8) : List Frame :=
  (textHead row col).map SpiCall.frame ++ (codeFrames codes ++ [(SpiCall.writeData 0xff).frame])

theorem OsdChip.after_append (chip : OsdChip) (a b : List Frame) :
    chip.after (a ++ b) = (chip.after a).after b := List.foldl_append

/-- The chip after some of the codes. -/
theorem after_take {k : ℕ} (chip : OsdChip) (hk : k ≤ codes.length) :
    chip.after ((textFrames row col codes).take (3 + k)) =
      (chip.after ((textHead row col).map SpiCall.frame)).after (codeFrames (codes.take k)) := by
  have hlen : (codeFrames codes).length = codes.length := by
    rw [codeFrames, List.length_map, List.length_map]
  rw [textFrames, show 3 + k = ((textHead row col).map SpiCall.frame).length + k from rfl,
    List.take_length_add_append, List.take_append_of_le_length (by omega), OsdChip.after_append, codeFrames,
    codeFrames, List.map_take, List.map_take]

/-- The chip after all of them, and the byte that ends the mode. -/
theorem after_textFrames (chip : OsdChip) :
    chip.after (textFrames row col codes) =
      ((chip.after ((textHead row col).map SpiCall.frame)).after (codeFrames codes)).writeByte 0xff := by
  rw [textFrames, OsdChip.after_append, OsdChip.after_append, ← step_writeData]
  rfl

theorem writeByte_end (chip : OsdChip) :
    (chip.writeByte 0xff).autoInc = false ∧ (chip.writeByte 0xff).stored = chip.stored := by
  unfold OsdChip.writeByte
  by_cases h : chip.autoInc
  · rw [if_neg (not_not.2 h), if_pos rfl]
    exact ⟨rfl, rfl⟩
  · rw [if_pos h]
    exact ⟨Bool.eq_false_of_not_eq_true h, rfl⟩

/-- **When a text is shown.** -/
theorem textShown_iff (chip : OsdChip) (row col : UInt8) (codes : List UInt8) (address : ℤ) :
    TextShown chip address codes (textFrames row col codes) ↔
      0xff ∉ codes ∧ (codes = [] ∨ (row.toNat : ℤ) * 30 + col.toNat = address) := by
  obtain ⟨hmode, haddr, hstored⟩ := after_textHead chip row col
  have hcast : ((row.toNat * 30 + col.toNat : ℕ) : ℤ) = (row.toNat : ℤ) * 30 + col.toNat := by
    push_cast
    rfl
  constructor
  · intro h
    have hcodes : 0xff ∉ codes := by
      intro hmem
      obtain ⟨k, hk, hleft⟩ := after_codeFrames_end (chip.after ((textHead row col).map SpiCall.frame)) hmem
      rw [← after_take chip hk, h.mode k hk] at hleft
      cases hleft
    refine ⟨hcodes, ?_⟩
    have hall := h.stored
    rw [after_textFrames, (writeByte_end _).2, (after_codeFrames hmode hcodes).2, hstored, haddr,
      hcast] at hall
    exact consecutive_inj (List.append_cancel_left hall)
  · rintro ⟨hcodes, haddress⟩
    refine ⟨?_, fun k hk => ?_, ?_⟩
    · rw [after_textFrames, (writeByte_end _).2, (after_codeFrames hmode hcodes).2, hstored, haddr, hcast]
      rcases haddress with rfl | rfl
      · rfl
      · rfl
    · rw [after_take chip hk]
      exact (after_codeFrames hmode fun h => hcodes (List.mem_of_mem_take h)).1
    · rw [after_textFrames]
      exact (writeByte_end _).1

/-- **The frames that the chip takes** for a text. -/
theorem puttext_frames (answer : Answer) (putX putY : ℤ) (hncs : s.ncs = true) (hstr : 0 ∉ str) :
    ∃ s', luaAt7456ePuttext (Slave.bus answer) putX putY str s = some s' ∧ s'.ncs = true ∧
      s'.frames = s.frames ++ textFrames (uchar putY) (uchar putX) (str.map at7456eCode) := by
  obtain ⟨-, hframes, hncs'⟩ := runSpiCalls_eq answer (textHead (uchar putY) (uchar putX) ++
    ((str.map at7456eCode).map SpiCall.writeData ++ [.writeData 0xff])) hncs
  refine ⟨_, displayString_eq (Slave.bus answer) hstr s, hncs', ?_⟩
  rw [hframes, List.map_append, List.map_append]
  rfl

end

/-- **A text is shown** if and only if no character is 0xFF, and the row and the column, as
`unsigned char`s, give its address. -/
theorem osdText_iff (answer : Answer) (s : Slave) (chip : OsdChip) (putX putY : ℤ) (str : Bytes)
    (hncs : s.ncs = true) (hstr : 0 ∉ str) :
    ∃ s' frames, luaAt7456ePuttext (Slave.bus answer) putX putY str s = some s' ∧ s'.ncs = true ∧
      s'.frames = s.frames ++ frames ∧
      (TextShown chip (putY * 30 + putX) (str.map at7456eCode) frames ↔
        0xff ∉ str ∧
          (str = [] ∨ ((uchar putY).toNat : ℤ) * 30 + (uchar putX).toNat = putY * 30 + putX)) := by
  obtain ⟨s', hrun, hncs', hframes⟩ := puttext_frames answer putX putY hncs hstr
  refine ⟨s', _, hrun, hncs', hframes, ?_⟩
  rw [textShown_iff, mem_map_code, List.map_eq_nil_iff]

/-- "OSD 1" in the second row. -/
theorem osdText_iff_osd : ∃ s' frames,
    luaAt7456ePuttext (Slave.bus fun _ _ => 0) 3 1 (ascii "OSD 1") ⟨true, true, true, false, [], []⟩ = some s' ∧
      s'.ncs = true ∧ s'.frames = frames ∧
      (TextShown ⟨0, 0, false, 0, []⟩ 33 ((ascii "OSD 1").map at7456eCode) frames ↔
        0xff ∉ ascii "OSD 1" ∧ (ascii "OSD 1" = [] ∨ ((1 : ℕ) : ℤ) * 30 + (3 : ℕ) = 33)) :=
  osdText_iff (fun _ _ => 0) ⟨true, true, true, false, [], []⟩ ⟨0, 0, false, 0, []⟩ 3 1 (ascii "OSD 1") rfl
    (by decide)

/-- The byte 0xFF between two letters ends the mode, and the second letter is not stored. -/
theorem not_osdText_shown : ∃ s', luaAt7456ePuttext (Slave.bus fun _ _ => 0) 0 0 [0x41, 0xff, 0x42]
    ⟨true, true, true, false, [], []⟩ = some s' ∧
      ((⟨0, 0, false, 0, []⟩ : OsdChip).after s'.frames).stored = [(0, 11)] ∧
      ¬ TextShown ⟨0, 0, false, 0, []⟩ 0 ([0x41, 0xff, 0x42].map at7456eCode) s'.frames := by
  obtain ⟨s', hrun, -, hframes⟩ := @puttext_frames [0x41, 0xff, 0x42]
    ⟨true, true, true, false, [], []⟩ (fun _ _ => 0) 0 0 rfl (by decide)
  refine ⟨s', hrun, ?_, ?_⟩
  · rw [hframes]
    decide +kernel
  · rw [hframes, List.nil_append, textShown_iff]
    exact fun h => h.1 (by decide)

end OsdCore
