import OsdCore.Disp.Basic

/-!
# What a screen shows

A drawing routine is a list of `Put`s; the framebuffer afterwards is the old one with them stored one
after the other.

* `pixelAt`, `bitAtPos` : what a screen of 16 bpp, or of 1 bpp, shows at a row and a column.
* `Put.paint` : what the routine leaves there: the last thing that is stored, or what was there.
* `pixelAt_foldl`, `bitAtPos_foldl` : the screen shows it, where everything that is stored is on the
  screen.
* `paint_of_mem`, `paint_of_forall_ne` : the two ways to know it.
* `InFramebuffer` : everything is stored in the bytes that `platform_disp_init` allocates.
-/

namespace OsdCore

/-- The pixel of a 16-bpp screen. -/
def pixelAt (lcdWidth : ℤ) (framebuffer : Ptr) (row col : ℤ) : BitVec 16 :=
  let i := row * lcdWidth + col
  BitVec.ofNat 16 ((framebuffer (2 * i)).toNat + 2 ^ 8 * (framebuffer (2 * i + 1)).toNat)

/-- The bit of a 1-bpp screen. -/
def bitAtPos (lcdWidth : ℤ) (framebuffer : Ptr) (row col : ℤ) : Bool :=
  (framebuffer (row / 8 * lcdWidth + col)).toNat.testBit (row % 8).toNat

/-- There is a framebuffer that shows another pixel everywhere. -/
theorem exists_pixelAt_ne (width : ℤ) (value : BitVec 16) :
    ∃ framebuffer : Ptr, ∀ row col, pixelAt width framebuffer row col ≠ value := by
  have hpixel : ∀ b : UInt8, ∀ row col, pixelAt width (fun _ => b) row col =
      BitVec.ofNat 16 (b.toNat + 2 ^ 8 * b.toNat) := fun b row col => rfl
  by_cases hvalue : value = 0
  · refine ⟨fun _ => 1, fun row col => ?_⟩
    rw [hpixel, hvalue]
    decide
  · refine ⟨fun _ => 0, fun row col => ?_⟩
    rw [hpixel]
    exact fun h => hvalue h.symm

/-- There is one that shows another bit everywhere. -/
theorem exists_bitAtPos_ne (width : ℤ) (on : Bool) :
    ∃ framebuffer : Ptr, ∀ row col, bitAtPos width framebuffer row col ≠ on := by
  cases on with
  | true =>
    refine ⟨fun _ => 0, fun row col => ?_⟩
    simp [bitAtPos]
  | false =>
    refine ⟨fun _ => 255, fun row col => ?_⟩
    have hbit : ∀ k < 8, (255 : UInt8).toNat.testBit k = true := by decide
    rw [bitAtPos, hbit _ (by omega)]
    decide

namespace Put

/-- The put is at this place. -/
def At (row col : ℤ) (p : Put) : Prop := p.row = row ∧ p.col = col

instance decidableAt (row col : ℤ) (p : Put) : Decidable (p.At row col) :=
  inferInstanceAs (Decidable (_ ∧ _))

/-- What is at a place after the puts: the last one counts. -/
def paint {α : Type} (value : Ink → Option α) (puts : List Put) (row col : ℤ) (before : α) : α :=
  puts.foldl (fun now p => if p.At row col then (value p.ink).getD now else now) before

/-- The pixel that is stored. -/
def pixelInk : Ink → Option (BitVec 16)
  | .pixel value => some value
  | .bit _ => none

/-- The bit that is stored. -/
def bitInk : Ink → Option Bool
  | .bit on => some on
  | .pixel _ => none

variable {α : Type} {value : Ink → Option α} {puts : List Put} {row col : ℤ} {before a : α}

/-- Nothing is stored there. -/
theorem paint_of_forall_ne (h : ∀ p ∈ puts, ¬ p.At row col) :
    paint value puts row col before = before := by
  induction puts generalizing before with
  | nil => rfl
  | cons p puts ih =>
    rw [paint, List.foldl_cons, if_neg (h p List.mem_cons_self)]
    exact ih fun q hq => h q (List.mem_cons_of_mem _ hq)

/-- All that is stored there is the same. -/
theorem paint_of_mem (hex : ∃ p ∈ puts, p.At row col)
    (hall : ∀ p ∈ puts, p.At row col → value p.ink = some a) :
    paint value puts row col before = a := by
  induction puts generalizing before with
  | nil =>
    obtain ⟨p, hp, -⟩ := hex
    cases hp
  | cons p puts ih =>
    have htail : ∀ q ∈ puts, q.At row col → value q.ink = some a :=
      fun q hq => hall q (List.mem_cons_of_mem _ hq)
    rw [paint, List.foldl_cons]
    by_cases hmore : ∃ q ∈ puts, q.At row col
    · exact ih hmore htail
    · have hat : p.At row col := by
        obtain ⟨q, hq, hat⟩ := hex
        rcases List.mem_cons.1 hq with rfl | hq
        · exact hat
        · exact absurd ⟨q, hq, hat⟩ hmore
      rw [if_pos hat, hall p List.mem_cons_self hat]
      exact paint_of_forall_ne fun q hq hqat => hmore ⟨q, hq, hqat⟩

end Put

/-! ### One store -/

section

variable {lcd : Lcd} {p : Put} {framebuffer : Ptr} {row col : ℤ}

/-- Two places of one row-major table are the same if their indices are. -/
theorem index_inj {width row row' col col' : ℤ} (hcol : 0 ≤ col ∧ col < width)
    (hcol' : 0 ≤ col' ∧ col' < width) (h : row * width + col = row' * width + col') :
    row = row' ∧ col = col' := by
  have hdiv : ∀ a b : ℤ, 0 ≤ b ∧ b < width → (a * width + b) / width = a := by
    intro a b hb
    rw [add_comm, Int.add_mul_ediv_right _ _ (by omega), Int.ediv_eq_zero_of_lt hb.1 hb.2, zero_add]
  have hrow := congrArg (· / width) h
  simp only [hdiv row col hcol, hdiv row' col' hcol'] at hrow
  subst hrow
  exact ⟨rfl, by omega⟩

/-- The pixel that is stored is read back. -/
theorem pixelAt_store_self {value : BitVec 16} (hink : p.ink = .pixel value) :
    pixelAt lcd.width (p.store lcd.width framebuffer) p.row p.col = value := by
  have hvalue := value.isLt
  have hne : 2 * (p.row * (lcd.width : ℤ) + p.col) ≠ 2 * (p.row * (lcd.width : ℤ) + p.col) + 1 := by
    omega
  simp only [pixelAt, Put.store, Put.index, hink, Function.update_self, Function.update_of_ne hne]
  apply BitVec.eq_of_toNat_eq
  simp
  omega

/-- A pixel with another index is unchanged. -/
theorem pixelAt_store_of_index_ne (hink : ∃ value, p.ink = .pixel value)
    (hindex : row * (lcd.width : ℤ) + col ≠ p.row * (lcd.width : ℤ) + p.col) :
    pixelAt lcd.width (p.store lcd.width framebuffer) row col = pixelAt lcd.width framebuffer row col := by
  obtain ⟨value, hink⟩ := hink
  have hmem : ∀ d : ℤ, d = 0 ∨ d = 1 →
      p.store lcd.width framebuffer (2 * (row * (lcd.width : ℤ) + col) + d) =
        framebuffer (2 * (row * (lcd.width : ℤ) + col) + d) := by
    intro d hd
    apply Put.store_of_notMem
    simp only [Put.offsets, Put.index, hink, List.mem_cons, List.not_mem_nil, or_false]
    omega
  have hlow := hmem 0 (.inl rfl)
  rw [add_zero] at hlow
  simp only [pixelAt, hlow, hmem 1 (.inr rfl)]

/-- The other pixels of the screen are unchanged. -/
theorem pixelAt_store_of_ne (hp : p.InScreen lcd) (hink : ∃ value, p.ink = .pixel value)
    (hcol : 0 ≤ col ∧ col < lcd.width) (hne : ¬ p.At row col) :
    pixelAt lcd.width (p.store lcd.width framebuffer) row col = pixelAt lcd.width framebuffer row col := by
  apply pixelAt_store_of_index_ne hink
  intro heq
  obtain ⟨hrow, hcol'⟩ := index_inj hcol hp.1 heq
  exact hne ⟨hrow.symm, hcol'.symm⟩

/-- The mask of a row selects its bit. -/
theorem testBit_mask : ∀ k < 8, ∀ j < 8,
    ((1 : UInt8) <<< UInt8.ofNat k).toNat.testBit j = decide (j = k) ∧
      (~~~((1 : UInt8) <<< UInt8.ofNat k)).toNat.testBit j = !decide (j = k) := by
  decide +kernel

/-- The bit of a byte after a store. -/
theorem testBit_store (b : UInt8) (on : Bool) {k j : ℕ} (hk : k < 8) (hj : j < 8) :
    (if on then b ||| 1 <<< UInt8.ofNat k else b &&& ~~~(1 <<< UInt8.ofNat k) : UInt8).toNat.testBit j =
      if j = k then on else b.toNat.testBit j := by
  obtain ⟨hmask, hnot⟩ := testBit_mask k hk j hj
  cases on with
  | true =>
    rw [if_pos rfl, UInt8.toNat_or, Nat.testBit_or, hmask]
    by_cases h : j = k <;> simp [h]
  | false =>
    rw [if_neg Bool.false_ne_true, UInt8.toNat_and, Nat.testBit_and, hnot]
    by_cases h : j = k <;> simp [h]

/-- The bit that is stored is read back. -/
theorem bitAtPos_store_self {on : Bool} (hink : p.ink = .bit on) :
    bitAtPos lcd.width (p.store lcd.width framebuffer) p.row p.col = on := by
  simp only [bitAtPos, Put.store, Put.index, hink, Function.update_self]
  rw [testBit_store _ on (by omega) (by omega), if_pos rfl]

/-- The other bits of the screen are unchanged. -/
theorem bitAtPos_store_of_ne (hp : p.InScreen lcd) (hink : ∃ on, p.ink = .bit on)
    (hcol : 0 ≤ col ∧ col < lcd.width) (hne : ¬ p.At row col) :
    bitAtPos lcd.width (p.store lcd.width framebuffer) row col =
      bitAtPos lcd.width framebuffer row col := by
  obtain ⟨on, hink⟩ := hink
  simp only [bitAtPos, Put.store, Put.index, hink]
  by_cases hindex : row / 8 * (lcd.width : ℤ) + col = p.row / 8 * (lcd.width : ℤ) + p.col
  · -- another row of the same page
    obtain ⟨hpage, hsame⟩ := index_inj hcol hp.1 hindex
    have hrow : (row % 8).toNat ≠ (p.row % 8).toNat := fun heq => hne ⟨by omega, hsame.symm⟩
    rw [hindex, Function.update_self, testBit_store _ on (by omega) (by omega), if_neg hrow]
  · rw [Function.update_of_ne hindex]

/-- A pixel after a store. -/
theorem pixelAt_store (hp : p.InScreen lcd) (hink : ∃ value, p.ink = .pixel value)
    (hcol : 0 ≤ col ∧ col < lcd.width) (framebuffer : Ptr) :
    pixelAt lcd.width (p.store lcd.width framebuffer) row col =
      if p.At row col then (Put.pixelInk p.ink).getD (pixelAt lcd.width framebuffer row col)
      else pixelAt lcd.width framebuffer row col := by
  by_cases hat : p.At row col
  · obtain ⟨value, hvalue⟩ := hink
    obtain ⟨rfl, rfl⟩ := hat
    rw [pixelAt_store_self hvalue, if_pos ⟨rfl, rfl⟩, hvalue]
    rfl
  · rw [pixelAt_store_of_ne hp hink hcol hat, if_neg hat]

/-- A bit after a store. -/
theorem bitAtPos_store (hp : p.InScreen lcd) (hink : ∃ on, p.ink = .bit on)
    (hcol : 0 ≤ col ∧ col < lcd.width) (framebuffer : Ptr) :
    bitAtPos lcd.width (p.store lcd.width framebuffer) row col =
      if p.At row col then (Put.bitInk p.ink).getD (bitAtPos lcd.width framebuffer row col)
      else bitAtPos lcd.width framebuffer row col := by
  by_cases hat : p.At row col
  · obtain ⟨on, hon⟩ := hink
    obtain ⟨rfl, rfl⟩ := hat
    rw [bitAtPos_store_self hon, if_pos ⟨rfl, rfl⟩, hon]
    rfl
  · rw [bitAtPos_store_of_ne hp hink hcol hat, if_neg hat]

end

/-! ### A routine -/

variable {lcd : Lcd} {puts : List Put} {framebuffer : Ptr} {row col : ℤ}

/-- What is read at a place, where every store is read so. -/
theorem read_foldl {α : Type} (read : Ptr → α) (value : Ink → Option α)
    (hstore : ∀ p ∈ puts, ∀ framebuffer, read (p.store lcd.width framebuffer) =
      if p.At row col then (value p.ink).getD (read framebuffer) else read framebuffer) :
    read (puts.foldl (Put.store lcd.width) framebuffer) =
      Put.paint value puts row col (read framebuffer) := by
  induction puts generalizing framebuffer with
  | nil => rfl
  | cons p puts ih =>
    rw [List.foldl_cons, ih fun q hq => hstore q (List.mem_cons_of_mem _ hq),
      hstore p List.mem_cons_self, Put.paint, Put.paint, List.foldl_cons]

/-- **A 16-bpp screen shows what has been painted.** -/
theorem pixelAt_foldl (hputs : ∀ p ∈ puts, p.InScreen lcd ∧ ∃ value, p.ink = .pixel value)
    (hcol : 0 ≤ col ∧ col < lcd.width) :
    pixelAt lcd.width (puts.foldl (Put.store lcd.width) framebuffer) row col =
      Put.paint Put.pixelInk puts row col (pixelAt lcd.width framebuffer row col) :=
  read_foldl (pixelAt lcd.width · row col) _ fun p hp =>
    pixelAt_store (hputs p hp).1 (hputs p hp).2 hcol

/-- A pixel that has a value, or is given it, has it after a store of this value. -/
theorem pixelAt_store_same {p : Put} {value : BitVec 16} (hink : p.ink = .pixel value)
    (h : row * (lcd.width : ℤ) + col = p.row * (lcd.width : ℤ) + p.col ∨
      pixelAt lcd.width framebuffer row col = value) :
    pixelAt lcd.width (p.store lcd.width framebuffer) row col = value := by
  by_cases hindex : row * (lcd.width : ℤ) + col = p.row * (lcd.width : ℤ) + p.col
  · have hself := @pixelAt_store_self lcd p framebuffer value hink
    simp only [pixelAt, hindex] at hself ⊢
    exact hself
  · rw [pixelAt_store_of_index_ne ⟨value, hink⟩ hindex]
    exact h.resolve_left hindex

/-- So it is after a list of them, wherever they are. -/
theorem pixelAt_foldl_same {value : BitVec 16} (hputs : ∀ p ∈ puts, p.ink = .pixel value)
    (h : (∃ p ∈ puts, row * (lcd.width : ℤ) + col = p.row * (lcd.width : ℤ) + p.col) ∨
      pixelAt lcd.width framebuffer row col = value) :
    pixelAt lcd.width (puts.foldl (Put.store lcd.width) framebuffer) row col = value := by
  induction puts generalizing framebuffer with
  | nil =>
    rcases h with ⟨p, hp, -⟩ | hsame
    · cases hp
    · exact hsame
  | cons p puts ih =>
    have hp := hputs p List.mem_cons_self
    apply ih fun q hq => hputs q (List.mem_cons_of_mem _ hq)
    rcases h with ⟨q, hq, hindex⟩ | hsame
    · rcases List.mem_cons.1 hq with rfl | hq
      · exact .inr (pixelAt_store_same hp (.inl hindex))
      · exact .inl ⟨q, hq, hindex⟩
    · exact .inr (pixelAt_store_same hp (.inr hsame))

/-- **A 1-bpp screen shows what has been painted.** -/
theorem bitAtPos_foldl (hputs : ∀ p ∈ puts, p.InScreen lcd ∧ ∃ on, p.ink = .bit on)
    (hcol : 0 ≤ col ∧ col < lcd.width) :
    bitAtPos lcd.width (puts.foldl (Put.store lcd.width) framebuffer) row col =
      Put.paint Put.bitInk puts row col (bitAtPos lcd.width framebuffer row col) :=
  read_foldl (bitAtPos lcd.width · row col) _ fun p hp =>
    bitAtPos_store (hputs p hp).1 (hputs p hp).2 hcol

/-! ### The framebuffer -/

/-- The bytes of the framebuffer, as `platform_disp_init` allocates it. -/
def Lcd.framebufferSize (lcd : Lcd) : ℤ := (lcd.width : ℤ) * lcd.height * lcd.bpp.toNat / 8

/-- Everything is stored in the framebuffer. -/
def InFramebuffer (lcd : Lcd) (puts : List Put) : Prop :=
  ∀ p ∈ puts, ∀ i ∈ p.offsets lcd.width, 0 ≤ i ∧ i < lcd.framebufferSize

/-- An index in a table ends with the table. -/
theorem index_lt {width row col rows : ℤ} (hcol : 0 ≤ col ∧ col < width)
    (hrow : 0 ≤ row ∧ row < rows) :
    0 ≤ row * width + col ∧ row * width + col < width * rows := by
  have hpos : 0 ≤ row * width := Int.mul_nonneg hrow.1 (by omega)
  have hlast : (row + 1) * width ≤ rows * width := Int.mul_le_mul_of_nonneg_right (by omega) (by omega)
  rw [Int.add_mul, Int.one_mul, Int.mul_comm rows] at hlast
  omega

/-- **Pixels that are on the screen** are in the framebuffer. -/
theorem inFramebuffer_of_pixels (h16 : lcd.bpp = 16)
    (hputs : ∀ p ∈ puts, p.InScreen lcd ∧ ∃ value, p.ink = .pixel value) :
    InFramebuffer lcd puts := by
  intro p hp i hi
  obtain ⟨⟨hcol, hrow⟩, value, hink⟩ := hputs p hp
  obtain ⟨hpos, hlt⟩ := index_lt hcol hrow
  have hsize : lcd.framebufferSize = (lcd.width : ℤ) * lcd.height * 16 / 8 := by
    rw [Lcd.framebufferSize, h16]
    rfl
  simp only [Put.offsets, Put.index, hink, List.mem_cons, List.not_mem_nil, or_false] at hi
  omega

end OsdCore
