import OsdCore.Format.Bytes

/-!
# Runs of tag-length-value records

A run of records is a sequence of tags (one byte), lengths (one byte) and values, ended by a record
whose tag is `last`.  `TlvFormat` says which value each tag takes and what is kept of it, and `scan`
reads a run from a buffer without being told where the buffer ends: it stops at a `last` tag, at a
record it rejects, or by reading outside the buffer.

* `TlvFormat.Closed` is the exact condition under which a scan stays inside the buffer: the run ends
  there, by a `last` record or by a rejected one (`scan_oob_iff`).  A scan always ends
  (`scan_ne_fuel`).
* `scan_encode` : a scan reads back the records that `encode` writes.
-/

namespace OsdCore

/-- What a tag asks of the length of its value. -/
inductive TlvRule where
  /-- Exactly `n` bytes. -/
  | exact (n : ℕ)
  /-- As many as the length byte says. -/
  | any
  /-- The tag does not exist. -/
  | unknown
deriving DecidableEq, Repr

/-- The records of a format, read into a state `σ`. -/
structure TlvFormat (σ : Type) where
  /-- The rule of a tag, which may depend on what was read before. -/
  rule : σ → UInt8 → TlvRule
  /-- The tags that end a run. -/
  last : UInt8 → Bool
  /-- Keep the value of a tag. -/
  store : σ → UInt8 → Bytes → σ
  /-- The error code of an unknown tag. -/
  badTag : ℤ
  /-- The error code of a wrong length. -/
  badLength : ℤ

namespace TlvFormat

variable {σ : Type} (F : TlvFormat σ)

/-- Read the value of a record.  The bytes that the rule asks for are read before the length byte
is compared with their number. -/
def value (d : Bytes) (pos : ℕ) (s : σ) (tag length : UInt8) : Except Stop Bytes :=
  match F.rule s tag with
  | .unknown => .error (.exit F.badTag)
  | .any => rdN d pos length.toNat
  | .exact n => do
    let v ← rdN d pos n
    if length.toNat = n then pure v else .error (.exit F.badLength)

/-- Read a run of records from `pos` on; gives the state and the position after the run. -/
def scan (d : Bytes) : ℕ → ℕ → σ → Except Stop (σ × ℕ)
  | 0, _, _ => .error .fuel
  | fuel + 1, pos, s => do
    let tag ← rd d pos
    let length ← rd d (pos + 1)
    let v ← F.value d (pos + 2) s tag length
    if F.last tag then pure (F.store s tag v, pos + 2 + length.toNat)
    else scan d fuel (pos + 2 + length.toNat) (F.store s tag v)

/-- The tag takes a value of this length. -/
def Accepts (s : σ) (tag : UInt8) (n : ℕ) : Prop := F.rule s tag = .exact n ∨ F.rule s tag = .any

/-- The run of records at the start of a buffer ends inside the buffer. -/
inductive Closed : σ → Bytes → Prop
  /-- An unknown tag is rejected once its length byte is read. -/
  | badTag {s : σ} {tag length : UInt8} {rest : Bytes} :
      F.rule s tag = .unknown → Closed s (tag :: length :: rest)
  /-- A wrong length is rejected once the bytes the tag asks for are read. -/
  | badLength {s : σ} {tag length : UInt8} {n : ℕ} {rest : Bytes} :
      F.rule s tag = .exact n → length.toNat ≠ n → n ≤ rest.length →
      Closed s (tag :: length :: rest)
  /-- The last record is inside. -/
  | last {s : σ} {tag length : UInt8} {v rest : Bytes} :
      F.Accepts s tag length.toNat → v.length = length.toNat → F.last tag = true →
      Closed s (tag :: length :: (v ++ rest))
  /-- A record is inside, and so is the run after it. -/
  | next {s : σ} {tag length : UInt8} {v rest : Bytes} :
      F.Accepts s tag length.toNat → v.length = length.toNat → F.last tag = false →
      Closed (F.store s tag v) rest → Closed s (tag :: length :: (v ++ rest))

/-- The bytes of one record. -/
def encode (tag : UInt8) (v : Bytes) : Bytes := tag :: UInt8.ofNat v.length :: v

@[simp] theorem length_encode (tag : UInt8) (v : Bytes) : (encode tag v).length = v.length + 2 := rfl

variable {F} {d : Bytes} {s : σ} {tag length : UInt8} {pos : ℕ}

theorem value_accepts {v rest : Bytes} (hd : d.drop pos = v ++ rest)
    (hlen : v.length = length.toNat) (ha : F.Accepts s tag length.toNat) :
    F.value d pos s tag length = .ok v := by
  have hr : rdN d pos length.toNat = .ok v := hlen ▸ rdN_of_drop hd
  rcases ha with ha | ha
  · simp only [value, ha, hr, bind, Except.bind, ↓reduceIte]; rfl
  · simp only [value, ha, hr]

theorem value_ok {v : Bytes} (h : F.value d pos s tag length = .ok v) :
    F.Accepts s tag length.toNat ∧ v.length = length.toNat ∧
      d.drop pos = v ++ d.drop (pos + length.toNat) := by
  unfold value at h
  cases hr : F.rule s tag with
  | unknown => rw [hr] at h; cases h
  | any => rw [hr] at h; exact ⟨Or.inr hr, rdN_ok h⟩
  | exact n =>
    rw [hr] at h
    simp only [bind, Except.bind] at h
    split at h
    · cases h
    · rename_i w hw
      split_ifs at h with hn
      cases h
      subst hn
      exact ⟨Or.inl hr, rdN_ok hw⟩

/-- A value that is not read is rejected, with its bytes inside the buffer, or is outside. -/
theorem value_error {e : Stop} (h : F.value d pos s tag length = .error e) :
    (F.rule s tag = .unknown ∧ ∃ c, e = .exit c) ∨
      (∃ n, F.rule s tag = .exact n ∧ length.toNat ≠ n ∧ n ≤ (d.drop pos).length ∧
        ∃ c, e = .exit c) ∨
      (e = .oob ∧ F.rule s tag ≠ .unknown ∧
        ∀ n, F.rule s tag = .exact n ∨ (F.rule s tag = .any ∧ n = length.toNat) →
          (d.drop pos).length < n) := by
  unfold value at h
  cases hr : F.rule s tag with
  | unknown => rw [hr] at h; cases h; exact Or.inl ⟨rfl, _, rfl⟩
  | any =>
    rw [hr] at h
    obtain ⟨he, hlt⟩ := rdN_oob h
    refine Or.inr (Or.inr ⟨he, by simp, fun n hn => ?_⟩)
    obtain hn | ⟨-, rfl⟩ := hn
    · cases hn
    · exact hlt
  | exact n =>
    rw [hr] at h
    simp only [bind, Except.bind] at h
    split at h
    · rename_i w hw
      cases h
      obtain ⟨he, hlt⟩ := rdN_oob hw
      refine Or.inr (Or.inr ⟨he, by simp, fun m hm => ?_⟩)
      obtain hm | ⟨hm, -⟩ := hm <;> cases hm
      exact hlt
    · rename_i w hw
      obtain ⟨hlen, hdrop⟩ := rdN_ok hw
      have hle : n ≤ (d.drop pos).length := by rw [hdrop, List.length_append]; omega
      split_ifs at h with hn <;> cases h
      exact Or.inr (Or.inl ⟨n, rfl, hn, hle, _, rfl⟩)

/-! ### Scans stay inside closed runs -/

theorem scan_nil (h : d.drop pos = []) (fuel : ℕ) :
    F.scan d (fuel + 1) pos s = .error .oob := by
  simp [scan, rd_of_drop_nil h, bind, Except.bind]

theorem scan_singleton (h : d.drop pos = [tag]) (fuel : ℕ) :
    F.scan d (fuel + 1) pos s = .error .oob := by
  have h' := drop_succ_of_drop h
  simp [scan, rd_of_drop h, rd_of_drop_nil h', bind, Except.bind]

/-- One record of a scan. -/
theorem scan_cons {rest : Bytes} (h : d.drop pos = tag :: length :: rest) (fuel : ℕ) :
    F.scan d (fuel + 1) pos s = (F.value d (pos + 2) s tag length).bind fun v =>
      if F.last tag then .ok (F.store s tag v, pos + 2 + length.toNat)
      else F.scan d fuel (pos + 2 + length.toNat) (F.store s tag v) := by
  have h' := drop_succ_of_drop h
  simp only [scan, rd_of_drop h, rd_of_drop h', bind, Except.bind]
  rfl

theorem add_two_le_of_drop {rest : Bytes} (h : d.drop pos = tag :: length :: rest) :
    pos + 2 ≤ d.length := by
  have hlen := congrArg List.length h
  simp only [List.length_drop, List.length_cons] at hlen
  omega

/-- **The first record** of a scan that succeeds. -/
theorem scan_succ_ok {fuel : ℕ} {s' : σ} {pos' : ℕ} (h : F.scan d (fuel + 1) pos s = .ok (s', pos')) :
    ∃ tag v, v.length ≤ 255 ∧ pos + 2 + v.length ≤ d.length ∧
      if F.last tag then s' = F.store s tag v ∧ pos' = pos + 2 + v.length
      else F.scan d fuel (pos + 2 + v.length) (F.store s tag v) = .ok (s', pos') := by
  match hd : d.drop pos with
  | [] => rw [scan_nil hd] at h; cases h
  | [tag] => rw [scan_singleton hd] at h; cases h
  | tag :: length :: rest =>
    rw [scan_cons hd] at h
    have hlt := add_two_le_of_drop hd
    cases hv : F.value d (pos + 2) s tag length with
    | error e => rw [hv] at h; cases h
    | ok v =>
      obtain ⟨-, hlen, hdrop⟩ := value_ok hv
      have hle := congrArg List.length hdrop
      simp only [List.length_drop, List.length_append] at hle
      have hbyte := length.toNat_lt
      refine ⟨tag, v, by omega, by omega, ?_⟩
      rw [hv, Except.bind, ← hlen] at h
      split_ifs at h ⊢
      · cases h
        exact ⟨rfl, rfl⟩
      · exact h

/-- Every record takes at least two bytes, so a scan of a buffer ends. -/
theorem scan_ne_fuel {fuel : ℕ} (hf : d.length < fuel + pos) (hfuel : fuel ≠ 0) :
    F.scan d fuel pos s ≠ .error .fuel := by
  induction fuel generalizing pos s with
  | zero => exact absurd rfl hfuel
  | succ fuel ih =>
    match hd : d.drop pos with
    | [] => rw [scan_nil hd]; simp
    | [tag] => rw [scan_singleton hd]; simp
    | tag :: length :: rest =>
      rw [scan_cons hd]
      have hlt := add_two_le_of_drop hd
      cases hv : F.value d (pos + 2) s tag length with
      | error e =>
        rcases value_error hv with ⟨-, c, rfl⟩ | ⟨n, -, -, -, c, rfl⟩ | ⟨rfl, -⟩ <;>
          simp [Except.bind]
      | ok v =>
        simp only [Except.bind]
        split_ifs
        · simp
        · exact ih (by omega) (by omega)

/-- **A scan reads outside its buffer exactly when the run does not end inside it.** -/
theorem scan_oob_iff {fuel : ℕ} (hf : d.length < fuel + pos) (hfuel : fuel ≠ 0) :
    F.scan d fuel pos s = .error .oob ↔ ¬ F.Closed s (d.drop pos) := by
  induction fuel generalizing pos s with
  | zero => exact absurd rfl hfuel
  | succ fuel ih =>
    match hd : d.drop pos with
    | [] =>
      rw [scan_nil hd]
      simp only [true_iff]
      rintro ⟨⟩
    | [tag] =>
      rw [scan_singleton hd]
      simp only [true_iff]
      rintro ⟨⟩
    | tag :: length :: rest =>
      rw [scan_cons hd]
      have hrest : d.drop (pos + 2) = rest := drop_succ_of_drop (drop_succ_of_drop hd)
      have hlt := add_two_le_of_drop hd
      cases hv : F.value d (pos + 2) s tag length with
      | error e =>
        rcases value_error hv with ⟨hr, c, rfl⟩ | ⟨n, hr, hn, hle, c, rfl⟩ | ⟨rfl, hr, hout⟩
        · simp [Except.bind, Closed.badTag hr]
        · rw [hrest] at hle
          simp [Except.bind, Closed.badLength hr hn hle]
        · simp only [Except.bind, true_iff]
          rw [hrest] at hout
          intro hc
          cases hc with
          | badTag h => exact hr h
          | badLength h _ hle => exact absurd (hout _ (Or.inl h)) (by omega)
          | last ha hlen _ =>
            have := hout length.toNat (ha.imp id fun h => ⟨h, rfl⟩)
            rw [List.length_append] at this
            omega
          | next ha hlen _ _ =>
            have := hout length.toNat (ha.imp id fun h => ⟨h, rfl⟩)
            rw [List.length_append] at this
            omega
      | ok v =>
        obtain ⟨ha, hlen, hdrop⟩ := value_ok hv
        rw [hrest] at hdrop
        rw [hdrop]
        simp only [Except.bind]
        split_ifs with hl
        · simp [Closed.last ha hlen hl]
        · rw [ih (by omega) (by omega)]
          refine not_congr ⟨fun h => .next ha hlen (by simpa using hl) h, fun h => ?_⟩
          generalize hw : v ++ d.drop (pos + 2 + length.toNat) = w at h
          cases h with
          | badTag h => rcases ha with ha | ha <;> rw [h] at ha <;> cases ha
          | badLength h hn _ => rcases ha with ha | ha <;> rw [h] at ha <;> cases ha; exact absurd rfl hn
          | last _ _ h => exact absurd h hl
          | next _ hlen' _ h =>
            obtain ⟨rfl, hw'⟩ := List.append_inj hw (by omega)
            rw [hw']; exact h

/-- A scan of a whole buffer. -/
theorem scan_zero_oob_iff (F : TlvFormat σ) (d : Bytes) (s : σ) :
    F.scan d (d.length + 1) 0 s = .error .oob ↔ ¬ F.Closed s d := by
  simpa using scan_oob_iff (F := F) (d := d) (s := s) (by omega : d.length < d.length + 1 + 0)
    (Nat.succ_ne_zero _)

theorem scan_zero_ne_fuel (F : TlvFormat σ) (d : Bytes) (s : σ) :
    F.scan d (d.length + 1) 0 s ≠ .error .fuel :=
  scan_ne_fuel (by omega) (Nat.succ_ne_zero _)

/-- The position after a run is inside the buffer. -/
theorem scan_pos {fuel : ℕ} {s' : σ} {pos' : ℕ} (h : F.scan d fuel pos s = .ok (s', pos')) :
    pos + 2 ≤ pos' ∧ pos' ≤ d.length := by
  induction fuel generalizing pos s with
  | zero => cases h
  | succ fuel ih =>
    obtain ⟨tag, v, -, hle, h⟩ := scan_succ_ok h
    split_ifs at h
    · obtain ⟨-, rfl⟩ := h
      omega
    · have hpos := ih h
      omega

/-- What every record keeps, a run keeps; a value has at most 255 bytes. -/
theorem scan_invariant {P : σ → Prop} {fuel : ℕ} {s' : σ} {pos' : ℕ}
    (hstore : ∀ s tag v, v.length ≤ 255 → P s → P (F.store s tag v))
    (h : F.scan d fuel pos s = .ok (s', pos')) (hs : P s) : P s' := by
  induction fuel generalizing pos s with
  | zero => cases h
  | succ fuel ih =>
    obtain ⟨tag, v, hlen, -, h⟩ := scan_succ_ok h
    split_ifs at h
    · obtain ⟨rfl, -⟩ := h
      exact hstore s tag v hlen hs
    · exact ih h (hstore s tag v hlen hs)

/-! ### Scans read back what `encode` writes -/

theorem scan_encode {v rest : Bytes} (hd : d.drop pos = encode tag v ++ rest)
    (hlen : v.length < 256) (ha : F.Accepts s tag v.length) (fuel : ℕ) :
    F.scan d (fuel + 1) pos s =
      if F.last tag then .ok (F.store s tag v, pos + (encode tag v).length)
      else F.scan d fuel (pos + (encode tag v).length) (F.store s tag v) := by
  have hlen' : (UInt8.ofNat v.length).toNat = v.length := by
    rw [UInt8.toNat_ofNat']; omega
  have hd' : d.drop pos = tag :: UInt8.ofNat v.length :: (v ++ rest) := hd
  have hrest : d.drop (pos + 2) = v ++ rest := drop_succ_of_drop (drop_succ_of_drop hd')
  rw [scan_cons hd', value_accepts hrest hlen'.symm (by rwa [hlen']), hlen', length_encode]
  simp only [Except.bind, show pos + 2 + v.length = pos + (v.length + 2) by omega]

end TlvFormat

end OsdCore
