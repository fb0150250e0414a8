import OsdCore.Format.CString
import OsdCore.Luadb.Encode

/-!
# What the write phase does with a file's name

The write phase of `parse_luadb_data` decides from the name of a file alone what becomes of it, and
under which path: `classify`.  The name buffer holds `nameLen` bytes and a NUL, and the path is built
in a local buffer of 256 bytes; `classify` is `none` where the source reads outside the one or writes
outside the other.

* `classify_eq` : the result in terms of the name's endings.
* `names_inBounds_iff` : the names of an accepted image are handled inside the two buffers exactly
  when each is a `SafeName`.
-/

namespace OsdCore

/-- `getenv("LUA_DIR")`. -/
def LUA_DIR : Path := ascii "/lua"

/-- `getenv("LUA_DATA_DIR")`. -/
def LUA_DATA_DIR : Path := ascii "/ldata"

/-- What becomes of a file. -/
inductive Target where
  /-- Nothing: the name is too short. -/
  | skip
  /-- Its data are decompressed into a file. -/
  | zip (filename : Path)
  /-- It is registered in a file table and stays in the image. -/
  | table (filename : Path)
  /-- Its data are copied into a file. -/
  | plain (filename : Path)
deriving DecidableEq, Repr

/-- `strcpy(filename, dir); strcat(filename, "/"); strncat(filename, name, n)`, in 256 bytes. -/
def buildFilename (dir name : Bytes) (n : ℕ) : Option Path :=
  let filename := dir ++ ascii "/" ++ cstr (name.take n)
  if filename.length + 1 ≤ 256 then some filename else none

/-- `a || b` for tests that may fail. -/
def orElse (a b : Option Bool) : Option Bool := do
  if ← a then some true else b

/-- The four-byte endings of the files that go into a file table. -/
def tableSuffixes : List Bytes :=
  [".lua", ".bmp", ".BMP", ".png", ".PNG", ".amr", ".AMR", ".MP3", ".mp3"].map ascii

/-- The classification of a file by the write phase. -/
def classify (name : Bytes) : Option Target :=
  let nameLen := name.length
  let buf := name ++ [0]
  if nameLen > 4 then do
    -- both are `u8`: the second wraps for names of fewer than 8 bytes
    let withoutZipLen := nameLen - 4
    let withoutLuaLen := (withoutZipLen + 256 - 4) % 256
    if ← strcmpAt buf withoutZipLen (ascii ".zip") then
      let lua ← orElse (strncmpAt buf withoutLuaLen (ascii ".lua"))
        (strncmpAt buf (withoutLuaLen - 1) (ascii ".luae"))
      let filename ← buildFilename (if lua then LUA_DIR else LUA_DATA_DIR) name withoutZipLen
      return .zip filename
    else
      let lua ← orElse (strncmpAt buf (nameLen - 4) (ascii ".lua"))
        (strncmpAt buf (nameLen - 5) (ascii ".luae"))
      let filename ← buildFilename (if lua then LUA_DIR else LUA_DATA_DIR) name nameLen
      let p := (nameLen : ℤ) - 4
      let luep := (nameLen : ℤ) - 5
      let inTable ← orElse
        (tableSuffixes.foldr (fun suffix => orElse (strncmpAt buf p suffix)) (some false))
        (strncmpAt buf luep (ascii ".luae"))
      return if inTable then .table filename else .plain filename
  else some .skip

/-! ### The classification by the endings of the name -/

/-- The name ends with `.zip`. -/
def isZip (name : Bytes) : Prop := ascii ".zip" <:+ name

/-- The name ends with `.lua` or `.luae`. -/
def isLua (name : Bytes) : Prop := ascii ".lua" <:+ name ∨ ascii ".luae" <:+ name

/-- The name ends like a file that goes into a file table. -/
def isTable (name : Bytes) : Prop := (∃ s ∈ tableSuffixes, s <:+ name) ∨ ascii ".luae" <:+ name

instance (name : Bytes) : Decidable (isZip name) := inferInstanceAs (Decidable (_ <:+ _))

instance (name : Bytes) : Decidable (isLua name) := inferInstanceAs (Decidable (_ ∨ _))

instance (name : Bytes) : Decidable (isTable name) := inferInstanceAs (Decidable (_ ∨ _))

/-- The name without its last four bytes. -/
def withoutZip (name : Bytes) : Bytes := name.take (name.length - 4)

/-- The path a file name stands for. -/
def pathOf (name : Bytes) : Path :=
  (if isLua name then LUA_DIR else LUA_DATA_DIR) ++ ascii "/" ++ cstr name

/-- **Names that are handled inside the buffers**: names of at most four bytes are not looked at;
before `.zip` there are at least five bytes, or exactly `.lua`; and the path has room for its NUL in
256 bytes. -/
def SafeName (name : Bytes) : Prop :=
  4 < name.length →
    if isZip name then
      (5 ≤ (withoutZip name).length ∨ withoutZip name = ascii ".lua") ∧
        (pathOf (withoutZip name)).length < 256
    else (pathOf name).length < 256

instance (name : Bytes) : Decidable (SafeName name) := by unfold SafeName; infer_instance

theorem length_withoutZip (name : Bytes) : (withoutZip name).length = name.length - 4 := by
  simp [withoutZip]

theorem withoutZip_append {name : Bytes} (h : isZip name) :
    withoutZip name ++ ascii ".zip" = name := by
  obtain ⟨pre, rfl⟩ := h
  have hlen : (ascii ".zip").length = 4 := rfl
  simp [withoutZip, hlen]

theorem orElse_some (a b : Bool) : orElse (some a) (some b) = some (a || b) := by
  cases a <;> rfl

theorem buildFilename_eq {name base : Bytes} {n : ℕ} (h : name.take n = base) :
    buildFilename (if isLua base then LUA_DIR else LUA_DATA_DIR) name n =
      if (pathOf base).length < 256 then some (pathOf base) else none := by
  subst h
  rfl

/-- The test for a `.lua` or `.luae` ending, at the end of `pre`. -/
theorem orElse_lua {pre : Bytes} (post : Bytes) (h : 5 ≤ pre.length) :
    orElse (strncmpAt (pre ++ post) ((pre.length : ℤ) - 4) (ascii ".lua"))
      (strncmpAt (pre ++ post) ((pre.length : ℤ) - 5) (ascii ".luae")) =
      some (decide (isLua pre)) := by
  have h4 := @strncmpAt_append pre (ascii ".lua") post (by simp [ascii]; omega)
  have h5 := @strncmpAt_append pre (ascii ".luae") post (by simp [ascii]; omega)
  rw [show ((pre.length - (ascii ".lua").length : ℕ) : ℤ) = (pre.length : ℤ) - 4 by
    simp [ascii]; omega] at h4
  rw [show ((pre.length - (ascii ".luae").length : ℕ) : ℤ) = (pre.length : ℤ) - 5 by
    simp [ascii]; omega] at h5
  rw [h4, h5, orElse_some, ← Bool.decide_or]
  rfl

/-- The test for the endings of the file tables. -/
theorem foldr_tableSuffixes {name : Bytes} (h : 4 < name.length) :
    tableSuffixes.foldr (fun suffix => orElse (strncmpAt (name ++ [0]) ((name.length : ℤ) - 4) suffix))
      (some false) = some (decide (∃ s ∈ tableSuffixes, s <:+ name)) := by
  have hlen : ∀ s ∈ tableSuffixes, s.length = 4 := by decide
  generalize tableSuffixes = suffixes at hlen
  induction suffixes with
  | nil => simp
  | cons s suffixes ih =>
    have hs := hlen s List.mem_cons_self
    have happ := @strncmpAt_append name s [0] (by omega)
    rw [hs, show ((name.length - 4 : ℕ) : ℤ) = (name.length : ℤ) - 4 by omega] at happ
    rw [List.foldr_cons, happ, ih fun t ht => hlen t (List.mem_cons_of_mem _ ht), orElse_some]
    simp [List.mem_cons]

/-- What becomes of a file whose name is handled inside the buffers. -/
def targetOf (name : Bytes) : Target :=
  if name.length ≤ 4 then .skip
  else if isZip name then .zip (pathOf (withoutZip name))
  else if isTable name then .table (pathOf name)
  else .plain (pathOf name)

/-- The path a file is installed under. -/
def installPath (name : Bytes) : Path := if isZip name then pathOf (withoutZip name) else pathOf name

theorem classify_short {name : Bytes} (h : ¬ 4 < name.length) : classify name = some .skip := by
  simp [classify, h]

/-- The test for `.zip`. -/
theorem strcmpAt_zip {name : Bytes} (h : 4 < name.length) :
    strcmpAt (name ++ [0]) ((name.length - 4 : ℕ) : ℤ) (ascii ".zip") =
      some (decide (isZip name)) :=
  @strcmpAt_append name (ascii ".zip") (by simp [ascii]; omega)

/-- The test for `.lua` or `.luae` before `.zip`, where the second index may be wrapped or
negative. -/
theorem orElse_lua_zip {name : Bytes} (h : 4 < name.length) (hzip : isZip name)
    (hsmall : name.length ≤ 255) :
    orElse (strncmpAt (name ++ [0]) (((name.length - 4 + 256 - 4) % 256 : ℕ) : ℤ) (ascii ".lua"))
      (strncmpAt (name ++ [0]) ((((name.length - 4 + 256 - 4) % 256 : ℕ) : ℤ) - 1) (ascii ".luae")) =
      if 5 ≤ (withoutZip name).length ∨ withoutZip name = ascii ".lua" then
        some (decide (isLua (withoutZip name)))
      else none := by
  have happ := withoutZip_append hzip
  have hlen := length_withoutZip name
  generalize withoutZip name = base at happ hlen ⊢
  have hname : name ++ [0] = base ++ (ascii ".zip" ++ [0]) := by
    rw [← List.append_assoc, happ]
  rw [hname]
  by_cases h5 : 5 ≤ base.length
  · rw [if_pos (Or.inl h5), ← orElse_lua _ h5,
      show (name.length - 4 + 256 - 4) % 256 = base.length - 4 by omega,
      show ((base.length - 4 : ℕ) : ℤ) = (base.length : ℤ) - 4 by omega,
      show (base.length : ℤ) - 4 - 1 = (base.length : ℤ) - 5 by omega]
  · by_cases h4 : base.length = 4
    · -- the second test reads at index -1
      have h0 := @strncmpAt_append base (ascii ".lua") (ascii ".zip" ++ [0]) (by simp [ascii]; omega)
      have hsuffix : ascii ".lua" <:+ base ↔ base = ascii ".lua" :=
        ⟨fun hs => (hs.eq_of_length (by simp [ascii, h4])).symm, fun hb => hb ▸ List.suffix_refl _⟩
      rw [show base.length - (ascii ".lua").length = 0 by simp [ascii, h4]] at h0
      rw [show (name.length - 4 + 256 - 4) % 256 = 0 by omega, h0]
      have hout : readAt (base ++ (ascii ".zip" ++ [0])) (((0 : ℕ) : ℤ) - 1) = none :=
        readAt_eq_none (Or.inl (by decide))
      by_cases hb : base = ascii ".lua"
      · simp [orElse, hb, isLua]
      · have hnone : strncmpAt (base ++ (ascii ".zip" ++ [0])) (((0 : ℕ) : ℤ) - 1) (ascii ".luae") =
            none := strncmpAt_cons_none hout
        rw [if_neg (by simp [hb, h4]), hnone]
        simp [orElse, hsuffix, hb]
    · -- both indices are past the end
      have hbig : (base ++ (ascii ".zip" ++ [0])).length = base.length + 5 := by simp [ascii]
      have hout : readAt (base ++ (ascii ".zip" ++ [0]))
          (((name.length - 4 + 256 - 4) % 256 : ℕ) : ℤ) = none :=
        readAt_eq_none (Or.inr (by rw [hbig]; omega))
      have hnone : strncmpAt (base ++ (ascii ".zip" ++ [0]))
          (((name.length - 4 + 256 - 4) % 256 : ℕ) : ℤ) (ascii ".lua") = none :=
        strncmpAt_cons_none hout
      have hb : base ≠ ascii ".lua" := fun hb => h4 (by rw [hb]; rfl)
      rw [if_neg (by simp [hb]; omega), hnone]
      rfl

/-- **The classification by the endings of the name**, where it stays inside the buffers. -/
theorem classify_eq {name : Bytes} (hsmall : name.length ≤ 255) :
    classify name = if SafeName name then some (targetOf name) else none := by
  by_cases h : 4 < name.length
  · simp only [SafeName, targetOf, h, true_imp_iff, if_neg (Nat.not_le.2 h)]
    simp only [classify, h, ↓reduceIte, strcmpAt_zip h, Option.bind_eq_bind, Option.bind_some]
    by_cases hzip : isZip name
    · simp only [hzip, decide_true, ↓reduceIte, orElse_lua_zip h hzip hsmall]
      by_cases hb : 5 ≤ (withoutZip name).length ∨ withoutZip name = ascii ".lua"
      · have hfile := @buildFilename_eq name (withoutZip name) (name.length - 4) rfl
        simp only [hb, ↓reduceIte, Option.bind_some, decide_eq_true_eq, hfile, true_and]
        split_ifs <;> rfl
      · simp only [hb, ↓reduceIte, Option.bind_none, false_and]
    · have hfile := @buildFilename_eq name name name.length List.take_length
      simp only [hzip, decide_false, Bool.false_eq_true, ↓reduceIte, orElse_lua [0] h,
        Option.bind_some, decide_eq_true_eq, hfile, foldr_tableSuffixes h]
      by_cases hp : (pathOf name).length < 256
      · have h5 := @strncmpAt_append name (ascii ".luae") [0] (by simp [ascii]; omega)
        rw [show ((name.length - (ascii ".luae").length : ℕ) : ℤ) = (name.length : ℤ) - 5 by
          simp [ascii]; omega] at h5
        simp only [hp, ↓reduceIte, Option.bind_some, h5, orElse_some, ← Bool.decide_or]
        by_cases ht : isTable name
        · have ht' := ht
          unfold isTable at ht'
          simp [ht', ht]
        · have ht' := ht
          unfold isTable at ht'
          simp [ht', ht]
      · simp only [hp, ↓reduceIte, Option.bind_none]
  · have hs : SafeName name := fun h' => absurd h' h
    rw [classify_short h, if_pos hs]
    simp [targetOf, Nat.le_of_not_lt h]

/-- Every name of a list of files is handled inside its name buffer and the path buffer. -/
def NamesInBounds (files : List DbFileInfo) : Prop := ∀ f ∈ files, classify f.name ≠ none

/-- **The names of an accepted image are handled inside the buffers exactly when each of them is
safe.** -/
theorem names_inBounds_iff {alloc : ℕ → Bool} {img : Image} {out : Decoded}
    (h : decode alloc img = .ok out) :
    NamesInBounds out.files ↔ ∀ f ∈ out.files, SafeName f.name := by
  refine forall₂_congr fun f hf => ?_
  rw [classify_eq (decode_fits h f hf).name_le]
  split_ifs with hs <;> simp [hs]

/-- An image with one empty file, `a.zip`. -/
def shortZipImage : Image where
  bytes := encodeImage 0 [⟨ascii "a.zip", []⟩]
  size_lt := by decide

/-- What the decode phase finds in `shortZipImage`. -/
def shortZipDecoded : Decoded := ⟨layout 23 [⟨ascii "a.zip", []⟩], 46⟩

/-- For `a.zip`, the index of the `.lua` test wraps to 253. -/
theorem not_namesInBounds_shortZip :
    ¬ ∀ (alloc : ℕ → Bool) (img : Image) (out : Decoded), decode alloc img = .ok out →
      NamesInBounds out.files := by
  intro h
  exact h (fun _ => true) shortZipImage shortZipDecoded (by decide) _ List.mem_cons_self (by decide)

theorem names_inBounds_iff_shortZip :
    NamesInBounds shortZipDecoded.files ↔ ∀ f ∈ shortZipDecoded.files, SafeName f.name :=
  @names_inBounds_iff (fun _ => true) shortZipImage shortZipDecoded (by decide)

end OsdCore
