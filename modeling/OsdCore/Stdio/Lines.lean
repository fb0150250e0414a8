import OsdCore.Stdio.Peek

/-!
# Lines

`fgets` with the buffer that it writes to, called until it returns `NULL`.

* `fgetsInto_eq` : in the buffer stands what `fgets` returns, and a NUL behind it.
* `fgetsOf_eq_cut` : on a source without NUL and 0xFF, `fgets` cuts the bytes that remain.
* `lossless_iff` : nothing of the contents is lost if and only if every line, with its newline, has less than
  `n` characters.
-/

namespace OsdCore

open Stdio

/-! ### The buffer -/

section

variable {m : Type → Type} [Monad m] {α : Type}

/-- The loop of `fgets` with its buffer, where there is room for so many more characters: the last character,
the index, and the buffer when it ends. -/
def Stdio.fgetsIntoLoop (getc : α → m (ℤ × α)) : ℕ → ℕ → ℤ → Bytes → α → m (ℤ × ℕ × Bytes × α)
  | 0, idx, character, buf, fp => pure (character, idx, buf, fp)
  | room + 1, idx, character, buf, fp =>
    if character = -1 then pure (character, idx, buf, fp)
    else if character = 0x0A then pure (character, idx, (buf.set idx 0x0A).set (idx + 1) 0, fp)
    else do
      let (next, fp) ← getc fp
      fgetsIntoLoop getc room (idx + 1) next (buf.set idx (UInt8.ofInt character)) fp

/-- `fgets` by `getc` into a buffer: the buffer after it, or `NULL`. -/
def Stdio.fgetsInto (getc : α → m (ℤ × α)) (n : ℤ) (buf : Bytes) (fp : α) : m (Option Bytes × α) :=
  if n ≤ 1 then pure (none, fp)
  else do
    let (character, fp) ← getc fp
    if character = -1 then pure (none, fp)
    else do
      let (character, idx, buf, fp) ← fgetsIntoLoop getc (n - 1).toNat 0 character buf fp
      let buf := if character = -1 then buf.set idx 0 else buf
      pure (some (buf.set (n - 1).toNat 0), fp)

/-- A buffer whose part behind `s` is `rest`, after a NUL has been written behind `s` and at its end. -/
def terminate (s rest : Bytes) : Bytes := (s ++ 0 :: rest.drop 1).set (s.length + rest.length - 1) 0

variable [LawfulMonad m]

/-- The loop writes the string behind what is there. -/
theorem fgetsIntoLoop_eq (getc : α → m (ℤ × α)) (room : ℕ) (character : ℤ) {pre rest : Bytes}
    (hrest : rest.length = room + 1) (fp : α) :
    (do
      let (character, idx, buf, fp) ← fgetsIntoLoop getc room pre.length character (pre ++ rest) fp
      let buf := if character = -1 then buf.set idx 0 else buf
      pure (buf.set (pre.length + room) 0, fp)) =
      (do
        let (s, fp) ← fgetsLoop getc room character fp
        pure (terminate (pre ++ s) (rest.drop s.length), fp)) := by
  induction room generalizing character pre rest fp with
  | zero =>
    obtain ⟨b, rfl⟩ := List.length_eq_one_iff.1 hrest
    simp only [fgetsIntoLoop, fgetsLoop, LawfulMonad.pure_bind, terminate]
    split_ifs <;> simp
  | succ room ih =>
    obtain ⟨b, rest, rfl⟩ := List.exists_cons_of_length_eq_add_one hrest
    rw [List.length_cons, Nat.add_right_cancel_iff] at hrest
    simp only [fgetsIntoLoop, fgetsLoop]
    by_cases heof : character = -1
    · simp only [if_pos heof, LawfulMonad.pure_bind, terminate]
      simp [hrest]
    by_cases hnl : character = 0x0A
    · obtain ⟨b', rest, rfl⟩ := List.exists_cons_of_length_eq_add_one hrest
      simp only [if_neg heof, if_pos hnl, LawfulMonad.pure_bind, terminate]
      obtain rfl : rest.length = room := by simpa using hrest
      have hlast : (pre ++ 10 :: 0 :: rest).set (pre.length + 1 + rest.length) 0 =
          pre ++ 10 :: (0 :: rest).set rest.length 0 := by
        rw [List.set_append_right _ _ (by omega), Nat.add_assoc, Nat.add_sub_cancel_left, Nat.add_comm 1,
          List.set_cons_succ]
      simp [hlast]
    · simp only [if_neg heof, if_neg hnl, bind_assoc, LawfulMonad.pure_bind]
      congr 1
      funext r
      have hset : (pre ++ b :: rest).set pre.length (UInt8.ofInt character) =
          pre ++ [UInt8.ofInt character] ++ rest := by
        rw [List.set_append_right _ _ (Nat.le_refl _), Nat.sub_self, List.set_cons_zero,
          List.append_assoc, List.singleton_append]
      have hlen : (pre ++ [UInt8.ofInt character]).length = pre.length + 1 := List.length_append
      have hnext := @ih r.1 (pre ++ [UInt8.ofInt character]) rest hrest r.2
      rw [hlen] at hnext
      simp only [hset, List.length_cons, List.drop_succ_cons, Nat.add_comm room, ← Nat.add_assoc]
      simpa only [List.append_assoc, List.singleton_append] using hnext

/-- **In the buffer stands what `fgets` returns, and a NUL behind it.** -/
theorem fgetsInto_eq (getc : α → m (ℤ × α)) {n : ℤ} {buf : Bytes} (hbuf : (buf.length : ℤ) = n) (fp : α) :
    fgetsInto getc n buf fp = (do
      let (s, fp) ← fgetsOf getc n fp
      pure (s.map fun s => terminate s (buf.drop s.length), fp)) := by
  rw [fgetsInto, fgetsOf]
  split_ifs with hn
  · simp only [LawfulMonad.pure_bind, Option.map_none]
  · simp only [bind_assoc]
    congr 1
    funext r
    split_ifs with heof
    · simp only [LawfulMonad.pure_bind, Option.map_none]
    · have hloop := @fgetsIntoLoop_eq m _ α _ getc (n - 1).toNat r.1 [] buf (by omega) r.2
      simp only [List.length_nil, List.nil_append, Nat.zero_add] at hloop
      have hsome := congrArg (· >>= fun r => pure (some r.1, r.2)) hloop
      simpa only [bind_assoc, LawfulMonad.pure_bind, Option.map_some] using hsome

end

/-- It is a C string again. -/
theorem terminate_spec {s rest : Bytes} (hrest : rest ≠ []) (hs : 0 ∉ s) :
    0 ∈ terminate s rest ∧ cstr (terminate s rest) = s ∧
      (terminate s rest).length = s.length + rest.length := by
  obtain ⟨b, rest, rfl⟩ := List.exists_cons_of_ne_nil hrest
  obtain ⟨tail, htail, hlen⟩ :
      ∃ tail, (0 :: rest : Bytes).set rest.length 0 = 0 :: tail ∧ tail.length = rest.length := by
    cases rest with
    | nil => exact ⟨[], rfl, rfl⟩
    | cons c rest => exact ⟨(c :: rest).set rest.length 0, rfl, List.length_set⟩
  have heq : terminate s (b :: rest) = s ++ 0 :: tail := by
    rw [terminate, List.drop_one, List.tail_cons, List.set_append_right _ _ (by simp)]
    rw [← htail, List.length_cons, ← Nat.add_assoc, Nat.add_sub_cancel, Nat.add_sub_cancel_left]
  rw [heq]
  refine ⟨List.mem_append_right _ List.mem_cons_self, ?_, by simp [hlen]⟩
  rw [cstr, List.takeWhile_append_of_pos, List.takeWhile_cons_of_neg (by simp), List.append_nil]
  intro c hc
  exact decide_eq_true fun h => hs (h ▸ hc)

/-! ### Cutting bytes into lines -/

/-- What one call takes from the bytes that remain, and what it leaves: where the room is used up, the character
in hand is dropped. -/
def cutLine : ℕ → Bytes → Bytes × Bytes
  | _, [] => ([], [])
  | 0, _ :: bs => ([], bs)
  | room + 1, b :: bs =>
    if b = 0x0A then ([b], bs) else (b :: (cutLine room bs).1, (cutLine room bs).2)

/-- What so many calls take. -/
def cutAll (room : ℕ) : ℕ → Bytes → List Bytes
  | 0, _ => []
  | _ + 1, [] => []
  | k + 1, b :: bs => (cutLine room (b :: bs)).1 :: cutAll room k (cutLine room (b :: bs)).2

/-- The lines of a text, with their newlines. -/
def lines : Bytes → List Bytes
  | [] => []
  | b :: bs =>
    if b = 0x0A then [b] :: lines bs
    else match lines bs with
      | [] => [[b]]
      | line :: rest => (b :: line) :: rest

section

variable {room : ℕ} {bs : Bytes}

theorem length_cutLine_le (room : ℕ) (bs : Bytes) : (cutLine room bs).1.length ≤ room := by
  fun_induction cutLine room bs with
  | case1 => exact Nat.zero_le _
  | case2 => exact Nat.zero_le _
  | case3 room bs => exact Nat.succ_le_succ (Nat.zero_le _)
  | case4 room b bs _ ih => exact Nat.succ_le_succ ih

/-- A newline is the last character only. -/
theorem newline_cutLine (room : ℕ) (bs : Bytes) : 0x0A ∉ (cutLine room bs).1.dropLast := by
  fun_induction cutLine room bs with
  | case1 => exact List.not_mem_nil
  | case2 => exact List.not_mem_nil
  | case3 room bs => exact List.not_mem_nil
  | case4 room b bs hb ih =>
    cases hcut : (cutLine room bs).1 with
    | nil => exact List.not_mem_nil
    | cons c cs =>
      rw [hcut] at ih
      rw [List.dropLast_cons_cons]
      exact fun hmem => (List.mem_cons.1 hmem).elim (fun h => hb h.symm) ih

theorem cutLine_subset (room : ℕ) (bs : Bytes) : (cutLine room bs).1 ⊆ bs ∧ (cutLine room bs).2 ⊆ bs := by
  fun_induction cutLine room bs with
  | case1 => exact ⟨List.Subset.refl _, List.Subset.refl _⟩
  | case2 b bs => exact ⟨List.nil_subset _, List.subset_cons_self _ _⟩
  | case3 room bs => exact ⟨by simp, List.subset_cons_self _ _⟩
  | case4 room b bs _ ih =>
    exact ⟨List.cons_subset_cons _ ih.1, List.subset_cons_of_subset _ ih.2⟩

/-- Nothing is taken twice. -/
theorem length_cutLine_add (room : ℕ) (bs : Bytes) :
    (cutLine room bs).1.length + (cutLine room bs).2.length ≤ bs.length := by
  fun_induction cutLine room bs with
  | case1 => exact Nat.le_refl _
  | case2 b bs => simp
  | case3 room bs => simp [Nat.add_comm]
  | case4 room b bs _ ih =>
    simp only [List.length_cons]
    omega

/-- A call takes a character. -/
theorem length_cutLine_cons (room : ℕ) (b : UInt8) (bs : Bytes) :
    (cutLine room (b :: bs)).2.length ≤ bs.length := by
  cases room with
  | zero => exact Nat.le_refl _
  | succ room =>
    have hadd := length_cutLine_add room bs
    rw [cutLine]
    split_ifs
    · exact Nat.le_refl _
    · exact (Nat.le_add_left _ _).trans hadd

theorem lines_ne_nil (h : bs ≠ []) : lines bs ≠ [] := by
  obtain ⟨b, bs, rfl⟩ := List.exists_cons_of_ne_nil h
  rw [lines]
  split
  · exact List.cons_ne_nil _ _
  · split <;> exact List.cons_ne_nil _ _

theorem lines_cons_of_ne {b : UInt8} {line : Bytes} {rest : List Bytes} (hb : b ≠ 0x0A)
    (h : lines bs = line :: rest) : lines (b :: bs) = (b :: line) :: rest := by
  rw [lines, if_neg hb, h]

theorem length_line_pos {line : Bytes} {rest : List Bytes} (h : lines bs = line :: rest) :
    0 < line.length := by
  cases bs with
  | nil => cases h
  | cons b bs =>
    rw [lines] at h
    split at h
    · obtain ⟨rfl, -⟩ := List.cons.inj h
      exact Nat.one_pos
    · split at h <;> obtain ⟨rfl, -⟩ := List.cons.inj h <;> exact Nat.succ_pos _

/-- A call takes the first line, if there is room for it; else it drops a character. -/
theorem cutLine_spec (room : ℕ) (bs : Bytes) {line : Bytes} {rest : List Bytes}
    (h : lines bs = line :: rest) :
    (line.length ≤ room ∧ (cutLine room bs).1 = line ∧ lines (cutLine room bs).2 = rest ∧
        (cutLine room bs).1 ++ (cutLine room bs).2 = bs) ∨
      (room < line.length ∧ (cutLine room bs).1.length + (cutLine room bs).2.length < bs.length) := by
  fun_induction cutLine room bs generalizing line rest with
  | case1 => cases h
  | case2 b bs => exact .inr ⟨length_line_pos h, by simp⟩
  | case3 room bs =>
    obtain ⟨rfl, rfl⟩ := List.cons.inj h
    exact .inl ⟨Nat.le_add_left 1 room, rfl, rfl, rfl⟩
  | case4 room b bs hb ih =>
    cases hlines : lines bs with
    | nil =>
      obtain rfl : bs = [] := by
        by_contra hne
        exact lines_ne_nil hne hlines
      rw [lines, if_neg hb, hlines] at h
      obtain ⟨rfl, rfl⟩ := List.cons.inj h
      have hcut : cutLine room [] = ([], []) := by cases room <;> rfl
      rw [hcut]
      exact .inl ⟨Nat.le_add_left 1 room, rfl, rfl, rfl⟩
    | cons line' rest' =>
      rw [lines_cons_of_ne hb hlines] at h
      obtain ⟨rfl, rfl⟩ := List.cons.inj h
      rcases ih hlines with ⟨hle, hline, hrest, happ⟩ | ⟨hlt, hdrop⟩
      · exact .inl ⟨Nat.succ_le_succ hle, by rw [hline], hrest, by rw [List.cons_append, happ]⟩
      · refine .inr ⟨Nat.succ_lt_succ hlt, ?_⟩
        simp only [List.length_cons]
        omega

theorem length_flatten_cutAll_le (room k : ℕ) (bs : Bytes) :
    (cutAll room k bs).flatten.length ≤ bs.length := by
  fun_induction cutAll room k bs with
  | case1 => exact Nat.zero_le _
  | case2 => exact Nat.zero_le _
  | case3 k b bs ih =>
    have hadd := length_cutLine_add room (b :: bs)
    rw [List.flatten_cons, List.length_append]
    omega

/-- **The strings are all of the text if and only if there is room for every line.** -/
theorem flatten_cutAll_iff {k : ℕ} (hk : bs.length < k) :
    (cutAll room k bs).flatten = bs ↔ ∀ line ∈ lines bs, line.length ≤ room := by
  fun_induction cutAll room k bs with
  | case1 => cases hk
  | case2 k => exact iff_of_true rfl (fun line hline => by cases hline)
  | case3 k b bs ih =>
    rw [List.length_cons, Nat.add_lt_add_iff_right] at hk
    obtain ⟨line, rest, hlines⟩ := List.exists_cons_of_ne_nil (lines_ne_nil (List.cons_ne_nil b bs))
    have hflat := length_flatten_cutAll_le room k (cutLine room (b :: bs)).2
    rw [hlines, List.forall_mem_cons, List.flatten_cons]
    rcases cutLine_spec room _ hlines with ⟨hle, hline, hrest, happ⟩ | ⟨hlt, hdrop⟩
    · have hpos := length_line_pos hlines
      have hlen := congrArg List.length happ
      rw [List.length_append, hline, List.length_cons] at hlen
      rw [← hrest, ← ih (by omega), and_iff_right hle]
      constructor
      · intro hall
        exact List.append_cancel_left (hall.trans happ.symm)
      · intro hall
        rw [hall, happ]
    · refine iff_of_false ?_ fun hfit => absurd hfit.1 (not_le.2 hlt)
      intro hall
      have hlen := congrArg List.length hall
      rw [List.length_append] at hlen
      omega

end

/-! ### On a source -/

/-- The bytes that remain at a place. -/
def Source.Remains (src : Source) (x : Place) (bs : Bytes) : Prop :=
  x.pos ≤ src.len ∧ src.content.drop x.pos = bs

/-- The character that has been read, and the bytes from it on. -/
def Source.InHand (src : Source) (c : ℤ) (x : Place) : Bytes → Prop
  | [] => c = -1 ∧ src.Remains x []
  | b :: bs => c = toChar b ∧ src.Remains x bs

theorem toChar_line (b : UInt8) :
    (toChar b = -1 ↔ b = 0xFF) ∧ (toChar b = 0x0A ↔ b = 0x0A) ∧ UInt8.ofInt (toChar b) = b := by
  revert b
  apply forall_byte
  decide +kernel

section

variable {src : Source} {x : Place} {bs : Bytes} {c : ℤ}

theorem Source.length_content (src : Source) : src.content.length = src.len := by
  rw [content, List.length_map, List.length_range]

/-- Read the next character. -/
theorem Source.Remains.getc (h : src.Remains x bs) : src.InHand (src.getc x).1 (src.getc x).2 bs := by
  obtain ⟨hpos, rfl⟩ := h
  by_cases hlt : x.pos < src.len
  · have hnext : src.content.drop x.pos = src.byteAt x.pos :: src.content.drop (x.pos + 1) := by
      rw [List.drop_eq_getElem_cons (by rwa [src.length_content])]
      simp [content]
    have hadv : (src.getc x).2.pos = x.pos + 1 := by
      change x.pos + min 1 (src.len - x.pos) = x.pos + 1
      omega
    rw [hnext]
    refine ⟨if_pos hlt, ?_, by rw [hadv]⟩
    rw [hadv]
    exact hlt
  · have hnil : src.content.drop x.pos = [] := List.drop_eq_nil_of_le (by rw [src.length_content]; omega)
    have hadv : (src.getc x).2.pos = x.pos := by
      change x.pos + min 1 (src.len - x.pos) = x.pos
      omega
    rw [hnil]
    exact ⟨if_neg hlt, by rwa [hadv], by rwa [hadv]⟩

/-- **The loop takes a line.** -/
theorem fgetsLoop_eq_cut (room : ℕ) (h : src.InHand c x bs) (hclean : 0xFF ∉ bs) :
    (fgetsLoop (m := Id) src.getc room c x).1 = (cutLine room bs).1 ∧
      src.Remains (fgetsLoop (m := Id) src.getc room c x).2 (cutLine room bs).2 := by
  fun_induction cutLine room bs generalizing c x with
  | case1 room =>
    obtain ⟨rfl, hx⟩ := h
    cases room with
    | zero => exact ⟨rfl, hx⟩
    | succ room => exact ⟨rfl, hx⟩
  | case2 b bs => exact ⟨rfl, h.2⟩
  | case3 room bs =>
    obtain ⟨rfl, hx⟩ := h
    exact ⟨rfl, hx⟩
  | case4 room b bs hb ih =>
    obtain ⟨rfl, hx⟩ := h
    obtain ⟨hff, hbs⟩ := not_or.1 (mt List.mem_cons.2 hclean)
    obtain ⟨heof, hnl, hbyte⟩ := toChar_line b
    have hneof : toChar b ≠ -1 := fun h => hff (heof.1 h).symm
    have hnnl : toChar b ≠ 0x0A := fun h => hb (hnl.1 h)
    obtain ⟨hs, hrem⟩ := ih hx.getc hbs
    have hloop : fgetsLoop (m := Id) src.getc (room + 1) (toChar b) x =
        (UInt8.ofInt (toChar b) :: (fgetsLoop (m := Id) src.getc room (src.getc x).1 (src.getc x).2).1,
          (fgetsLoop (m := Id) src.getc room (src.getc x).1 (src.getc x).2).2) := by
      simp only [fgetsLoop, if_neg hneof, if_neg hnnl]
      rfl
    rw [hloop, hbyte, hs]
    exact ⟨rfl, hrem⟩

/-- **So does `fgets`.** -/
theorem fgetsOf_eq_cut {n : ℤ} (hn : 2 ≤ n) (h : src.Remains x bs) (hclean : 0xFF ∉ bs) :
    (fgetsOf (m := Id) src.getc n x).1 = (if bs = [] then none else some (cutLine (n - 1).toNat bs).1) ∧
      src.Remains (fgetsOf (m := Id) src.getc n x).2 (cutLine (n - 1).toNat bs).2 := by
  have hhand := h.getc
  have hn1 : ¬ n ≤ 1 := by omega
  cases bs with
  | nil =>
    obtain ⟨heof, hx⟩ := hhand
    have hof : fgetsOf (m := Id) src.getc n x = (none, (src.getc x).2) := by
      simp only [fgetsOf, if_neg hn1, bind, heof, ↓reduceIte]
      rfl
    have hcut : cutLine (n - 1).toNat [] = ([], []) := by cases (n - 1).toNat <;> rfl
    rw [hof, hcut]
    exact ⟨rfl, hx⟩
  | cons b bs =>
    have hneof : (src.getc x).1 ≠ -1 := by
      rw [hhand.1]
      exact fun h => (not_or.1 (mt List.mem_cons.2 hclean)).1 ((toChar_line b).1.1 h).symm
    obtain ⟨hs, hrem⟩ := fgetsLoop_eq_cut (n - 1).toNat hhand hclean
    have hof : fgetsOf (m := Id) src.getc n x =
        (some (fgetsLoop (m := Id) src.getc (n - 1).toNat (src.getc x).1 (src.getc x).2).1,
          (fgetsLoop (m := Id) src.getc (n - 1).toNat (src.getc x).1 (src.getc x).2).2) := by
      simp only [fgetsOf, if_neg hn1, bind, hneof, ↓reduceIte]
      rfl
    rw [hof, if_neg (List.cons_ne_nil b bs), hs]
    exact ⟨rfl, hrem⟩

end

/-! ### Streams -/

/-- `lualibc_fgets`, and `fgets_ext` for a table entry. -/
def Stdio.fgetsBuf (P : Platform) (n : ℤ) (buf : Bytes) (fp : FILE) : StdioM (Option Bytes × FILE) :=
  if fp.isUncompress then fgetsInto (getcExt P) n buf fp else fgetsInto (getc P) n buf fp

/-- At most so many calls, until one returns `NULL`: the buffers after the others. -/
def Stdio.fgetsAll (P : Platform) (n : ℤ) : ℕ → Bytes → FILE → StdioM (Option (List Bytes) × FILE)
  | 0, _, fp => pure (none, fp)
  | calls + 1, buf, fp => do
    let (r, fp) ← fgetsBuf P n buf fp
    match r with
    | none => pure (some [], fp)
    | some buf => do
      let (bufs, fp) ← fgetsAll P n calls buf fp
      pure (bufs.map (buf :: ·), fp)

/-- The strings in the buffers are lines, and all of the contents. -/
structure Lossless (content : Bytes) (n : ℤ) (bufs : List Bytes) : Prop where
  terminated : ∀ buf ∈ bufs, buf.length = n ∧ 0 ∈ buf
  length_lt : ∀ buf ∈ bufs, ((cstr buf).length : ℤ) ≤ n - 1
  newline : ∀ buf ∈ bufs, 0x0A ∉ (cstr buf).dropLast
  all : (bufs.map cstr).flatten = content

section

variable {P : Platform} {σ : StdioState} {d : Disk} {kind : StreamKind} {src : Source} {fp : FILE}
variable {Rel : Place → FILE → Prop} {x : Place} {bs buf : Bytes} {n : ℤ}

theorem fgetsBuf_eq (hbuf : (buf.length : ℤ) = n) (fp : FILE) :
    fgetsBuf P n buf fp = (do
      let (s, fp) ← fgets P n fp
      pure (s.map fun s => terminate s (buf.drop s.length), fp)) := by
  have : LawfulMonad (Prog DevOp DevOp.Resp) := Prog.lawfulMonad
  rw [fgetsBuf, fgets]
  split_ifs
  · exact fgetsInto_eq _ hbuf fp
  · exact fgetsInto_eq _ hbuf fp

/-- One call. -/
theorem FollowsPosition.fgetsBuf (h : FollowsPosition P kind src Rel σ d) (hn : 2 ≤ n)
    (hbuf : (buf.length : ℤ) = n) (hrel : Rel x fp) (hrem : src.Remains x bs) (hff : 0xFF ∉ bs)
    (h0 : 0 ∉ bs) :
    Rule σ d (Stdio.fgetsBuf P n buf fp) fun r σ' d' =>
      (if bs = [] then r.1 = none else ∃ buf', r.1 = some buf' ∧ (buf'.length : ℤ) = n ∧ 0 ∈ buf' ∧
        cstr buf' = (cutLine (n - 1).toNat bs).1) ∧
      ∃ x', Rel x' r.2 ∧ src.Remains x' (cutLine (n - 1).toNat bs).2 ∧ σ' = σ ∧ d' = d := by
  have hclosed : ∀ x : Place, (1 = 1 ∧ x.pos ≤ src.len) → (1 = 1 ∧ (src.getc x).2.pos ≤ src.len) := by
    rintro x ⟨-, hle⟩
    refine ⟨rfl, ?_⟩
    change x.pos + min 1 (src.len - x.pos) ≤ src.len
    omega
  obtain ⟨hline, hrem'⟩ := fgetsOf_eq_cut hn hrem hff
  rw [fgetsBuf_eq hbuf, Rule, MProg.wpc_bind]
  refine MProg.wpc_mono (h.reads.fgets hclosed n (fun _ => ⟨rfl, hrem.1⟩) hrel) ?_
  rintro r σ' d' - ⟨hr, hrel', rfl, rfl⟩
  refine ⟨trivial, ?_, _, hrel', hrem', rfl, rfl⟩
  rw [hr, hline]
  split_ifs with hnil
  · rfl
  · have hle := length_cutLine_le (n - 1).toNat bs
    have hs : 0 ∉ (cutLine (n - 1).toNat bs).1 := fun hmem => h0 ((cutLine_subset _ _).1 hmem)
    have hdrop : (buf.drop (cutLine (n - 1).toNat bs).1.length).length =
        buf.length - (cutLine (n - 1).toNat bs).1.length := List.length_drop
    obtain ⟨hzero, hstr, hlen⟩ :=
      terminate_spec (List.ne_nil_of_length_pos (by rw [hdrop]; omega)) hs
    exact ⟨_, rfl, by rw [hlen, hdrop]; omega, hzero, hstr⟩

/-- All calls. -/
theorem FollowsPosition.fgetsAll (h : FollowsPosition P kind src Rel σ d) (hn : 2 ≤ n)
    (calls : ℕ) (hcalls : bs.length < calls) (hbuf : (buf.length : ℤ) = n) (hrel : Rel x fp)
    (hrem : src.Remains x bs) (hff : 0xFF ∉ bs) (h0 : 0 ∉ bs) :
    Rule σ d (Stdio.fgetsAll P n calls buf fp) fun r σ' d' =>
      (∃ bufs, r.1 = some bufs ∧ (∀ b ∈ bufs, (b.length : ℤ) = n ∧ 0 ∈ b) ∧
        bufs.map cstr = cutAll (n - 1).toNat calls bs) ∧ σ' = σ ∧ d' = d := by
  induction calls generalizing bs buf x fp with
  | zero => cases hcalls
  | succ calls ih =>
    rw [Rule, Stdio.fgetsAll, MProg.wpc_bind]
    refine MProg.wpc_mono (h.fgetsBuf hn hbuf hrel hrem hff h0) ?_
    rintro ⟨r, fp'⟩ σ' d' - ⟨hr, x', hrel', hrem', rfl, rfl⟩
    cases bs with
    | nil =>
      obtain rfl : r = none := hr
      exact ⟨trivial, ⟨[], rfl, fun b hb => (by cases hb), rfl⟩, rfl, rfl⟩
    | cons b bs =>
      obtain ⟨buf', hbuf', hlen, hzero, hstr⟩ := hr
      obtain rfl : r = some buf' := hbuf'
      have hsub := (cutLine_subset (n - 1).toNat (b :: bs)).2
      have hcons := length_cutLine_cons (n - 1).toNat b bs
      rw [List.length_cons] at hcalls
      have hrest := ih (by omega) hlen hrel' hrem' (fun hmem => hff (hsub hmem)) fun hmem => h0 (hsub hmem)
      simp only [MProg.wpc_bind]
      refine MProg.wpc_mono hrest ?_
      rintro ⟨r', fp''⟩ σ'' d'' - ⟨⟨bufs, hbufs, hterm, hmap⟩, rfl, rfl⟩
      obtain rfl : r' = some bufs := hbufs
      refine ⟨trivial, ⟨buf' :: bufs, rfl, List.forall_mem_cons.2 ⟨⟨hlen, hzero⟩, hterm⟩, ?_⟩, rfl, rfl⟩
      rw [List.map_cons, hstr, hmap, cutAll]

theorem mem_cutAll {room k : ℕ} {s : Bytes} (h : s ∈ cutAll room k bs) :
    s.length ≤ room ∧ 0x0A ∉ s.dropLast := by
  fun_induction cutAll room k bs with
  | case1 => cases h
  | case2 => cases h
  | case3 k b bs ih =>
    rcases List.mem_cons.1 h with rfl | h
    · exact ⟨length_cutLine_le _ _, newline_cutLine _ _⟩
    · exact ih h

/-- **Nothing is lost if and only if there is room for every line.** -/
theorem lossless_iff {calls : ℕ} (h : Opened P σ d kind src fp) (hn : 2 ≤ n) (h0 : 0 ∉ src.content)
    (hff : 0xFF ∉ src.content) (hbuf : (buf.length : ℤ) = n) (hcalls : src.len < calls) :
    ∃ bufs fp', MProg.run DevOp.handle (fgetsAll P n calls buf fp) σ d = some ((some bufs, fp'), σ, d) ∧
      (Lossless src.content n bufs ↔ ∀ line ∈ lines src.content, (line.length : ℤ) ≤ n - 1) := by
  obtain ⟨Rel, hf, hrel⟩ := h.followsPosition
  have hlen : src.content.length < calls := by rwa [src.length_content]
  have hrem : src.Remains {} src.content := ⟨Nat.zero_le _, rfl⟩
  obtain ⟨⟨r, fp'⟩, σ', d', hrun, ⟨bufs, hbufs, hterm, hmap⟩, rfl, rfl⟩ :=
    (hf.fgetsAll hn calls hlen hbuf hrel hrem hff h0).exists_run
  obtain rfl : r = some bufs := hbufs
  refine ⟨bufs, fp', hrun, ?_⟩
  have hstr : ∀ b ∈ bufs, (cstr b).length ≤ (n - 1).toNat ∧ 0x0A ∉ (cstr b).dropLast := fun b hb =>
    mem_cutAll (hmap ▸ List.mem_map_of_mem hb)
  have hroom : (∀ line ∈ lines src.content, (line.length : ℤ) ≤ n - 1) ↔
      ∀ line ∈ lines src.content, line.length ≤ (n - 1).toNat := by
    refine forall₂_congr fun line _ => ?_
    omega
  rw [hroom, ← flatten_cutAll_iff hlen, ← hmap]
  constructor
  · intro hlossless
    exact hlossless.all
  · intro hall
    refine ⟨hterm, fun b hb => ?_, fun b hb => (hstr b hb).2, hall⟩
    have hle := (hstr b hb).1
    omega

end

/-! ### Samples -/

/-- A line of five characters, the newline among them. -/
def lineText : Bytes := ascii "abcd\n"

def linePlatform : Platform := romPlatform ⟨lineText, by decide⟩

def lineDisk : Disk := fun _ => some lineText

/-- With six bytes there is room for it. -/
theorem lossless_line : ∃ bufs fp',
    MProg.run DevOp.handle (fgetsAll linePlatform 6 6 (List.replicate 6 0) (fileStream SRD oneFile)) {} lineDisk =
        some ((some bufs, fp'), {}, lineDisk) ∧ Lossless lineText 6 bufs := by
  have hfile : Opened linePlatform {} lineDisk .file (.ofBytes lineText) (fileStream SRD oneFile) :=
    .file rfl (by decide) (by decide) (.inl rfl)
  have hcontent : (Source.ofBytes lineText).content = lineText := Source.content_ofBytes lineText
  obtain ⟨bufs, fp', hrun, hlossless⟩ := @lossless_iff _ _ _ _ _ _ (List.replicate 6 0) 6 6 hfile
    (by decide) (by decide) (by decide) (by decide) (by decide)
  rw [hcontent] at hlossless
  exact ⟨bufs, fp', hrun, hlossless.2 (by decide)⟩

/-- With five the newline is lost, in a file and in an entry of a table. -/
theorem not_lossless :
    ((MProg.run DevOp.handle (fgetsAll linePlatform 5 6 (List.replicate 5 0) (fileStream SRD oneFile)) {}
        lineDisk).map fun r => r.1.1) = some (some [ascii "abcd" ++ [0]]) ∧
      ((MProg.run DevOp.handle (fgetsAll linePlatform 5 6 (List.replicate 5 0)
        (tableStream .flash oneFile ⟨oneFile, 0, 5⟩)) {} fun _ => none).map fun r => r.1.1) =
          some (some [ascii "abcd" ++ [0]]) ∧
      ¬ Lossless lineText 5 [ascii "abcd" ++ [0]] := by
  refine ⟨by decide +kernel, by decide +kernel, ?_⟩
  intro hlossless
  exact absurd hlossless.all (by decide)

end OsdCore
