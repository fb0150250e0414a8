import OsdCore.Devman.Lookup
import OsdCore.Prog.Machine

/-!
# Runs of the device table

A run is a sequence of calls of `dm_register` and `dm_unregister`.  `live` is not part of the program: the
devices that the calls have reported as registered, and not as unregistered since, in their order.

* `removeEntry_eq_iff` : one pointer that is moved closes the gap if and only if at most one entry is behind it.
* `reachable_iff` : a listed device is reachable through `find_dm_entry` unless its name has a second slash.
* `dmTable_correct` : the table lists the live devices, in every run that removes no entry with two or more
  behind it.
-/

namespace OsdCore

variable {t : DmTable} {devs : List DmDevice} {dev dev' pdev : DmDevice} {i : ℕ} {name path file : Bytes}

/-! ### One call -/

inductive DmCall where
  | register (pdev : Option DmDevice)
  | unregister (name : Option Bytes)
deriving DecidableEq, Repr

/-- What it returns, and the table after it. -/
def DmCall.run (t : DmTable) : DmCall → ℤ × DmTable
  | .register pdev => dmRegister t pdev
  | .unregister name => dmUnregister t name

/-- The live devices after a call with this result. -/
def DmCall.record (live : List DmDevice) (result : ℤ) : DmCall → List DmDevice
  | .register (some pdev) => if 0 ≤ result then live ++ [pdev] else live
  | .unregister (some name) => if 0 ≤ result then live.filter (¬ SameName name ·.name) else live
  | _ => live

/-- The table and the live devices. -/
structure DmRun where
  table : DmTable
  live : List DmDevice
deriving DecidableEq, Repr

namespace DmRun

/-- The start. -/
def start : DmRun := ⟨.empty, []⟩

def step (s : DmRun) (c : DmCall) : Option DmRun :=
  some ⟨(c.run s.table).2, c.record s.live (c.run s.table).1⟩

end DmRun

/-- A call that removes no entry but one of the last two. -/
def NearEnd (t : DmTable) : DmCall → Prop
  | .unregister (some name) =>
    ∀ dev ∈ t.dmList.take (t.dmNumDevs - 2), ¬ SameName name dev.name
  | _ => True

instance (t : DmTable) : (c : DmCall) → Decidable (NearEnd t c)
  | .unregister (some name) =>
    inferInstanceAs (Decidable (∀ dev ∈ t.dmList.take (t.dmNumDevs - 2), ¬ SameName name dev.name))
  | .unregister none => inferInstanceAs (Decidable True)
  | .register _ => inferInstanceAs (Decidable True)

/-- What `dm_register` does. -/
theorem dmRegister_cases (t : DmTable) (pdev : Option DmDevice) :
    ((dmRegister t pdev).1 < 0 ∧ (dmRegister t pdev).2 = t) ∨
      ∃ dev, pdev = some dev ∧ ¬ InvalidName dev.name ∧ (∀ d ∈ t.dmList, ¬ SameName d.name dev.name) ∧
        (dmRegister t pdev).1 = t.dmNumDevs ∧ (dmRegister t pdev).2.dmList = t.dmList ++ [dev] := by
  cases pdev with
  | none => exact .inl ⟨Int.negSucc_lt_zero _, rfl⟩
  | some dev =>
    rw [dmRegister]
    split_ifs with hname hdup hfull
    · exact .inl ⟨Int.negSucc_lt_zero _, rfl⟩
    · exact .inl ⟨Int.negSucc_lt_zero _, rfl⟩
    · exact .inl ⟨Int.negSucc_lt_zero _, rfl⟩
    · refine .inr ⟨dev, rfl, hname, ?_, rfl, rfl⟩
      intro d hd hsame
      exact hdup ⟨d, hd, hsame.symm⟩

/-- What `dm_unregister` does. -/
theorem dmUnregister_cases (t : DmTable) (name : Option Bytes) :
    ((dmUnregister t name).1 < 0 ∧ (dmUnregister t name).2 = t ∧
        ∀ n, name = some n → InvalidName n ∨ ∀ dev ∈ t.dmList, ¬ SameName n dev.name) ∨
      ∃ n, name = some n ∧ ¬ InvalidName n ∧ (∃ dev ∈ t.dmList, SameName n dev.name) ∧
        (dmUnregister t name).1 = DM_OK ∧
        (dmUnregister t name).2.dmList = removeEntry t.dmList (t.dmList.findIdx (SameName n ·.name)) := by
  cases name with
  | none => exact .inl ⟨Int.negSucc_lt_zero _, rfl, fun n hn => by cases hn⟩
  | some n =>
    rw [dmUnregister]
    split_ifs with hname hreg
    · refine .inl ⟨Int.negSucc_lt_zero _, rfl, ?_⟩
      rintro m ⟨⟩
      exact .inl hname
    · exact .inr ⟨n, rfl, hname, hreg, rfl, rfl⟩
    · refine .inl ⟨Int.negSucc_lt_zero _, rfl, ?_⟩
      rintro m ⟨⟩
      exact .inr fun dev hdev hsame => hreg ⟨dev, hdev, hsame⟩

/-- **A refused call changes nothing.** -/
theorem DmCall.run_refused (c : DmCall) (h : (c.run t).1 < 0) : (c.run t).2 = t := by
  cases c with
  | register pdev =>
    rcases dmRegister_cases t pdev with ⟨-, ht⟩ | ⟨dev, -, -, -, hres, -⟩
    · exact ht
    · rw [DmCall.run, hres] at h
      omega
  | unregister name =>
    rcases dmUnregister_cases t name with ⟨-, ht, -⟩ | ⟨n, -, -, -, hres, -⟩
    · exact ht
    · rw [DmCall.run, hres] at h
      cases h

/-! ### The gap -/

/-- Names that are pairwise distinct. -/
def Distinct (devs : List DmDevice) : Prop := devs.Pairwise fun d e => ¬ SameName d.name e.name

/-- A name is the name of one entry. -/
theorem Distinct.eq_of_getElem? {j : ℕ} (h : Distinct devs) (hi : devs[i]? = some dev)
    (hj : devs[j]? = some dev') (hname : SameName dev.name dev'.name) : i = j := by
  obtain ⟨hi', rfl⟩ := List.getElem?_eq_some_iff.1 hi
  obtain ⟨hj', rfl⟩ := List.getElem?_eq_some_iff.1 hj
  rw [Distinct, List.pairwise_iff_getElem] at h
  rcases Nat.lt_trichotomy i j with hlt | heq | hgt
  · exact absurd hname (h i j hi' hj' hlt)
  · exact heq
  · exact absurd hname.symm (h j i hj' hi' hgt)

section

variable {pre post : List DmDevice} {d e : DmDevice}

theorem removeEntry_last : removeEntry (pre ++ [d]) pre.length = pre := by
  have hnone : (pre ++ [d])[pre.length + 1]? = none := List.getElem?_eq_none (by simp)
  rw [removeEntry, hnone]
  exact List.dropLast_concat

theorem removeEntry_cons :
    removeEntry (pre ++ d :: e :: post) pre.length = pre ++ e :: (e :: post).dropLast := by
  have hnext : (pre ++ d :: e :: post)[pre.length + 1]? = some e := by
    rw [List.getElem?_append_right (Nat.le_add_right _ 1), Nat.add_sub_cancel_left]
    rfl
  have hset : (pre ++ d :: e :: post).set pre.length e = pre ++ e :: e :: post := by
    rw [List.set_append_right _ _ (Nat.le_refl _), Nat.sub_self, List.set_cons_zero]
  rw [removeEntry, hnext]
  simp only [hset, List.dropLast_append_of_ne_nil (List.cons_ne_nil _ _), List.dropLast_cons_cons]

/-- **The gap is closed if and only if at most one entry is behind it.** -/
theorem removeEntry_eq_iff (h : Distinct (pre ++ d :: post)) :
    removeEntry (pre ++ d :: post) pre.length = pre ++ post ↔ post.length ≤ 1 := by
  cases post with
  | nil => exact iff_of_true (removeEntry_last.trans (List.append_nil _).symm) (Nat.zero_le 1)
  | cons e post =>
    rw [removeEntry_cons, List.append_cancel_left_eq, List.cons_inj_right]
    cases post with
    | nil => exact iff_of_true rfl (Nat.le_refl 1)
    | cons f post =>
      refine iff_of_false ?_ (by simp)
      intro heq
      rw [List.dropLast_cons_cons] at heq
      obtain rfl : e = f := (List.cons.inj heq).1
      have htail := (List.pairwise_cons.1 (List.pairwise_append.1 h).2.1).2
      exact (List.pairwise_cons.1 htail).1 e List.mem_cons_self (SameName.refl _)

/-- The first entry with a name. -/
theorem exists_split (h : ∃ dev ∈ devs, SameName name dev.name) :
    ∃ pre d post, devs = pre ++ d :: post ∧ (∀ e ∈ pre, ¬ SameName name e.name) ∧ SameName name d.name := by
  induction devs with
  | nil =>
    obtain ⟨dev, hdev, -⟩ := h
    cases hdev
  | cons d devs ih =>
    by_cases hd : SameName name d.name
    · exact ⟨[], d, devs, rfl, nofun, hd⟩
    · obtain ⟨dev, hdev, hname⟩ := h
      rcases List.mem_cons.1 hdev with rfl | hdev
      · exact absurd hname hd
      · obtain ⟨pre, e, post, rfl, hpre, he⟩ := ih ⟨dev, hdev, hname⟩
        exact ⟨d :: pre, e, post, rfl, List.forall_mem_cons.2 ⟨hd, hpre⟩, he⟩

theorem findIdx_split (hpre : ∀ e ∈ pre, ¬ SameName name e.name) (hd : SameName name d.name) :
    (pre ++ d :: post).findIdx (SameName name ·.name) = pre.length := by
  induction pre with
  | nil => rw [List.nil_append, List.findIdx_cons, decide_eq_true hd]; rfl
  | cons e pre ih =>
    obtain ⟨he, hpre⟩ := List.forall_mem_cons.1 hpre
    rw [List.cons_append, List.findIdx_cons, decide_eq_false he, ih hpre]
    rfl

/-- The entries with other names are all but this one. -/
theorem filter_split (h : Distinct (pre ++ d :: post)) (hpre : ∀ e ∈ pre, ¬ SameName name e.name)
    (hd : SameName name d.name) :
    (pre ++ d :: post).filter (¬ SameName name ·.name) = pre ++ post := by
  have hpost : ∀ e ∈ post, ¬ SameName name e.name := by
    intro e he hname
    exact (List.pairwise_cons.1 (List.pairwise_append.1 h).2.1).1 e he (hd.symm.trans hname)
  rw [List.filter_append, List.filter_cons_of_neg (by simpa using hd)]
  rw [List.filter_eq_self.2 (by simpa using hpre), List.filter_eq_self.2 (by simpa using hpost)]

/-- The entry is one of the last two. -/
theorem nearEnd_iff (ht : t.dmList = pre ++ d :: post) (hpre : ∀ e ∈ pre, ¬ SameName name e.name)
    (hd : SameName name d.name) : NearEnd t (.unregister (some name)) ↔ post.length ≤ 1 := by
  have hnum : t.dmNumDevs = pre.length + 1 + post.length := by
    rw [DmTable.dmNumDevs, ht, List.length_append, List.length_cons]
    omega
  rw [NearEnd, ht, hnum]
  constructor
  · intro hnear
    by_contra hlt
    refine hnear d ?_ hd
    rw [List.take_append]
    refine List.mem_append_right _ ?_
    obtain ⟨k, hk⟩ : ∃ k, pre.length + 1 + post.length - 2 - pre.length = k + 1 :=
      ⟨post.length - 2, by omega⟩
    rw [hk, List.take_succ_cons]
    exact List.mem_cons_self
  · intro hle e he
    rw [List.take_append_of_le_length (by omega)] at he
    exact hpre e (List.mem_of_mem_take he)

end

/-! ### Reaching a device -/

/-- A path leads to the device. -/
def Reachable (t : DmTable) (dev : DmDevice) : Prop :=
  ∃ path i file, findDmEntry t (some path) = some (i, file) ∧ t.dmList[i]? = some dev

/-- The names in the table are distinct, and can be registered. -/
structure DmTable.Good (t : DmTable) : Prop where
  distinct : Distinct t.dmList
  valid : ∀ dev ∈ t.dmList, ¬ InvalidName dev.name

theorem eq_slash_cons (h : ¬ InvalidName name) : ∃ c, name = slash :: c := by
  rw [InvalidName, not_or, not_not] at h
  exact List.head?_eq_some_iff.1 h.1

theorem fileName_eq_some {j : ℕ} {preal : Bytes} (h : fileName i preal = some (j, file)) : i = j := by
  rw [fileName] at h
  split_ifs at h
  exact (Prod.ext_iff.1 (Option.some.inj h)).1

/-- The device that `find_dm_entry` finds has this name, or is the root device. -/
theorem findDevice_eq_some {tempname preal : Bytes}
    (h : findDevice t path tempname preal = some (i, file)) (hi : t.dmList[i]? = some dev) :
    SameName tempname dev.name ∨ dev.name = [slash] := by
  by_cases hfound : ∃ dev ∈ t.dmList, SameName tempname dev.name
  · obtain ⟨j, dev', hfind, hj, hname⟩ := @findDevice_found t tempname preal path hfound
    rw [hfind] at h
    obtain rfl := fileName_eq_some h
    obtain rfl : dev' = dev := Option.some.inj (hj.symm.trans hi)
    exact .inl hname
  · have hno : ∀ dev ∈ t.dmList, ¬ SameName tempname dev.name :=
      fun dev hmem hname => hfound ⟨dev, hmem, hname⟩
    by_cases hroot : HasRoot t
    · obtain ⟨j, dev', hfind, hj, hname⟩ := @findDevice_root t tempname preal path hroot hno
      rw [hfind] at h
      obtain rfl := fileName_eq_some h
      obtain rfl : dev' = dev := Option.some.inj (hj.symm.trans hi)
      exact .inr hname
    · rw [findDevice_none hroot hno] at h
      cases h

/-- What is found has no second slash in its name. -/
theorem findDmEntry_eq_some (h : findDmEntry t (some path) = some (i, file))
    (hi : t.dmList[i]? = some dev) : slash ∉ dev.name.drop 1 := by
  have hroot : dev.name = [slash] → slash ∉ dev.name.drop 1 := by
    intro hname
    rw [hname]
    exact List.not_mem_nil
  cases path with
  | nil => cases h
  | cons b p =>
    by_cases hb : b = slash
    · subst hb
      by_cases hslash : slash ∈ p
      · obtain ⟨c, rest, rfl, hc⟩ := List.eq_append_cons_of_mem hslash
        rw [← List.cons_append, findDmEntry_component hc] at h
        split_ifs at h
        rcases findDevice_eq_some h hi with hname | hname
        · rw [hname.mem_drop_iff]
          exact hc
        · exact hroot hname
      · rw [findDmEntry_file hslash] at h
        rcases findDevice_eq_some h hi with hname | hname
        · exact hroot (SameName.slash_iff.1 hname)
        · exact hroot hname
    · rw [findDmEntry, if_pos (by simpa using hb)] at h
      cases h

/-- **A device that is listed can be reached, unless its name has a second slash.** -/
theorem reachable_iff (ht : t.Good) :
    Reachable t dev ↔ dev ∈ t.dmList ∧ slash ∉ dev.name.drop 1 := by
  constructor
  · rintro ⟨path, i, file, hfind, hi⟩
    exact ⟨List.mem_of_getElem? hi, findDmEntry_eq_some hfind hi⟩
  · rintro ⟨hmem, hslash⟩
    obtain ⟨c, hname⟩ := eq_slash_cons (ht.valid dev hmem)
    have hlen : dev.name.length ≤ DM_MAX_DEV_NAME := not_lt.1 fun h => ht.valid dev hmem (.inr h)
    obtain ⟨i, hi⟩ := List.mem_iff_getElem?.1 hmem
    have hthis : ∀ (j : ℕ) dev', t.dmList[j]? = some dev' → SameName dev.name dev'.name → dev' = dev := by
      intro j dev' hj hsame
      obtain rfl := ht.distinct.eq_of_getElem? hi hj hsame
      exact Option.some.inj (hj.symm.trans hi)
    rw [hname] at hslash hlen
    by_cases hc : c = []
    · subst hc
      have hfound : ∃ dev ∈ t.dmList, SameName [slash] dev.name :=
        ⟨dev, hmem, SameName.slash_iff.2 hname⟩
      obtain ⟨j, dev', hfind, hj, hsame⟩ := @findDevice_found t [slash] [slash, 0x78] [slash, 0x78] hfound
      obtain rfl := hthis j dev' hj (by rwa [hname])
      exact ⟨[slash, 0x78], j, [0x78], (findDmEntry_file (by decide)).trans hfind, hj⟩
    · have hfound : ∃ dev ∈ t.dmList, SameName (slash :: c) dev.name :=
        ⟨dev, hmem, by rw [hname]; exact SameName.refl _⟩
      obtain ⟨j, dev', hfind, hj, hsame⟩ :=
        @findDevice_found t (slash :: c) [slash, 0x78] (slash :: c ++ [slash, 0x78]) hfound
      obtain rfl := hthis j dev' hj (by rwa [hname])
      refine ⟨slash :: c ++ [slash, 0x78], j, [0x78], ?_, hj⟩
      have hpos := List.length_pos_iff.2 hc
      rw [List.length_cons] at hlen
      have hfind' := @findDmEntry_component t c [0x78] hslash
      rw [if_neg (by omega), hfind] at hfind'
      exact hfind'

/-! ### Runs -/

/-- A call that is refused leaves the live devices. -/
theorem DmCall.record_refused (c : DmCall) {live : List DmDevice} {result : ℤ} (h : result < 0) :
    c.record live result = live := by
  cases c with
  | register pdev =>
    cases pdev with
    | none => rfl
    | some pdev => exact if_neg (not_le.2 h)
  | unregister name =>
    cases name with
    | none => rfl
    | some name => exact if_neg (not_le.2 h)

/-- A device that is registered stands at the end. -/
theorem dmRegister_lists (t : DmTable) (pdev : Option DmDevice) :
    (dmRegister t pdev).2.dmList =
      (DmCall.register pdev).record t.dmList (dmRegister t pdev).1 := by
  rcases dmRegister_cases t pdev with ⟨hres, ht⟩ | ⟨dev, rfl, -, -, hres, hlist⟩
  · rw [DmCall.record_refused _ hres, ht]
  · rw [hlist, hres, DmCall.record, if_pos (Int.natCast_nonneg _)]

theorem dmRegister_good (pdev : Option DmDevice) (ht : t.Good) : (dmRegister t pdev).2.Good := by
  rcases dmRegister_cases t pdev with ⟨-, hsame⟩ | ⟨dev, rfl, hvalid, hfresh, -, hlist⟩
  · rwa [hsame]
  · constructor
    · rw [hlist, Distinct, List.pairwise_append]
      refine ⟨ht.distinct, List.pairwise_singleton _ _, ?_⟩
      intro d hd e he
      rw [List.mem_singleton.1 he]
      exact hfresh d hd
    · intro d hd
      rw [hlist] at hd
      rcases List.mem_append.1 hd with hd | hd
      · exact ht.valid d hd
      · rwa [List.mem_singleton.1 hd]

/-- **The table lists what it should after `dm_unregister` if and only if it removes one of the last two.** -/
theorem dmUnregister_lists_iff (name : Option Bytes) (ht : t.Good) :
    (dmUnregister t name).2.dmList =
        (DmCall.unregister name).record t.dmList (dmUnregister t name).1 ↔
      NearEnd t (.unregister name) := by
  rcases dmUnregister_cases t name with ⟨hres, hsame, hno⟩ | ⟨n, rfl, -, hreg, hres, hlist⟩
  · rw [DmCall.record_refused _ hres, hsame]
    refine iff_of_true rfl ?_
    cases name with
    | none => trivial
    | some n =>
      intro dev hdev hname
      have hmem := List.mem_of_mem_take hdev
      rcases hno n rfl with hinvalid | hnone
      · exact ht.valid dev hmem (hname.invalidName hinvalid)
      · exact hnone dev hmem hname
  · obtain ⟨pre, d, post, hsplit, hpre, hd⟩ := exists_split hreg
    have hdist : Distinct (pre ++ d :: post) := hsplit ▸ ht.distinct
    have hrecord : (DmCall.unregister (some n)).record t.dmList DM_OK = pre ++ post := by
      rw [DmCall.record, if_pos (show 0 ≤ DM_OK from le_rfl), hsplit, filter_split hdist hpre hd]
    rw [hlist, hres, hrecord, nearEnd_iff hsplit hpre hd, hsplit, findIdx_split hpre hd,
      removeEntry_eq_iff hdist]

/-- The table without the device that has been removed. -/
theorem dmUnregister_removes (ht : t.Good) (hnear : NearEnd t (.unregister (some name)))
    (hok : (dmUnregister t (some name)).1 = DM_OK) :
    ∃ pre d post, t.dmList = pre ++ d :: post ∧ SameName name d.name ∧
      (dmUnregister t (some name)).2.dmList = pre ++ post := by
  rcases dmUnregister_cases t (some name) with ⟨hres, -, -⟩ | ⟨n, ⟨⟩, -, hreg, hres, hlist⟩
  · rw [hok] at hres
    cases hres
  · obtain ⟨pre, d, post, hsplit, hpre, hd⟩ := exists_split hreg
    refine ⟨pre, d, post, hsplit, hd, ?_⟩
    rw [hlist, hsplit, findIdx_split hpre hd]
    exact (removeEntry_eq_iff (hsplit ▸ ht.distinct)).2 ((nearEnd_iff hsplit hpre hd).1 hnear)

theorem dmUnregister_good (name : Option Bytes) (ht : t.Good) (hnear : NearEnd t (.unregister name)) :
    (dmUnregister t name).2.Good := by
  rcases dmUnregister_cases t name with ⟨-, hsame, -⟩ | ⟨n, rfl, -, -, hres, -⟩
  · rwa [hsame]
  · obtain ⟨pre, d, post, hsplit, -, hlist⟩ := dmUnregister_removes ht hnear hres
    have hsub : (pre ++ post).Sublist t.dmList := by
      rw [hsplit]
      exact (List.Sublist.refl pre).append (List.sublist_cons_self d post)
    constructor
    · rw [hlist]
      exact ht.distinct.sublist hsub
    · rw [hlist]
      exact fun dev hdev => ht.valid dev (hsub.subset hdev)

/-- After a name has been unregistered it can be registered again, and every other device that could be
reached still can. -/
def FreesName (t : DmTable) (name : Bytes) (t' : DmTable) : Prop :=
  (∀ pdev : DmDevice, SameName name pdev.name → 0 ≤ (dmRegister t' (some pdev)).1) ∧
    ∀ dev, ¬ SameName name dev.name → Reachable t dev → Reachable t' dev

theorem dmUnregister_freesName (ht : t.Good) (hnear : NearEnd t (.unregister (some name)))
    (hok : (dmUnregister t (some name)).1 = DM_OK) :
    FreesName t name (dmUnregister t (some name)).2 := by
  obtain ⟨pre, d, post, hsplit, hd, hlist⟩ := dmUnregister_removes ht hnear hok
  have hdist : Distinct (pre ++ d :: post) := hsplit ▸ ht.distinct
  constructor
  · intro pdev hname
    have hsame : SameName d.name pdev.name := hd.symm.trans hname
    rw [dmRegister, if_neg, if_neg, dif_neg]
    · exact Int.natCast_nonneg _
    · have hle := t.length_le
      rw [hsplit, List.length_append, List.length_cons] at hle
      rw [DmTable.dmNumDevs, hlist, List.length_append]
      omega
    · rw [hlist]
      rintro ⟨e, he, hpdev⟩
      have hde : SameName d.name e.name := hsame.trans hpdev
      rcases List.mem_append.1 he with he | he
      · exact (List.pairwise_append.1 hdist).2.2 e he d List.mem_cons_self hde.symm
      · exact (List.pairwise_cons.1 (List.pairwise_append.1 hdist).2.1).1 e he hde
    · intro hinvalid
      refine ht.valid d ?_ (hsame.symm.invalidName hinvalid)
      rw [hsplit]
      exact List.mem_append_right _ List.mem_cons_self
  · intro dev hother hreach
    obtain ⟨hmem, hslash⟩ := (reachable_iff ht).1 hreach
    refine (reachable_iff (dmUnregister_good _ ht hnear)).2 ⟨?_, hslash⟩
    rw [hsplit] at hmem
    rw [hlist]
    rcases List.mem_append.1 hmem with hmem | hmem
    · exact List.mem_append_left _ hmem
    · rcases List.mem_cons.1 hmem with rfl | hmem
      · exact absurd hd hother
      · exact List.mem_append_right _ hmem

/-- What holds in a state. -/
structure DmRun.Good (s : DmRun) : Prop where
  lists : s.table.dmList = s.live
  good : s.table.Good

theorem DmRun.good_start : start.Good := ⟨rfl, ⟨List.Pairwise.nil, nofun⟩⟩

/-- **A step keeps it.** -/
theorem DmRun.good_step {s s' : DmRun} {c : DmCall} (h : s.Good) (hc : NearEnd s.table c)
    (hs : s.step c = some s') : s'.Good := by
  obtain ⟨table, live⟩ := s
  obtain rfl : table.dmList = live := h.lists
  cases hs
  cases c with
  | register pdev => exact ⟨dmRegister_lists table pdev, dmRegister_good pdev h.good⟩
  | unregister name =>
    exact ⟨(dmUnregister_lists_iff name h.good).2 hc, dmUnregister_good name h.good hc⟩

/-- **The device table, in every run that removes no entry but one of the last two.** -/
theorem dmTable_correct {s : DmRun}
    (h : Steps DmRun.step (fun s c => NearEnd s.table c) DmRun.start s) :
    s.table.dmList = s.live ∧ Distinct s.table.dmList ∧
      (∀ c : DmCall, (c.run s.table).1 < 0 → (c.run s.table).2 = s.table) ∧
      ∀ name, NearEnd s.table (.unregister (some name)) →
        (dmUnregister s.table (some name)).1 = DM_OK →
        FreesName s.table name (dmUnregister s.table (some name)).2 := by
  have hgood : s.Good := h.invariant DmRun.good_start fun _ _ _ => DmRun.good_step
  refine ⟨hgood.lists, hgood.good.distinct, ?_, ?_⟩
  · intro c hc
    exact c.run_refused hc
  · intro name hnear hok
    exact dmUnregister_freesName hgood.good hnear hok

/-- Three devices, and then a call that removes one. -/
def threeDevices (name : Bytes) : List DmCall :=
  [.register (some ⟨1, ascii "/"⟩), .register (some ⟨2, ascii "/ldb"⟩), .register (some ⟨3, ascii "/sd"⟩),
    .unregister (some name)]

/-- The second of three is removed, and registered again. -/
theorem dmTable_correct_second : ∃ s : DmRun,
    s.table.dmList = [⟨1, ascii "/"⟩, ⟨3, ascii "/sd"⟩, ⟨4, ascii "/ldb"⟩] ∧ s.table.dmList = s.live := by
  have hrun : (replay DmRun.step (fun s c => NearEnd s.table c)
      (threeDevices (ascii "/LDB") ++ [.register (some ⟨4, ascii "/ldb"⟩)]) .start).any
      (fun s => s.table.dmList = [⟨1, ascii "/"⟩, ⟨3, ascii "/sd"⟩, ⟨4, ascii "/ldb"⟩]) = true := by
    decide +kernel
  obtain ⟨s, hs, hp⟩ := exists_of_replay hrun
  exact ⟨s, of_decide_eq_true hp, (dmTable_correct hs).1⟩

/-- The first of three is removed: the second is listed twice, and the third not at all. -/
theorem not_dmTable_correct :
    ¬ ∀ s, Steps DmRun.step (fun _ _ => True) .start s → s.table.dmList = s.live := by
  intro h
  have hrun : (replay DmRun.step (fun _ _ => True) (threeDevices (ascii "/")) .start).any
      (fun s => s.table.dmList = [⟨2, ascii "/ldb"⟩, ⟨2, ascii "/ldb"⟩] &&
        s.live = [⟨2, ascii "/ldb"⟩, ⟨3, ascii "/sd"⟩]) = true := by
    decide +kernel
  obtain ⟨s, hs, hp⟩ := exists_of_replay hrun
  rw [Bool.and_eq_true, decide_eq_true_eq, decide_eq_true_eq] at hp
  have hlists := h s hs
  rw [hp.1, hp.2] at hlists
  cases hlists

end OsdCore
