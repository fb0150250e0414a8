import OsdCore.Scatter.Basic

/-!
# An insertion keeps a scatter table good

One lemma for each of the three ways in which a key gets a place.

* `Scatter.Good.overwrite` : the first place of its chain has no value.
* `Scatter.Good.link` : the key there belongs there, and the new one comes right behind it.
* `Scatter.Good.move` : the key there belongs to another chain, and goes to a free place.
* `Scatter.insert_spec` : an insertion does one of these, or every place has a key.
-/

namespace OsdCore

namespace Scatter

variable {K V : Type*} {mp : K → ℕ} {t : Scatter K V} {k : K}

open Relation

/-- The place of the new key is the only one that is used now and was not before. -/
theorem used_card_le_succ {t' : Scatter K V} {n : ℕ} (hsize : t'.size = t.size)
    (h : ∀ j, j ≠ n → (t'.node j).key ≠ none → (t.node j).key ≠ none) :
    t'.used.card ≤ t.used.card + 1 := by
  have hsub : t'.used ⊆ Insert.insert n t.used := by
    intro j hj
    obtain ⟨hlt, hkey⟩ := mem_used.1 hj
    by_cases hjn : j = n
    · exact Finset.mem_insert.2 (Or.inl hjn)
    · exact Finset.mem_insert_of_mem (mem_used.2 ⟨hsize ▸ hlt, h j hjn hkey⟩)
  exact (Finset.card_le_card hsub).trans (Finset.card_insert_le _ _)

section Overwrite

theorem overwrite_key (t : Scatter K V) (i : ℕ) (k : K) (j : ℕ) :
    ((t.put i { t.node i with key := some k }).node j).key =
      if j = i then some k else (t.node j).key := by
  rw [put_node]
  split_ifs <;> rfl

theorem overwrite_next (t : Scatter K V) (i : ℕ) (k : K) (j : ℕ) :
    ((t.put i { t.node i with key := some k }).node j).next = (t.node j).next := by
  rw [put_node]
  split_ifs with h
  · rw [h]
  · rfl

theorem overwrite_val (t : Scatter K V) (i : ℕ) (k : K) (j : ℕ) :
    ((t.put i { t.node i with key := some k }).node j).val = (t.node j).val := by
  rw [put_node]
  split_ifs with h
  · rw [h]
  · rfl

theorem overwrite_Next (t : Scatter K V) (i : ℕ) (k : K) :
    (t.put i { t.node i with key := some k }).Next = t.Next := by
  funext a b
  rw [Next, Next, overwrite_next]

/-- **A place without a value** is written over; its chain stays as it is. -/
theorem Good.overwrite (hg : Good mp t) (hf : t.FreeBelow) (hk : ∀ i, (t.node i).key ≠ some k)
    (hval : (t.node (mp k)).val = none) :
    Placed mp t k (t.put (mp k) { t.node (mp k) with key := some k }) (mp k) := by
  have hkeys : ∀ j k', ((t.put (mp k) { t.node (mp k) with key := some k }).node j).key = some k' →
      j = mp k ∧ k' = k ∨ j ≠ mp k ∧ (t.node j).key = some k' := by
    intro j k' h
    rw [overwrite_key] at h
    split_ifs at h with hj
    · exact Or.inl ⟨hj, (Option.some.inj h).symm⟩
    · exact Or.inr ⟨hj, h⟩
  have hmono : ∀ j, (t.node j).key ≠ none →
      ((t.put (mp k) { t.node (mp k) with key := some k }).node j).key ≠ none := by
    intro j hj
    rw [overwrite_key]
    split_ifs
    · exact nofun
    · exact hj
  refine ⟨?_, ?_, rfl, ?_, ?_, ?_, ?_, ?_⟩
  · refine ⟨hg.mp_lt, ?_, ?_, ?_, ?_, ?_, ?_, ?_, ?_⟩
    · intro i hi
      rw [put_node, if_neg fun h => absurd (hg.mp_lt k) (h ▸ hi).not_gt]
      exact hg.outside i hi
    · intro i hi
      rw [overwrite_key] at hi
      split_ifs at hi with h
      rw [put_node, if_neg h]
      exact hg.blank i hi
    · intro i j hij
      rw [overwrite_Next] at hij
      exact hmono j (hg.next_key i j hij)
    · rw [overwrite_Next]
      exact hg.next_inj
    · rw [overwrite_Next]
      exact hg.ends
    · intro i k' hi
      obtain ⟨-, rfl⟩ | ⟨-, hi⟩ := hkeys i k' hi
      · exact ⟨k', by rw [overwrite_key, if_pos rfl], rfl⟩
      · obtain ⟨k₂, hk₂, hmp⟩ := hg.home i k' hi
        by_cases h : mp k' = mp k
        · exact ⟨k, by rw [overwrite_key, if_pos h], h.symm⟩
        · exact ⟨k₂, by rw [overwrite_key, if_neg h, hk₂], hmp⟩
    · intro i k' hi
      rw [overwrite_Next]
      obtain ⟨rfl, rfl⟩ | ⟨-, hi⟩ := hkeys i k' hi
      · exact .refl
      · exact hg.reach i k' hi
    · intro i j k' hi hj
      obtain ⟨rfl, rfl⟩ | ⟨-, hi'⟩ := hkeys i k' hi
      · obtain ⟨rfl, -⟩ | ⟨-, hj'⟩ := hkeys j k' hj
        · rfl
        · exact absurd hj' (hk j)
      · obtain ⟨-, rfl⟩ | ⟨-, hj'⟩ := hkeys j k' hj
        · exact absurd hi' (hk i)
        · exact hg.distinct i j k' hi' hj'
  · exact ⟨hf.le, fun i hle hlt => hmono i (hf.keyed i hle hlt)⟩
  · rw [overwrite_key, if_pos rfl]
  · rw [overwrite_val, hval]
  · intro k' v
    constructor
    · rintro ⟨i, hi, hv⟩
      rw [overwrite_val] at hv
      obtain ⟨rfl, -⟩ | ⟨-, hi⟩ := hkeys i k' hi
      · rw [hval] at hv
        exact nomatch hv
      · exact ⟨i, hi, hv⟩
    · rintro ⟨i, hi, hv⟩
      refine ⟨i, ?_, by rw [overwrite_val, hv]⟩
      rw [overwrite_key, if_neg fun h => ?_, hi]
      rw [h, hval] at hv
      exact nomatch hv
  · intro j k' h
    obtain ⟨-, rfl⟩ | ⟨-, h⟩ := hkeys j k' h
    · exact Or.inl rfl
    · exact Or.inr ⟨j, h⟩
  · refine used_card_le_succ rfl (n := mp k) fun j hj h => ?_
    rwa [overwrite_key, if_neg hj] at h

end Overwrite

section Link

variable {i n : ℕ}

theorem link_node (hin : i ≠ n) (k : K) (j : ℕ) :
    (t.link i n k).node j =
      if j = n then ⟨some k, (t.node n).val, (t.node i).next⟩
      else if j = i then { t.node i with next := some n } else t.node j := by
  simp only [link, put_node, if_neg hin, if_neg hin.symm, if_true]
  split_ifs <;> rfl

theorem link_next_of_ne (hin : i ≠ n) {j : ℕ} (hjn : j ≠ n) (hji : j ≠ i) :
    ((t.link i n k).node j).next = (t.node j).next := by
  rw [link_node hin, if_neg hjn, if_neg hji]

theorem link_next_self (hin : i ≠ n) : ((t.link i n k).node i).next = some n := by
  rw [link_node hin, if_neg hin, if_pos rfl]

theorem link_next_new (hin : i ≠ n) : ((t.link i n k).node n).next = (t.node i).next := by
  rw [link_node hin, if_pos rfl]

theorem link_key (hin : i ≠ n) (j : ℕ) :
    ((t.link i n k).node j).key = if j = n then some k else (t.node j).key := by
  rw [link_node hin]
  split_ifs with hn hi
  · rfl
  · rw [hi]
  · rfl

theorem link_val (hin : i ≠ n) (j : ℕ) : ((t.link i n k).node j).val = (t.node j).val := by
  rw [link_node hin]
  split_ifs with hn hi
  · rw [hn]
  · rw [hi]
  · rfl

/-- What comes after what, with the new place between `i` and its successor. -/
theorem Good.link_Next (hg : Good mp t) (hin : i ≠ n) (hn : (t.node n).key = none) {a b : ℕ} :
    (t.link i n k).Next a b ↔
      a = i ∧ b = n ∨ a = n ∧ t.Next i b ∨ a ≠ i ∧ t.Next a b := by
  by_cases han : a = n
  · subst han
    rw [Next, link_next_new hin]
    exact ⟨fun h => Or.inr (Or.inl ⟨rfl, h⟩), fun h => h.elim (fun h => absurd h.1.symm hin)
      fun h => h.elim And.right fun h => absurd h.2 (hg.not_next_of_key_eq_none hn b)⟩
  · by_cases hai : a = i
    · subst hai
      rw [Next, link_next_self hin]
      exact ⟨fun h => Or.inl ⟨rfl, (Option.some.inj h).symm⟩, fun h => h.elim (fun h => by rw [h.2])
        fun h => h.elim (fun h => absurd h.1 han) fun h => absurd rfl h.1⟩
    · rw [Next, link_next_of_ne hin han hai]
      exact ⟨fun h => Or.inr (Or.inr ⟨hai, h⟩), fun h => h.elim (fun h => absurd h.1 hai)
        fun h => h.elim (fun h => absurd h.1 han) And.right⟩

/-- What led to a place leads to it still. -/
theorem Good.link_reach (hg : Good mp t) (hin : i ≠ n) (hn : (t.node n).key = none) {a b : ℕ}
    (h : ReflTransGen t.Next a b) : ReflTransGen (t.link i n k).Next a b := by
  induction h with
  | refl => exact .refl
  | @tail b c _ hbc ih =>
    by_cases hbi : b = i
    · subst hbi
      have h₁ : (t.link b n k).Next b n := (hg.link_Next hin hn).2 (Or.inl ⟨rfl, rfl⟩)
      exact (ih.tail h₁).tail ((hg.link_Next hin hn).2 (Or.inr (Or.inl ⟨rfl, hbc⟩)))
    · exact ih.tail ((hg.link_Next hin hn).2 (Or.inr (Or.inr ⟨hbi, hbc⟩)))

theorem Good.link_ends (hg : Good mp t) (hin : i ≠ n) (hn : (t.node n).key = none) :
    ∃ rank : ℕ → ℕ, ∀ a b, (t.link i n k).Next a b → rank b < rank a := by
  obtain ⟨rank, hrank⟩ := hg.ends
  refine ⟨fun a => if a = n then 2 * rank i + 1 else 2 * rank a + 2, fun a b hab => ?_⟩
  have hnb : ∀ {a b}, t.Next a b → b ≠ n := fun h he => hg.next_key _ _ h (he ▸ hn)
  obtain ⟨rfl, rfl⟩ | ⟨rfl, h⟩ | ⟨-, h⟩ := (hg.link_Next hin hn).1 hab
  · simp only [if_true, if_neg hin]
    omega
  · simp only [if_true, if_neg (hnb h)]
    have := hrank i b h
    omega
  · have := hrank a b h
    have han : a ≠ n := fun he => hg.not_next_of_key_eq_none (he ▸ hn) b h
    simp only [if_neg (hnb h), if_neg han]
    omega

/-- **A place behind the first** of the chain. -/
theorem Good.link (hg : Good mp t) (hk : ∀ i, (t.node i).key ≠ some k) {k' : K}
    (hi : (t.node (mp k)).key = some k') (hk' : mp k' = mp k) (hn : (t.node n).key = none)
    (hlt : n < t.size) (hf : ∀ j, n < j → j < t.size → (t.node j).key ≠ none) :
    Placed mp t k ({ t with lastfree := n }.link (mp k) n k) n := by
  have hin : mp k ≠ n := fun h => by rw [h, hn] at hi; exact nomatch hi
  set t' : Scatter K V := { t with lastfree := n }.link (mp k) n k with ht'
  have hg' : Good mp { t with lastfree := n } :=
    ⟨hg.mp_lt, hg.outside, hg.blank, hg.next_key, hg.next_inj, hg.ends, hg.home, hg.reach, hg.distinct⟩
  have hkey : ∀ j, (t'.node j).key = if j = n then some k else (t.node j).key := link_key hin
  have hval : ∀ j, (t'.node j).val = (t.node j).val := link_val hin
  have hnext : ∀ {a b}, t'.Next a b ↔
      a = mp k ∧ b = n ∨ a = n ∧ t.Next (mp k) b ∨ a ≠ mp k ∧ t.Next a b := hg'.link_Next hin hn
  have hnval : (t.node n).val = none := by rw [hg.blank n hn]
  have hkeys : ∀ j k₂, (t'.node j).key = some k₂ →
      j = n ∧ k₂ = k ∨ j ≠ n ∧ (t.node j).key = some k₂ := by
    intro j k₂ h
    rw [hkey] at h
    split_ifs at h with hj
    · exact Or.inl ⟨hj, (Option.some.inj h).symm⟩
    · exact Or.inr ⟨hj, h⟩
  have hold : ∀ {j k₂}, (t.node j).key = some k₂ → (t'.node j).key = some k₂ := by
    intro j k₂ h
    rw [hkey, if_neg fun hj => ?_, h]
    rw [hj, hn] at h
    exact nomatch h
  have hne : ∀ {j}, (t.node j).key ≠ none → (t'.node j).key ≠ none := by
    intro j h
    obtain ⟨k₂, hk₂⟩ := Option.ne_none_iff_exists'.1 h
    rw [hold hk₂]
    exact nofun
  refine ⟨?_, ?_, rfl, by rw [hkey, if_pos rfl], by rw [hval, hnval], ?_, ?_, ?_⟩
  · refine ⟨hg.mp_lt, ?_, ?_, ?_, ?_, hg'.link_ends hin hn, ?_, ?_, ?_⟩
    · intro j hj
      have hjn : j ≠ n := fun h => absurd hlt (h ▸ hj).not_gt
      have hjm : j ≠ mp k := fun h => absurd (hg.mp_lt k) (h ▸ hj).not_gt
      rw [ht', link_node hin, if_neg hjn, if_neg hjm]
      exact hg.outside j hj
    · intro j hj
      rw [hkey] at hj
      split_ifs at hj with h
      have hjm : j ≠ mp k := fun he => by rw [he, hi] at hj; exact nomatch hj
      rw [ht', link_node hin, if_neg h, if_neg hjm]
      exact hg.blank j hj
    · intro a b hab
      obtain ⟨-, rfl⟩ | ⟨-, h⟩ | ⟨-, h⟩ := hnext.1 hab
      · rw [hkey, if_pos rfl]
        exact nofun
      · exact hne (hg.next_key _ _ h)
      · exact hne (hg.next_key _ _ h)
    · have hnn : ∀ a, ¬ t.Next a n := fun a h => hg.next_key a n h hn
      intro a a' b ha ha'
      obtain ⟨rfl, rfl⟩ | ⟨rfl, h⟩ | ⟨hne, h⟩ := hnext.1 ha
      · obtain ⟨rfl, -⟩ | ⟨-, h'⟩ | ⟨-, h'⟩ := hnext.1 ha'
        · rfl
        · exact absurd h' (hnn _)
        · exact absurd h' (hnn _)
      · obtain ⟨-, rfl⟩ | ⟨rfl, -⟩ | ⟨hne', h'⟩ := hnext.1 ha'
        · exact absurd h (hnn _)
        · rfl
        · exact absurd (hg.next_inj _ _ _ h' h) hne'
      · obtain ⟨-, rfl⟩ | ⟨-, h'⟩ | ⟨-, h'⟩ := hnext.1 ha'
        · exact absurd h (hnn _)
        · exact absurd (hg.next_inj _ _ _ h h') hne
        · exact hg.next_inj _ _ _ h h'
    · intro j k₂ hj
      obtain ⟨-, rfl⟩ | ⟨-, hj⟩ := hkeys j k₂ hj
      · exact ⟨k', hold hi, hk'⟩
      · obtain ⟨k₃, hk₃, hmp⟩ := hg.home j k₂ hj
        exact ⟨k₃, hold hk₃, hmp⟩
    · intro j k₂ hj
      obtain ⟨rfl, rfl⟩ | ⟨-, hj⟩ := hkeys j k₂ hj
      · exact .single (hnext.2 (Or.inl ⟨rfl, rfl⟩))
      · exact hg'.link_reach hin hn (hg.reach j k₂ hj)
    · intro j j' k₂ hj hj'
      obtain ⟨rfl, rfl⟩ | ⟨-, h⟩ := hkeys j k₂ hj
      · obtain ⟨rfl, -⟩ | ⟨-, h'⟩ := hkeys j' k₂ hj'
        · rfl
        · exact absurd h' (hk j')
      · obtain ⟨-, rfl⟩ | ⟨-, h'⟩ := hkeys j' k₂ hj'
        · exact absurd h (hk j)
        · exact hg.distinct j j' k₂ h h'
  · refine ⟨hlt.le, fun j hle hjlt => ?_⟩
    obtain rfl | hjn := (show n ≤ j from hle).eq_or_lt
    · rw [hkey, if_pos rfl]
      exact nofun
    · exact hne (hf j hjn hjlt)
  · intro k₂ v
    constructor
    · rintro ⟨j, hj, hv⟩
      rw [hval] at hv
      obtain ⟨rfl, -⟩ | ⟨-, hj⟩ := hkeys j k₂ hj
      · rw [hnval] at hv
        exact nomatch hv
      · exact ⟨j, hj, hv⟩
    · rintro ⟨j, hj, hv⟩
      exact ⟨j, hold hj, by rw [hval, hv]⟩
  · intro j k₂ h
    obtain ⟨-, rfl⟩ | ⟨-, h⟩ := hkeys j k₂ h
    · exact Or.inl rfl
    · exact Or.inr ⟨j, h⟩
  · refine used_card_le_succ rfl (n := n) fun j hj h => ?_
    rwa [hkey, if_neg hj] at h

end Link

section Move

variable {p i n : ℕ}

theorem move_node (hpi : p ≠ i) (hin : i ≠ n) (k : K) (j : ℕ) :
    (t.move p i n k).node j =
      if j = i then ⟨some k, none, none⟩
      else if j = n then t.node i
      else if j = p then { t.node p with next := some n } else t.node j := by
  simp only [move, put_node, if_true, if_neg hin, if_neg hpi.symm]
  split_ifs <;> rfl

/-- What comes after what, with the new place where `i` was. -/
theorem Good.move_Next (hg : Good mp t) (hpi : p ≠ i) (hpn : p ≠ n) (hin : i ≠ n)
    (hn : (t.node n).key = none) {a b : ℕ} :
    (t.move p i n k).Next a b ↔
      a = p ∧ b = n ∨ a = n ∧ t.Next i b ∨ a ≠ p ∧ a ≠ i ∧ t.Next a b := by
  rw [Next, move_node hpi hin]
  split_ifs with hai han hap
  · subst hai
    exact ⟨False.elim, fun h => h.elim (fun h => absurd h.1.symm hpi)
      fun h => h.elim (fun h => absurd h.1 hin) fun h => absurd rfl h.2.1⟩
  · subst han
    exact ⟨fun h => Or.inr (Or.inl ⟨rfl, h⟩), fun h => h.elim (fun h => absurd h.1.symm hpn)
      fun h => h.elim And.right fun h => absurd h.2.2 (hg.not_next_of_key_eq_none hn b)⟩
  · subst hap
    exact ⟨fun h => Or.inl ⟨rfl, (Option.some.inj h).symm⟩, fun h => h.elim (fun h => by rw [h.2])
      fun h => h.elim (fun h => absurd h.1 hpn) fun h => absurd rfl h.1⟩
  · exact ⟨fun h => Or.inr (Or.inr ⟨hap, hai, h⟩), fun h => h.elim (fun h => absurd h.1 hap)
      fun h => h.elim (fun h => absurd h.1 han) fun h => h.2.2⟩

/-- What led to a place leads to it still, and what led to `i` leads to the place it moved to. -/
theorem Good.move_reach (hg : Good mp t) (hp : t.Next p i) (hpi : p ≠ i) (hpn : p ≠ n) (hin : i ≠ n)
    (hn : (t.node n).key = none) {a b : ℕ} (hai : a ≠ i) (h : ReflTransGen t.Next a b) :
    ReflTransGen (t.move p i n k).Next a (if b = i then n else b) := by
  have hnext : ∀ {a b}, (t.move p i n k).Next a b ↔
      a = p ∧ b = n ∨ a = n ∧ t.Next i b ∨ a ≠ p ∧ a ≠ i ∧ t.Next a b :=
    hg.move_Next hpi hpn hin hn
  induction h with
  | refl => rw [if_neg hai]
  | @tail b c hab hbc ih =>
    by_cases hbi : b = i
    · subst hbi
      rw [if_pos rfl] at ih
      rw [if_neg fun hc => hg.not_reach (hc ▸ hbc) .refl]
      exact ih.tail (hnext.2 (Or.inr (Or.inl ⟨rfl, hbc⟩)))
    · rw [if_neg hbi] at ih
      split_ifs with hci
      · subst hci
        obtain rfl := hg.next_inj b p c hbc hp
        exact ih.tail (hnext.2 (Or.inl ⟨rfl, rfl⟩))
      · have hbp : b ≠ p := by
          rintro rfl
          exact hci (Option.some.inj (hbc.symm.trans hp))
        exact ih.tail (hnext.2 (Or.inr (Or.inr ⟨hbp, hbi, hbc⟩)))

theorem Good.move_ends (hg : Good mp t) (hp : t.Next p i) (hpi : p ≠ i) (hpn : p ≠ n) (hin : i ≠ n)
    (hn : (t.node n).key = none) :
    ∃ rank : ℕ → ℕ, ∀ a b, (t.move p i n k).Next a b → rank b < rank a := by
  obtain ⟨rank, hrank⟩ := hg.ends
  refine ⟨fun a => if a = n then rank i else rank a, fun a b hab => ?_⟩
  have hnb : ∀ {a b}, t.Next a b → b ≠ n := fun h he => hg.next_key _ _ h (he ▸ hn)
  obtain ⟨rfl, rfl⟩ | ⟨rfl, h⟩ | ⟨-, -, h⟩ := (hg.move_Next hpi hpn hin hn).1 hab
  · simp only [if_true, if_neg hpn]
    exact hrank _ _ hp
  · simp only [if_true, if_neg (hnb h)]
    exact hrank _ _ h
  · have han : a ≠ n := fun he => hg.not_next_of_key_eq_none (he ▸ hn) b h
    simp only [if_neg (hnb h), if_neg han]
    exact hrank _ _ h

/-- **Room for the new key**: the other one goes to the free place, and its chain with it. -/
theorem Good.move (hg : Good mp t) (hk : ∀ i, (t.node i).key ≠ some k) {k' : K}
    (hi : (t.node (mp k)).key = some k') (hk' : mp k' ≠ mp k) (hp : t.Next p (mp k))
    (hn : (t.node n).key = none) (hlt : n < t.size)
    (hf : ∀ j, n < j → j < t.size → (t.node j).key ≠ none) :
    Placed mp t k ({ t with lastfree := n }.move p (mp k) n k) (mp k) := by
  have hin : mp k ≠ n := fun h => by rw [h, hn] at hi; exact nomatch hi
  have hpi : p ≠ mp k := fun h => hg.not_reach hp (h ▸ .refl)
  have hpn : p ≠ n := fun h => hg.not_next_of_key_eq_none hn (mp k) (h ▸ hp)
  set t' : Scatter K V := { t with lastfree := n }.move p (mp k) n k with ht'
  have hg' : Good mp { t with lastfree := n } :=
    ⟨hg.mp_lt, hg.outside, hg.blank, hg.next_key, hg.next_inj, hg.ends, hg.home, hg.reach, hg.distinct⟩
  have hnode : ∀ j, t'.node j = if j = mp k then ⟨some k, none, none⟩
      else if j = n then t.node (mp k)
      else if j = p then { t.node p with next := some n } else t.node j := move_node hpi hin k
  have hnext : ∀ {a b}, t'.Next a b ↔
      a = p ∧ b = n ∨ a = n ∧ t.Next (mp k) b ∨ a ≠ p ∧ a ≠ mp k ∧ t.Next a b :=
    hg'.move_Next hpi hpn hin hn
  have hkeys : ∀ j k₂, (t'.node j).key = some k₂ →
      j = mp k ∧ k₂ = k ∨ j = n ∧ (t.node (mp k)).key = some k₂ ∨
        j ≠ mp k ∧ j ≠ n ∧ (t.node j).key = some k₂ := by
    intro j k₂ h
    rw [hnode] at h
    split_ifs at h with h₁ h₂ h₃
    · exact Or.inl ⟨h₁, (Option.some.inj h).symm⟩
    · exact Or.inr (Or.inl ⟨h₂, h⟩)
    · exact Or.inr (Or.inr ⟨h₁, h₂, h₃ ▸ h⟩)
    · exact Or.inr (Or.inr ⟨h₁, h₂, h⟩)
  have hold : ∀ {j k₂}, j ≠ mp k → (t.node j).key = some k₂ →
      (t'.node j).key = some k₂ ∧ (t'.node j).val = (t.node j).val := by
    intro j k₂ hj h
    have hjn : j ≠ n := fun he => by rw [he, hn] at h; exact nomatch h
    rw [hnode, if_neg hj, if_neg hjn]
    split_ifs with hjp
    · exact ⟨hjp ▸ h, by rw [hjp]⟩
    · exact ⟨h, rfl⟩
  have hnew : t'.node n = t.node (mp k) := by rw [hnode, if_neg hin.symm, if_pos rfl]
  have hself : t'.node (mp k) = ⟨some k, none, none⟩ := by rw [hnode, if_pos rfl]
  have hne : ∀ {j}, (t.node j).key ≠ none → (t'.node j).key ≠ none := by
    intro j h
    obtain ⟨k₂, hk₂⟩ := Option.ne_none_iff_exists'.1 h
    by_cases hj : j = mp k
    · rw [hj, hself]
      exact nofun
    · rw [(hold hj hk₂).1]
      exact nofun
  have hhome : ∀ {j k₂}, (t.node j).key = some k₂ → mp k₂ ≠ mp k := by
    intro j k₂ h he
    obtain ⟨k₃, hk₃, hmp⟩ := hg.home j k₂ h
    rw [he, hi] at hk₃
    obtain rfl := Option.some.inj hk₃
    exact hk' (hmp.trans he)
  refine ⟨?_, ?_, rfl, by rw [hself], by rw [hself], ?_, ?_, ?_⟩
  · refine ⟨hg.mp_lt, ?_, ?_, ?_, ?_, hg'.move_ends hp hpi hpn hin hn, ?_, ?_, ?_⟩
    · intro j hj
      have hjn : j ≠ n := fun h => absurd hlt (h ▸ hj).not_gt
      have hjm : j ≠ mp k := fun h => absurd (hg.mp_lt k) (h ▸ hj).not_gt
      have hpt : (t.node p).key ≠ none := fun h => hg.not_next_of_key_eq_none h _ hp
      have hjp : j ≠ p := fun h => absurd (hg.lt_of_key hpt) (h ▸ hj).not_gt
      rw [hnode, if_neg hjm, if_neg hjn, if_neg hjp]
      exact hg.outside j hj
    · intro j hj
      rw [hnode] at hj ⊢
      split_ifs at hj ⊢ with h₁ h₂ h₃
      · rw [hi] at hj
        exact nomatch hj
      · exact absurd hp (hg.not_next_of_key_eq_none hj _)
      · exact hg.blank j hj
    · intro a b hab
      obtain ⟨-, rfl⟩ | ⟨-, h⟩ | ⟨-, -, h⟩ := hnext.1 hab
      · rw [hnew, hi]
        exact nofun
      · exact hne (hg.next_key _ _ h)
      · exact hne (hg.next_key _ _ h)
    · have hnn : ∀ a, ¬ t.Next a n := fun a h => hg.next_key a n h hn
      intro a a' b ha ha'
      obtain ⟨rfl, rfl⟩ | ⟨rfl, h⟩ | ⟨-, hne, h⟩ := hnext.1 ha
      · obtain ⟨rfl, -⟩ | ⟨-, h'⟩ | ⟨-, -, h'⟩ := hnext.1 ha'
        · rfl
        · exact absurd h' (hnn _)
        · exact absurd h' (hnn _)
      · obtain ⟨-, rfl⟩ | ⟨rfl, -⟩ | ⟨-, hne', h'⟩ := hnext.1 ha'
        · exact absurd h (hnn _)
        · rfl
        · exact absurd (hg.next_inj _ _ _ h' h) hne'
      · obtain ⟨-, rfl⟩ | ⟨-, h'⟩ | ⟨-, -, h'⟩ := hnext.1 ha'
        · exact absurd h (hnn _)
        · exact absurd (hg.next_inj _ _ _ h h') hne
        · exact hg.next_inj _ _ _ h h'
    · have hhome' : ∀ {j k₂}, (t.node j).key = some k₂ →
          ∃ k₃, (t'.node (mp k₂)).key = some k₃ ∧ mp k₃ = mp k₂ := by
        intro j k₂ h
        obtain ⟨k₃, hk₃, hmp⟩ := hg.home j k₂ h
        exact ⟨k₃, (hold (hhome h) hk₃).1, hmp⟩
      intro j k₂ hj
      obtain ⟨-, rfl⟩ | ⟨-, h⟩ | ⟨-, -, h⟩ := hkeys j k₂ hj
      · exact ⟨k₂, by rw [hself], rfl⟩
      · exact hhome' h
      · exact hhome' h
    · intro j k₂ hj
      obtain ⟨rfl, rfl⟩ | ⟨rfl, h⟩ | ⟨hjm, -, h⟩ := hkeys j k₂ hj
      · exact .refl
      · have hr := hg'.move_reach (k := k) hp hpi hpn hin hn (hhome h) (hg.reach _ _ h)
        rwa [if_pos rfl] at hr
      · have hr := hg'.move_reach (k := k) hp hpi hpn hin hn (hhome h) (hg.reach _ _ h)
        rwa [if_neg hjm] at hr
    · intro j j' k₂ hj hj'
      obtain ⟨rfl, rfl⟩ | ⟨rfl, h⟩ | ⟨hjm, hjn, h⟩ := hkeys j k₂ hj
      · obtain ⟨rfl, -⟩ | ⟨-, h'⟩ | ⟨-, -, h'⟩ := hkeys j' k₂ hj'
        · rfl
        · exact absurd h' (hk _)
        · exact absurd h' (hk _)
      · obtain ⟨-, rfl⟩ | ⟨rfl, -⟩ | ⟨hjm', -, h'⟩ := hkeys j' k₂ hj'
        · exact absurd h (hk _)
        · rfl
        · exact absurd (hg.distinct _ _ _ h' h) hjm'
      · obtain ⟨-, rfl⟩ | ⟨rfl, h'⟩ | ⟨-, -, h'⟩ := hkeys j' k₂ hj'
        · exact absurd h (hk _)
        · exact absurd (hg.distinct _ _ _ h h') hjm
        · exact hg.distinct _ _ _ h h'
  · refine ⟨hlt.le, fun j hle hjlt => ?_⟩
    obtain rfl | hjn := (show n ≤ j from hle).eq_or_lt
    · rw [hnew, hi]
      exact nofun
    · exact hne (hf j hjn hjlt)
  · intro k₂ v
    constructor
    · rintro ⟨j, hj, hv⟩
      obtain ⟨rfl, -⟩ | ⟨rfl, h⟩ | ⟨hjm, -, h⟩ := hkeys j k₂ hj
      · rw [hself] at hv
        exact nomatch hv
      · exact ⟨mp k, h, hnew ▸ hv⟩
      · exact ⟨j, h, (hold hjm h).2 ▸ hv⟩
    · rintro ⟨j, hj, hv⟩
      by_cases hjm : j = mp k
      · subst hjm
        exact ⟨n, hnew ▸ hj, hnew ▸ hv⟩
      · exact ⟨j, (hold hjm hj).1, by rw [(hold hjm hj).2, hv]⟩
  · intro j k₂ h
    obtain ⟨-, rfl⟩ | ⟨-, h⟩ | ⟨-, -, h⟩ := hkeys j k₂ h
    · exact Or.inl rfl
    · exact Or.inr ⟨_, h⟩
    · exact Or.inr ⟨_, h⟩
  · refine used_card_le_succ rfl (n := n) fun j hj h => ?_
    obtain ⟨k₂, hk₂⟩ := Option.ne_none_iff_exists'.1 h
    obtain ⟨rfl, -⟩ | ⟨rfl, -⟩ | ⟨-, -, h'⟩ := hkeys j k₂ hk₂
    · rw [hi]
      exact nofun
    · exact absurd rfl hj
    · rw [h']
      exact nofun

end Move

/-- **What an insertion comes to**: a place for the key, or a table in which every place has a key. -/
theorem insert_spec (hg : Good mp t) (hf : t.FreeBelow) (hk : ∀ i, (t.node i).key ≠ some k) :
    (∃ t' i, t.insert mp k = .placed t' i ∧ Placed mp t k t' i) ∨
      t.insert mp k = .full { t with lastfree := 0 } ∧ ∀ i, i < t.size → (t.node i).key ≠ none := by
  rw [Scatter.insert]
  split_ifs with hval
  · exact Or.inl ⟨_, _, rfl, hg.overwrite hf hk (Option.isNone_iff_eq_none.1 hval)⟩
  cases hn : t.freeBelow t.lastfree with
  | none =>
    refine Or.inr ⟨rfl, fun i hi => ?_⟩
    obtain hlt | hle := lt_or_ge i t.lastfree
    · exact freeBelow_eq_none hn i hlt
    · exact hf.keyed i hle hi
  | some n =>
    obtain ⟨hnlt, hnkey, habove⟩ := freeBelow_eq_some hn
    have hkey : (t.node (mp k)).key ≠ none := fun h => hval (by rw [hg.blank _ h]; rfl)
    obtain ⟨k', hk'⟩ := Option.ne_none_iff_exists'.1 hkey
    have hfree : ∀ j, n < j → j < t.size → (t.node j).key ≠ none := by
      intro j hnj hj
      obtain hlt | hle := lt_or_ge j t.lastfree
      · exact habove j hnj hlt
      · exact hf.keyed j hle hj
    have hlt : n < t.size := hnlt.trans_le hf.le
    simp only [hk']
    split_ifs with hmp
    · exact Or.inl ⟨_, _, rfl, hg.link hk hk' hmp hnkey hlt hfree⟩
    · -- the place before it is in the chain that its own hash begins
      have hr := hg.reach (mp k) k' hk'
      obtain h | ⟨p, hr, hp⟩ := hr.cases_tail
      · exact absurd h.symm hmp
      · have hprev : t.prevFrom (mp k) t.size (mp k') = some p :=
          hg.prevFrom_of_reach hp _ _ (hg.mp_lt k') (card_after_le t _) hr
        have hprev' : ({ t with lastfree := n } : Scatter K V).prevFrom (mp k) t.size (mp k') = some p := by
          rw [← hprev]
          exact prevFrom_congr _ _ _ _ rfl
        simp only [hprev']
        exact Or.inl ⟨_, _, rfl, hg.move hk hk' hmp hp hnkey hlt hfree⟩

end Scatter

end OsdCore
