import OsdCore.Rtos.Timer

/-!
# The timer table and the system's timers

`TimerState.Good` holds of every state that is reached, whatever handles the system returns: the timers that
exist are those in the table, but for one that could not be started, and their numbers differ.  There is a lemma
for each of the things that a step does; `OsdCore.Rtos.TimerMoves` puts them together.
-/

namespace OsdCore

/-- The timer that exists, but is not in the table. -/
def LuaCall.spare : LuaCall → Option ℕ
  | idle => none
  | scan _ _ _ => none
  | stopFirst _ _ => none
  | startSem _ _ => none
  | startError handle => some handle
  | stopSem _ => none

/-- What the Lua task has found out about the table. -/
def LuaCall.Clear (table : Fin MAX_LUA_TIMERS → LuaTimerParam) : LuaCall → Prop
  | idle => True
  | scan timerId _ index => ∀ i, i.val < index → TimerState.holds timerId (table i) = false
  | stopFirst _ _ => True
  | startSem timerId _ => ∀ i, TimerState.holds timerId (table i) = false
  | startError _ => True
  | stopSem _ => True

namespace TimerState

/-- **The invariant.** -/
structure Good (s : TimerState) : Prop where
  slot : ∀ i, (s.luaTimerParam i).hOsTimer ≠ 0 →
    ∃ t, s.os (s.luaTimerParam i).hOsTimer = some t ∧ t.run.timerId = (s.luaTimerParam i).luaTimerId
  alive : ∀ h t, s.os h = some t →
    h ≠ 0 ∧ ((∃ i, (s.luaTimerParam i).hOsTimer = h) ∨ s.lua.spare = some h)
  spare : ∀ h, s.lua.spare = some h → (∃ t, s.os h = some t) ∧ ∀ i, (s.luaTimerParam i).hOsTimer ≠ h
  handles : ∀ i j, (s.luaTimerParam i).hOsTimer ≠ 0 →
    (s.luaTimerParam i).hOsTimer = (s.luaTimerParam j).hOsTimer → i = j
  ids : ∀ i j, (s.luaTimerParam i).hOsTimer ≠ 0 → (s.luaTimerParam j).hOsTimer ≠ 0 →
    (s.luaTimerParam i).luaTimerId = (s.luaTimerParam j).luaTimerId → i = j
  clear : s.lua.Clear s.luaTimerParam
  serial_lt : ∀ h t, s.os h = some t → t.run.serial < s.created.length
  runs : ∀ h h' t t', s.os h = some t → s.os h' = some t' → t.run = t'.run → h = h'
  callback : ∀ c ∈ s.callbacks, c.handle ≠ 0

variable {s s' : TimerState} {timerId : ℤ} {i : Fin MAX_LUA_TIMERS}

/-! ### The table -/

@[simp] theorem holds_iff {slot : LuaTimerParam} :
    holds timerId slot = true ↔ slot.hOsTimer ≠ 0 ∧ slot.luaTimerId = timerId := by
  rw [holds, Bool.and_eq_true, decide_eq_true_eq, decide_eq_true_eq]
  rfl

theorem findSlot_some {p : LuaTimerParam → Bool} (h : s.findSlot p = some i) :
    p (s.luaTimerParam i) = true := by
  simpa using List.find?_some h

theorem findSlot_none {p : LuaTimerParam → Bool} (h : s.findSlot p = none) (i : Fin MAX_LUA_TIMERS) :
    p (s.luaTimerParam i) = false := by
  simpa using List.find?_eq_none.1 h i (List.mem_finRange i)

theorem slot_clearSlot (s : TimerState) (i j : Fin MAX_LUA_TIMERS) :
    (s.clearSlot i).luaTimerParam j =
      if j = i then { s.luaTimerParam i with hOsTimer := 0 } else s.luaTimerParam j :=
  Function.update_apply _ _ _ _

theorem os_clearSlot (s : TimerState) (i : Fin MAX_LUA_TIMERS) (h : ℕ) :
    (s.clearSlot i).os h = if h = (s.luaTimerParam i).hOsTimer then none else s.os h :=
  Function.update_apply _ _ _ _

/-- Whether the timer is stopped before it is deleted makes no difference. -/
theorem clearSlot_stopTimer (s : TimerState) (i : Fin MAX_LUA_TIMERS) :
    (s.stopTimer (s.luaTimerParam i).hOsTimer).clearSlot i = s.clearSlot i := by
  simp [stopTimer, clearSlot, deleteTimer]

theorem stopSection_eq (s : TimerState) (timerId : ℤ) :
    s.stopSection timerId = (s.findSlot (holds timerId)).elim s s.clearSlot := by
  unfold stopSection
  cases s.findSlot (holds timerId) with
  | none => rfl
  | some i => exact clearSlot_stopTimer s i

/-- What is free stays free. -/
theorem slot_of_clearSlot {j : Fin MAX_LUA_TIMERS}
    (hj : ((s.clearSlot i).luaTimerParam j).hOsTimer ≠ 0) :
    j ≠ i ∧ (s.clearSlot i).luaTimerParam j = s.luaTimerParam j := by
  rw [slot_clearSlot] at hj ⊢
  split_ifs at hj ⊢ with hji
  · exact absurd rfl hj
  · exact ⟨hji, rfl⟩

theorem clear_clearSlot {call : LuaCall} (h : call.Clear s.luaTimerParam) :
    call.Clear (s.clearSlot i).luaTimerParam := by
  have hholds : ∀ timerId j, holds timerId (s.luaTimerParam j) = false →
      holds timerId ((s.clearSlot i).luaTimerParam j) = false := by
    intro timerId j hj
    rw [Bool.eq_false_iff, Ne, holds_iff] at hj ⊢
    rintro ⟨hne, hid⟩
    have hslot := (slot_of_clearSlot hne).2
    rw [hslot] at hne hid
    exact hj ⟨hne, hid⟩
  cases call with
  | scan timerId _ index => exact fun j hj => hholds _ _ (h j hj)
  | startSem timerId _ => exact fun j => hholds _ _ (h j)
  | idle => trivial
  | stopFirst => trivial
  | startError => trivial
  | stopSem => trivial

/-! ### What the steps do -/

namespace Good

/-- **A timer is deleted** and its slot is free. -/
theorem clearSlot (h : s.Good) (hi : (s.luaTimerParam i).hOsTimer ≠ 0) : (s.clearSlot i).Good where
  slot j hj := by
    obtain ⟨hji, hslot⟩ := slot_of_clearSlot hj
    rw [hslot] at hj ⊢
    rw [os_clearSlot, if_neg fun heq => hji (h.handles j i hj heq)]
    exact h.slot j hj
  alive handle t ht := by
    rw [os_clearSlot] at ht
    split_ifs at ht with hne
    obtain ⟨hpos, htable | hspare⟩ := h.alive handle t ht
    · obtain ⟨j, hj⟩ := htable
      refine ⟨hpos, .inl ⟨j, ?_⟩⟩
      rw [slot_clearSlot, if_neg (by rintro rfl; exact hne hj.symm), hj]
    · exact ⟨hpos, .inr hspare⟩
  spare handle hspare := by
    obtain ⟨⟨t, ht⟩, hnot⟩ := h.spare handle hspare
    refine ⟨⟨t, by rw [os_clearSlot, if_neg (hnot i).symm, ht]⟩, fun j heq => ?_⟩
    have hj : ((s.clearSlot i).luaTimerParam j).hOsTimer ≠ 0 := by
      rw [heq]
      exact (h.alive handle t ht).1
    rw [(slot_of_clearSlot hj).2] at heq
    exact hnot j heq
  handles j k hj heq := by
    have hk : ((s.clearSlot i).luaTimerParam k).hOsTimer ≠ 0 := heq ▸ hj
    have hslot := (slot_of_clearSlot hj).2
    have hslot' := (slot_of_clearSlot hk).2
    rw [hslot] at hj heq
    rw [hslot'] at heq
    exact h.handles j k hj heq
  ids j k hj hk heq := by
    have hslot := (slot_of_clearSlot hj).2
    have hslot' := (slot_of_clearSlot hk).2
    rw [hslot] at hj heq
    rw [hslot'] at hk heq
    exact h.ids j k hj hk heq
  clear := clear_clearSlot h.clear
  serial_lt handle t ht := by
    rw [os_clearSlot] at ht
    split_ifs at ht
    exact h.serial_lt handle t ht
  runs handle handle' t t' ht ht' := by
    rw [os_clearSlot] at ht ht'
    split_ifs at ht ht'
    exact h.runs handle handle' t t' ht ht'
  callback := h.callback

/-- **The Lua task goes on.** -/
theorem withLua (h : s.Good) {call : LuaCall} (armed : ℤ → Option ℕ) (hspare : s.lua.spare = none)
    (hspare' : call.spare = none) (hclear : call.Clear s.luaTimerParam) :
    Good { s with lua := call, armed } where
  slot := h.slot
  alive handle t ht := by
    obtain ⟨hpos, htable⟩ := h.alive handle t ht
    refine ⟨hpos, ?_⟩
    rw [hspare] at htable
    rwa [hspare']
  spare handle heq := by
    rw [hspare'] at heq
    cases heq
  handles := h.handles
  ids := h.ids
  clear := hclear
  serial_lt := h.serial_lt
  runs := h.runs
  callback := h.callback

/-- The callbacks go on. -/
theorem withCallbacks (h : s.Good) {callbacks : List TimerCallback} (messages : List TimerRun)
    (hcallbacks : ∀ c ∈ callbacks, c.handle ≠ 0) : Good { s with callbacks, messages } :=
  ⟨h.slot, h.alive, h.spare, h.handles, h.ids, h.clear, h.serial_lt, h.runs, hcallbacks⟩

/-- **A timer expires.** -/
theorem expire (h : s.Good) {handle : ℕ} {t : OsTimer} (ht : s.os handle = some t)
    (armed : ℤ → Option ℕ) : Good { s with
      os := Function.update s.os handle (some { t with running := false })
      callbacks := s.callbacks ++ [{ handle, run := t.run, high := t.high }]
      armed } := by
  -- the timers and their numbers are the same
  have hback : ∀ h' t', Function.update s.os handle (some { t with running := false }) h' = some t' →
      ∃ t'', s.os h' = some t'' ∧ t''.run = t'.run := by
    intro h' t' ht'
    rcases update_eq_some ht' with ⟨rfl, heq⟩ | ⟨-, hold⟩
    · cases heq
      exact ⟨t, ht, rfl⟩
    · exact ⟨t', hold, rfl⟩
  have hforth : ∀ h' t', s.os h' = some t' →
      ∃ t'', Function.update s.os handle (some { t with running := false }) h' = some t'' ∧
        t''.run = t'.run := by
    intro h' t' ht'
    rw [Function.update_apply]
    split_ifs with heq
    · rw [heq, ht, Option.some.injEq] at ht'
      exact ⟨_, rfl, ht' ▸ rfl⟩
    · exact ⟨t', ht', rfl⟩
  refine ⟨?_, ?_, ?_, h.handles, h.ids, h.clear, ?_, ?_, ?_⟩
  · intro i hi
    obtain ⟨t', ht', hid⟩ := h.slot i hi
    obtain ⟨t'', ht'', hrun⟩ := hforth _ _ ht'
    exact ⟨t'', ht'', by rw [hrun, hid]⟩
  · intro h' t' ht'
    obtain ⟨t'', ht'', -⟩ := hback _ _ ht'
    exact h.alive h' t'' ht''
  · intro h' hspare
    obtain ⟨⟨t', ht'⟩, hnot⟩ := h.spare h' hspare
    obtain ⟨t'', ht'', -⟩ := hforth _ _ ht'
    exact ⟨⟨t'', ht''⟩, hnot⟩
  · intro h' t' ht'
    obtain ⟨t'', ht'', hrun⟩ := hback _ _ ht'
    exact hrun ▸ h.serial_lt h' t'' ht''
  · intro h₁ h₂ t₁ t₂ ht₁ ht₂ hrun
    obtain ⟨t₁', ht₁', hrun₁⟩ := hback _ _ ht₁
    obtain ⟨t₂', ht₂', hrun₂⟩ := hback _ _ ht₂
    exact h.runs _ _ _ _ ht₁' ht₂' (by rw [hrun₁, hrun₂, hrun])
  · intro c hc
    rcases List.mem_append.1 hc with hold | hnew
    · exact h.callback c hold
    · rw [List.mem_singleton] at hnew
      rw [hnew]
      exact (h.alive handle t ht).1

/-- **A timer that could not be started is deleted.** -/
theorem startError (h : s.Good) {handle : ℕ} (hlua : s.lua = .startError handle) :
    Good { s.deleteTimer handle with lua := .idle } := by
  have hos : ∀ h' t', Function.update s.os handle none h' = some t' → h' ≠ handle ∧ s.os h' = some t' := by
    intro h' t' ht'
    rcases update_eq_some ht' with ⟨-, hnone⟩ | hold
    · cases hnone
    · exact hold
  obtain ⟨-, hnot⟩ := h.spare handle (by rw [hlua]; rfl)
  refine ⟨?_, ?_, nofun, h.handles, h.ids, trivial, ?_, ?_, h.callback⟩
  · intro i hi
    obtain ⟨t, ht, hid⟩ := h.slot i hi
    refine ⟨t, ?_, hid⟩
    rw [← ht]
    exact Function.update_of_ne (hnot i) none s.os
  · intro h' t' ht'
    obtain ⟨hne, hold⟩ := hos h' t' ht'
    obtain ⟨hpos, htable | hspare⟩ := h.alive h' t' hold
    · exact ⟨hpos, .inl htable⟩
    · rw [hlua, LuaCall.spare, Option.some.injEq] at hspare
      exact absurd hspare.symm hne
  · intro h' t' ht'
    exact h.serial_lt h' t' (hos h' t' ht').2
  · intro h₁ h₂ t₁ t₂ ht₁ ht₂
    exact h.runs h₁ h₂ t₁ t₂ (hos _ _ ht₁).2 (hos _ _ ht₂).2

/-- **A timer is created**; it is not in the table yet. -/
theorem create (h : s.Good) {handle : ℕ} {t : OsTimer} (hspare : s.lua.spare = none) (hpos : handle ≠ 0)
    (hfree : s.os handle = none) (hserial : t.run.serial = s.created.length) : Good { s with
      os := Function.update s.os handle (some t)
      created := s.created ++ [handle]
      lua := .startError handle } := by
  have hold : ∀ h' t', s.os h' = some t' → Function.update s.os handle (some t) h' = some t' := by
    intro h' t' ht'
    rw [Function.update_of_ne (by rintro rfl; rw [hfree] at ht'; cases ht'), ht']
  have hcases : ∀ h' t', Function.update s.os handle (some t) h' = some t' →
      (h' = handle ∧ t' = t) ∨ s.os h' = some t' := by
    intro h' t' ht'
    rcases update_eq_some ht' with ⟨rfl, heq⟩ | ⟨-, hold⟩
    · exact .inl ⟨rfl, (Option.some.inj heq).symm⟩
    · exact .inr hold
  have hlt : ∀ h' t', s.os h' = some t' → t'.run ≠ t.run := by
    intro h' t' ht' hrun
    have hserial' := h.serial_lt h' t' ht'
    rw [hrun, hserial] at hserial'
    exact lt_irrefl _ hserial'
  refine ⟨?_, ?_, ?_, h.handles, h.ids, trivial, ?_, ?_, h.callback⟩
  · intro i hi
    obtain ⟨t', ht', hid⟩ := h.slot i hi
    exact ⟨t', hold _ _ ht', hid⟩
  · intro h' t' ht'
    rcases hcases h' t' ht' with ⟨rfl, -⟩ | ht''
    · exact ⟨hpos, .inr rfl⟩
    · obtain ⟨hpos', htable | hspare'⟩ := h.alive h' t' ht''
      · exact ⟨hpos', .inl htable⟩
      · rw [hspare] at hspare'
        cases hspare'
  · intro h' hspare'
    rw [LuaCall.spare, Option.some.injEq] at hspare'
    subst hspare'
    refine ⟨⟨t, Function.update_self _ _ _⟩, fun i hi => ?_⟩
    obtain ⟨t', ht', -⟩ := h.slot i (hi ▸ hpos)
    rw [hi, hfree] at ht'
    cases ht'
  · intro h' t' ht'
    simp only [List.length_append, List.length_singleton]
    rcases hcases h' t' ht' with ⟨-, rfl⟩ | ht''
    · omega
    · exact (h.serial_lt h' t' ht'').trans (Nat.lt_succ_self _)
  · intro h₁ h₂ t₁ t₂ ht₁ ht₂ hrun
    rcases hcases h₁ t₁ ht₁ with ⟨rfl, rfl⟩ | hold₁ <;> rcases hcases h₂ t₂ ht₂ with ⟨rfl, rfl⟩ | hold₂
    · rfl
    · exact absurd hrun.symm (hlt _ _ hold₂)
    · exact absurd hrun (hlt _ _ hold₁)
    · exact h.runs _ _ _ _ hold₁ hold₂ hrun

/-- **It gets a free slot.** -/
theorem enter (h : s.Good) {handle : ℕ} {t : OsTimer} (hlua : s.lua = .startError handle)
    (ht : s.os handle = some t) (hid : t.run.timerId = timerId) (hfree : (s.luaTimerParam i).hOsTimer = 0)
    (hclear : ∀ j, holds timerId (s.luaTimerParam j) = false) (started : List TimerRun)
    (armed : ℤ → Option ℕ) : Good { s with
      luaTimerParam := Function.update s.luaTimerParam i { hOsTimer := handle, luaTimerId := timerId }
      lua := .idle
      started
      armed } := by
  obtain ⟨-, hnot⟩ := h.spare handle (by rw [hlua]; rfl)
  have hpos := (h.alive handle t ht).1
  have hother : ∀ j, (s.luaTimerParam j).hOsTimer ≠ 0 → (s.luaTimerParam j).luaTimerId ≠ timerId := by
    intro j hj heq
    exact absurd (holds_iff.2 ⟨hj, heq⟩) (by rw [hclear j]; exact Bool.false_ne_true)
  -- a slot is the new one, or what it was
  have hslot : ∀ j, (j = i ∧ Function.update s.luaTimerParam i ⟨handle, timerId⟩ j = ⟨handle, timerId⟩) ∨
      (j ≠ i ∧ Function.update s.luaTimerParam i ⟨handle, timerId⟩ j = s.luaTimerParam j) := by
    intro j
    rcases eq_or_ne j i with rfl | hne
    · exact .inl ⟨rfl, Function.update_self _ _ _⟩
    · exact .inr ⟨hne, Function.update_of_ne hne _ _⟩
  refine ⟨?_, ?_, nofun, ?_, ?_, trivial, h.serial_lt, h.runs, h.callback⟩
  · intro j hj
    simp only at hj ⊢
    rcases hslot j with ⟨-, hnew⟩ | ⟨-, hold⟩
    · rw [hnew]
      exact ⟨t, ht, hid⟩
    · rw [hold] at hj ⊢
      exact h.slot j hj
  · intro h' t' ht'
    obtain ⟨hpos', ⟨j, hj⟩ | hspare⟩ := h.alive h' t' ht'
    · refine ⟨hpos', .inl ⟨j, ?_⟩⟩
      rcases hslot j with ⟨rfl, -⟩ | ⟨-, hold⟩
      · rw [hfree] at hj
        exact absurd hj.symm hpos'
      · simp only [hold, hj]
    · rw [hlua, LuaCall.spare, Option.some.injEq] at hspare
      refine ⟨hpos', .inl ⟨i, ?_⟩⟩
      simp only [Function.update_self, hspare]
  · intro j k hj heq
    simp only at hj heq
    rcases hslot j with ⟨rfl, hnew⟩ | ⟨-, hold⟩ <;> rcases hslot k with ⟨rfl, hnew'⟩ | ⟨-, hold'⟩
    · rfl
    · rw [hnew, hold'] at heq
      exact absurd heq.symm (hnot k)
    · rw [hold, hnew'] at heq
      exact absurd heq (hnot j)
    · rw [hold] at hj heq
      rw [hold'] at heq
      exact h.handles j k hj heq
  · intro j k hj hk heq
    simp only at hj hk heq
    rcases hslot j with ⟨rfl, hnew⟩ | ⟨-, hold⟩ <;> rcases hslot k with ⟨rfl, hnew'⟩ | ⟨-, hold'⟩
    · rfl
    · rw [hold'] at hk
      rw [hnew, hold'] at heq
      exact absurd heq.symm (hother k hk)
    · rw [hold] at hj
      rw [hold, hnew'] at heq
      exact absurd heq (hother j hj)
    · rw [hold] at hj heq
      rw [hold'] at hk heq
      exact h.ids j k hj hk heq

end Good

end TimerState

end OsdCore
