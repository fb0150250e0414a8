import OsdCore.Rtos.TimerTable

/-!
# The timer table, if handles are used again

A callback looks for its timer by the handle.  Between its message and the semaphore the Lua task may stop that
timer and start another one, which gets the same handle.

* `TimerState.Armed` : the invariant: a timer that has been started, and has neither been stopped or started
  again nor expired, runs and has its slot.
* `timers_kept` : so it is, as long as no callback finds a timer that runs under its handle.
-/

namespace OsdCore

namespace TimerState

variable {s s' : TimerState} {a : TimerAction}

/-- No timer is lost: one that has been started, and has neither been stopped or started again nor expired, is
in a slot, and the system's timer runs. -/
def NoneLost (s : TimerState) : Prop :=
  ∀ id n, s.armed id = some n → ∃ i t, (s.luaTimerParam i).hOsTimer ≠ 0 ∧
    (s.luaTimerParam i).luaTimerId = id ∧ s.os (s.luaTimerParam i).hOsTimer = some t ∧
      t.running = true ∧ t.run.serial = n

/-- A callback that takes the semaphore finds no timer that runs under its handle. -/
def SparesRunning (s : TimerState) : TimerAction → Prop
  | .callback index => ∀ c ∈ s.callbacks[index]?, ∀ i, (s.luaTimerParam i).hOsTimer = c.handle →
      ∀ t ∈ s.os c.handle, t.running = false
  | .start _ _ => True
  | .stop _ => True
  | .lua => True
  | .create _ _ => True
  | .expire _ => True
  | .send _ => True

instance (s : TimerState) : (a : TimerAction) → Decidable (s.SparesRunning a)
  | .callback index => inferInstanceAs (Decidable (∀ c ∈ s.callbacks[index]?, ∀ _, _ → ∀ t ∈ s.os c.handle, _))
  | .start _ _ => instDecidableTrue
  | .stop _ => instDecidableTrue
  | .lua => instDecidableTrue
  | .create _ _ => instDecidableTrue
  | .expire _ => instDecidableTrue
  | .send _ => instDecidableTrue

/-- **The invariant**: none is lost, and the one that the Lua task is about to start or to stop is none of
them. -/
structure Armed (s : TimerState) : Prop where
  kept : s.NoneLost
  call : ∀ id, s.lua.timerId = some id → s.armed id = none

namespace Armed

/-- **A slot is cleared**, and it is not that of a timer that is to be kept. -/
theorem clearSlot (h : s.Armed) (hgood : s.Good) {i : Fin MAX_LUA_TIMERS}
    (hi : ∀ n t, s.armed (s.luaTimerParam i).luaTimerId = some n →
      s.os (s.luaTimerParam i).hOsTimer = some t → t.running = false) : (s.clearSlot i).NoneLost := by
  intro id n harmed
  obtain ⟨j, t, hj, rfl, ht, hrunning, hserial⟩ := h.kept id n harmed
  have hji : j ≠ i := by
    rintro rfl
    rw [hi n t harmed ht] at hrunning
    cases hrunning
  have hslot : (s.clearSlot i).luaTimerParam j = s.luaTimerParam j := by
    rw [slot_clearSlot, if_neg hji]
  refine ⟨j, t, hslot ▸ hj, by rw [hslot], ?_, hrunning, hserial⟩
  rw [hslot, os_clearSlot, if_neg fun heq => hji (hgood.handles j i hj heq)]
  exact ht

/-- Another timer of the system changes. -/
theorem of_os (h : s.Armed) (handle : ℕ) {o : Option OsTimer}
    (hhandle : ∀ i t, (s.luaTimerParam i).hOsTimer = handle → s.os handle = some t → t.running = false)
    (htable : s'.luaTimerParam = s.luaTimerParam) (hos : s'.os = Function.update s.os handle o)
    (harmed : s'.armed = s.armed) : s'.NoneLost := by
  intro id n heq
  rw [harmed] at heq
  obtain ⟨i, t, hi, hid, ht, hrunning, hserial⟩ := h.kept id n heq
  refine ⟨i, t, htable ▸ hi, htable ▸ hid, ?_, hrunning, hserial⟩
  rw [htable, hos, Function.update_of_ne, ht]
  intro hsame
  rw [hhandle i t hsame (hsame ▸ ht)] at hrunning
  cases hrunning

/-- **A step** keeps it. -/
theorem next (h : s.Armed) (hgood : s.Good) (hok : s.SparesRunning a) (hs : timerStep s a = some s') :
    s'.Armed := by
  cases hgood.moves hs with
  | call call armed _ _ _ harmed hid =>
    refine ⟨fun id n heq => h.kept id n (harmed id n heq), fun id hcall => ?_⟩
    rcases hid id hcall with hnone | hsame
    · exact hnone
    · refine Option.eq_none_iff_forall_ne_some.2 fun n heq => ?_
      have hbefore := harmed id n heq
      rw [h.call id hsame] at hbefore
      cases hbefore
  | stop call i _ _ _ hid _ hid' =>
    refine ⟨h.clearSlot hgood fun n t harmed => ?_, fun id hcall => h.call id (hid' id hcall)⟩
    rw [h.call _ hid] at harmed
    cases harmed
  | discard handle hlua =>
    obtain ⟨-, hnot⟩ := hgood.spare handle (by rw [hlua]; rfl)
    exact ⟨h.of_os handle (fun i _ heq => absurd heq (hnot i)) rfl rfl rfl, nofun⟩
  | fail handle t _ _ hfree =>
    refine ⟨h.of_os handle (fun i t' _ ht' => ?_) rfl rfl rfl, nofun⟩
    rw [hfree] at ht'
    cases ht'
  | start handle t i _ hpos hfree _ hrunning hi =>
    refine ⟨fun id n heq => ?_, nofun⟩
    rcases update_eq_some heq with ⟨hid, hnew⟩ | ⟨-, hold⟩
    · -- the new one
      refine ⟨i, t, ?_, ?_, ?_, hrunning, Option.some.inj hnew⟩
      · simpa only [Function.update_self] using hpos
      · simp only [Function.update_self, hid]
      · simp only [Function.update_self]
    · obtain ⟨j, t', hj, hid', ht', hrest⟩ := h.kept id n hold
      have hji : j ≠ i := by
        rintro rfl
        exact hj hi
      have hne : (s.luaTimerParam j).hOsTimer ≠ handle := by
        rintro hsame
        rw [hsame, hfree] at ht'
        cases ht'
      refine ⟨j, t', ?_, ?_, ?_, hrest⟩ <;> simp only [Function.update_of_ne hji]
      · exact hj
      · exact hid'
      · rw [Function.update_of_ne hne, ht']
  | expire handle t ht hrunning =>
    -- what is still armed was armed before, and is not this timer
    have harmed : ∀ id n, (if s.armed t.run.timerId = some t.run.serial then
        Function.update s.armed t.run.timerId none else s.armed) id = some n →
        s.armed id = some n ∧ ¬ (id = t.run.timerId ∧ n = t.run.serial) := by
      intro id n heq
      split_ifs at heq with hthis
      · rcases update_eq_some heq with ⟨-, hnone⟩ | ⟨hid, hold⟩
        · cases hnone
        · exact ⟨hold, fun hboth => hid hboth.1⟩
      · refine ⟨heq, ?_⟩
        rintro ⟨rfl, rfl⟩
        exact hthis heq
    refine ⟨?_, ?_⟩
    · intro id n heq
      obtain ⟨hbefore, hother⟩ := harmed id n heq
      obtain ⟨j, t', hj, hid', ht', hrunning', hserial⟩ := h.kept id n hbefore
      refine ⟨j, t', hj, hid', ?_, hrunning', hserial⟩
      simp only
      rw [Function.update_of_ne, ht']
      intro hsame
      rw [hsame, ht, Option.some.injEq] at ht'
      subst ht'
      obtain ⟨t', ht', hid''⟩ := hgood.slot j hj
      rw [hsame, ht, Option.some.injEq] at ht'
      subst ht'
      exact hother ⟨hid'.symm.trans hid''.symm, hserial.symm⟩
    · intro id hcall
      refine Option.eq_none_iff_forall_ne_some.2 fun n heq => ?_
      have hbefore := (harmed id n heq).1
      rw [h.call id hcall] at hbefore
      cases hbefore
  | send index c => exact ⟨h.kept, h.call⟩
  | pass index c => exact ⟨h.kept, h.call⟩
  | clear index c i hc hi =>
    have harmed : Armed { s with callbacks := s.callbacks.eraseIdx index } := ⟨h.kept, h.call⟩
    have hgood' : Good { s with callbacks := s.callbacks.eraseIdx index } :=
      hgood.withCallbacks s.messages fun d hd => hgood.callback d (List.mem_of_mem_eraseIdx hd)
    refine ⟨harmed.clearSlot hgood' fun n t _ ht => ?_, h.call⟩
    exact hok c hc i hi t (hi ▸ ht)

end Armed

end TimerState

/-- **No timer is lost** in a run in which no callback finds a timer that runs under its handle. -/
theorem timers_kept {s : TimerState} (h : Steps timerStep TimerState.SparesRunning {} s) : s.NoneLost := by
  obtain ⟨-, harmed⟩ : s.Good ∧ s.Armed := by
    refine h.invariant (I := fun s => s.Good ∧ s.Armed) ⟨TimerState.good_init, nofun, nofun⟩ ?_
    rintro s a s' ⟨hgood, harmed⟩ hok hs
    exact ⟨hgood.next hs, harmed.next hgood hok hs⟩
  exact harmed.kept

/-- A handle that is used again, after the callback. -/
theorem timers_kept_again : ∃ s : TimerState, s.armed 8 = some 1 ∧ s.NoneLost := by
  have hrun : (replay timerStep TimerState.SparesRunning
      (startTrace 7 ++ [.create 1 true, .expire 1, .send 0, .callback 0] ++
        startTrace 8 ++ [.create 1 true]) {}).any (fun s => s.armed 8 = some 1) = true := by
    decide +kernel
  obtain ⟨s, hs, hp⟩ := exists_of_replay hrun
  exact ⟨s, of_decide_eq_true hp, timers_kept hs⟩

/-- Before the callback takes the semaphore, its timer is stopped and another one gets the handle, which the
callback deletes. -/
theorem not_timers_kept : ¬ ∀ s : TimerState, Steps timerStep (fun _ _ => True) {} s → s.NoneLost := by
  intro h
  have hrun : (replay timerStep (fun _ _ => True)
      (startTrace 7 ++ [.create 1 true, .expire 1, .send 0, .stop 7, .lua] ++
        startTrace 8 ++ [.create 1 true, .callback 0]) {}).any
      (fun s => s.armed 8 = some 1 && decide (∀ i, (s.luaTimerParam i).hOsTimer = 0)) = true := by
    decide +kernel
  obtain ⟨s, hs, hp⟩ := exists_of_replay hrun
  rw [Bool.and_eq_true, decide_eq_true_eq, decide_eq_true_eq] at hp
  obtain ⟨i, -, hi, -⟩ := h s hs 8 1 hp.1
  exact hi (hp.2 i)

end OsdCore
