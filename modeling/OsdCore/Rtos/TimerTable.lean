import Mathlib.Data.List.Nodup
import OsdCore.Rtos.TimerMoves

/-!
# The timer table, if handles are not used again

* `TimerState.Sends` : a timer that has been started sends one message at most, whatever the handles are.
* `TimerState.Fresh` : a handle that has been deleted is never seen again, if the system does not return one
  twice.
* `timers_consistent` : the table holds the timers that exist, their numbers differ, none is deleted twice,
  and there are no more messages than starts.
-/

namespace OsdCore

namespace TimerState

variable {s s' : TimerState} {a : TimerAction}

/-! ### Messages -/

/-- **Every message is of a start of its own**: so is every callback, and a timer that still runs has
neither. -/
structure Sends (s : TimerState) : Prop where
  started_lt : ∀ r ∈ s.started, r.serial < s.created.length
  messages_nodup : s.messages.Nodup
  messages_sub : ∀ r ∈ s.messages, r ∈ s.started
  callbacks_nodup : (s.callbacks.map (·.run)).Nodup
  callback : ∀ c ∈ s.callbacks, c.run ∈ s.started ∧ (c.sent = false → c.run ∉ s.messages)
  running : ∀ h t, s.os h = some t → t.running = true →
    t.run ∈ s.started ∧ t.run ∉ s.messages ∧ ∀ c ∈ s.callbacks, c.run ≠ t.run

namespace Sends

/-- Timers are deleted, and callbacks return. -/
theorem of_sub (h : s.Sends) (hstarted : s'.started = s.started) (hcreated : s'.created = s.created)
    (hmessages : s'.messages = s.messages) (hcallbacks : s'.callbacks.Sublist s.callbacks)
    (hos : ∀ h t, s'.os h = some t → s.os h = some t) : s'.Sends where
  started_lt := by
    rw [hstarted, hcreated]
    exact h.started_lt
  messages_nodup := hmessages ▸ h.messages_nodup
  messages_sub := by
    rw [hmessages, hstarted]
    exact h.messages_sub
  callbacks_nodup := h.callbacks_nodup.sublist (hcallbacks.map _)
  callback c hc := by
    rw [hmessages, hstarted]
    exact h.callback c (hcallbacks.subset hc)
  running handle t ht hrunning := by
    rw [hmessages, hstarted]
    obtain ⟨hstart, hmsg, hcall⟩ := h.running handle t (hos handle t ht) hrunning
    exact ⟨hstart, hmsg, fun c hc => hcall c (hcallbacks.subset hc)⟩

theorem os_clearSlot_sub {i : Fin MAX_LUA_TIMERS} {handle : ℕ} {t : OsTimer}
    (ht : (s.clearSlot i).os handle = some t) : s.os handle = some t := by
  rw [os_clearSlot] at ht
  split_ifs at ht
  exact ht

/-- A new timer has no number that was there before. -/
theorem notMem_started (h : s.Sends) {r : TimerRun} (hserial : r.serial = s.created.length) :
    r ∉ s.started := by
  intro hmem
  have hlt := h.started_lt r hmem
  omega

/-- The runs of the callbacks, when one of them sends its message. -/
theorem map_run_set {index : ℕ} {c : TimerCallback} (hc : s.callbacks[index]? = some c) :
    (s.callbacks.set index { c with sent := true }).map (·.run) = s.callbacks.map (·.run) := by
  obtain ⟨hlt, rfl⟩ := List.getElem?_eq_some_iff.1 hc
  refine List.ext_getElem (by simp) fun i hi hi' => ?_
  rw [List.getElem_map, List.getElem_map, List.getElem_set]
  split_ifs with heq
  · subst heq
    rfl
  · rfl

/-- **A step** keeps it. -/
theorem next (h : s.Sends) (hgood : s.Good) (hs : timerStep s a = some s') : s'.Sends := by
  cases hgood.moves hs with
  | call call armed => exact h.of_sub rfl rfl rfl (.refl _) fun _ _ => id
  | stop call i => exact h.of_sub rfl rfl rfl (.refl _) fun _ _ => os_clearSlot_sub
  | discard handle =>
    refine h.of_sub rfl rfl rfl (.refl _) fun h' t ht => ?_
    rcases update_eq_some ht with ⟨-, hnone⟩ | ⟨-, hold⟩
    · cases hnone
    · exact hold
  | fail handle t _ _ _ _ hstopped =>
    refine ⟨?_, h.messages_nodup, h.messages_sub, h.callbacks_nodup, h.callback, ?_⟩
    · intro r hr
      simp only [List.length_append, List.length_singleton]
      exact (h.started_lt r hr).trans (Nat.lt_succ_self _)
    · intro h' t' ht' hrunning
      rcases update_eq_some ht' with ⟨-, heq⟩ | ⟨-, hold⟩
      · cases heq
        rw [hstopped] at hrunning
        cases hrunning
      · exact h.running h' t' hold hrunning
  | start handle t i _ _ _ hserial =>
    have hnew := h.notMem_started hserial
    refine ⟨?_, h.messages_nodup, fun r hr => List.mem_append_left _ (h.messages_sub r hr),
      h.callbacks_nodup, fun c hc => ⟨List.mem_append_left _ (h.callback c hc).1, (h.callback c hc).2⟩,
      ?_⟩
    · intro r hr
      simp only [List.length_append, List.length_singleton]
      rcases List.mem_append.1 hr with hold | hlast
      · exact (h.started_lt r hold).trans (Nat.lt_succ_self _)
      · rw [List.mem_singleton] at hlast
        rw [hlast, hserial]
        exact Nat.lt_succ_self _
    · intro h' t' ht' hrunning
      rcases update_eq_some ht' with ⟨-, heq⟩ | ⟨-, hold⟩
      · cases heq
        exact ⟨List.mem_append_right _ (List.mem_singleton_self _), fun hmem => hnew (h.messages_sub _ hmem),
          fun c hc heq => hnew (heq ▸ (h.callback c hc).1)⟩
      · obtain ⟨hstart, hmsg, hcall⟩ := h.running h' t' hold hrunning
        exact ⟨List.mem_append_left _ hstart, hmsg, hcall⟩
  | expire handle t ht hrunning =>
    obtain ⟨hstart, hmsg, hcall⟩ := h.running handle t ht hrunning
    refine ⟨h.started_lt, h.messages_nodup, h.messages_sub, ?_, ?_, ?_⟩
    · rw [List.map_append, List.map_singleton]
      refine List.nodup_append.2 ⟨h.callbacks_nodup, List.nodup_singleton _, fun r hr r' hr' heq => ?_⟩
      obtain ⟨c, hc, rfl⟩ := List.mem_map.1 hr
      rw [List.mem_singleton] at hr'
      exact hcall c hc (heq.trans hr')
    · intro c hc
      rcases List.mem_append.1 hc with hold | hlast
      · exact h.callback c hold
      · rw [List.mem_singleton] at hlast
        rw [hlast]
        exact ⟨hstart, fun _ => hmsg⟩
    · intro h' t' ht' hrunning'
      rcases update_eq_some ht' with ⟨-, heq⟩ | ⟨hsame, hold⟩
      · cases heq
        cases hrunning'
      · obtain ⟨hstart', hmsg', hcall'⟩ := h.running h' t' hold hrunning'
        refine ⟨hstart', hmsg', fun c hc => ?_⟩
        rcases List.mem_append.1 hc with hbefore | hlast
        · exact hcall' c hbefore
        · rw [List.mem_singleton] at hlast
          rw [hlast]
          exact fun heq => hsame (hgood.runs _ _ _ _ hold ht heq.symm)
  | send index c hc hsent messages hmessages =>
    have hmem := List.mem_of_getElem? hc
    have hlt := (List.getElem?_eq_some_iff.1 hc).1
    have hnodup : ((s.callbacks.set index { c with sent := true }).map (·.run)).Nodup := by
      rw [map_run_set hc]
      exact h.callbacks_nodup
    have hset : { c with sent := true } ∈ s.callbacks.set index { c with sent := true } :=
      List.mem_set hlt _
    refine ⟨h.started_lt, ?_, ?_, hnodup, ?_, ?_⟩
    · exact hmessages.nodup_iff.2 (List.nodup_cons.2 ⟨(h.callback c hmem).2 hsent, h.messages_nodup⟩)
    · intro r hr
      rcases List.mem_cons.1 (hmessages.mem_iff.1 hr) with rfl | hold
      · exact (h.callback c hmem).1
      · exact h.messages_sub r hold
    · intro d hd
      rcases Good.mem_callbacks_set hd with rfl | hold
      · exact ⟨(h.callback c hmem).1, fun hunsent => by cases hunsent⟩
      · refine ⟨(h.callback d hold).1, fun hunsent hsend => ?_⟩
        rcases List.mem_cons.1 (hmessages.mem_iff.1 hsend) with heq | hmsg
        · -- it would be the one that has just sent
          rw [List.inj_on_of_nodup_map hnodup hd hset heq] at hunsent
          cases hunsent
        · exact (h.callback d hold).2 hunsent hmsg
    · intro h' t' ht' hrunning
      obtain ⟨hstart, hmsg, hcall⟩ := h.running h' t' ht' hrunning
      refine ⟨hstart, ?_, ?_⟩
      · intro hsend
        rcases List.mem_cons.1 (hmessages.mem_iff.1 hsend) with heq | hold
        · exact hcall c hmem heq.symm
        · exact hmsg hold
      · intro d hd
        rcases Good.mem_callbacks_set hd with rfl | hold
        · exact hcall c hmem
        · exact hcall d hold
  | pass index c => exact h.of_sub rfl rfl rfl (List.eraseIdx_sublist _ _) fun _ _ => id
  | clear index c i =>
    exact h.of_sub rfl rfl rfl (List.eraseIdx_sublist _ _) fun _ _ => os_clearSlot_sub

/-- There are no more messages than starts. -/
theorem count_le (h : s.Sends) (id : ℤ) :
    (s.messages.map (·.timerId)).count id ≤ (s.started.map (·.timerId)).count id := by
  have hsub : s.messages.Subperm s.started := List.subperm_of_subset h.messages_nodup h.messages_sub
  rw [List.count_eq_countP, List.count_eq_countP, List.countP_map, List.countP_map]
  exact List.Subperm.countP_le _ hsub

end Sends

/-! ### Deletions -/

/-- The system does not return a handle twice. -/
def FreshHandle (s : TimerState) : TimerAction → Prop
  | .create handle _ => handle ∉ s.created
  | .start _ _ => True
  | .stop _ => True
  | .lua => True
  | .expire _ => True
  | .send _ => True
  | .callback _ => True

instance (s : TimerState) : (a : TimerAction) → Decidable (s.FreshHandle a)
  | .create handle _ => inferInstanceAs (Decidable (handle ∉ s.created))
  | .start _ _ => instDecidableTrue
  | .stop _ => instDecidableTrue
  | .lua => instDecidableTrue
  | .expire _ => instDecidableTrue
  | .send _ => instDecidableTrue
  | .callback _ => instDecidableTrue

/-- **A handle is deleted once**, and is none of a timer after that. -/
structure Fresh (s : TimerState) : Prop where
  created : ∀ h t, s.os h = some t → h ∈ s.created
  deleted : ∀ h ∈ s.deleted, h ∈ s.created ∧ s.os h = none
  nodup : s.deleted.Nodup

namespace Fresh

/-- **A timer is deleted.** -/
theorem deleteTimer (h : s.Fresh) {handle : ℕ} {t : OsTimer} (ht : s.os handle = some t)
    (hos : s'.os = Function.update s.os handle none) (hdeleted : s'.deleted = s.deleted ++ [handle])
    (hcreated : s'.created = s.created) : s'.Fresh where
  created h' t' ht' := by
    rw [hos] at ht'
    rcases update_eq_some ht' with ⟨-, hnone⟩ | ⟨-, hold⟩
    · cases hnone
    · exact hcreated ▸ h.created h' t' hold
  deleted h' hmem := by
    rw [hcreated, hos, Function.update_apply]
    rw [hdeleted] at hmem
    rcases List.mem_append.1 hmem with hold | hlast
    · obtain ⟨hmem', hnone⟩ := h.deleted h' hold
      refine ⟨hmem', ?_⟩
      split_ifs
      · rfl
      · exact hnone
    · rw [List.mem_singleton] at hlast
      exact ⟨hlast ▸ h.created handle t ht, if_pos hlast⟩
  nodup := by
    rw [hdeleted]
    refine List.nodup_append.2 ⟨h.nodup, List.nodup_singleton _, fun h' hmem h'' hlast heq => ?_⟩
    rw [List.mem_singleton] at hlast
    rw [heq.trans hlast] at hmem
    rw [(h.deleted handle hmem).2] at ht
    cases ht

/-- A timer is created. -/
theorem create (h : s.Fresh) {handle : ℕ} {t : OsTimer} (hfresh : handle ∉ s.created)
    (hos : s'.os = Function.update s.os handle (some t)) (hdeleted : s'.deleted = s.deleted)
    (hcreated : s'.created = s.created ++ [handle]) : s'.Fresh where
  created h' t' ht' := by
    rw [hos] at ht'
    rw [hcreated]
    rcases update_eq_some ht' with ⟨rfl, -⟩ | ⟨-, hold⟩
    · exact List.mem_append_right _ (List.mem_singleton_self _)
    · exact List.mem_append_left _ (h.created h' t' hold)
  deleted h' hmem := by
    rw [hdeleted] at hmem
    obtain ⟨hmem', hnone⟩ := h.deleted h' hmem
    rw [hcreated, hos, Function.update_of_ne (by rintro rfl; exact hfresh hmem')]
    exact ⟨List.mem_append_left _ hmem', hnone⟩
  nodup := hdeleted ▸ h.nodup

/-- **A step** keeps it. -/
theorem next (h : s.Fresh) (hgood : s.Good) (hok : s.FreshHandle a) (hs : timerStep s a = some s') :
    s'.Fresh := by
  cases hgood.moves hs with
  | call call armed => exact ⟨h.created, h.deleted, h.nodup⟩
  | stop call i _ _ hi =>
    obtain ⟨t, ht, -⟩ := hgood.slot i hi
    exact h.deleteTimer ht rfl rfl rfl
  | discard handle hlua =>
    obtain ⟨⟨t, ht⟩, -⟩ := hgood.spare handle (by rw [hlua]; rfl)
    exact h.deleteTimer ht rfl rfl rfl
  | fail handle t => exact h.create hok rfl rfl rfl
  | start handle t i => exact h.create hok rfl rfl rfl
  | expire handle t ht =>
    refine ⟨?_, ?_, h.nodup⟩
    · intro h' t' ht'
      rcases update_eq_some ht' with ⟨rfl, -⟩ | ⟨-, hold⟩
      · exact h.created h' t ht
      · exact h.created h' t' hold
    · intro h' hmem
      obtain ⟨hmem', hnone⟩ := h.deleted h' hmem
      refine ⟨hmem', (Function.update_of_ne ?_ _ _).trans hnone⟩
      rintro rfl
      rw [hnone] at ht
      cases ht
  | send index c => exact ⟨h.created, h.deleted, h.nodup⟩
  | pass index c => exact ⟨h.created, h.deleted, h.nodup⟩
  | clear index c i hc hi =>
    have hne : (s.luaTimerParam i).hOsTimer ≠ 0 := by
      rw [hi]
      exact hgood.callback c (List.mem_of_getElem? hc)
    obtain ⟨t, ht, -⟩ := hgood.slot i hne
    exact h.deleteTimer ht rfl rfl rfl

end Fresh

end TimerState

/-- The table is consistent: while no call is going on, the timers that exist are those in the table; the
numbers in the table differ; no handle is deleted twice; and there are no more messages for a timer than
successful starts of it. -/
structure TimersConsistent (s : TimerState) : Prop where
  live : s.lua = .idle → ∀ h, (∃ t, s.os h = some t) ↔ h ≠ 0 ∧ ∃ i, (s.luaTimerParam i).hOsTimer = h
  ids : ∀ i j, (s.luaTimerParam i).hOsTimer ≠ 0 → (s.luaTimerParam j).hOsTimer ≠ 0 →
    (s.luaTimerParam i).luaTimerId = (s.luaTimerParam j).luaTimerId → i = j
  deleted : s.deleted.Nodup ∧ s.deleted ⊆ s.created
  messages : ∀ id, (s.messages.map (·.timerId)).count id ≤ (s.started.map (·.timerId)).count id

/-- **The timer table**, in every run in which the system returns no handle twice. -/
theorem timers_consistent {s : TimerState} (h : Steps timerStep TimerState.FreshHandle {} s) :
    TimersConsistent s := by
  obtain ⟨hgood, hsends, hfresh⟩ : s.Good ∧ s.Sends ∧ s.Fresh := by
    refine h.invariant (I := fun s => s.Good ∧ s.Sends ∧ s.Fresh) ⟨TimerState.good_init, ?_, ?_⟩ ?_
    · exact ⟨nofun, .nil, nofun, .nil, nofun, nofun⟩
    · exact ⟨nofun, nofun, .nil⟩
    · rintro s a s' ⟨hgood, hsends, hfresh⟩ hok hs
      exact ⟨hgood.next hs, hsends.next hgood hs, hfresh.next hgood hok hs⟩
  refine ⟨fun hidle h => ⟨?_, ?_⟩, hgood.ids, ⟨hfresh.nodup, fun h hmem => (hfresh.deleted h hmem).1⟩,
    hsends.count_le⟩
  · rintro ⟨t, ht⟩
    obtain ⟨hpos, htable | hspare⟩ := hgood.alive h t ht
    · exact ⟨hpos, htable⟩
    · rw [hidle] at hspare
      cases hspare
  · rintro ⟨hpos, i, rfl⟩
    obtain ⟨t, ht, -⟩ := hgood.slot i hpos
    exact ⟨t, ht⟩

/-- A start, up to where the table is free. -/
def startTrace (timerId : ℤ) : List TimerAction := .start timerId false :: List.replicate 41 .lua

/-- A timer that is started, expires and is deleted. -/
theorem timers_consistent_once : ∃ s : TimerState, s.messages = [⟨0, 7⟩] ∧ s.deleted = [1] ∧
    TimersConsistent s := by
  have hrun : (replay timerStep TimerState.FreshHandle
      (startTrace 7 ++ [.create 1 true, .expire 1, .send 0, .callback 0]) {}).any
      (fun s => s.messages = [⟨0, 7⟩] && s.deleted = [1]) = true := by
    decide +kernel
  obtain ⟨s, hs, hp⟩ := exists_of_replay hrun
  rw [Bool.and_eq_true, decide_eq_true_eq, decide_eq_true_eq] at hp
  exact ⟨s, hp.1, hp.2, timers_consistent hs⟩

end OsdCore
