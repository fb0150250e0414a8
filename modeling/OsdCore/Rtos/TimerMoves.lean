import OsdCore.Rtos.TimerGood

/-!
# What a step of the timers does

* `TimerState.Moves` : what a step can do.  `Good.moves` says that it can do nothing else, so what these keep
  is kept by every step.
* `Good.next` : a step keeps the invariant.
-/

namespace OsdCore

/-- The timer that the Lua task starts or stops. -/
def LuaCall.timerId : LuaCall → Option ℤ
  | idle => none
  | scan timerId _ _ => some timerId
  | stopFirst timerId _ => some timerId
  | startSem timerId _ => some timerId
  | startError _ => none
  | stopSem timerId => some timerId

namespace TimerState

variable {s s' : TimerState} {timerId : ℤ} {i : Fin MAX_LUA_TIMERS}

/-- **What a step can do**: the Lua task goes on (`call`), clears a slot (`stop`), deletes the timer that it
could not start (`discard`), creates a timer that cannot be started (`fail`) or one that can (`start`); a timer
expires; a callback sends its message, and it returns, without (`pass`) or with a slot cleared (`clear`). -/
inductive Moves (s : TimerState) : TimerAction → TimerState → Prop
  | call {a : TimerAction} (call : LuaCall) (armed : ℤ → Option ℕ) (hspare : s.lua.spare = none)
      (hspare' : call.spare = none) (hclear : call.Clear s.luaTimerParam)
      (harmed : ∀ id n, armed id = some n → s.armed id = some n)
      (hid : ∀ id, call.timerId = some id → armed id = none ∨ s.lua.timerId = some id) :
      Moves s a { s with lua := call, armed }
  | stop (call : LuaCall) (i : Fin MAX_LUA_TIMERS) (hspare : s.lua.spare = none)
      (hspare' : call.spare = none) (hi : (s.luaTimerParam i).hOsTimer ≠ 0)
      (hid : s.lua.timerId = some (s.luaTimerParam i).luaTimerId)
      (hclear : call.Clear (s.clearSlot i).luaTimerParam)
      (hid' : ∀ id, call.timerId = some id → s.lua.timerId = some id) :
      Moves s .lua { s.clearSlot i with lua := call }
  | discard (handle : ℕ) (hlua : s.lua = .startError handle) :
      Moves s .lua { s.deleteTimer handle with lua := .idle }
  | fail (handle : ℕ) (t : OsTimer) (hspare : s.lua.spare = none) (hpos : handle ≠ 0)
      (hfree : s.os handle = none) (hserial : t.run.serial = s.created.length) (ht : t.running = false) :
      Moves s (.create handle false) { s with
        os := Function.update s.os handle (some t)
        created := s.created ++ [handle]
        lua := .startError handle }
  | start (handle : ℕ) (t : OsTimer) (i : Fin MAX_LUA_TIMERS) (hspare : s.lua.spare = none)
      (hpos : handle ≠ 0) (hfree : s.os handle = none) (hserial : t.run.serial = s.created.length)
      (ht : t.running = true) (hi : (s.luaTimerParam i).hOsTimer = 0)
      (hclear : ∀ j, holds t.run.timerId (s.luaTimerParam j) = false) :
      Moves s (.create handle true) { s with
        os := Function.update s.os handle (some t)
        created := s.created ++ [handle]
        luaTimerParam := Function.update s.luaTimerParam i
          { hOsTimer := handle, luaTimerId := t.run.timerId }
        started := s.started ++ [t.run]
        armed := Function.update s.armed t.run.timerId (some t.run.serial)
        lua := .idle }
  | expire (handle : ℕ) (t : OsTimer) (ht : s.os handle = some t) (hrunning : t.running = true) :
      Moves s (.expire handle) { s with
        os := Function.update s.os handle (some { t with running := false })
        callbacks := s.callbacks ++ [{ handle, run := t.run, high := t.high }]
        armed := if s.armed t.run.timerId = some t.run.serial then
            Function.update s.armed t.run.timerId none
          else s.armed }
  | send (index : ℕ) (c : TimerCallback) (hc : s.callbacks[index]? = some c) (hsent : c.sent = false)
      (messages : List TimerRun) (hmessages : messages.Perm (c.run :: s.messages)) :
      Moves s (.send index) { s with
        callbacks := s.callbacks.set index { c with sent := true }
        messages }
  | pass (index : ℕ) (c : TimerCallback) (hc : s.callbacks[index]? = some c) :
      Moves s (.callback index) { s with callbacks := s.callbacks.eraseIdx index }
  | clear (index : ℕ) (c : TimerCallback) (i : Fin MAX_LUA_TIMERS) (hc : s.callbacks[index]? = some c)
      (hi : (s.luaTimerParam i).hOsTimer = c.handle) :
      Moves s (.callback index)
        (TimerState.clearSlot { s with callbacks := s.callbacks.eraseIdx index } i)

namespace Good

/-- The semaphore section of a stop. -/
theorem moves_stopSection (h : s.Good) {call : LuaCall} (hlua : s.lua.timerId = some timerId)
    (hspare : s.lua.spare = none) (hspare' : call.spare = none)
    (hid : ∀ id, call.timerId = some id → id = timerId)
    (hclear : ∀ table : Fin MAX_LUA_TIMERS → LuaTimerParam,
      (∀ i, holds timerId (table i) = false) → call.Clear table) :
    s.Moves .lua { s.stopSection timerId with lua := call } := by
  rw [stopSection_eq]
  cases hfind : s.findSlot (holds timerId) with
  | none =>
    exact .call call s.armed hspare hspare' (hclear _ (findSlot_none hfind)) (fun _ _ => id)
      fun id heq => .inr (by rw [hlua, hid id heq])
  | some i =>
    obtain ⟨hi, hid'⟩ := holds_iff.1 (findSlot_some hfind)
    refine .stop call i hspare hspare' hi (by rw [hlua, hid']) (hclear _ fun j => ?_)
      fun id heq => by rw [hlua, hid id heq]
    -- no other slot had the number
    rw [Bool.eq_false_iff, Ne, holds_iff]
    rintro ⟨hj, hid''⟩
    obtain ⟨hji, hslot⟩ := slot_of_clearSlot hj
    rw [hslot] at hj hid''
    exact hji (h.ids j i hj hi (by rw [hid'', hid']))

/-- **A step does nothing else.** -/
theorem moves (h : s.Good) {a : TimerAction} (hs : timerStep s a = some s') : s.Moves a s' := by
  cases a with
  | start timerId high =>
    rw [timerStep] at hs
    split_ifs at hs with hidle
    cases hs
    refine .call _ _ (by rw [hidle]; rfl) rfl (fun j hj => absurd hj (Nat.not_lt_zero _)) (fun id n heq => ?_)
      fun id heq => .inl ?_
    · rcases update_eq_some heq with ⟨-, hnone⟩ | ⟨-, hold⟩
      · cases hnone
      · exact hold
    · cases heq
      exact Function.update_self _ _ _
  | stop timerId =>
    rw [timerStep] at hs
    split_ifs at hs with hidle
    cases hs
    refine .call _ _ (by rw [hidle]; rfl) rfl trivial (fun id n heq => ?_) fun id heq => .inl ?_
    · rcases update_eq_some heq with ⟨-, hnone⟩ | ⟨-, hold⟩
      · cases hnone
      · exact hold
    · cases heq
      exact Function.update_self _ _ _
  | lua =>
    rw [timerStep, luaStep] at hs
    cases hlua : s.lua with
    | idle => simp [hlua] at hs
    | startSem => simp [hlua] at hs
    | scan timerId high index =>
      have hclear := h.clear
      rw [hlua] at hclear
      simp only [hlua] at hs
      split_ifs at hs with hindex hfound
      · cases hs
        exact .call _ _ (by rw [hlua]; rfl) rfl trivial (fun _ _ => id) fun id heq =>
          .inr (by rw [hlua, ← heq]; rfl)
      · cases hs
        refine .call _ _ (by rw [hlua]; rfl) rfl (fun j hj => ?_) (fun _ _ => id)
          fun id heq => .inr (by rw [hlua, ← heq]; rfl)
        rcases Nat.lt_succ_iff_lt_or_eq.1 hj with hless | heq
        · exact hclear j hless
        · rw [show j = ⟨index, hindex⟩ from Fin.ext heq]
          exact Bool.eq_false_iff.2 hfound
      · cases hs
        exact .call _ _ (by rw [hlua]; rfl) rfl (fun j => hclear j (j.isLt.trans_le (not_lt.1 hindex)))
          (fun _ _ => id) fun id heq => .inr (by rw [hlua, ← heq]; rfl)
    | stopFirst timerId high =>
      simp only [hlua] at hs
      cases hs
      exact h.moves_stopSection (by rw [hlua]; rfl) (by rw [hlua]; rfl) rfl (fun id heq => by cases heq; rfl)
        fun _ hall => hall
    | startError handle =>
      simp only [hlua] at hs
      cases hs
      exact .discard handle hlua
    | stopSem timerId =>
      simp only [hlua] at hs
      cases hs
      exact h.moves_stopSection (by rw [hlua]; rfl) (by rw [hlua]; rfl) rfl nofun fun _ _ => trivial
  | create handle ok =>
    rw [timerStep] at hs
    cases hlua : s.lua with
    | startSem timerId high =>
      have hclear := h.clear
      rw [hlua] at hclear
      have hspare : s.lua.spare = none := by rw [hlua]; rfl
      simp only [hlua, startSection] at hs
      cases hfind : s.findSlot (·.hOsTimer = OPENAT_INVALID_HANDLE) with
      | none =>
        simp only [hfind] at hs
        cases hs
        exact .call _ _ hspare rfl trivial (fun _ _ => id) nofun
      | some i =>
        simp only [hfind] at hs
        split_ifs at hs with hzero hfree hok
        · cases hs
          exact .call _ _ hspare rfl trivial (fun _ _ => id) nofun
        · cases hs
          rw [hok]
          exact .start handle ⟨⟨s.created.length, timerId⟩, high, true⟩ i hspare hzero
            (Option.not_isSome_iff_eq_none.1 hfree) rfl rfl (of_decide_eq_true (findSlot_some hfind)) hclear
        · cases hs
          rw [Bool.eq_false_iff.2 hok]
          exact .fail handle ⟨⟨s.created.length, timerId⟩, high, false⟩ hspare hzero
            (Option.not_isSome_iff_eq_none.1 hfree) rfl rfl
    | idle => simp [hlua] at hs
    | scan => simp [hlua] at hs
    | stopFirst => simp [hlua] at hs
    | startError => simp [hlua] at hs
    | stopSem => simp [hlua] at hs
  | expire handle =>
    obtain ⟨t, ht, hs⟩ := Option.bind_eq_some_iff.1 hs
    obtain ⟨hrunning, hs⟩ := Option.ite_none_right_eq_some.1 hs
    cases hs
    exact .expire handle t ht hrunning
  | send index =>
    obtain ⟨c, hc, hs⟩ := Option.bind_eq_some_iff.1 hs
    obtain ⟨hsent, hs⟩ := Option.ite_none_left_eq_some.1 hs
    cases hs
    refine .send index c hc (by simpa using hsent) _ ?_
    split_ifs
    · exact .refl _
    · exact List.perm_append_singleton _ _
  | callback index =>
    obtain ⟨c, hc, hs⟩ := Option.bind_eq_some_iff.1 hs
    split_ifs at hs
    rw [callbackSection] at hs
    split at hs
    · cases hs
      exact .pass index c hc
    · rename_i i hfind
      cases hs
      exact .clear index c i hc (of_decide_eq_true (findSlot_some hfind))

theorem mem_callbacks_set {callbacks : List TimerCallback} {index : ℕ} {c d : TimerCallback}
    (hd : d ∈ callbacks.set index { c with sent := true }) :
    d = { c with sent := true } ∨ d ∈ callbacks :=
  (List.mem_or_eq_of_mem_set hd).symm

/-- **A step** keeps the invariant. -/
theorem next (h : s.Good) {a : TimerAction} (hs : timerStep s a = some s') : s'.Good := by
  cases h.moves hs with
  | call call armed hspare hspare' hclear => exact h.withLua armed hspare hspare' hclear
  | stop call i hspare hspare' hi _ hclear =>
    exact (h.clearSlot hi).withLua _ hspare hspare' hclear
  | discard handle hlua => exact h.startError hlua
  | fail handle t hspare hpos hfree hserial => exact h.create hspare hpos hfree hserial
  | start handle t i hspare hpos hfree hserial _ hi hclear =>
    exact (h.create hspare hpos hfree hserial).enter rfl (Function.update_self _ _ _) rfl hi hclear _ _
  | expire handle t ht => exact h.expire ht _
  | send index c hc _ messages =>
    refine h.withCallbacks messages fun d hd => ?_
    rcases mem_callbacks_set hd with rfl | hold
    · exact h.callback c (List.mem_of_getElem? hc)
    · exact h.callback d hold
  | pass index c _ =>
    exact h.withCallbacks s.messages fun d hd => h.callback d (List.mem_of_mem_eraseIdx hd)
  | clear index c i hc hi =>
    have hgood : Good { s with callbacks := s.callbacks.eraseIdx index } :=
      h.withCallbacks s.messages fun d hd => h.callback d (List.mem_of_mem_eraseIdx hd)
    refine hgood.clearSlot (i := i) ?_
    simp only [hi]
    exact h.callback c (List.mem_of_getElem? hc)

end Good

theorem good_init : ({} : TimerState).Good where
  slot i hi := absurd rfl hi
  alive h t ht := by cases ht
  spare h hspare := by cases hspare
  handles i j hi := absurd rfl hi
  ids i j hi := absurd rfl hi
  clear := trivial
  serial_lt h t ht := by cases ht
  runs h h' t t' ht := by cases ht
  callback c hc := by cases hc

end TimerState

end OsdCore
