import OsdCore.Audio.Good

/-!
# The audio play protocol

* `Good.lua`, `Good.callbackStep` : the steps of the tasks, one lemma for each place in the code.
* `audio_sound` : the protocol is sound in every run in which the tasks stay apart.
-/

namespace OsdCore

namespace AudioState

variable {s s' : AudioState} {ok : Bool}

namespace Good

/-- A function returns, without a change of the two variables. -/
theorem done (h : s.Good) {lua : LuaAudio} (hlua : s.lua = lua) (result : AudioResult)
    (hset : lua ≠ .setPlaying) (hreleases : lua.releases = false)
    (hprepares : lua.prepares = false ∨ s.audplaybuffer = none) : (s.done result).Good :=
  h.withLua hlua _ hset nofun hreleases.symm (hprepares.imp_left Eq.symm) nofun nofun nofun nofun nofun

/-! ### `platform_audio_play` -/

theorem step_testPlaying (h : s.Good) {param : AudioPlayParam} (hlua : s.lua = .testPlaying param)
    (hs : s.luaStep ok = some s') : s'.Good := by
  simp only [luaStep, hlua] at hs
  by_cases hplaying : s.isPlaying = true
  · rw [if_pos hplaying] at hs
    cases hs
    exact h.done hlua _ nofun rfl (.inl rfl)
  rw [if_neg hplaying] at hs
  have hfalse : s.isPlaying = false := Bool.eq_false_iff.2 hplaying
  -- nothing is left from the clip before
  have hnone : s.audplaybuffer = none := by
    have hquiet := h.quiet hfalse
    rw [hlua] at hquiet
    exact hquiet.resolve_right (by rintro (hprepares | hset) <;> contradiction)
  cases param with
  | buffer format len =>
    cases hs
    exact h.withLua hlua _ nofun nofun rfl (.inl rfl) nofun (fun _ => hfalse) nofun nofun nofun
  | file filename =>
    cases hformat : getFileFormat filename with
    | none =>
      simp only [hformat] at hs
      cases hs
      exact h.done hlua _ nofun rfl (.inl rfl)
    | some fileformat =>
      simp only [hformat] at hs
      cases hs
      refine h.withLua hlua _ nofun nofun rfl (.inr hnone) nofun (fun _ => hfalse) nofun ?_ nofun
      rintro param heq
      cases heq
      exact hnone.symm

theorem step_testBuffer (h : s.Good) {format len : ℕ} (hlua : s.lua = .testBuffer format len)
    (hs : s.luaStep ok = some s') : s'.Good := by
  simp only [luaStep, hlua] at hs
  by_cases hsome : s.audplaybuffer.isSome = true
  · rw [if_pos hsome] at hs
    cases hs
    exact h.done hlua _ nofun rfl (.inl rfl)
  rw [if_neg hsome] at hs
  have hnone : s.audplaybuffer = none := Option.not_isSome_iff_eq_none.1 hsome
  have hfalse : s.isPlaying = false := h.passed (by rw [hlua]; rfl)
  cases hformat : getDataFormat format with
  | none =>
    simp only [hformat] at hs
    cases hs
    exact h.done hlua _ nofun rfl (.inl rfl)
  | some mode =>
    simp only [hformat] at hs
    cases hs
    exact h.withLua hlua _ nofun nofun rfl (.inl rfl) nofun (fun _ => hfalse) (fun _ => hnone) nofun nofun

theorem step_alloc (h : s.Good) {mode : PlayMode} {len : ℕ} (hlua : s.lua = .alloc mode len)
    (hs : s.luaStep ok = some s') : s'.Good := by
  simp only [luaStep, hlua] at hs
  cases ok with
  | true =>
    rw [if_pos rfl] at hs
    cases hs
    exact h.alloc hlua
  | false =>
    rw [if_neg Bool.false_ne_true] at hs
    cases hs
    have hnone : s.audplaybuffer = none := h.noBuffer (by rw [hlua]; rfl)
    have hfalse : s.isPlaying = false := h.passed (by rw [hlua]; rfl)
    rw [← hnone]
    exact h.withLua hlua _ nofun nofun rfl (.inr hnone) nofun (fun _ => hfalse) nofun nofun nofun

theorem step_testNull (h : s.Good) {mode : PlayMode} {len : ℕ} (hlua : s.lua = .testNull mode len)
    (hs : s.luaStep ok = some s') : s'.Good := by
  simp only [luaStep, hlua] at hs
  by_cases hnone : s.audplaybuffer.isNone = true
  · rw [if_pos hnone] at hs
    cases hs
    exact h.done hlua _ nofun rfl (.inr (Option.isNone_iff_eq_none.1 hnone))
  · rw [if_neg hnone] at hs
    cases hs
    have hfalse : s.isPlaying = false := h.passed (by rw [hlua]; rfl)
    exact h.withLua hlua _ nofun nofun rfl (.inl rfl) nofun (fun _ => hfalse) nofun nofun nofun

theorem step_copy (h : s.Good) {mode : PlayMode} {len : ℕ} (hlua : s.lua = .copy mode len)
    (hs : s.luaStep ok = some s') : s'.Good := by
  have hfalse : s.isPlaying = false := h.passed (by rw [hlua]; rfl)
  simp only [luaStep, hlua] at hs
  cases hs
  refine h.withLua hlua _ nofun nofun rfl (.inl rfl) nofun (fun _ => hfalse) nofun ?_ nofun
  rintro param heq
  cases heq
  rfl

theorem step_start (h : s.Good) {param : PlayParam} (hlua : s.lua = .start param)
    (hs : s.luaStep ok = some s') : s'.Good := by
  simp only [luaStep, hlua] at hs
  cases ok with
  | true =>
    rw [if_pos rfl] at hs
    cases hs
    exact h.started hlua
  | false =>
    rw [if_neg Bool.false_ne_true] at hs
    cases hs
    have hfalse : s.isPlaying = false := h.passed (by rw [hlua]; rfl)
    exact h.withLua hlua _ nofun nofun rfl (.inl rfl) nofun (fun _ => hfalse) nofun nofun nofun

theorem step_failTest (h : s.Good) (hlua : s.lua = .failTest) (hs : s.luaStep ok = some s') : s'.Good := by
  simp only [luaStep, hlua] at hs
  by_cases hsome : s.audplaybuffer.isSome = true
  · rw [if_pos hsome] at hs
    cases hs
    have hfalse : s.isPlaying = false := h.passed (by rw [hlua]; rfl)
    exact h.withLua hlua _ nofun nofun rfl (.inl rfl) nofun (fun _ => hfalse) nofun nofun nofun
  · rw [if_neg hsome] at hs
    cases hs
    exact h.done hlua _ nofun rfl (.inr (Option.not_isSome_iff_eq_none.1 hsome))

/-! ### `platform_audio_stop` -/

theorem step_stopTest (h : s.Good) (hlua : s.lua = .stopTest) (hs : s.luaStep ok = some s') : s'.Good := by
  simp only [luaStep, hlua] at hs
  split_ifs at hs
  · cases hs
    exact h.withLua hlua _ nofun nofun rfl (.inl rfl) nofun nofun nofun nofun nofun
  · cases hs
    exact h.done hlua _ nofun rfl (.inl rfl)

theorem step_stopBuffer (h : s.Good) (hlua : s.lua = .stopBuffer) (hok : s.Apart (.lua ok))
    (hs : s.luaStep ok = some s') : s'.Good := by
  simp only [luaStep, hlua] at hs
  by_cases hsome : s.audplaybuffer.isSome = true
  · rw [if_pos hsome] at hs
    cases hs
    refine h.withLua hlua _ nofun nofun rfl (.inl rfl) (fun _ => .inl rfl) nofun nofun nofun ?_
    -- no callback frees it as well
    intro _ clip c hc
    exact hok hlua clip (h.called_lt clip (h.callback clip c hc).1) c hc
  · rw [if_neg hsome] at hs
    cases hs
    exact h.withLua hlua _ nofun nofun rfl (.inl rfl) (fun _ => .inl rfl) nofun
      (fun _ => Option.not_isSome_iff_eq_none.1 hsome) nofun nofun

/-! ### All steps -/

/-- **A step of the Lua task.** -/
theorem lua (h : s.Good) (hok : s.Apart (.lua ok)) (hs : s.luaStep ok = some s') : s'.Good := by
  cases hlua : s.lua with
  | idle => simp [luaStep, hlua] at hs
  | testPlaying param => exact h.step_testPlaying hlua hs
  | testBuffer format len => exact h.step_testBuffer hlua hs
  | alloc mode len => exact h.step_alloc hlua hs
  | testNull mode len => exact h.step_testNull hlua hs
  | copy mode len => exact h.step_copy hlua hs
  | start param => exact h.step_start hlua hs
  | failTest => exact h.step_failTest hlua hs
  | stopTest => exact h.step_stopTest hlua hs
  | stopBuffer => exact h.step_stopBuffer hlua hok hs
  | failFree =>
    simp only [luaStep, hlua] at hs
    cases hs
    exact h.luaFree hlua (.inl rfl) rfl nofun nofun rfl rfl rfl rfl rfl nofun
  | stopFree =>
    simp only [luaStep, hlua] at hs
    cases hs
    exact h.luaFree hlua (.inr rfl) rfl nofun nofun rfl rfl rfl rfl rfl nofun
  | failNull =>
    simp only [luaStep, hlua] at hs
    cases hs
    exact h.luaNull hlua _ rfl nofun rfl rfl nofun
  | stopNull =>
    simp only [luaStep, hlua] at hs
    cases hs
    exact h.luaNull hlua _ rfl nofun rfl rfl nofun
  | setPlaying =>
    simp only [luaStep, hlua] at hs
    cases hs
    exact h.setPlaying _ hlua
  | stopMusic =>
    simp only [luaStep, hlua] at hs
    cases hs
    exact h.stopMusic hlua
  | stopClear =>
    simp only [luaStep, hlua] at hs
    cases hs
    exact h.stopClear _ hlua

/-- **A step of a callback.** -/
theorem callbackStep (h : s.Good) {clip : ℕ} {c : AudioCallback} (hc : s.callbacks clip = some c)
    (hok : s.Apart (.callback clip)) : (s.callbackStep clip c).Good := by
  obtain ⟨htest, hclear⟩ := hok c hc
  rw [AudioState.callbackStep]
  cases hpc : c.pc with
  | test =>
    have hnull : c.pc ≠ .null := by rw [hpc]; nofun
    by_cases hsome : s.audplaybuffer.isSome = true
    · simp only [if_pos hsome]
      refine h.moved hc hnull nofun nofun fun _ => ⟨(htest hpc).resolve_left ?_, hsome⟩
      exact Option.isSome_iff_ne_none.1 hsome
    · simp only [if_neg hsome]
      exact h.moved hc hnull nofun nofun nofun
  | free => exact h.callbackFree hc hpc
  | null => exact h.callbackNull hc hpc
  | clear =>
    obtain ⟨hset, hquiet⟩ := hclear hpc
    exact h.callbackClear hc hpc hset hquiet
  | send => exact h.callbackSend _ hc hpc

/-- **Every step** with which the tasks stay apart keeps the invariant. -/
theorem next {a : AudioAction} (h : s.Good) (hok : s.Apart a) (hs : audioStep s a = some s') : s'.Good := by
  cases a with
  | play param =>
    obtain ⟨hidle, hs⟩ := Option.ite_none_right_eq_some.1 hs
    cases hs
    exact h.withLua hidle _ nofun nofun rfl (.inl rfl) nofun nofun nofun nofun nofun
  | stop =>
    obtain ⟨hidle, hs⟩ := Option.ite_none_right_eq_some.1 hs
    cases hs
    exact h.withLua hidle _ nofun nofun rfl (.inl rfl) nofun nofun nofun nofun nofun
  | lua ok => exact h.lua hok hs
  | call clip result =>
    obtain ⟨⟨hlt, hnot⟩, hs⟩ := Option.ite_none_right_eq_some.1 hs
    cases hs
    exact h.call result hlt hnot
  | callback clip =>
    obtain ⟨c, hc, rfl⟩ := Option.map_eq_some_iff.1 hs
    exact h.callbackStep hc hok

/-- **The invariant says that the protocol is sound.** -/
theorem sound (h : s.Good) : s.Sound where
  once := h.nodup
  playing clip hclip b hb := h.safe hclip hb
  all hidle hnone b hb := by
    refine (h.kept b hb).imp_right fun hbuffer => ⟨hbuffer, ?_⟩
    have hprepares : s.lua.prepares ≠ true := by rw [hidle]; exact Bool.false_ne_true
    obtain ⟨clip, hcurrent, hclip⟩ := (h.owner b hbuffer).resolve_left hprepares
    refine ⟨clip, hcurrent, hclip, fun hcalled => ?_⟩
    -- after its callback there would be no buffer
    have hcleared : clip ∈ s.cleared := by
      refine (h.called clip hcalled).resolve_right ?_
      rw [hnone clip]
      nofun
    rcases h.quiet (h.cleared clip hcurrent hcleared).1 with hno | hbefore | hset
    · rw [hbuffer] at hno
      cases hno
    · exact hprepares hbefore
    · rw [hidle] at hset
      cases hset
  run clip hcurrent hcleared := (h.cleared clip hcurrent hcleared).1

end Good

theorem good_init : ({} : AudioState).Good where
  nodup := .nil
  freed_lt := nofun
  buffer_lt := nofun
  kept := nofun
  releasing := nofun
  owner := nofun
  playing := nofun
  holds := nofun
  called_lt := nofun
  cleared_sub := nofun
  called := nofun
  cleared := nofun
  quiet := fun _ => .inl rfl
  passed := nofun
  noBuffer := nofun
  start := nofun
  callback := nofun
  frees := nofun

end AudioState

/-- **The audio play protocol** is sound in every run in which the tasks stay apart. -/
theorem audio_sound {s : AudioState} (h : Steps audioStep AudioState.Apart {} s) : s.Sound :=
  (h.invariant (I := AudioState.Good) AudioState.good_init fun _ _ _ hgood hok hs => hgood.next hok hs).sound

/-- A clip with a buffer is started. -/
def playTrace : List AudioAction := .play (.buffer 0 8) :: List.replicate 7 (.lua true)

/-- A clip with a buffer is stopped. -/
def stopTrace : List AudioAction := .stop :: List.replicate 6 (.lua true)

/-- A clip that is played to its end, and one that is stopped and whose callback comes after that. -/
theorem audio_sound_twice : ∃ s : AudioState, s.freed = [0, 1] ∧ s.isPlaying = false ∧ s.Sound := by
  have hrun : (replay audioStep AudioState.Apart
      (playTrace ++ .call 0 .endOfFile :: List.replicate 5 (.callback 0) ++
        playTrace ++ stopTrace ++ .call 1 .errNo :: List.replicate 3 (.callback 1)) {}).any
      (fun s => s.freed = [0, 1] && !s.isPlaying) = true := by
    decide +kernel
  obtain ⟨s, hs, hp⟩ := exists_of_replay hrun
  rw [Bool.and_eq_true, decide_eq_true_eq, Bool.not_eq_true'] at hp
  exact ⟨s, hp.1, hp.2, audio_sound hs⟩

/-- The callback and `stop` both free the buffer; the callback of a clip that has been stopped frees that of the
next one; and a callback that comes before `play` has set `isPlaying` leaves it TRUE. -/
theorem not_audio_sound :
    (¬ ∀ s, Steps audioStep (fun _ _ => True) {} s → s.freed.Nodup) ∧
    (¬ ∀ s, Steps audioStep (fun _ _ => True) {} s →
      ∀ clip ∈ s.playing, ∀ b, s.bufferOf clip = some b → b ∉ s.freed) ∧
    ¬ ∀ s, Steps audioStep (fun _ _ => True) {} s →
      ∀ clip, s.IsCurrent clip → clip ∈ s.cleared → s.isPlaying = false := by
  refine ⟨?_, ?_, ?_⟩
  · intro h
    have hrun : (replay audioStep (fun _ _ => True)
        (playTrace ++ [.stop, .lua true, .lua true, .lua true, .call 0 .errNo, .callback 0, .lua true,
          .callback 0]) {}).any (fun s => s.freed = [0, 0]) = true := by
      decide +kernel
    obtain ⟨s, hs, hp⟩ := exists_of_replay hrun
    have hnodup := h s hs
    rw [of_decide_eq_true hp] at hnodup
    exact absurd hnodup (by decide)
  · intro h
    have hrun : (replay audioStep (fun _ _ => True)
        (playTrace ++ stopTrace ++ playTrace ++ [.call 0 .errNo, .callback 0, .callback 0]) {}).any
        (fun s => s.playing = [1] && s.bufferOf 1 = some 1 && s.freed = [0, 1]) = true := by
      decide +kernel
    obtain ⟨s, hs, hp⟩ := exists_of_replay hrun
    simp only [Bool.and_eq_true, decide_eq_true_eq] at hp
    obtain ⟨⟨hplaying, hbuffer⟩, hfreed⟩ := hp
    refine h s hs 1 (by simp [hplaying]) 1 hbuffer (by simp [hfreed])
  · intro h
    have hrun : (replay audioStep (fun _ _ => True)
        ([.play (.file (ascii "a.mp3")), .lua true, .lua true, .call 0 .errNo, .callback 0, .callback 0,
          .callback 0, .lua true]) {}).any
        (fun s => decide (s.IsCurrent 0) && s.cleared = [0] && s.isPlaying) = true := by
      decide +kernel
    obtain ⟨s, hs, hp⟩ := exists_of_replay hrun
    simp only [Bool.and_eq_true, decide_eq_true_eq] at hp
    obtain ⟨⟨hcurrent, hcleared⟩, hplaying⟩ := hp
    rw [h s hs 0 hcurrent (by simp [hcleared])] at hplaying
    cases hplaying

end OsdCore
