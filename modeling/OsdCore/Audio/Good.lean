import Mathlib.Data.List.Nodup
import OsdCore.Audio.Basic

/-!
# When the audio protocol is sound

The Lua task and the callbacks do not stay out of each other's way by themselves.

* `AudioState.Apart` : a step with which they do.
* `AudioState.Good` : the invariant of the runs of such steps.  There is one lemma for each thing that a step
  does.
-/

namespace OsdCore

/-! ### Where the tasks are -/

namespace LuaAudio

/-- `play` has found `isPlaying` to be FALSE. -/
def passed : LuaAudio → Bool
  | idle | testPlaying _ | stopTest | stopMusic | stopBuffer | stopFree | stopNull | stopClear => false
  | testBuffer _ _ | alloc _ _ | testNull _ _ | copy _ _ | start _ => true
  | failTest | failFree | failNull | setPlaying => true

/-- `play` may have a buffer whose clip has not been started. -/
def prepares : LuaAudio → Bool
  | idle | testPlaying _ | stopTest | stopMusic | stopBuffer | stopFree | stopNull | stopClear => false
  | testBuffer _ _ | alloc _ _ | setPlaying => false
  | testNull _ _ | copy _ _ | start _ | failTest | failFree | failNull => true

/-- `stop` has called `stop_music`. -/
def stopped : LuaAudio → Bool
  | idle | testPlaying _ | testBuffer _ _ | alloc _ _ | testNull _ _ | copy _ _ | start _ => false
  | failTest | failFree | failNull | setPlaying | stopTest | stopMusic => false
  | stopBuffer | stopFree | stopNull | stopClear => true

/-- There is no buffer. -/
def noBuffer : LuaAudio → Bool
  | idle | testPlaying _ | testBuffer _ _ | testNull _ _ | copy _ _ | start _ => false
  | failTest | failFree | failNull | setPlaying => false
  | stopTest | stopMusic | stopBuffer | stopFree | stopNull => false
  | alloc _ _ | stopClear => true

/-- `stop` frees the buffer. -/
def stopFrees : LuaAudio → Bool
  | idle | testPlaying _ | testBuffer _ _ | alloc _ _ | testNull _ _ | copy _ _ | start _ => false
  | failTest | failFree | failNull | setPlaying | stopTest | stopMusic | stopBuffer | stopClear => false
  | stopFree | stopNull => true

/-- The buffer has been freed, and is still in `audplaybuffer`. -/
def releases : LuaAudio → Bool
  | idle | testPlaying _ | testBuffer _ _ | alloc _ _ | testNull _ _ | copy _ _ | start _ => false
  | failTest | failFree | setPlaying | stopTest | stopMusic | stopBuffer | stopFree | stopClear => false
  | failNull | stopNull => true

theorem prepares_or_stopFrees {lua : LuaAudio} (h : lua.releases = true) :
    lua.prepares = true ∨ lua.stopFrees = true := by
  cases lua <;> simp_all [releases, prepares, stopFrees]

theorem passed_of_prepares {lua : LuaAudio} (h : lua.prepares = true) :
    lua.passed = true ∧ lua ≠ setPlaying := by
  cases lua <;> simp_all [prepares, passed]

end LuaAudio

/-- The callback frees the buffer. -/
def CallbackPc.frees : CallbackPc → Bool
  | test | clear | send => false
  | free | null => true

namespace AudioState

/-- The callback of a clip may free the buffer: the clip is the one started last, `play` has not prepared
another one, and `stop` does not free the buffer. -/
def MayFree (s : AudioState) (clip : ℕ) : Prop :=
  s.IsCurrent clip ∧ s.lua.prepares = false ∧ s.lua.stopFrees = false

/-- A callback finds no buffer, or one that it may free, and `stop` does not look at it while a callback frees
it.  A callback does not set `isPlaying` to FALSE between the start of its own clip and `isPlaying = TRUE`, or
while `audplaybuffer` is the buffer of a clip that `play` has started. -/
def Apart (s : AudioState) : AudioAction → Prop
  | .play _ => True
  | .stop => True
  | .call _ _ => True
  | .callback clip => ∀ c ∈ s.callbacks clip,
      (c.pc = .test → s.audplaybuffer = none ∨ s.MayFree clip) ∧
      (c.pc = .clear → (s.IsCurrent clip → s.lua ≠ .setPlaying) ∧
        (s.audplaybuffer = none ∨ s.lua.prepares = true ∨ s.lua = .setPlaying))
  | .lua _ => s.lua = .stopBuffer → ∀ clip < s.clips.length, ∀ c ∈ s.callbacks clip, c.pc.frees = false

instance (s : AudioState) (clip : ℕ) : Decidable (s.IsCurrent clip) := inferInstanceAs (Decidable (_ = _))

instance (s : AudioState) (clip : ℕ) : Decidable (s.MayFree clip) := inferInstanceAs (Decidable (_ ∧ _ ∧ _))

instance (s : AudioState) : (a : AudioAction) → Decidable (s.Apart a)
  | .play _ => instDecidableTrue
  | .stop => instDecidableTrue
  | .call _ _ => instDecidableTrue
  | .callback clip => inferInstanceAs (Decidable (∀ c ∈ s.callbacks clip, (_ → _ ∨ _) ∧ (_ → (_ → _) ∧ _)))
  | .lua _ => inferInstanceAs (Decidable (_ → ∀ clip < s.clips.length, ∀ c ∈ s.callbacks clip, _))

/-- `audplaybuffer` holds a buffer that has been freed. -/
def Releasing (s : AudioState) : Prop :=
  s.lua.releases = true ∨ ∃ clip c, s.callbacks clip = some c ∧ c.pc = .null

/-- **The invariant.** -/
structure Good (s : AudioState) : Prop where
  -- the buffers
  nodup : s.freed.Nodup
  freed_lt : ∀ b ∈ s.freed, b < s.allocated
  buffer_lt : ∀ b, s.audplaybuffer = some b → b < s.allocated
  kept : ∀ b < s.allocated, b ∈ s.freed ∨ s.audplaybuffer = some b
  releasing : ∀ b, s.audplaybuffer = some b → (b ∈ s.freed ↔ s.Releasing)
  owner : ∀ b, s.audplaybuffer = some b → s.lua.prepares = true ∨
    ∃ clip, s.IsCurrent clip ∧ s.bufferOf clip = some b
  -- the clips
  playing : ∀ clip ∈ s.playing, clip < s.clips.length ∧ clip ∉ s.called ∧ s.lua.stopped = false
  holds : ∀ clip ∈ s.playing, ∀ b, s.bufferOf clip = some b →
    s.IsCurrent clip ∧ s.audplaybuffer = some b ∧ (s.isPlaying = true ∨ s.lua = .setPlaying)
  called_lt : ∀ clip ∈ s.called, clip < s.clips.length
  cleared_sub : ∀ clip ∈ s.cleared, clip ∈ s.called
  called : ∀ clip ∈ s.called, clip ∈ s.cleared ∨ ∃ c, s.callbacks clip = some c
  cleared : ∀ clip, s.IsCurrent clip → clip ∈ s.cleared → s.isPlaying = false ∧ s.lua ≠ .setPlaying
  -- the Lua task
  quiet : s.isPlaying = false → s.audplaybuffer = none ∨ s.lua.prepares = true ∨ s.lua = .setPlaying
  passed : s.lua.passed = true → s.isPlaying = false
  noBuffer : s.lua.noBuffer = true → s.audplaybuffer = none
  start : ∀ param, s.lua = .start param → param.pBuffer = s.audplaybuffer
  -- the callbacks
  callback : ∀ clip c, s.callbacks clip = some c → clip ∈ s.called ∧ (c.pc = .send → clip ∈ s.cleared)
  frees : ∀ clip c, s.callbacks clip = some c → c.pc.frees = true →
    s.MayFree clip ∧ s.audplaybuffer.isSome = true

variable {s s' : AudioState} {clip clip' b : ℕ} {c : AudioCallback}

theorem IsCurrent.unique (h : s.IsCurrent clip) (h' : s.IsCurrent clip') : clip = clip' := by
  unfold IsCurrent at h h'
  omega

namespace Good

/-! ### What the invariant says of a state -/

/-- No callback frees a buffer. -/
theorem not_frees (h : s.Good)
    (hor : s.audplaybuffer = none ∨ s.lua.prepares = true ∨ s.lua.stopFrees = true)
    (hc : s.callbacks clip = some c) : c.pc.frees = false := by
  refine Bool.eq_false_iff.2 fun hfrees => ?_
  obtain ⟨⟨-, hprepares, hstop⟩, hsome⟩ := h.frees clip c hc hfrees
  rcases hor with hnone | hprepares' | hstop'
  · rw [hnone] at hsome
    cases hsome
  · rw [hprepares] at hprepares'
    cases hprepares'
  · rw [hstop] at hstop'
    cases hstop'

/-- So the field `frees` holds of any other state with these callbacks. -/
theorem frees_of_idle (h : s.Good)
    (hor : s.audplaybuffer = none ∨ s.lua.prepares = true ∨ s.lua.stopFrees = true) {P : ℕ → Prop} :
    ∀ clip c, s.callbacks clip = some c → c.pc.frees = true → P clip := by
  intro clip c hc hfrees
  rw [h.not_frees hor hc] at hfrees
  cases hfrees

theorem not_releasing (h : s.Good)
    (hor : s.audplaybuffer = none ∨ s.lua.prepares = true ∨ s.lua.stopFrees = true)
    (hreleases : s.lua.releases = false) : ¬ s.Releasing := by
  rintro (hreleases' | ⟨clip, c, hc, hnull⟩)
  · rw [hreleases] at hreleases'
    cases hreleases'
  · have hfrees := h.not_frees hor hc
    rw [hnull] at hfrees
    cases hfrees

/-- While `play` is at work on the next clip, none with a buffer plays. -/
theorem bufferOf_of_passed (h : s.Good) (hpassed : s.lua.passed = true) (hset : s.lua ≠ .setPlaying)
    (hclip : clip ∈ s.playing) : s.bufferOf clip = none := by
  refine Option.eq_none_iff_forall_ne_some.2 fun b hb => ?_
  obtain ⟨-, -, hplaying | hlua⟩ := h.holds clip hclip b hb
  · rw [h.passed hpassed] at hplaying
    cases hplaying
  · exact hset hlua

theorem playing_of_stopped (h : s.Good) (hstopped : s.lua.stopped = true) : s.playing = [] := by
  refine List.eq_nil_iff_forall_not_mem.2 fun clip hclip => ?_
  obtain ⟨-, -, hnot⟩ := h.playing clip hclip
  rw [hstopped] at hnot
  cases hnot

/-- **The buffer of a clip that plays** has not been freed. -/
theorem safe (h : s.Good) (hclip : clip ∈ s.playing) (hb : s.bufferOf clip = some b) : b ∉ s.freed := by
  obtain ⟨hcurrent, hbuffer, -⟩ := h.holds clip hclip b hb
  obtain ⟨-, hnot, hstopped⟩ := h.playing clip hclip
  rw [h.releasing b hbuffer]
  rintro (hreleases | ⟨clip', c, hc, hnull⟩)
  · cases hlua : s.lua with
    | failNull =>
      rw [h.bufferOf_of_passed (by rw [hlua]; rfl) (by rw [hlua]; nofun) hclip] at hb
      cases hb
    | stopNull =>
      rw [hlua] at hstopped
      cases hstopped
    | _ =>
      rw [hlua] at hreleases
      cases hreleases
  · obtain ⟨⟨hcurrent', -⟩, -⟩ := h.frees clip' c hc (by rw [hnull]; rfl)
    exact hnot (hcurrent.unique hcurrent' ▸ (h.callback clip' c hc).1)

/-! ### The Lua task -/

variable {lua lua' : LuaAudio}

/-- **The Lua task goes on**, without a change of the two variables. -/
theorem withLua (h : s.Good) (hlua : s.lua = lua) (results : List AudioResult)
    (hset : lua ≠ .setPlaying) (hset' : lua' ≠ .setPlaying) (hreleases : lua'.releases = lua.releases)
    (hprepares : lua'.prepares = lua.prepares ∨ s.audplaybuffer = none)
    (hstopped : lua'.stopped = true → lua.stopped = true ∨ s.playing = [])
    (hpassed : lua'.passed = true → s.isPlaying = false)
    (hnone : lua'.noBuffer = true → s.audplaybuffer = none)
    (hstart : ∀ param, lua' = .start param → param.pBuffer = s.audplaybuffer)
    (hstop : lua'.stopFrees = true → ∀ clip c, s.callbacks clip = some c → c.pc.frees = false) :
    Good { s with lua := lua', results } where
  nodup := h.nodup
  freed_lt := h.freed_lt
  buffer_lt := h.buffer_lt
  kept := h.kept
  releasing b hb := by
    rw [h.releasing b hb, Releasing, Releasing, hreleases, hlua]
  owner b hb := by
    rcases hprepares with heq | hnone
    · rw [heq, ← hlua]
      exact h.owner b hb
    · rw [hnone] at hb
      cases hb
  playing clip hclip := by
    obtain ⟨hlt, hnot, hbefore⟩ := h.playing clip hclip
    refine ⟨hlt, hnot, Bool.eq_false_iff.2 fun hafter => ?_⟩
    rcases hstopped hafter with heq | hnil
    · rw [hlua, heq] at hbefore
      cases hbefore
    · rw [hnil] at hclip
      cases hclip
  holds clip hclip b hb := by
    obtain ⟨hcurrent, hbuffer, hor⟩ := h.holds clip hclip b hb
    exact ⟨hcurrent, hbuffer, .inl (hor.resolve_right (hlua ▸ hset))⟩
  called_lt := h.called_lt
  cleared_sub := h.cleared_sub
  called := h.called
  cleared clip hcurrent hclip := ⟨(h.cleared clip hcurrent hclip).1, hset'⟩
  quiet hquiet := by
    rcases h.quiet hquiet with hnone | hbefore | hset''
    · exact .inl hnone
    · rcases hprepares with heq | hnone
      · exact .inr (.inl (heq.trans (hlua ▸ hbefore)))
      · exact .inl hnone
    · exact absurd (hlua.symm.trans hset'') hset
  passed := hpassed
  noBuffer := hnone
  start := hstart
  callback := h.callback
  frees clip c hc hfrees := by
    obtain ⟨⟨hcurrent, hbefore, -⟩, hsome⟩ := h.frees clip c hc hfrees
    refine ⟨⟨hcurrent, ?_, Bool.eq_false_iff.2 fun hafter => ?_⟩, hsome⟩
    · rcases hprepares with heq | hnone
      · exact heq.trans (hlua ▸ hbefore)
      · rw [hnone] at hsome
        cases hsome
    · rw [hstop hafter clip c hc] at hfrees
      cases hfrees

/-- **`play` gets its buffer.** -/
theorem alloc (h : s.Good) {mode : PlayMode} {len : ℕ} (hlua : s.lua = .alloc mode len) : Good { s with
      audplaybuffer := some s.allocated
      allocated := s.allocated + 1
      lua := .testNull mode len } := by
  have hpassed : s.lua.passed = true := by rw [hlua]; rfl
  have hnone := h.noBuffer (by rw [hlua]; rfl)
  have hnew : s.allocated ∉ s.freed := fun hmem => lt_irrefl _ (h.freed_lt _ hmem)
  refine
    { h with
      freed_lt := fun b hb => (h.freed_lt b hb).trans (Nat.lt_succ_self _)
      buffer_lt := ?_
      kept := ?_
      releasing := ?_
      owner := fun _ _ => .inl rfl
      playing := fun clip hclip => ⟨(h.playing clip hclip).1, (h.playing clip hclip).2.1, rfl⟩
      holds := ?_
      cleared := fun _ _ _ => ⟨h.passed hpassed, nofun⟩
      quiet := fun _ => .inr (.inl rfl)
      passed := fun _ => h.passed hpassed
      noBuffer := nofun
      start := nofun
      frees := h.frees_of_idle (.inl hnone) }
  · rintro b hb
    cases hb
    exact Nat.lt_succ_self _
  · intro b hb
    rcases Nat.lt_succ_iff_lt_or_eq.1 hb with hlt | rfl
    · refine .inl ((h.kept b hlt).resolve_right ?_)
      rw [hnone]
      nofun
    · exact .inr rfl
  · rintro b hb
    cases hb
    refine iff_of_false hnew ?_
    rintro (hreleases | hcallback)
    · cases hreleases
    · exact h.not_releasing (.inl hnone) (by rw [hlua]; rfl) (.inr hcallback)
  · intro clip hclip b hb
    have hno := h.bufferOf_of_passed hpassed (by rw [hlua]; nofun) hclip
    exact absurd (hno.symm.trans hb) nofun

/-- **`play` has started a clip.** -/
theorem started (h : s.Good) {param : PlayParam} (hlua : s.lua = .start param) : Good { s with
      clips := s.clips ++ [param]
      playing := s.playing ++ [s.clips.length]
      lua := .setPlaying } := by
  have hpassed : s.lua.passed = true := by rw [hlua]; rfl
  have hprepares : s.lua.prepares = true := by rw [hlua]; rfl
  have hparam := h.start param hlua
  have hcurrent : s.clips.length + 1 = (s.clips ++ [param]).length := by
    rw [List.length_append, List.length_singleton]
  have hbuffer : (s.clips ++ [param])[s.clips.length]?.bind PlayParam.pBuffer = s.audplaybuffer := by
    simp [hparam]
  refine
    { h with
      releasing := ?_
      owner := fun b hb => .inr ⟨s.clips.length, hcurrent, hbuffer.trans hb⟩
      playing := ?_
      holds := ?_
      called_lt := ?_
      cleared := ?_
      quiet := fun _ => .inr (.inr rfl)
      passed := fun _ => h.passed hpassed
      noBuffer := nofun
      start := nofun
      frees := h.frees_of_idle (.inr (.inl hprepares)) }
  · intro b hb
    rw [h.releasing b hb, Releasing, Releasing, hlua]
    rfl
  · intro clip hclip
    rcases List.mem_append.1 hclip with hold | hlast
    · obtain ⟨hlt, hnot, -⟩ := h.playing clip hold
      exact ⟨hcurrent ▸ hlt.trans (Nat.lt_succ_self _), hnot, rfl⟩
    · rw [List.mem_singleton.1 hlast]
      exact ⟨hcurrent ▸ Nat.lt_succ_self _, fun hcalled => lt_irrefl _ (h.called_lt _ hcalled), rfl⟩
  · intro clip hclip b hb
    rcases List.mem_append.1 hclip with hold | hlast
    · -- what still plays has no buffer
      rw [bufferOf, List.getElem?_append_left (h.playing clip hold).1] at hb
      have hno := h.bufferOf_of_passed hpassed (by rw [hlua]; nofun) hold
      exact absurd (hno.symm.trans hb) nofun
    · obtain rfl := List.mem_singleton.1 hlast
      exact ⟨hcurrent, hbuffer.symm.trans hb, .inr rfl⟩
  · intro clip hclip
    exact hcurrent ▸ (h.called_lt clip hclip).trans (Nat.lt_succ_self _)
  · intro clip hlast hcleared
    have hlt := h.called_lt clip (h.cleared_sub clip hcleared)
    have hsame := hcurrent.trans hlast.symm
    omega

/-- The buffers, when one is freed that has not been freed. -/
theorem freeBuffer (h : s.Good) (hnot : ¬ s.Releasing) :
    (s.freeBuffer).freed.Nodup ∧ (∀ b ∈ s.freeBuffer.freed, b < s.allocated) ∧
      (∀ b, s.audplaybuffer = some b → b ∈ s.freeBuffer.freed) ∧ ∀ b ∈ s.freed, b ∈ s.freeBuffer.freed := by
  unfold AudioState.freeBuffer
  cases hbuffer : s.audplaybuffer with
  | none => exact ⟨by simpa using h.nodup, by simpa using h.freed_lt, nofun, by simp⟩
  | some b =>
    have hfree : b ∉ s.freed := mt (h.releasing b hbuffer).1 hnot
    refine ⟨?_, ?_, by simp, fun b' hb' => List.mem_append_left _ hb'⟩
    · refine List.nodup_append.2 ⟨h.nodup, List.nodup_singleton b, fun b' hb' b'' hb'' heq => ?_⟩
      rw [Option.toList_some, List.mem_singleton] at hb''
      exact hfree (hb'' ▸ heq ▸ hb')
    · intro b' hb'
      rcases List.mem_append.1 hb' with hold | hlast
      · exact h.freed_lt b' hold
      · rw [Option.toList_some, List.mem_singleton] at hlast
        exact hlast ▸ h.buffer_lt b hbuffer

/-- **The Lua task frees the buffer.** -/
theorem luaFree (h : s.Good) (hlua : s.lua = lua) (hor : lua.prepares = true ∨ lua.stopFrees = true)
    (hbefore : lua.releases = false) (hset : lua ≠ .setPlaying) (hset' : lua' ≠ .setPlaying)
    (hreleases : lua'.releases = true) (hprepares : lua'.prepares = lua.prepares)
    (hstopped : lua'.stopped = lua.stopped) (hpassed : lua'.passed = lua.passed)
    (hnone : lua'.noBuffer = false) (hstart : ∀ param, lua' ≠ .start param) :
    Good { s.freeBuffer with lua := lua' } := by
  subst hlua
  obtain ⟨hnodup, hlt, hmem, hsub⟩ := h.freeBuffer (h.not_releasing (.inr hor) hbefore)
  refine
    { h with
      nodup := hnodup
      freed_lt := hlt
      kept := fun b hb => (h.kept b hb).imp_left (hsub b)
      releasing := fun b hb => iff_of_true (hmem b hb) (.inl hreleases)
      owner := fun b hb => (h.owner b hb).imp_left hprepares.trans
      playing := ?_
      holds := ?_
      cleared := fun clip hcurrent hclip => ⟨(h.cleared clip hcurrent hclip).1, hset'⟩
      quiet := fun hquiet => (h.quiet hquiet).imp_right fun hor =>
        .inl (hprepares.trans (hor.resolve_right hset))
      passed := fun hafter => h.passed (hpassed ▸ hafter)
      noBuffer := fun hafter => absurd (hnone.symm.trans hafter) Bool.false_ne_true
      start := fun param hlua => absurd hlua (hstart param)
      frees := h.frees_of_idle (.inr hor) }
  · intro clip hclip
    obtain ⟨hlt, hnot, hrest⟩ := h.playing clip hclip
    exact ⟨hlt, hnot, hstopped.trans hrest⟩
  · intro clip hclip b hb
    obtain ⟨hcurrent, hbuffer, hor⟩ := h.holds clip hclip b hb
    exact ⟨hcurrent, hbuffer, .inl (hor.resolve_right hset)⟩

/-- **The Lua task forgets it.** -/
theorem luaNull (h : s.Good) (hlua : s.lua = lua) (results : List AudioResult)
    (hreleases : lua.releases = true) (hset' : lua' ≠ .setPlaying) (hpassed : lua'.passed = false)
    (hstopped : lua'.stopped = lua.stopped) (hstart : ∀ param, lua' ≠ .start param) :
    Good { s with lua := lua', results, audplaybuffer := none } := by
  subst hlua
  refine
    { h with
      buffer_lt := nofun
      kept := fun b hb => .inl ?_
      releasing := nofun
      owner := nofun
      playing := ?_
      holds := ?_
      cleared := fun clip hcurrent hclip => ⟨(h.cleared clip hcurrent hclip).1, hset'⟩
      quiet := fun _ => .inl rfl
      passed := fun hafter => absurd (hpassed.symm.trans hafter) Bool.false_ne_true
      noBuffer := fun _ => rfl
      start := fun param hlua => absurd hlua (hstart param)
      frees := h.frees_of_idle (.inr (LuaAudio.prepares_or_stopFrees hreleases)) }
  · rcases h.kept b hb with hfreed | hbuffer
    · exact hfreed
    · exact (h.releasing b hbuffer).2 (.inl hreleases)
  · intro clip hclip
    obtain ⟨hlt, hnot, hrest⟩ := h.playing clip hclip
    exact ⟨hlt, hnot, hstopped.trans hrest⟩
  · intro clip hclip b hb
    -- it has been freed
    obtain ⟨-, hbuffer, -⟩ := h.holds clip hclip b hb
    exact absurd ((h.releasing b hbuffer).2 (.inl hreleases)) (h.safe hclip hb)

/-- **`play` sets `isPlaying`.** -/
theorem setPlaying (h : s.Good) (results : List AudioResult) (hlua : s.lua = .setPlaying) :
    Good { s with lua := .idle, results, isPlaying := true } := by
  have hprepares : s.lua.prepares = false := by rw [hlua]; rfl
  refine
    { h with
      releasing := ?_
      owner := fun b hb => .inr ((h.owner b hb).resolve_left ?_)
      playing := fun clip hclip => ⟨(h.playing clip hclip).1, (h.playing clip hclip).2.1, rfl⟩
      holds := ?_
      cleared := fun clip hcurrent hclip => absurd hlua (h.cleared clip hcurrent hclip).2
      quiet := nofun
      passed := nofun
      noBuffer := nofun
      start := nofun
      frees := ?_ }
  · intro b hb
    rw [h.releasing b hb, Releasing, Releasing, hlua]
    rfl
  · rw [hprepares]
    exact Bool.false_ne_true
  · intro clip hclip b hb
    obtain ⟨hcurrent, hbuffer, -⟩ := h.holds clip hclip b hb
    exact ⟨hcurrent, hbuffer, .inl rfl⟩
  · intro clip c hc hfrees
    obtain ⟨⟨hcurrent, -⟩, hsome⟩ := h.frees clip c hc hfrees
    exact ⟨⟨hcurrent, rfl, rfl⟩, hsome⟩

/-- **`stop` stops the music.** -/
theorem stopMusic (h : s.Good) (hlua : s.lua = .stopMusic) :
    Good { s with playing := [], lua := .stopBuffer } := by
  have hsilent : Good { s with playing := [] } := { h with playing := nofun, holds := nofun }
  exact hsilent.withLua hlua s.results nofun nofun rfl (.inl rfl) (fun _ => .inr rfl) nofun nofun nofun nofun

/-- **`stop` clears `isPlaying`.** -/
theorem stopClear (h : s.Good) (results : List AudioResult) (hlua : s.lua = .stopClear) :
    Good { s with lua := .idle, results, isPlaying := false } := by
  have hnone := h.noBuffer (by rw [hlua]; rfl)
  have hplaying := h.playing_of_stopped (by rw [hlua]; rfl)
  have hnot : ∀ b, s.audplaybuffer ≠ some b := by
    rw [hnone]
    nofun
  have hsilent : ∀ clip, clip ∉ s.playing := List.eq_nil_iff_forall_not_mem.1 hplaying
  exact
    { h with
      releasing := fun b hb => absurd hb (hnot b)
      owner := fun b hb => absurd hb (hnot b)
      playing := fun clip hclip => absurd hclip (hsilent clip)
      holds := fun clip hclip => absurd hclip (hsilent clip)
      cleared := fun _ _ _ => ⟨rfl, nofun⟩
      quiet := fun _ => .inl hnone
      passed := nofun
      noBuffer := nofun
      start := nofun
      frees := h.frees_of_idle (.inl hnone) }

/-! ### The callbacks -/

/-- **A clip comes to its end**, and its callback is called. -/
theorem call (h : s.Good) (result : PlayError) (hlt : clip < s.clips.length) (hnot : clip ∉ s.called) :
    Good { s with
      playing := s.playing.filter (· ≠ clip)
      called := s.called ++ [clip]
      callbacks := Function.update s.callbacks clip (some { result }) } := by
  have hnone : s.callbacks clip = none :=
    Option.eq_none_iff_forall_ne_some.2 fun c hc => hnot (h.callback clip c hc).1
  refine
    { h with
      releasing := fun b hb => (h.releasing b hb).trans (or_congr_right (exists_update_iff ?_ ?_).symm)
      playing := ?_
      holds := fun clip' hclip => h.holds clip' (List.mem_of_mem_filter hclip)
      called_lt := ?_
      cleared_sub := fun clip' hclip => List.mem_append_left _ (h.cleared_sub clip' hclip)
      called := ?_
      callback := forall_update (fun clip' _ c hc => ?_) ?_
      frees := forall_update (fun clip' _ => h.frees clip') ?_ }
  · rw [hnone]
    nofun
  · rintro c hc
    cases hc
    nofun
  · intro clip' hclip
    obtain ⟨hmem, hne⟩ := List.mem_filter.1 hclip
    obtain ⟨hlt', hnot', hstopped⟩ := h.playing clip' hmem
    refine ⟨hlt', fun hcalled => ?_, hstopped⟩
    rcases List.mem_append.1 hcalled with hold | hlast
    · exact hnot' hold
    · exact of_decide_eq_true hne (List.mem_singleton.1 hlast)
  · intro clip' hclip
    rcases List.mem_append.1 hclip with hold | hlast
    · exact h.called_lt clip' hold
    · exact (List.mem_singleton.1 hlast) ▸ hlt
  · intro clip' hclip
    rcases List.mem_append.1 hclip with hold | hlast
    · exact (h.called clip' hold).imp_right fun hc => exists_update fun _ => hc
    · exact .inr (exists_update fun hne => absurd (List.mem_singleton.1 hlast) hne)
  · obtain ⟨hmem, hsend⟩ := h.callback clip' c hc
    exact ⟨List.mem_append_left _ hmem, hsend⟩
  · rintro c hc
    cases hc
    exact ⟨List.mem_append_right _ (List.mem_singleton_self _), nofun⟩
  · rintro c hc
    cases hc
    nofun

/-- **A callback goes on**, without a change of the two variables. -/
theorem moved (h : s.Good) (hc : s.callbacks clip = some c) {pc : CallbackPc} (hnull : c.pc ≠ .null)
    (hnull' : pc ≠ .null) (hsend : pc = .send → clip ∈ s.cleared)
    (hfrees : pc.frees = true → s.MayFree clip ∧ s.audplaybuffer.isSome = true) :
    (s.moveCallback clip c pc).Good := by
  refine
    { h with
      releasing := fun b hb => (h.releasing b hb).trans (or_congr_right (exists_update_iff ?_ ?_).symm)
      called := fun clip' hclip => (h.called clip' hclip).imp_right fun hc => exists_update fun _ => hc
      callback := forall_update (fun clip' _ => h.callback clip') ?_
      frees := forall_update (fun clip' _ => h.frees clip') ?_ }
  · rw [hc]
    rintro c' hc'
    cases hc'
    exact hnull
  all_goals
    rintro c' hc'
    cases hc'
  · exact hnull'
  · exact ⟨(h.callback clip c hc).1, hsend⟩
  · exact hfrees

/-- **A callback frees the buffer.** -/
theorem callbackFree (h : s.Good) (hc : s.callbacks clip = some c) (hpc : c.pc = .free) :
    (s.freeBuffer.moveCallback clip c .null).Good := by
  obtain ⟨⟨hcurrent, hprepares, hstop⟩, hsome⟩ := h.frees clip c hc (by rw [hpc]; rfl)
  have hnot : ¬ s.Releasing := by
    rintro (hreleases | ⟨clip', c', hc', hnull⟩)
    · rcases LuaAudio.prepares_or_stopFrees hreleases with hprepares' | hstop'
      · rw [hprepares] at hprepares'
        cases hprepares'
      · rw [hstop] at hstop'
        cases hstop'
    · -- there is one callback for each clip
      obtain ⟨⟨hcurrent', -⟩, -⟩ := h.frees clip' c' hc' (by rw [hnull]; rfl)
      rw [hcurrent'.unique hcurrent, hc, Option.some.injEq] at hc'
      rw [← hc', hpc] at hnull
      cases hnull
  obtain ⟨hnodup, hlt, hmem, hsub⟩ := h.freeBuffer hnot
  refine
    { h with
      nodup := hnodup
      freed_lt := hlt
      kept := fun b hb => (h.kept b hb).imp_left (hsub b)
      releasing := fun b hb => iff_of_true (hmem b hb) (.inr ⟨clip, _, Function.update_self .., rfl⟩)
      called := fun clip' hclip => (h.called clip' hclip).imp_right fun hc => exists_update fun _ => hc
      callback := forall_update (fun clip' _ => h.callback clip') ?_
      frees := forall_update (fun clip' _ => h.frees clip') ?_ }
  all_goals
    rintro c' hc'
    cases hc'
  · exact ⟨(h.callback clip c hc).1, nofun⟩
  · exact fun _ => ⟨⟨hcurrent, hprepares, hstop⟩, hsome⟩

/-- **A callback forgets it.** -/
theorem callbackNull (h : s.Good) (hc : s.callbacks clip = some c) (hpc : c.pc = .null) :
    ({ s with audplaybuffer := none }.moveCallback clip c .clear).Good := by
  obtain ⟨⟨hcurrent, hprepares, -⟩, -⟩ := h.frees clip c hc (by rw [hpc]; rfl)
  have hmem := (h.callback clip c hc).1
  refine
    { h with
      buffer_lt := nofun
      kept := fun b hb => .inl ?_
      releasing := nofun
      owner := nofun
      holds := ?_
      called := fun clip' hclip => (h.called clip' hclip).imp_right fun hc => exists_update fun _ => hc
      quiet := fun _ => .inl rfl
      noBuffer := fun _ => rfl
      start := ?_
      callback := forall_update (fun clip' _ => h.callback clip') ?_
      frees := forall_update (fun clip' hne c' hc' hfrees => ?_) ?_ }
  · rcases h.kept b hb with hfreed | hbuffer
    · exact hfreed
    · exact (h.releasing b hbuffer).2 (.inr ⟨clip, c, hc, hpc⟩)
  · intro clip' hclip b hb
    -- the clip has come to its end
    have hsame := (h.holds clip' hclip b hb).1.unique hcurrent
    exact absurd (hsame ▸ hmem) (h.playing clip' hclip).2.1
  · intro param hlua
    have hstart : s.lua.prepares = true := by
      rw [show s.lua = .start param from hlua]
      rfl
    rw [hprepares] at hstart
    cases hstart
  · rintro c' hc'
    cases hc'
    exact ⟨hmem, nofun⟩
  · exact absurd ((h.frees clip' c' hc' hfrees).1.1.unique hcurrent) hne
  · rintro c' hc'
    cases hc'
    nofun

/-- **A callback clears `isPlaying`.** -/
theorem callbackClear (h : s.Good) (hc : s.callbacks clip = some c) (hpc : c.pc = .clear)
    (hset : s.IsCurrent clip → s.lua ≠ .setPlaying)
    (hquiet : s.audplaybuffer = none ∨ s.lua.prepares = true ∨ s.lua = .setPlaying) :
    ({ s with isPlaying := false, cleared := s.cleared ++ [clip] }.moveCallback clip c .send).Good := by
  have hclear : Good { s with isPlaying := false, cleared := s.cleared ++ [clip] } := by
    refine
      { h with
        holds := ?_
        cleared_sub := ?_
        called := fun clip' hclip => (h.called clip' hclip).imp_left (List.mem_append_left _)
        cleared := fun clip' hcurrent hclip => ⟨rfl, ?_⟩
        quiet := fun _ => hquiet
        passed := fun _ => rfl
        callback := fun clip' c' hc' => (h.callback clip' c' hc').imp_right fun hsend heq => ?_ }
    · intro clip' hclip b hb
      obtain ⟨hcurrent, hbuffer, -⟩ := h.holds clip' hclip b hb
      refine ⟨hcurrent, hbuffer, .inr ?_⟩
      rcases hquiet with hnone | hprepares | hlua
      · rw [hnone] at hbuffer
        cases hbuffer
      · obtain ⟨hpassed, hne⟩ := LuaAudio.passed_of_prepares hprepares
        exact absurd ((h.bufferOf_of_passed hpassed hne hclip).symm.trans hb) nofun
      · exact hlua
    · intro clip' hclip
      rcases List.mem_append.1 hclip with hold | hlast
      · exact h.cleared_sub clip' hold
      · exact (List.mem_singleton.1 hlast) ▸ (h.callback clip c hc).1
    · rcases List.mem_append.1 hclip with hold | hlast
      · exact (h.cleared clip' hcurrent hold).2
      · exact hset (List.mem_singleton.1 hlast ▸ hcurrent)
    · exact List.mem_append_left _ (hsend heq)
  refine hclear.moved hc ?_ nofun (fun _ => List.mem_append_right _ (List.mem_singleton_self _)) nofun
  rw [hpc]
  nofun

/-- **A callback returns.** -/
theorem callbackSend (h : s.Good) (messages : List AudioMsg) (hc : s.callbacks clip = some c)
    (hpc : c.pc = .send) :
    Good { s with messages, callbacks := Function.update s.callbacks clip none } := by
  refine
    { h with
      releasing := fun b hb => (h.releasing b hb).trans (or_congr_right (exists_update_iff ?_ ?_).symm)
      called := fun clip' hclip => ?_
      callback := forall_update (fun clip' _ => h.callback clip') nofun
      frees := forall_update (fun clip' _ => h.frees clip') nofun }
  · rw [hc]
    rintro c' hc'
    cases hc'
    rw [hpc]
    nofun
  · nofun
  · by_cases heq : clip' = clip
    · subst heq
      exact .inl ((h.callback clip' c hc).2 hpc)
    · exact (h.called clip' hclip).imp_right (exists_update_of_ne heq)

end Good

end AudioState

end OsdCore
