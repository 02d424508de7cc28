import McuUpdater.Lib.Transition
import Mathlib.Logic.Function.Basic

/-! `agent/events.py`: `StateEmitter`, whose worker is told by a flag that the state has changed. A
`stop` that gives up waiting leaves the old worker behind, and `start` makes another beside it. -/
namespace McuUpdater.Agent.Events
open Transition

/-- Where a worker is in `_loop`. -/
inductive EmitterPhase
  /-- `while not self._stop.is_set()` -/
  | looping
  /-- `self._dirty.wait(self.TICK)`, and whether the flag was up or has been raised meanwhile -/
  | waiting (raised : Bool)
  /-- `if self._stop.is_set()` -/
  | woken
  /-- `self._stop.wait(self.SETTLE)`, likewise -/
  | settling (stopped : Bool)
  | settled
  /-- past `self._dirty.clear()`, before `self._build()` -/
  | cleared
  | building
  | emitting
  /-- not started yet, or returned -/
  | returned

def EmitterPhase.raise : EmitterPhase → EmitterPhase
  | .waiting _ => .waiting true
  | phase => phase

def EmitterPhase.stop : EmitterPhase → EmitterPhase
  | .settling _ => .settling true
  | phase => phase

structure StateEmitter where
  dirty : Bool := false
  stopped : Bool := false
  thread : Option Nat := none
  /-- `stop` has set its flag, and has not raised the other yet -/
  stopping : Bool := false
  workers : Nat → EmitterPhase := fun _ => .returned
  next : Nat := 0

inductive EmitterAction
  | poke
  | start
  /-- `self._stop.set()` -/
  | stop
  /-- the rest of `stop` -/
  | wake
  | look (w : Nat)
  /-- how `self._dirty.wait` returns -/
  | wait (w : Nat) (raised : Bool)
  | check (w : Nat)
  /-- how `self._stop.wait` returns -/
  | settle (w : Nat) (stopped : Bool)
  | clear (w : Nat)
  /-- `self._build` is called -/
  | build (w : Nat)
  /-- it has returned, and `emit` is called -/
  | emit (w : Nat)
  | emitted (w : Nat)
  /-- the build or the emit raises -/
  | fails (w : Nat)
  deriving DecidableEq

namespace StateEmitter
variable (s : StateEmitter)

def setWorker (w : Nat) (phase : EmitterPhase) : StateEmitter :=
  { s with workers := Function.update s.workers w phase }

/-- `self._dirty.set()` -/
def raise : StateEmitter := { s with dirty := true, workers := fun w => (s.workers w).raise }

def step : EmitterAction → Option StateEmitter
  | .poke => some s.raise
  | .start =>
    if s.thread.isSome then some s
    else some ({ s with stopped := false, thread := some s.next, next := s.next + 1 }.setWorker
      s.next .looping)
  | .stop =>
    some { s with stopped := true, stopping := true, workers := fun w => (s.workers w).stop }
  | .wake => if s.stopping then some { s.raise with thread := none, stopping := false } else none
  | .look w =>
    match s.workers w with
    | .looping => some (s.setWorker w (if s.stopped then .returned else .waiting s.dirty))
    | _ => none
  | .wait w raised =>
    match s.workers w with
    | .waiting up =>
      if raised && !up then none else some (s.setWorker w (if raised then .woken else .looping))
    | _ => none
  | .check w =>
    match s.workers w with
    | .woken => some (s.setWorker w (if s.stopped then .returned else .settling false))
    | _ => none
  | .settle w stopped =>
    match s.workers w with
    | .settling up =>
      if stopped && !up then none else some (s.setWorker w (if stopped then .returned else .settled))
    | _ => none
  | .clear w =>
    match s.workers w with
    | .settled => some ({ s with dirty := false }.setWorker w .cleared)
    | _ => none
  | .build w =>
    match s.workers w with
    | .cleared => some (s.setWorker w .building)
    | _ => none
  | .emit w =>
    match s.workers w with
    | .building => some (s.setWorker w .emitting)
    | _ => none
  | .emitted w =>
    match s.workers w with
    | .emitting => some (s.setWorker w .looping)
    | _ => none
  | .fails w =>
    match s.workers w with
    | .building | .emitting => some (s.setWorker w .looping)
    | _ => none

/-- `start` was called and `stop` was not. -/
def Running : Prop := s.thread.isSome = true ∧ s.stopped = false

/-- A worker has cleared the flag, and the next thing it does is to build. -/
def AboutToBuild : Prop := ∃ w, s.workers w = .cleared

/-- After this poke the flag is still up, or a build has started or is the next thing a worker does. -/
def Announces (after : List EmitterAction) : Prop :=
  s.dirty = true ∨ (∃ w, .build w ∈ after) ∨ s.AboutToBuild

end StateEmitter

def takesUp (w : Nat) : List EmitterAction := [.wait w true, .check w, .settle w false, .clear w]

section Facts
variable {s t : StateEmitter} {a : EmitterAction} {w v : Nat} {after : List EmitterAction}

@[simp] theorem setWorker_self (s : StateEmitter) (w : Nat) (phase : EmitterPhase) :
    (s.setWorker w phase).workers w = phase := Function.update_self ..

theorem setWorker_of_ne (h : v ≠ w) (s : StateEmitter) (phase : EmitterPhase) :
    (s.setWorker w phase).workers v = s.workers v := Function.update_of_ne h ..

theorem raise_eq_cleared {phase : EmitterPhase} : phase.raise = .cleared ↔ phase = .cleared := by
  cases phase <;> simp [EmitterPhase.raise]

theorem stop_eq_cleared {phase : EmitterPhase} : phase.stop = .cleared ↔ phase = .cleared := by
  cases phase <;> simp [EmitterPhase.stop]

def EmitterAction.worker : EmitterAction → Option Nat
  | .poke | .start | .stop | .wake => none
  | .look w | .wait w _ | .check w | .settle w _ | .clear w | .build w | .emit w | .emitted w
  | .fails w => some w

/-- A step of one worker moves it on, from where it has to be; only its `clear` lowers the flag, and
only its `build` leads on from there. -/
inductive Worked (s : StateEmitter) (a : EmitterAction) (w : Nat) : StateEmitter → Prop
  | clear (ha : a = .clear w) (hw : s.workers w = .settled) :
      Worked s a w ({ s with dirty := false }.setWorker w .cleared)
  | build (ha : a = .build w) (hw : s.workers w = .cleared) :
      Worked s a w (s.setWorker w .building)
  | other (phase : EmitterPhase) (hw : s.workers w ≠ .cleared) (hlive : s.workers w ≠ .returned) :
      Worked s a w (s.setWorker w phase)

theorem worked_of_step (hs : s.step a = some t) (hw : a.worker = some w) : Worked s a w t := by
  cases a with
  | poke | start | stop | wake => cases hw
  | clear v =>
    cases hw
    rw [StateEmitter.step] at hs
    split at hs <;> cases hs
    exact .clear rfl ‹_›
  | build v =>
    cases hw
    rw [StateEmitter.step] at hs
    split at hs <;> cases hs
    exact .build rfl ‹_›
  | wait v raised =>
    cases hw
    rw [StateEmitter.step] at hs
    split at hs
    · split_ifs at hs
      all_goals
        cases hs
        exact .other _ (by simp [*]) (by simp [*])
    · cases hs
  | settle v stopped =>
    cases hw
    rw [StateEmitter.step] at hs
    split at hs
    · split_ifs at hs
      all_goals
        cases hs
        exact .other _ (by simp [*]) (by simp [*])
    · cases hs
  | look v | check v | emit v | emitted v | fails v =>
    cases hw
    rw [StateEmitter.step] at hs
    split at hs <;> cases hs
    all_goals exact .other _ (by simp [*]) (by simp [*])

theorem Worked.live (h : Worked s a w t) : s.workers w ≠ .returned ∧ t.next = s.next ∧
    ∀ v, v ≠ w → t.workers v = s.workers v := by
  cases h with
  | clear ha hw => exact ⟨by simp [hw], rfl, fun v hv => setWorker_of_ne hv _ _⟩
  | build ha hw => exact ⟨by simp [hw], rfl, fun v hv => setWorker_of_ne hv _ _⟩
  | other phase hw hlive => exact ⟨hlive, rfl, fun v hv => setWorker_of_ne hv _ _⟩

/-- Workers that were not started yet are nowhere. -/
def StateEmitter.Sound (s : StateEmitter) : Prop := ∀ w, s.next ≤ w → s.workers w = .returned

/-- What the other steps leave. -/
inductive Signalled (s : StateEmitter) : EmitterAction → StateEmitter → Prop
  | poke : Signalled s .poke s.raise
  | running : Signalled s .start s
  | start : Signalled s .start
      ({ s with stopped := false, thread := some s.next, next := s.next + 1 }.setWorker s.next
        .looping)
  | stop : Signalled s .stop
      { s with stopped := true, stopping := true, workers := fun w => (s.workers w).stop }
  | wake : Signalled s .wake { s.raise with thread := none, stopping := false }

theorem signalled_of_step (hs : s.step a = some t) (hw : a.worker = none) : Signalled s a t := by
  cases a with
  | poke =>
    cases hs
    exact .poke
  | start =>
    rw [StateEmitter.step] at hs
    split_ifs at hs
    · cases hs
      exact .running
    · cases hs
      exact .start
  | stop =>
    cases hs
    exact .stop
  | wake =>
    rw [StateEmitter.step] at hs
    split_ifs at hs
    cases hs
    exact .wake
  | _ => cases hw

theorem moved_of_step (hs : s.step a = some t) : (∃ w, Worked s a w t) ∨ Signalled s a t := by
  cases hworker : a.worker with
  | some w => exact .inl ⟨w, worked_of_step hs hworker⟩
  | none => exact .inr (signalled_of_step hs hworker)

theorem StateEmitter.Sound.step (h : s.Sound) (hs : s.step a = some t) : t.Sound := by
  intro v hv
  rcases moved_of_step hs with ⟨w, hworked⟩ | hsignalled
  · obtain ⟨hlive, hnext, hothers⟩ := hworked.live
    have hreturned := h v (hnext ▸ hv)
    have hne : v ≠ w := by
      intro hsame
      rw [hsame] at hreturned
      exact hlive hreturned
    rw [hothers v hne]
    exact hreturned
  · cases hsignalled with
    | poke | wake => exact congrArg EmitterPhase.raise (h v hv)
    | stop => exact congrArg EmitterPhase.stop (h v hv)
    | running => exact h v hv
    | start =>
      have hlt : s.next + 1 ≤ v := hv
      rw [setWorker_of_ne (by omega)]
      exact h v (by omega)

theorem cleared_step (h : s.Sound) (hs : s.step a = some t) (hw : s.workers w = .cleared) :
    t.workers w = .cleared ∨ a = .build w := by
  rcases moved_of_step hs with ⟨v, hworked⟩ | hsignalled
  · rcases eq_or_ne w v with rfl | hne
    · cases hworked with
      | clear ha hsettled =>
        rw [hw] at hsettled
        cases hsettled
      | build ha hcleared => exact .inr ha
      | other phase hother hlive => exact absurd hw hother
    · left
      cases hworked <;> rwa [setWorker_of_ne hne]
  · left
    cases hsignalled with
    | poke | wake => exact raise_eq_cleared.mpr hw
    | stop => exact stop_eq_cleared.mpr hw
    | running => exact hw
    | start =>
      have hne : w ≠ s.next := by
        intro hsame
        rw [hsame, h s.next (Nat.le_refl _)] at hw
        cases hw
      rwa [setWorker_of_ne hne]

theorem dirty_step (hs : s.step a = some t) (hdirty : s.dirty = true) :
    t.dirty = true ∨ t.AboutToBuild := by
  rcases moved_of_step hs with ⟨v, hworked⟩ | hsignalled
  · cases hworked with
    | clear ha hsettled => exact .inr ⟨v, setWorker_self _ _ _⟩
    | build ha hcleared => exact .inl hdirty
    | other phase hother hlive => exact .inl hdirty
  · left
    cases hsignalled with
    | poke | wake => rfl
    | stop | running | start => exact hdirty

theorem announces_step (hsound : s.Sound) (hs : s.step a = some t) (h : s.Announces after) :
    t.Announces (after ++ [a]) := by
  rcases h with hdirty | ⟨w, hw⟩ | ⟨w, hw⟩
  · rcases dirty_step hs hdirty with hstill | hnext
    · exact .inl hstill
    · exact .inr (.inr hnext)
  · exact .inr (.inl ⟨w, List.mem_append_left _ hw⟩)
  · rcases cleared_step hsound hs hw with hstill | rfl
    · exact .inr (.inr ⟨w, hstill⟩)
    · exact .inr (.inl ⟨w, List.mem_append_right _ (List.mem_singleton.mpr rfl)⟩)

theorem sound_run {actions : List EmitterAction} (hsound : s.Sound)
    (h : run StateEmitter.step actions s = some t) : t.Sound := by
  induction actions generalizing s with
  | nil =>
    cases h
    exact hsound
  | cons a actions ih =>
    obtain ⟨u, hs, hrest⟩ := Option.bind_eq_some_iff.mp h
    exact ih (hsound.step hs) hrest

theorem announces_run (hsound : s.Sound) {before : List EmitterAction} (h : s.Announces before)
    (hr : run StateEmitter.step after s = some t) : t.Announces (before ++ after) := by
  induction after generalizing s before with
  | nil =>
    cases hr
    rwa [List.append_nil]
  | cons a after ih =>
    obtain ⟨u, hs, hrest⟩ := Option.bind_eq_some_iff.mp hr
    have hnext := ih (hsound.step hs) (announces_step hsound hs h) hrest
    rwa [List.append_assoc] at hnext

/-- From a poke on, to whatever end the run comes. -/
theorem announces_of_poke {before : List EmitterAction}
    (h : run StateEmitter.step (before ++ .poke :: after) {} = some t) : t.Announces after := by
  rw [run_append] at h
  obtain ⟨u, hbefore, hrest⟩ := Option.bind_eq_some_iff.mp h
  obtain ⟨v, hpoke, hafter⟩ := Option.bind_eq_some_iff.mp hrest
  have hsound : u.Sound := sound_run (fun _ _ => rfl) hbefore
  have hraised : v.Announces [] := by
    cases hpoke
    exact .inl rfl
  exact announces_run (hsound.step hpoke) hraised hafter

theorem builds_alone (hw : s.workers w = .looping) (hdirty : s.dirty = true)
    (hstopped : s.stopped = false) :
    ∃ t, run StateEmitter.step (.look w :: takesUp w ++ [.build w]) s = some t ∧
      t.workers w = .building := by
  simp [takesUp, StateEmitter.step, StateEmitter.setWorker, hw, hdirty, hstopped]

theorem fails_step (hs : s.step (.fails w) = some t) : t = s.setWorker w .looping := by
  rw [StateEmitter.step] at hs
  split at hs <;> cases hs
  · rfl
  · rfl

end Facts

/-- After every poke the flag is up, or a build has started, or a worker has cleared the flag and
builds next, whatever the others do. A build or an emit that raises changes nothing of this: its
worker goes on, and so does not count for the last of the three. -/
theorem pokes_announced (actions : List EmitterAction) (s : StateEmitter)
    (h : run StateEmitter.step actions {} = some s) :
    (∀ before after, actions = before ++ .poke :: after →
      s.dirty = true ∨ (∃ w, .build w ∈ after) ∨ ∃ w, s.workers w = .cleared) ∧
    (∀ w, s.workers w = .cleared → (s.step (.build w)).isSome = true ∧
      ∀ a t, s.step a = some t → t.workers w = .cleared ∨ a = .build w) ∧
    ∀ before during w, actions = before ++ .poke :: (during ++ [.fails w]) →
      s.workers w = .looping ∧
        (s.dirty = true ∨ (∃ v, .build v ∈ during) ∨ ∃ v, v ≠ w ∧ s.workers v = .cleared) := by
  have hsound : s.Sound := sound_run (fun _ _ => rfl) h
  refine ⟨fun before after hactions => ?_, fun w hw => ⟨?_, fun a t hs => ?_⟩,
    fun before during w hactions => ?_⟩
  · rw [hactions] at h
    exact announces_of_poke h
  · rw [StateEmitter.step, hw]
    rfl
  · exact cleared_step hsound hs hw
  · have hlooping : s.workers w = .looping := by
      have hsplit : actions = (before ++ .poke :: during) ++ [.fails w] := by simp [hactions]
      rw [hsplit, run_append] at h
      obtain ⟨u, -, hlast⟩ := Option.bind_eq_some_iff.mp h
      obtain ⟨t, hfails, hend⟩ := Option.bind_eq_some_iff.mp hlast
      cases hend
      rw [fails_step hfails, setWorker_self]
    refine ⟨hlooping, ?_⟩
    rw [hactions] at h
    rcases announces_of_poke h with hdirty | ⟨v, hv⟩ | ⟨v, hv⟩
    · exact .inl hdirty
    · rcases List.mem_append.mp hv with hduring | hlast
      · exact .inr (.inl ⟨v, hduring⟩)
      · cases List.mem_singleton.mp hlast
    · refine .inr (.inr ⟨v, fun hsame => ?_, hv⟩)
      rw [hsame, hlooping] at hv
      cases hv

def takenUp : List EmitterAction := [.start, .look 0] ++ .poke :: takesUp 0

theorem pokes_announced_takenUp : ∃ s, run StateEmitter.step takenUp {} = some s ∧
    (s.dirty = true ∨ (∃ w, .build w ∈ takesUp 0) ∨ ∃ w, s.workers w = .cleared) :=
  ⟨_, rfl, (pokes_announced takenUp _ rfl).1 [.start, .look 0] (takesUp 0) rfl⟩

/-- Between the two the flag is down and no build has started. -/
theorem cleared_not_built : ¬∀ actions s, run StateEmitter.step actions {} = some s →
    ∀ before after t, actions = before ++ .poke :: after →
      run StateEmitter.step before {} = some t → t.Running →
        s.dirty = true ∨ ∃ w, .build w ∈ after := by
  intro hall
  rcases hall takenUp _ rfl [.start, .look 0] (takesUp 0) _ rfl rfl ⟨rfl, rfl⟩ with hdirty | ⟨w, hw⟩
  · cases hdirty
  · simp [takesUp] at hw

end McuUpdater.Agent.Events
