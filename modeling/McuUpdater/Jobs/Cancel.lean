import McuUpdater.Jobs.Slot

/-! `jobs.py`: `JobRunner.cancel`, and which job's function sees the event it sets. -/
namespace McuUpdater.Jobs
open Transition

/-- The job whose `submit` has cleared the event and has not started the worker. -/
def Call.cleared : Call → Option Nat
  | .leaving j | .announcing j _ | .starting j => some j
  | _ => none

/-- The job a `cancel` is about to set the event for. -/
def Call.cancels : Call → Option Nat
  | .found j | .requesting j | .setting j => some j
  | _ => none

/-- The job's function runs or is about to, and the event will not be cleared before. -/
def Runner.Listening (s : Runner) (j : Nat) : Prop :=
  (s.workers j).inFunction = true ∨ ∃ p, (s.calls p).cleared = some j

/-- A cancel sets the event while no other job listens, and once its own job's `submit`
has cleared it. -/
def cancelsInTime (s : Runner) (a : Action) : Prop :=
  ∀ p j, a = .advance p → s.calls p = .setting j →
    (∀ i, s.Listening i → i = j) ∧ ∀ q, s.calls q ≠ .clearing j

attribute [local grind] Call.cleared Call.cancels Worker.inFunction

section Listening
variable {s t : Runner} {st : Option Stage} {a : Action} {i j p : Nat}

theorem Call.stage_of_cleared {c : Call} (h : c.cleared = some j) :
    c.stage p = some (.submitted p j) := by
  cases c <;> simp_all [Call.cleared, Call.stage]

theorem Runner.Owned.stage_job_of_listening (hi : s.Owned st) (h : s.Listening j) :
    st.bind Stage.job = some j := by
  rcases h with h | ⟨p, h⟩
  · simp [hi.worker j _ (Worker.stage_of_inFunction h), Stage.job]
  · simp [hi.call p _ (Call.stage_of_cleared h), Stage.job]

theorem Runner.Owned.listening_unique (hi : s.Owned st) (h : s.Listening i)
    (h' : s.Listening j) : i = j := by
  simpa [hi.stage_job_of_listening h] using hi.stage_job_of_listening h'

/-- While a `submit` is at its `clear()`, no job listens. -/
theorem Runner.Owned.not_listening (hi : s.Owned st) (h : s.calls p = .clearing i) :
    ¬ s.Listening j := by
  obtain ⟨calls, workers⟩ := hi.call_alone (p := p) (x := .submitted p i) (by
    simp [h, Call.stage])
  rintro (hj | ⟨q, hq⟩)
  · simpa [workers j] using Worker.stage_of_inFunction (j := j) hj
  · by_cases hqp : q = p
    · simp [hqp, h, Call.cleared] at hq
    · simpa [calls q hqp] using Call.stage_of_cleared (p := q) hq

/-- A job comes to listen by its own `submit`'s `clear()`. -/
theorem Runner.Move.listening (hm : s.Move a t) (h : t.Listening j) :
    s.Listening j ∨ ∃ p, a = .advance p ∧ s.calls p = .clearing j := by
  unfold Runner.Listening at h ⊢
  cases hm
  case unknownJob => exact .inl h
  all_goals
    simp only [Runner.setCall, Runner.setJob, Runner.setWorker, Runner.send] at h
    grind [Function.update]

theorem Runner.Move.event (hm : s.Move a t) :
    (t.cancel = s.cancel ∧ t.setters = s.setters ∧ t.accepted = s.accepted ∧
      ∀ p j, a = .advance p → s.calls p ≠ .clearing j) ∨
    (∃ p j, s.calls p = .clearing j ∧ t.cancel = false ∧ t.setters = [] ∧
      t.accepted = s.accepted) ∨
    ∃ p j, a = .advance p ∧ s.calls p = .setting j ∧ t.cancel = true ∧
      t.setters = j :: s.setters ∧ t.accepted = Function.update s.accepted j true := by
  cases hm
  case clear p j h => exact .inr (.inl ⟨p, j, h, rfl, rfl, rfl⟩)
  case set p j h => exact .inr (.inr ⟨p, j, rfl, h, rfl, rfl, rfl⟩)
  all_goals
    refine .inl ⟨rfl, rfl, rfl, fun q i hq hc => ?_⟩
    simp_all

end Listening

/-- The jobs that cancels name exist, and those that have set the event are past their
own `clear()`. -/
structure Runner.CancelsNamed (s : Runner) : Prop where
  known : ∀ p j, (s.calls p).cancels = some j → j < s.nextId
  given : ∀ j, s.accepted j = true → j < s.nextId
  cleared : ∀ j p, s.accepted j = true → s.calls p ≠ .clearing j

section Named
variable {s t : Runner} {a : Action}

theorem Runner.CancelsNamed.known_step (hi : s.CancelsNamed) (hm : s.Move a t) :
    ∀ p j, (t.calls p).cancels = some j → j < t.nextId := by
  have known := hi.known
  clear hi
  cases hm
  case unknownJob => exact known
  all_goals
    simp only [Runner.setCall, Runner.setJob, Runner.setWorker, Runner.send]
    first
      | exact known
      | grind [Function.update]

theorem Runner.CancelsNamed.given_step (hi : s.CancelsNamed) (hm : s.Move a t) :
    ∀ j, t.accepted j = true → j < t.nextId := by
  have given := hi.given
  cases hm
  case set p j h =>
    have known := hi.known p j (by simp [h, Call.cancels])
    simp only [Runner.setCall]
    grind [Function.update]
  case create => exact fun j hj => Nat.lt_succ_of_lt (given j hj)
  all_goals exact given

theorem Runner.CancelsNamed.cleared_step (hi : s.CancelsNamed) (hg : cancelsInTime s a)
    (hm : s.Move a t) : ∀ j p, t.accepted j = true → t.calls p ≠ .clearing j := by
  obtain ⟨-, given, cleared⟩ := hi
  cases hm
  case unknownJob => exact cleared
  case set p j h =>
    have late := (hg p j rfl h).2
    simp only [Runner.setCall]
    grind [Function.update]
  all_goals
    simp only [Runner.setCall, Runner.setJob, Runner.setWorker, Runner.send]
    first
      | exact cleared
      | grind [Function.update]

theorem Runner.CancelsNamed.step (hi : s.CancelsNamed) (hg : cancelsInTime s a)
    (hm : s.Move a t) : t.CancelsNamed :=
  ⟨hi.known_step hm, hi.given_step hm, hi.cleared_step hg hm⟩

end Named

/-- The event is set for the listening job alone, and a cancel of it is not lost. -/
structure Runner.Targeted (s : Runner) : Prop where
  set : s.cancel = true → s.setters ≠ []
  seen : ∀ j, s.accepted j = true → s.Listening j → s.cancel = true
  own : ∀ j, s.Listening j → ∀ i ∈ s.setters, i = j

theorem Runner.Targeted.step {s t : Runner} {st : Option Stage} {a : Action}
    (hi : s.Targeted) (ho : s.Owned st) (hn : s.CancelsNamed) (hg : cancelsInTime s a)
    (hm : s.Move a t) : t.Targeted := by
  obtain ⟨set, seen, own⟩ := hi
  rcases hm.event with ⟨hc, hs, ha, quiet⟩ | ⟨p, j, h, hc, hs, ha⟩ | ⟨p, j, rfl, h, hc, hs, ha⟩
  · have before : ∀ j, t.Listening j → s.Listening j := fun j hj =>
      (hm.listening hj).resolve_right fun ⟨p, hp, hc⟩ => quiet p j hp hc
    constructor
    · rw [hc, hs]
      exact set
    · rw [hc, ha]
      exact fun j hj hl => seen j hj (before j hl)
    · rw [hs]
      exact fun j hl => own j (before j hl)
  · constructor
    · simp [hc]
    · intro i hi hl
      -- a job with a cancel is past its own `clear()`, so it listened before this one
      have hi : s.accepted i = true := by rwa [ha] at hi
      rcases hm.listening hl with hl | ⟨q, -, hq⟩
      · exact absurd hl (ho.not_listening h)
      · exact absurd hq (hn.cleared i q hi)
    · simp [hs]
  · have alone := (hg p j rfl h).1
    constructor
    · simp [hs]
    · exact fun _ _ _ => hc
    · intro i hl k hk
      have hl : s.Listening i := (hm.listening hl).resolve_right fun ⟨q, hq, hq'⟩ => by
        cases hq
        simp [h] at hq'
      have hij := alone i hl
      rw [hs, List.mem_cons] at hk
      rcases hk with rfl | hk
      · exact hij.symm
      · exact own i hl k hk

/-- A cancel that has set the event is seen by its job's function for the rest of its run,
and what a job's function sees is a cancel of that job. -/
structure Runner.CancelsHit (s : Runner) : Prop where
  seen : ∀ j, s.accepted j = true → (s.workers j).inFunction = true → s.cancel = true
  own : ∀ j, (s.workers j).inFunction = true → s.cancel = true →
    s.setters ≠ [] ∧ ∀ i ∈ s.setters, i = j

theorem Runner.Targeted.of_reach {s : Runner}
    (hr : Reach Runner.step cancelsInTime Runner.Fresh s) : s.CancelsNamed ∧ s.Targeted := by
  suffices h : (∃ st, s.Owned st) ∧ s.CancelsNamed ∧ s.Targeted from h.2
  refine hr.invariant (I := fun s => (∃ st, s.Owned st) ∧ s.CancelsNamed ∧ s.Targeted) ?_ ?_
  · rintro s rfl
    refine ⟨⟨none, .of_fresh rfl⟩, ?_, ?_⟩ <;> constructor <;> simp [Call.cancels]
  · rintro s a t ⟨⟨st, ho⟩, hn, hi⟩ hg hs
    have hm := Runner.step_move hs
    exact ⟨ho.step hm, hn.step hg hm, hi.step ho hn hg hm⟩

/-- In every run the slot and the lock are one job's at a time; in every run whose cancels
are in time, they reach the job they name and no other. -/
theorem slot_kept_and_cancels_hit {s : Runner}
    (hr : Reach Runner.step anyStep Runner.Fresh s) : s.SlotKept ∧
      (Reach Runner.step cancelsInTime Runner.Fresh s → s.CancelsHit) := by
  obtain ⟨st, ho⟩ := Runner.Owned.of_reach hr
  refine ⟨.of_owned ho, fun hr => ?_⟩
  obtain ⟨-, hi⟩ := Runner.Targeted.of_reach hr
  exact ⟨fun j hj hf => hi.seen j hj (.inl hf), fun j hf hc => ⟨hi.set hc, hi.own j (.inl hf)⟩⟩

/-- Thread `p` asks for job `j`'s cancel, up to the setting of the event. -/
def asks (p j : Nat) : List Action := [.cancel p j, .advance p, .advance p]

def setsNothing (s : Runner) : Action → Bool
  | .advance p => match s.calls p with
    | .setting _ => false
    | _ => true
  | _ => true

theorem inTime_of_setsNothing {s : Runner} {a : Action} (h : setsNothing s a = true) :
    cancelsInTime s a := by
  rintro p j rfl hc
  simp [setsNothing, hc] at h

theorem slot_kept_and_cancels_hit_build :
    ∃ s : Runner, s.accepted 0 = true ∧ s.workers 0 = .running ∧ s.SlotKept ∧ s.CancelsHit := by
  have asked := (Reach.start rfl : Reach Runner.step cancelsInTime Runner.Fresh {}).extend_checked
    (l := submits 0 ++ asks 1 0) (fun _ _ => inTime_of_setsNothing) rfl
  obtain ⟨st, ho⟩ := Runner.Owned.of_reach asked
  -- job 0 runs, so no other job listens and no `submit` is at its `clear()`
  have hr := asked.next (a := .advance 1) (by
    rintro p j hp hc
    cases hp
    cases hc
    exact ⟨fun i hi => ho.listening_unique hi (.inl rfl),
      fun q hq => ho.not_listening hq (j := 0) (.inl rfl)⟩) rfl
  have h0 : Reach Runner.step anyStep Runner.Fresh {} := .start rfl
  obtain ⟨hslot, hcancels⟩ := slot_kept_and_cancels_hit (h0.extend
    (l := submits 0 ++ asks 1 0 ++ [.advance 1]) (fun _ _ _ => trivial) rfl)
  exact ⟨_, rfl, rfl, hslot, hcancels hr⟩

/-- A cancel of a job that finishes before the event is set stops the job after it, and one
that sets the event before its own job's `clear()` is lost. -/
theorem cancels_miss :
    (¬ ∀ s, Reach Runner.step anyStep Runner.Fresh s → ∀ j, (s.workers j).inFunction = true →
      s.cancel = true → s.setters ≠ [] ∧ ∀ i ∈ s.setters, i = j) ∧
    ¬ ∀ s, Reach Runner.step anyStep Runner.Fresh s → ∀ j, s.accepted j = true →
      (s.workers j).inFunction = true → s.cancel = true := by
  have h0 : Reach Runner.step anyStep Runner.Fresh {} := .start rfl
  constructor
  · intro hall
    have hr := h0.extend (l := submits 0 ++ asks 1 0 ++ [.finish 0 .succeeded, .work 0, .work 0] ++
      submits 0 ++ [.advance 1]) (fun _ _ _ => trivial) rfl
    exact absurd ((hall _ hr 1 rfl rfl).2 0 (by decide)) (by decide)
  · intro hall
    have hr := h0.extend (l := (submits 0).take 5 ++ asks 1 0 ++ [.advance 1] ++
      List.replicate 5 (.advance 0)) (fun _ _ _ => trivial) rfl
    exact absurd (hall _ hr 0 rfl rfl) (by decide)

end McuUpdater.Jobs
