import Mathlib.Data.List.Basic
import Mathlib.Data.Option.Basic

/-! Runs of a partial transition function whose steps all meet a guard, and the
induction rule for what such runs preserve. Nothing here names a program. -/
namespace McuUpdater.Transition
variable {σ α : Type*}

/-- The states reached from `init` by steps that were each allowed by `guard`
in the state they were taken from. -/
inductive Reach (step : σ → α → Option σ) (guard : σ → α → Prop) (init : σ → Prop) : σ → Prop
  | start {s : σ} (h : init s) : Reach step guard init s
  | next {s t : σ} {a : α} (h : Reach step guard init s) (hg : guard s a)
      (hs : step s a = some t) : Reach step guard init t

def anyStep : σ → α → Prop := fun _ _ => True

/-- Take every action in turn; the run is refused where one of its steps is. -/
def run (step : σ → α → Option σ) : List α → σ → Option σ
  | [], s => some s
  | a :: as, s => (step s a).bind (run step as)

variable {step : σ → α → Option σ} {guard : σ → α → Prop} {init : σ → Prop}

@[simp] theorem run_nil (s : σ) : run step [] s = some s := rfl

@[simp] theorem run_cons (a : α) (as : List α) (s : σ) :
    run step (a :: as) s = (step s a).bind (run step as) := rfl

theorem run_append (as bs : List α) (s : σ) :
    run step (as ++ bs) s = (run step as s).bind (run step bs) := by
  induction as generalizing s with
  | nil => rfl
  | cons a as ih =>
    rw [List.cons_append, run_cons, run_cons, Option.bind_assoc]
    exact Option.bind_congr fun t _ => ih t

/-- What holds at the start and is kept by every allowed step holds in every
state reached. -/
theorem Reach.invariant {I : σ → Prop} (hinit : ∀ s, init s → I s)
    (hkeep : ∀ s a t, I s → guard s a → step s a = some t → I t) {s : σ}
    (h : Reach step guard init s) : I s := by
  induction h with
  | start h => exact hinit _ h
  | next _ hg hs ih => exact hkeep _ _ _ ih hg hs

/-- A run of actions the guard never refuses is a way to reach its last state. -/
theorem Reach.extend {l : List α} {s t : σ} (h : Reach step guard init s)
    (hfree : ∀ a ∈ l, ∀ s, guard s a) (hr : run step l s = some t) :
    Reach step guard init t := by
  induction l generalizing s with
  | nil =>
    obtain rfl : s = t := by simpa using hr
    exact h
  | cons a l ih =>
    obtain ⟨u, hu, hr⟩ := Option.bind_eq_some_iff.mp hr
    exact ih (h.next (hfree a (by simp) s) hu) (fun b hb => hfree b (by simp [hb])) hr

/-- `run`, refused also where a step fails the check. -/
def checkedRun (step : σ → α → Option σ) (ok : σ → α → Bool) : List α → σ → Option σ
  | [], s => some s
  | a :: as, s => if ok s a then (step s a).bind (checkedRun step ok as) else none

theorem run_of_checkedRun {l : List α} {ok : σ → α → Bool} {s t : σ}
    (h : checkedRun step ok l s = some t) : run step l s = some t := by
  induction l generalizing s with
  | nil => exact h
  | cons a l ih =>
    rw [checkedRun] at h
    split_ifs at h
    obtain ⟨u, hu, h⟩ := Option.bind_eq_some_iff.mp h
    rw [run_cons, hu]
    exact ih h

/-- A run that passes a check at least as strict as the guard is a way to reach its last
state. -/
theorem Reach.extend_checked {l : List α} {ok : σ → α → Bool} {s t : σ}
    (h : Reach step guard init s) (hok : ∀ s a, ok s a = true → guard s a)
    (hr : checkedRun step ok l s = some t) : Reach step guard init t := by
  induction l generalizing s with
  | nil =>
    obtain rfl : s = t := by simpa [checkedRun] using hr
    exact h
  | cons a l ih =>
    rw [checkedRun] at hr
    split at hr
    case isTrue ha =>
      obtain ⟨u, hu, hr⟩ := Option.bind_eq_some_iff.mp hr
      exact ih (h.next (hok s a ha) hu) hr
    case isFalse => cases hr

end McuUpdater.Transition
