import McuUpdater.Jobs.Runner

/-! `jobs.py`: who owns the job slot and the file lock, and which job's function sees
the one event that every cancel sets. -/
namespace McuUpdater.Jobs
open Transition

/-- How far the owner of the slot is: the `submit` of thread `p` for job `j`, then the
job's worker. -/
inductive Stage
  | acquired (p : Nat)
  | submitted (p j : Nat)
  | unstarted (p j : Nat)
  | working (j : Nat)
  | released (j : Nat)
  deriving DecidableEq

def Stage.job : Stage → Option Nat
  | .acquired _ => none
  | .submitted _ j | .unstarted _ j | .working j | .released j => some j

def Stage.holder : Stage → Option Holder
  | .acquired p => some (.submit p)
  | .submitted _ j | .working j => some (.job j)
  | .unstarted _ _ | .released _ => none

def Call.stage (p : Nat) : Call → Option Stage
  | .creating _ => some (.acquired p)
  | .clearing j | .leaving j | .announcing j _ | .starting j => some (.submitted p j)
  | .unstarted j => some (.unstarted p j)
  | _ => none

def Worker.stage (j : Nat) : Worker → Option Stage
  | .running | .stepping _ | .ended => some (.working j)
  | .released => some (.released j)
  | _ => none

/-- Inside `with self._slot_lock`. -/
def Call.inSlot : Call → Bool
  | .checking _ | .locking _ | .creating _ | .clearing _ | .leaving _ => true
  | _ => false

attribute [local grind] Stage.job Stage.holder Call.stage Worker.stage Call.inSlot

theorem Call.stage_thread {p q : Nat} {c d : Call} {x : Stage} (hc : c.stage p = some x)
    (hd : d.stage q = some x) : q = p := by
  cases c <;> cases d <;> grind

theorem Worker.stage_job {i j : Nat} {v w : Worker} {x : Stage} (hv : v.stage i = some x)
    (hw : w.stage j = some x) : j = i := by
  cases v <;> cases w <;> grind

theorem Call.stage_ne_worker {p j : Nat} {c : Call} {w : Worker} {x : Stage}
    (hc : c.stage p = some x) : w.stage j ≠ some x := by
  cases c <;> cases w <;> grind

theorem Call.inSlot_of_acquired {p q : Nat} {c : Call} (h : c.stage p = some (.acquired q)) :
    c.inSlot = true := by
  cases c <;> grind

theorem Stage.holder_ne_foreign (x : Stage) : x.holder ≠ some .foreign := by
  cases x <;> simp [Stage.holder]

/-- The slot lock is the one thread's that is inside it, and the slot stays as that thread
has found it. -/
structure Runner.Guarded (s : Runner) : Prop where
  slot : ∀ p, (s.calls p).inSlot = true → s.slotLock = some p
  vacant : ∀ p kind, s.calls p = .locking kind → s.current = none

/-- Every thread that is past `lock.acquire` and short of freeing the slot is at the
stage `st`, and the slot and the lock are as that stage has them. -/
structure Runner.Owned (s : Runner) (st : Option Stage) : Prop extends s.Guarded where
  call : ∀ p x, (s.calls p).stage p = some x → st = some x
  worker : ∀ j x, (s.workers j).stage j = some x → st = some x
  current : s.current = st.bind Stage.job
  lock : ∀ h, st.bind Stage.holder = some h → s.fileLock = some h

section Guarded
variable {s t : Runner} {a : Action}

theorem Runner.Guarded.slot_step (hi : s.Guarded) (hm : s.Move a t) :
    ∀ p, (t.calls p).inSlot = true → t.slotLock = some p := by
  have slot := hi.slot
  clear hi
  cases hm
  case unknownJob => exact slot
  all_goals
    simp only [Runner.setCall, Runner.setJob, Runner.setWorker, Runner.send]
    grind [Function.update]

theorem Runner.Guarded.vacant_step (hi : s.Guarded) (hm : s.Move a t) :
    ∀ p kind, t.calls p = .locking kind → t.current = none := by
  obtain ⟨slot, vacant⟩ := hi
  cases hm
  case unknownJob => exact vacant
  all_goals
    simp only [Runner.setCall, Runner.setJob, Runner.setWorker, Runner.send]
    grind [Function.update]

end Guarded

section Owned
variable {s t : Runner} {st : Option Stage} {p j : Nat} {x : Stage}

theorem Runner.Owned.call_alone (hi : s.Owned st) (h : (s.calls p).stage p = some x) :
    (∀ q, q ≠ p → (s.calls q).stage q = none) ∧ ∀ j, (s.workers j).stage j = none := by
  have hx := hi.call p x h
  constructor
  · intro q hq
    by_contra hn
    obtain ⟨y, hy⟩ := Option.ne_none_iff_exists'.mp hn
    obtain rfl : x = y := Option.some.inj (hx.symm.trans (hi.call q y hy))
    exact hq (Call.stage_thread h hy)
  · intro j
    by_contra hn
    obtain ⟨y, hy⟩ := Option.ne_none_iff_exists'.mp hn
    obtain rfl : x = y := Option.some.inj (hx.symm.trans (hi.worker j y hy))
    exact Call.stage_ne_worker h hy

theorem Runner.Owned.worker_alone (hi : s.Owned st) (h : (s.workers j).stage j = some x) :
    (∀ p, (s.calls p).stage p = none) ∧ ∀ i, i ≠ j → (s.workers i).stage i = none := by
  have hx := hi.worker j x h
  constructor
  · intro p
    by_contra hn
    obtain ⟨y, hy⟩ := Option.ne_none_iff_exists'.mp hn
    obtain rfl : x = y := Option.some.inj (hx.symm.trans (hi.call p y hy))
    exact Call.stage_ne_worker hy h
  · intro i hij
    by_contra hn
    obtain ⟨y, hy⟩ := Option.ne_none_iff_exists'.mp hn
    obtain rfl : x = y := Option.some.inj (hx.symm.trans (hi.worker i y hy))
    exact hij (Worker.stage_job h hy)

/-- At `lock.acquire` the slot has no owner. -/
theorem Runner.Owned.locking_alone {kind : String} (hi : s.Owned st)
    (h : s.calls p = .locking kind) :
    (∀ q, (s.calls q).stage q = none) ∧ ∀ j, (s.workers j).stage j = none := by
  have hjob : st.bind Stage.job = none := hi.current.symm.trans (hi.vacant p kind h)
  have hp : s.slotLock = some p := hi.slot p (by simp [h, Call.inSlot])
  constructor
  · intro q
    by_contra hn
    obtain ⟨y, hy⟩ := Option.ne_none_iff_exists'.mp hn
    have hst := hi.call q y hy
    -- a stage without a job is `acquired`, and its thread is inside the slot lock
    cases y with
    | acquired r =>
      have hq : q = p := by simpa [hp] using (hi.slot q (Call.inSlot_of_acquired hy)).symm
      simp [hq, h, Call.stage] at hy
    | _ => simp [hst, Stage.job] at hjob
  · intro j
    by_contra hn
    obtain ⟨y, hy⟩ := Option.ne_none_iff_exists'.mp hn
    have hst := hi.worker j y hy
    cases y with
    | acquired r => cases hw : s.workers j <;> simp [hw, Worker.stage] at hy
    | _ => simp [hst, Stage.job] at hjob


theorem Runner.Owned.of_quiet (hi : s.Owned st) (hg : t.Guarded)
    (hcalls : ∀ p, (t.calls p).stage p = (s.calls p).stage p)
    (hworkers : ∀ j, (t.workers j).stage j = (s.workers j).stage j)
    (hcurrent : t.current = s.current) (hlock : t.fileLock = s.fileLock) : t.Owned st :=
  ⟨hg, fun p x hx => hi.call p x (hcalls p ▸ hx), fun j x hx => hi.worker j x (hworkers j ▸ hx),
    hcurrent ▸ hi.current, hlock ▸ hi.lock⟩

theorem Runner.Owned.step {a : Action} (hi : s.Owned st) (hm : s.Move a t) :
    ∃ st, t.Owned st := by
  have hg : t.Guarded := ⟨hi.slot_step hm, hi.vacant_step hm⟩
  have hlock := hi.lock
  cases hm
  case acquire p kind h hl =>
    obtain ⟨calls, workers⟩ := hi.locking_alone h
    have hvacant := hi.vacant p kind h
    refine ⟨some (.acquired p), hg, ?_, ?_, ?_, ?_⟩ <;> simp only [Runner.setCall] <;>
      grind [Function.update]
  case create p kind h =>
    obtain ⟨calls, workers⟩ := hi.call_alone (p := p) (x := .acquired p) (by simp [h, Call.stage])
    refine ⟨some (.submitted p s.nextId), hg, ?_, ?_, ?_, ?_⟩ <;>
      simp only [Runner.setCall, Runner.setJob] <;> grind [Function.update]
  case start p j h =>
    obtain ⟨calls, workers⟩ := hi.call_alone (p := p) (x := .submitted p j) (by
      simp [h, Call.stage])
    have hst := hi.call p (.submitted p j) (by simp [h, Call.stage])
    have hcurrent := hi.current
    refine ⟨some (.working j), hg, ?_, ?_, ?_, ?_⟩ <;>
      simp only [Runner.setCall, Runner.setWorker] <;> grind [Function.update]
  case startFails p j h =>
    obtain ⟨calls, workers⟩ := hi.call_alone (p := p) (x := .submitted p j) (by
      simp [h, Call.stage])
    have hst := hi.call p (.submitted p j) (by simp [h, Call.stage])
    have hcurrent := hi.current
    refine ⟨some (.unstarted p j), hg, ?_, ?_, ?_, ?_⟩ <;> simp only [Runner.setCall] <;>
      grind [Function.update]
  case unslot p j h hl =>
    obtain ⟨calls, workers⟩ := hi.call_alone (p := p) (x := .unstarted p j) (by
      simp [h, Call.stage])
    refine ⟨none, hg, ?_, ?_, ?_, ?_⟩ <;> simp only [Runner.setCall] <;> grind [Function.update]
  case release j h =>
    obtain ⟨calls, workers⟩ := hi.worker_alone (j := j) (x := .working j) (by
      simp [h, Worker.stage])
    have hst := hi.worker j (.working j) (by simp [h, Worker.stage])
    have hcurrent := hi.current
    refine ⟨some (.released j), hg, ?_, ?_, ?_, ?_⟩ <;> simp only [Runner.setWorker] <;>
      grind [Function.update]
  case free j h hl =>
    obtain ⟨calls, workers⟩ := hi.worker_alone (j := j) (x := .released j) (by
      simp [h, Worker.stage])
    refine ⟨none, hg, ?_, ?_, ?_, ?_⟩ <;> simp only [Runner.setWorker] <;> grind [Function.update]
  case foreignLock h =>
    refine ⟨st, hg, hi.call, hi.worker, hi.current, fun k hk => ?_⟩
    exact absurd ((hlock k hk).symm.trans h) (by simp)
  case foreignUnlock h =>
    refine ⟨st, hg, hi.call, hi.worker, hi.current, fun k hk => ?_⟩
    obtain ⟨x, -, hx⟩ := Option.bind_eq_some_iff.mp hk
    obtain rfl : Holder.foreign = k := Option.some.inj (h.symm.trans (hlock k hk))
    exact absurd hx x.holder_ne_foreign
  case unknownJob => exact ⟨st, hi⟩
  -- every other step leaves the owner at its stage
  all_goals
    refine ⟨st, hi.of_quiet hg (fun q => ?_) (fun j => ?_) rfl rfl⟩ <;> first
      | rfl
      | (simp only [Runner.setCall, Runner.setJob, Runner.setWorker, Runner.send]
         grind [Function.update])

end Owned

theorem Runner.Owned.of_fresh {s : Runner} (hs : s.Fresh) : s.Owned none := by
  obtain rfl : s = {} := hs
  have hg : Runner.Guarded {} := by constructor <;> simp [Call.inSlot]
  refine ⟨hg, ?_, ?_, rfl, ?_⟩ <;> simp [Call.stage, Worker.stage]

theorem Runner.Owned.of_reach {s : Runner} {guard : Runner → Action → Prop}
    (hr : Reach Runner.step guard Runner.Fresh s) : ∃ st, s.Owned st := by
  refine hr.invariant (I := fun s => ∃ st, s.Owned st) (fun _ hs => ⟨none, .of_fresh hs⟩) ?_
  rintro s a t ⟨st, hi⟩ - hs
  exact hi.step (Runner.step_move hs)

def Action.thread : Action → Option Nat
  | .submit p _ | .cancel p _ | .advance p | .refuse p | .startFails p => some p
  | _ => none

/-- A `submit` that has not got the lock. -/
def Call.entering : Call → Bool
  | .submitting _ | .checking _ | .locking _ => true
  | _ => false

/-- At most one job's function runs, under its own lock, and the steps of a `submit` that
is refused leave the slot and the lock alone. -/
structure Runner.SlotKept (s : Runner) : Prop where
  one : ∀ i j, (s.workers i).inFunction = true → (s.workers j).inFunction = true → i = j
  locked : ∀ j, (s.workers j).inFunction = true → s.fileLock = some (.job j)
  refused : ∀ p a t, (s.calls p).entering = true → a.thread = some p → s.step a = some t →
    ((t.calls p).entering = true ∨ t.calls p = .idle) →
    t.current = s.current ∧ t.fileLock = s.fileLock

theorem Worker.stage_of_inFunction {j : Nat} {w : Worker} (h : w.inFunction = true) :
    w.stage j = some (.working j) := by
  cases w <;> simp_all [Worker.inFunction, Worker.stage]

/-- Of the steps a `submit` takes before it has the lock, only the one that takes it
touches the slot or the lock. -/
theorem Runner.Move.refused {s t : Runner} {a : Action} {p : Nat} (hm : s.Move a t)
    (he : (s.calls p).entering = true) (hp : a.thread = some p)
    (ht : (t.calls p).entering = true ∨ t.calls p = .idle) :
    t.current = s.current ∧ t.fileLock = s.fileLock := by
  cases hm <;> cases hp
  case acquire => simp [Call.entering] at ht
  all_goals first
    | exact ⟨rfl, rfl⟩
    | simp_all [Call.entering]

theorem Runner.SlotKept.of_owned {s : Runner} {st : Option Stage} (hi : s.Owned st) :
    s.SlotKept where
  one i j h h' := by
    have hst := hi.worker i _ (Worker.stage_of_inFunction h)
    have hst' := hi.worker j _ (Worker.stage_of_inFunction h')
    simpa [hst] using hst'
  locked j h := hi.lock _ (by simp [hi.worker j _ (Worker.stage_of_inFunction h), Stage.holder])
  refused _ _ _ he hp hs ht := (step_move hs).refused he hp ht

/-- Thread `p` submits a job, which starts. -/
def submits (p : Nat) : List Action := .submit p "build" :: List.replicate 9 (.advance p)

end McuUpdater.Jobs
