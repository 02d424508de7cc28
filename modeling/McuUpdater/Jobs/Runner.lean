import McuUpdater.Lib.Transition
import Mathlib.Logic.Function.Basic
import Mathlib.Tactic.Simps.Basic

/-! `jobs.py`: `JobRunner`, as the steps of the threads that call `submit` and `cancel`
and of each job's worker. Building a `Job` does not raise; a step of a thread is what it
does between two accesses to something shared. -/
namespace McuUpdater.Jobs

inductive JobState
  | running
  | succeeded
  | failed
  | cancelled
  deriving DecidableEq

def JobState.isTerminal : JobState → Bool
  | .running => false
  | _ => true

/-- What a notification shows of a job, besides its id. -/
structure Job where
  kind : String
  state : JobState := .running
  cancelRequested : Bool := false
  deriving DecidableEq

/-- On whose behalf the exclusive file lock is held. -/
inductive Holder
  | foreign
  | submit (p : Nat)
  | job (j : Nat)
  deriving DecidableEq

/-- Where a thread is in a call. A snapshot is `job.to_dict()`, on its way out of
`_emit_change`. -/
inductive Call
  | idle
  /-- `submit`, before `with self._slot_lock` -/
  | submitting (kind : String)
  /-- at `if self._current is not None` -/
  | checking (kind : String)
  /-- at `lock.acquire(...)` -/
  | locking (kind : String)
  | creating (kind : String)
  /-- at `self._cancel.clear()` -/
  | clearing (j : Nat)
  /-- at the end of the `with` -/
  | leaving (j : Nat)
  | announcing (j : Nat) (snapshot : Option Job)
  /-- at `thread.start()` -/
  | starting (j : Nat)
  /-- the thread did not start; the lock is released -/
  | unstarted (j : Nat)
  /-- and the slot freed -/
  | unslotted (j : Nat)
  /-- `cancel`, at `if job.is_terminal` -/
  | found (j : Nat)
  /-- at `job.cancel_requested = True` -/
  | requesting (j : Nat)
  /-- at `self._cancel.set()` -/
  | setting (j : Nat)
  | telling (j : Nat) (snapshot : Option Job)
  deriving DecidableEq

/-- Where a job's worker is. -/
inductive Worker
  | notStarted
  /-- in `fn(ctx)` -/
  | running
  /-- in `fn(ctx)`, in the `_emit_change` of `step` -/
  | stepping (snapshot : Option Job)
  /-- the state is set; at `lock.release()` -/
  | ended
  | released
  | announcing (snapshot : Option Job)
  | done
  deriving DecidableEq

/-- The runner. `setters` and `accepted` are no data of the program: the jobs whose
cancels have set the event since it was last cleared, and since ever. Job `n` has the
id `job-(n+1)`. -/
structure Runner where
  slotLock : Option Nat := none
  current : Option Nat := none
  nextId : Nat := 0
  jobs : Nat → Job := fun _ => ⟨"", .running, false⟩
  workers : Nat → Worker := fun _ => .notStarted
  calls : Nat → Call := fun _ => .idle
  cancel : Bool := false
  fileLock : Option Holder := none
  sent : List (Nat × Job) := []
  setters : List Nat := []
  accepted : Nat → Bool := fun _ => false

inductive Action
  | submit (p : Nat) (kind : String)
  | cancel (p j : Nat)
  /-- the next step of the call of thread `p` -/
  | advance (p : Nat)
  /-- the settings or the lock raise in thread `p`'s `submit` -/
  | refuse (p : Nat)
  | startFails (p : Nat)
  /-- job `j`'s function reports a step -/
  | report (j : Nat)
  /-- job `j`'s function returns or raises -/
  | finish (j : Nat) (state : JobState)
  /-- the next step of job `j`'s worker around its function -/
  | work (j : Nat)
  | foreignLock
  | foreignUnlock

@[simps] def Runner.setCall (s : Runner) (p : Nat) (c : Call) : Runner :=
  { s with calls := Function.update s.calls p c }

@[simps] def Runner.setWorker (s : Runner) (j : Nat) (w : Worker) : Runner :=
  { s with workers := Function.update s.workers j w }

@[simps] def Runner.setJob (s : Runner) (j : Nat) (job : Job) : Runner :=
  { s with jobs := Function.update s.jobs j job }

@[simps] def Runner.send (s : Runner) (j : Nat) (snapshot : Job) : Runner :=
  { s with sent := s.sent ++ [(j, snapshot)] }

def Runner.advance (s : Runner) (p : Nat) : Option Runner :=
  match s.calls p with
  | .idle => none
  | .submitting kind =>
    if s.slotLock = none then some ({ s with slotLock := some p }.setCall p (.checking kind))
    else none
  | .checking kind =>
    match s.current with
    -- `BusyError`
    | some _ => some ({ s with slotLock := none }.setCall p .idle)
    | none => some (s.setCall p (.locking kind))
  | .locking kind =>
    if s.fileLock = none then
      some ({ s with fileLock := some (.submit p) }.setCall p (.creating kind))
    else none
  | .creating kind =>
    some (({ s with
      nextId := s.nextId + 1
      current := some s.nextId
      fileLock := some (.job s.nextId) }.setJob s.nextId { kind }).setCall p (.clearing s.nextId))
  | .clearing j => some ({ s with cancel := false, setters := [] }.setCall p (.leaving j))
  | .leaving j => some ({ s with slotLock := none }.setCall p (.announcing j none))
  | .announcing j none => some (s.setCall p (.announcing j (some (s.jobs j))))
  | .announcing j (some snapshot) => some ((s.send j snapshot).setCall p (.starting j))
  | .starting j => some ((s.setWorker j .running).setCall p .idle)
  | .unstarted j =>
    if s.slotLock = none then some ({ s with current := none }.setCall p (.unslotted j)) else none
  | .unslotted j => some ((s.setJob j { s.jobs j with state := .failed }).setCall p .idle)
  | .found j =>
    -- `already_finished`
    if (s.jobs j).state.isTerminal then some (s.setCall p .idle)
    else some (s.setCall p (.requesting j))
  | .requesting j =>
    some ((s.setJob j { s.jobs j with cancelRequested := true }).setCall p (.setting j))
  | .setting j =>
    some ({ s with
      cancel := true
      setters := j :: s.setters
      accepted := Function.update s.accepted j true }.setCall p (.telling j none))
  | .telling j none => some (s.setCall p (.telling j (some (s.jobs j))))
  | .telling j (some snapshot) => some ((s.send j snapshot).setCall p .idle)

def Runner.work (s : Runner) (j : Nat) : Option Runner :=
  match s.workers j with
  | .notStarted | .running | .done => none
  | .stepping none => some (s.setWorker j (.stepping (some (s.jobs j))))
  | .stepping (some snapshot) => some ((s.send j snapshot).setWorker j .running)
  | .ended => some ({ s with fileLock := none }.setWorker j .released)
  | .released =>
    if s.slotLock = none then some ({ s with current := none }.setWorker j (.announcing none))
    else none
  | .announcing none => some (s.setWorker j (.announcing (some (s.jobs j))))
  | .announcing (some snapshot) => some ((s.send j snapshot).setWorker j .done)

def Runner.step (s : Runner) : Action → Option Runner
  | .submit p kind => if s.calls p = .idle then some (s.setCall p (.submitting kind)) else none
  | .cancel p j =>
    if s.calls p = .idle then
      -- an id the runner never gave out is `unknown_job`
      some (if j < s.nextId then s.setCall p (.found j) else s)
    else none
  | .advance p => s.advance p
  | .refuse p =>
    match s.calls p with
    | .submitting _ => some (s.setCall p .idle)
    | .locking _ => some ({ s with slotLock := none }.setCall p .idle)
    | _ => none
  | .startFails p =>
    match s.calls p with
    | .starting j => some ({ s with fileLock := none }.setCall p (.unstarted j))
    | _ => none
  | .report j => if s.workers j = .running then some (s.setWorker j (.stepping none)) else none
  | .finish j state =>
    if s.workers j = .running ∧ state.isTerminal then
      some ((s.setJob j { s.jobs j with state }).setWorker j .ended)
    else none
  | .work j => s.work j
  | .foreignLock => if s.fileLock = none then some { s with fileLock := some .foreign } else none
  | .foreignUnlock =>
    if s.fileLock = some .foreign then some { s with fileLock := none } else none

def Runner.Fresh (s : Runner) : Prop := s = {}

/-- What a step does, one transition of the source a constructor. -/
inductive Runner.Move (s : Runner) : Action → Runner → Prop
  | submit {p kind} (h : s.calls p = .idle) :
    Move s (.submit p kind) (s.setCall p (.submitting kind))
  | cancel {p j} (h : s.calls p = .idle) (hj : j < s.nextId) :
    Move s (.cancel p j) (s.setCall p (.found j))
  | unknownJob {p j} (h : s.calls p = .idle) : Move s (.cancel p j) s
  | enter {p kind} (h : s.calls p = .submitting kind) (hl : s.slotLock = none) :
    Move s (.advance p) ({ s with slotLock := some p }.setCall p (.checking kind))
  | busy {p kind} (h : s.calls p = .checking kind) :
    Move s (.advance p) ({ s with slotLock := none }.setCall p .idle)
  | vacant {p kind} (h : s.calls p = .checking kind) (hc : s.current = none) :
    Move s (.advance p) (s.setCall p (.locking kind))
  | acquire {p kind} (h : s.calls p = .locking kind) (hl : s.fileLock = none) :
    Move s (.advance p) ({ s with fileLock := some (.submit p) }.setCall p (.creating kind))
  | create {p kind} (h : s.calls p = .creating kind) :
    Move s (.advance p) (({ s with
      nextId := s.nextId + 1
      current := some s.nextId
      fileLock := some (.job s.nextId) }.setJob s.nextId { kind }).setCall p (.clearing s.nextId))
  | clear {p j} (h : s.calls p = .clearing j) :
    Move s (.advance p) ({ s with cancel := false, setters := [] }.setCall p (.leaving j))
  | leave {p j} (h : s.calls p = .leaving j) :
    Move s (.advance p) ({ s with slotLock := none }.setCall p (.announcing j none))
  | show {p j} (h : s.calls p = .announcing j none) :
    Move s (.advance p) (s.setCall p (.announcing j (some (s.jobs j))))
  | announce {p j n} (h : s.calls p = .announcing j (some n)) :
    Move s (.advance p) ((s.send j n).setCall p (.starting j))
  | start {p j} (h : s.calls p = .starting j) :
    Move s (.advance p) ((s.setWorker j .running).setCall p .idle)
  | unslot {p j} (h : s.calls p = .unstarted j) (hl : s.slotLock = none) :
    Move s (.advance p) ({ s with current := none }.setCall p (.unslotted j))
  | fail {p j} (h : s.calls p = .unslotted j) :
    Move s (.advance p) ((s.setJob j { s.jobs j with state := .failed }).setCall p .idle)
  | alreadyFinished {p j} (h : s.calls p = .found j) :
    Move s (.advance p) (s.setCall p .idle)
  | unfinished {p j} (h : s.calls p = .found j) (ht : (s.jobs j).state.isTerminal = false) :
    Move s (.advance p) (s.setCall p (.requesting j))
  | request {p j} (h : s.calls p = .requesting j) :
    Move s (.advance p)
      ((s.setJob j { s.jobs j with cancelRequested := true }).setCall p (.setting j))
  | set {p j} (h : s.calls p = .setting j) :
    Move s (.advance p) ({ s with
      cancel := true
      setters := j :: s.setters
      accepted := Function.update s.accepted j true }.setCall p (.telling j none))
  | showCancel {p j} (h : s.calls p = .telling j none) :
    Move s (.advance p) (s.setCall p (.telling j (some (s.jobs j))))
  | tell {p j n} (h : s.calls p = .telling j (some n)) :
    Move s (.advance p) ((s.send j n).setCall p .idle)
  | noSettings {p kind} (h : s.calls p = .submitting kind) :
    Move s (.refuse p) (s.setCall p .idle)
  | held {p kind} (h : s.calls p = .locking kind) :
    Move s (.refuse p) ({ s with slotLock := none }.setCall p .idle)
  | startFails {p j} (h : s.calls p = .starting j) :
    Move s (.startFails p) ({ s with fileLock := none }.setCall p (.unstarted j))
  | report {j} (h : s.workers j = .running) :
    Move s (.report j) (s.setWorker j (.stepping none))
  | showStep {j} (h : s.workers j = .stepping none) :
    Move s (.work j) (s.setWorker j (.stepping (some (s.jobs j))))
  | stepped {j n} (h : s.workers j = .stepping (some n)) :
    Move s (.work j) ((s.send j n).setWorker j .running)
  | finish {j state} (h : s.workers j = .running) (ht : state.isTerminal = true) :
    Move s (.finish j state) ((s.setJob j { s.jobs j with state }).setWorker j .ended)
  | release {j} (h : s.workers j = .ended) :
    Move s (.work j) ({ s with fileLock := none }.setWorker j .released)
  | free {j} (h : s.workers j = .released) (hl : s.slotLock = none) :
    Move s (.work j) ({ s with current := none }.setWorker j (.announcing none))
  | showEnd {j} (h : s.workers j = .announcing none) :
    Move s (.work j) (s.setWorker j (.announcing (some (s.jobs j))))
  | announceEnd {j n} (h : s.workers j = .announcing (some n)) :
    Move s (.work j) ((s.send j n).setWorker j .done)
  | foreignLock (h : s.fileLock = none) :
    Move s .foreignLock { s with fileLock := some .foreign }
  | foreignUnlock (h : s.fileLock = some .foreign) :
    Move s .foreignUnlock { s with fileLock := none }

theorem Runner.advance_move {s t : Runner} {p : Nat} (hs : s.advance p = some t) :
    s.Move (.advance p) t := by
  unfold Runner.advance at hs
  split at hs
  case h_1 => cases hs
  case h_2 _ kind h =>
    split at hs <;> cases hs
    exact .enter h ‹_›
  case h_3 _ kind h =>
    split at hs
    case h_1 => cases hs; exact .busy h
    case h_2 hc => cases hs; exact .vacant h hc
  case h_4 _ kind h =>
    split at hs <;> cases hs
    exact .acquire h ‹_›
  case h_5 _ kind h => cases hs; exact .create h
  case h_6 _ j h => cases hs; exact .clear h
  case h_7 _ j h => cases hs; exact .leave h
  case h_8 _ j h => cases hs; exact .show h
  case h_9 _ j n h => cases hs; exact .announce h
  case h_10 _ j h => cases hs; exact .start h
  case h_11 _ j h =>
    split at hs <;> cases hs
    exact .unslot h ‹_›
  case h_12 _ j h => cases hs; exact .fail h
  case h_13 _ j h =>
    by_cases ht : (s.jobs j).state.isTerminal = true <;> simp only [ht] at hs <;> cases hs
    · exact .alreadyFinished h
    · exact .unfinished h (by simpa using ht)
  case h_14 _ j h => cases hs; exact .request h
  case h_15 _ j h => cases hs; exact .set h
  case h_16 _ j h => cases hs; exact .showCancel h
  case h_17 _ j n h => cases hs; exact .tell h

theorem Runner.work_move {s t : Runner} {j : Nat} (hs : s.work j = some t) :
    s.Move (.work j) t := by
  unfold Runner.work at hs
  split at hs
  case h_1 => cases hs
  case h_2 => cases hs
  case h_3 => cases hs
  case h_4 h => cases hs; exact .showStep h
  case h_5 n h => cases hs; exact .stepped h
  case h_6 h => cases hs; exact .release h
  case h_7 h =>
    split at hs <;> cases hs
    exact .free h ‹_›
  case h_8 h => cases hs; exact .showEnd h
  case h_9 n h => cases hs; exact .announceEnd h

theorem Runner.step_move {s t : Runner} {a : Action} (hs : s.step a = some t) : s.Move a t := by
  cases a with
  | submit p kind =>
    by_cases h : s.calls p = .idle <;> simp only [Runner.step, h] at hs <;> cases hs
    exact .submit h
  | cancel p j =>
    by_cases h : s.calls p = .idle <;> simp only [Runner.step, h] at hs <;> cases hs
    by_cases hj : j < s.nextId
    · simpa only [hj, if_true] using .cancel h hj
    · simpa only [hj, if_false] using .unknownJob h
  | advance p => exact advance_move hs
  | refuse p =>
    cases h : s.calls p <;> simp only [Runner.step, h] at hs <;> cases hs
    · exact .noSettings h
    · exact .held h
  | startFails p =>
    cases h : s.calls p <;> simp only [Runner.step, h] at hs <;> cases hs
    exact .startFails h
  | report j =>
    by_cases h : s.workers j = .running <;> simp only [Runner.step, h] at hs <;> cases hs
    exact .report h
  | finish j state =>
    by_cases h : s.workers j = .running ∧ state.isTerminal = true <;>
      simp only [Runner.step, h] at hs <;> cases hs
    exact .finish h.1 h.2
  | work j => exact work_move hs
  | foreignLock =>
    by_cases h : s.fileLock = none <;> simp only [Runner.step, h] at hs <;> cases hs
    exact .foreignLock h
  | foreignUnlock =>
    by_cases h : s.fileLock = some .foreign <;> simp only [Runner.step, h] at hs <;> cases hs
    exact .foreignUnlock h

def Worker.inFunction : Worker → Bool
  | .running | .stepping _ => true
  | _ => false

end McuUpdater.Jobs
