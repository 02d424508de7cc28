import McuUpdater.Jobs.Runner
import McuUpdater.Registry.Settings

/-! `jobs.py`: one call of `submit` and each way it can end, with what it leaves of the slot and
of the exclusive file lock (`lock.py`). No other thread is between two of its steps: the slot is
checked and taken inside `with self._slot_lock`. The lock file can be truncated. -/
namespace McuUpdater.Jobs

/-- Who has the lock file locked. -/
inductive LockOwner
  | elsewhere
  | job
  /-- the frames of a call that raised, for as long as its error is kept -/
  | frames
  deriving DecidableEq

/-- The lock file, with the label that is written into it. -/
structure LockFile where
  owner : Option LockOwner := none
  record : Option String := none
  deriving DecidableEq

/-- The part of a `JobRunner` that `submit` and its worker touch, and the lock file. -/
structure JobRunner where
  current : Option Nat := none
  nextId : Nat := 1
  byId : Nat → Option Job := fun _ => none
  recent : List Nat := []
  cancel : Bool := false
  lock : LockFile := {}

/-- What one call meets outside the runner. -/
structure Attempt where
  /-- `self._settings_getter()`, when it does not raise -/
  settings : Option Updater.Settings
  /-- the lock's directory and its file can be opened -/
  opens : Bool
  /-- the record can be written once the file is locked -/
  writes : Bool
  /-- what raised while it was written came after the whole of it -/
  flushed : Bool
  starts : Bool

inductive SubmitError
  | settings
  | busy (job : Nat)
  | unopened
  | lockBusy (holder : Option String)
  | unwritten
  | badLogSize
  | notStarted
  deriving DecidableEq

def lockLabel (kind : String) (params : List (String × String)) : String :=
  let shown := ", ".intercalate (params.map fun kv => s!"{kv.1}={kv.2}")
  s!"{kind} ({shown})"

/-- `ExclusiveLock.acquire`; what raises past `flock` leaves the file to the frames. -/
def acquire (attempt : Attempt) (label : String) (lock : LockFile) :
    Except SubmitError Unit × LockFile :=
  if !attempt.opens then (.error .unopened, lock)
  else if lock.owner.isSome then (.error (.lockBusy lock.record), lock)
  else if attempt.writes then (.ok (), ⟨some .job, some label⟩)
  else (.error .unwritten, ⟨some .frames, if attempt.flushed then some label else none⟩)

/-- `collections.deque(maxlen=log_size)` raises outside 0 and `sys.maxsize`. -/
def takesLogSize (maxsize logSize : Int) : Bool := 0 ≤ logSize && logSize ≤ maxsize

/-- `submit` -/
def JobRunner.submit (maxsize : Int) (attempt : Attempt) (kind : String)
    (params : List (String × String)) (r : JobRunner) : Except SubmitError Nat × JobRunner :=
  match attempt.settings with
  | none => (.error .settings, r)
  | some settings =>
    match r.current with
    | some job => (.error (.busy job), r)
    | none =>
      match acquire attempt (lockLabel kind params) r.lock with
      | (.error e, lock) => (.error e, { r with lock })
      | (.ok (), lock) =>
        let job := r.nextId
        let r := { r with lock, nextId := job + 1 }
        if takesLogSize maxsize settings.logRingSize then
          let r := { r with
            current := some job
            byId := Function.update r.byId job (some { kind })
            cancel := false }
          if attempt.starts then (.ok job, r)
          else (.error .notStarted, { r with
            lock := {}
            current := none
            byId := Function.update r.byId job (some { kind, state := .failed }) })
        else (.error .badLogSize, { r with lock := { lock with owner := some .frames } })

/-- The worker from where its function ends, in this state. -/
def JobRunner.finish (job : Nat) (state : JobState) (r : JobRunner) : JobRunner :=
  { r with
    byId := Function.update r.byId job ((r.byId job).map ({ · with state }))
    lock := {}
    current := none
    recent := job :: r.recent }

/-- The error of a call that raised has been answered: its frames go, and with them the open
file. -/
def JobRunner.letGo (r : JobRunner) : JobRunner :=
  if r.lock.owner = some .frames then { r with lock := { r.lock with owner := none } } else r

section Submit
variable {maxsize : Int} {attempt : Attempt} {kind : String} {params : List (String × String)}
  {r : JobRunner}

/-- A job was returned: it has the slot and the lock, and its worker gives both back. -/
structure Submitted (kind : String) (params : List (String × String)) (job : Nat) (r : JobRunner) :
    Prop where
  slot : r.current = some job
  lock : r.lock = ⟨some .job, some (lockLabel kind params)⟩
  running : r.byId job = some { kind }
  released : ∀ state, (r.finish job state).current = none ∧ (r.finish job state).lock = {} ∧
    (r.finish job state).byId job = some { kind, state }

/-- The lock is as it was, but for a record that nobody stood behind. -/
def LockFile.Restored (before after : LockFile) : Prop :=
  after = before ∨ before.owner = none ∧ after = {}

/-- What is promised of one call. -/
def SubmitAtomic (maxsize : Int) (attempt : Attempt) (kind : String)
    (params : List (String × String)) (r : JobRunner) : Prop :=
  match r.submit maxsize attempt kind params with
  | (.ok job, after) => Submitted kind params job after
  | (.error _, after) => after.current = r.current ∧ r.lock.Restored after.lock

/-- A call that gets the lock can write its record, and its log size is one a ring can have. -/
def SubmitSafe (maxsize : Int) (attempt : Attempt) (r : JobRunner) : Prop :=
  ∀ settings, attempt.settings = some settings → r.current = none → attempt.opens = true →
    r.lock.owner = none →
    attempt.writes = true ∧ 0 ≤ settings.logRingSize ∧ settings.logRingSize ≤ maxsize

/-- A call that is not safe leaves its record behind once its error is answered, and the file
unlocked. -/
structure LeftBehind (attempt : Attempt) (label : String) (after : JobRunner) : Prop where
  locked : after.lock.owner = some .frames
  unlocked : after.letGo.lock.owner = none
  record : attempt.writes = true ∨ attempt.flushed = true → after.letGo.lock.record = some label

/-- `submit` of a runner with a free slot and a free lock file that opens. -/
theorem submit_of_free {settings : Updater.Settings} (hs : attempt.settings = some settings)
    (hslot : r.current = none) (hopen : attempt.opens = true) (hlock : r.lock.owner = none)
    (hwrite : attempt.writes = true) :
    r.submit maxsize attempt kind params =
      if takesLogSize maxsize settings.logRingSize then
        if attempt.starts then (.ok r.nextId, { r with
          lock := ⟨some .job, some (lockLabel kind params)⟩
          nextId := r.nextId + 1
          current := some r.nextId
          byId := Function.update r.byId r.nextId (some { kind })
          cancel := false })
        else (.error .notStarted, { r with
          lock := {}
          nextId := r.nextId + 1
          current := none
          byId := Function.update r.byId r.nextId (some { kind, state := .failed })
          cancel := false })
      else (.error .badLogSize, { r with
        lock := ⟨some .frames, some (lockLabel kind params)⟩
        nextId := r.nextId + 1 }) := by
  simp [JobRunner.submit, acquire, hs, hslot, hopen, hlock, hwrite]

theorem submit_of_refused (h : attempt.settings = none ∨ r.current ≠ none ∨
    attempt.opens = false ∨ r.lock.owner ≠ none) :
    ∃ e, r.submit maxsize attempt kind params = (.error e, r) := by
  obtain ⟨current, nextId, byId, recent, cancel, lock⟩ := r
  cases hs : attempt.settings with
  | none => exact ⟨.settings, by simp [JobRunner.submit, hs]⟩
  | some settings =>
    cases current with
    | some job => exact ⟨.busy job, by simp [JobRunner.submit, hs]⟩
    | none =>
      cases hopen : attempt.opens with
      | false => exact ⟨.unopened, by simp [JobRunner.submit, acquire, hs, hopen]⟩
      | true =>
        have hheld : lock.owner.isSome = true := by
          simpa [hs, hopen, Option.isSome_iff_ne_none] using h
        exact ⟨.lockBusy lock.record, by simp [JobRunner.submit, acquire, hs, hopen, hheld]⟩

theorem submit_of_unwritten {settings : Updater.Settings} (hs : attempt.settings = some settings)
    (hslot : r.current = none) (hopen : attempt.opens = true) (hlock : r.lock.owner = none)
    (hwrite : attempt.writes = false) : r.submit maxsize attempt kind params =
      (.error .unwritten, { r with
        lock := ⟨some .frames, if attempt.flushed then some (lockLabel kind params) else none⟩ }) := by
  simp [JobRunner.submit, acquire, hs, hslot, hopen, hlock, hwrite]

theorem submitted (job : Nat) (hlock : r.lock = ⟨some .job, some (lockLabel kind params)⟩)
    (hslot : r.current = some job) (hjob : r.byId job = some { kind }) :
    Submitted kind params job r :=
  ⟨hslot, hlock, hjob, fun state => ⟨rfl, rfl, by simp [JobRunner.finish, hjob]⟩⟩

theorem not_restored {before after : LockFile} (hfree : before.owner = none)
    (hheld : after.owner = some .frames) : ¬before.Restored after := by
  rintro (rfl | ⟨-, rfl⟩)
  · rw [hfree] at hheld
    cases hheld
  · cases hheld

/-- A call is atomic exactly when it is safe. One that is not raises with the file locked by
its frames alone, and leaves its record in it. -/
theorem submit_atomic_iff (maxsize : Int) (attempt : Attempt) (kind : String)
    (params : List (String × String)) (r : JobRunner) :
    (SubmitAtomic maxsize attempt kind params r ↔ SubmitSafe maxsize attempt r) ∧
      (¬SubmitSafe maxsize attempt r → LeftBehind attempt (lockLabel kind params)
        (r.submit maxsize attempt kind params).2) := by
  by_cases hrefused : attempt.settings = none ∨ r.current ≠ none ∨ attempt.opens = false ∨
      r.lock.owner ≠ none
  · obtain ⟨e, he⟩ : ∃ e, r.submit maxsize attempt kind params = (.error e, r) :=
      submit_of_refused hrefused
    have hsafe : SubmitSafe maxsize attempt r := by
      intro settings hs hslot hopen hlock
      simp [hs, hslot, hopen, hlock] at hrefused
    rw [SubmitAtomic, he]
    exact ⟨iff_of_true ⟨rfl, .inl rfl⟩ hsafe, absurd hsafe⟩
  · simp only [not_or, ne_eq, not_not, Bool.not_eq_false] at hrefused
    obtain ⟨hsettings, hslot, hopen, hlock⟩ := hrefused
    obtain ⟨settings, hs⟩ := Option.ne_none_iff_exists'.1 hsettings
    have safe_iff : SubmitSafe maxsize attempt r ↔ attempt.writes = true ∧
        0 ≤ settings.logRingSize ∧ settings.logRingSize ≤ maxsize :=
      ⟨fun h => h settings hs hslot hopen hlock, fun h settings' hs' _ _ _ => by
        obtain rfl := Option.some.inj (hs.symm.trans hs')
        exact h⟩
    rw [safe_iff, SubmitAtomic]
    cases hwrite : attempt.writes with
    | false =>
      rw [submit_of_unwritten hs hslot hopen hlock hwrite]
      refine ⟨iff_of_false (fun h => not_restored hlock rfl h.2) nofun, fun _ => ⟨rfl, rfl, ?_⟩⟩
      rintro (hwrites | hflushed)
      · rw [hwrite] at hwrites
        cases hwrites
      · exact if_pos hflushed
    | true =>
      rw [submit_of_free hs hslot hopen hlock hwrite]
      by_cases hsize : takesLogSize maxsize settings.logRingSize = true
      · have hbounds : 0 ≤ settings.logRingSize ∧ settings.logRingSize ≤ maxsize := by
          simpa [takesLogSize] using hsize
        rw [if_pos hsize]
        refine ⟨iff_of_true ?_ ⟨rfl, hbounds⟩, absurd ⟨rfl, hbounds⟩⟩
        cases attempt.starts with
        | true => exact submitted r.nextId rfl rfl (by simp)
        | false => exact ⟨hslot.symm, .inr ⟨hlock, rfl⟩⟩
      · have hbounds : ¬(0 ≤ settings.logRingSize ∧ settings.logRingSize ≤ maxsize) := by
          simpa [takesLogSize] using hsize
        rw [if_neg hsize]
        -- the lock was taken for a job that was not made
        exact ⟨iff_of_false (fun h => not_restored hlock rfl h.2) fun h => hbounds h.2,
          fun _ => ⟨rfl, rfl, fun _ => rfl⟩⟩

end Submit

def ringSize (size : String) : CfgDoc.CfgDocument :=
  .ofText (s!"[updater]\nlog_ring_size: {size}\n").toList

def readInt (text : PyText.Str) : Option Int :=
  if text = "-1".toList then some (-1) else none

def unhindered (settings : Updater.Settings) : Attempt := ⟨some settings, true, true, true, true⟩

/-- The error leaves with the file locked, and then a record that no job stands behind; the next
call raises the same. -/
theorem submit_keeps_lock :
    let r := (JobRunner.submit 9223372036854775807 (unhindered { logRingSize := -1 }) "build" [] {}).2
    Updater.settingsFromDoc readInt (ringSize "-1") = .ok { logRingSize := -1 } ∧
    (JobRunner.submit 9223372036854775807 (unhindered { logRingSize := -1 }) "build" [] {}).1 =
      .error .badLogSize ∧
    r.lock = ⟨some .frames, some "build ()"⟩ ∧ r.letGo.lock = ⟨none, some "build ()"⟩ ∧
    (r.letGo.submit 9223372036854775807 (unhindered { logRingSize := -1 }) "build" []).1 =
      .error .badLogSize ∧
    ¬SubmitAtomic 9223372036854775807 (unhindered { logRingSize := -1 }) "build" [] {} := by
  refine ⟨by decide, by decide, by decide, by decide, by decide, fun h => ?_⟩
  exact not_restored rfl rfl h.2

end McuUpdater.Jobs
