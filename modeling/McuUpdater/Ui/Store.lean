import McuUpdater.Jobs.Log
import McuUpdater.Lib.Transition
import Mathlib.Data.List.Sort

/-! `store/agent.ts`, `api/events.ts`: the panel's copy of the running job's log, fed by
`log` events and by the replies of `fw.job.get`. -/
namespace McuUpdater.Ui
open Jobs

structure LogLine where
  i : Nat
  s : String
  t : String
  deriving DecidableEq

structure LogBatch where
  jobId : Nat
  seq : Nat
  lines : List LogLine

/-- What `fw.job.get` answers about a job's log. -/
structure JobGet where
  log : List LogLine
  logFrom : Nat
  logNext : Nat
  logDropped : Nat

structure Store where
  /-- `state.job?.id` -/
  job : Option Nat := none
  /-- `state.log`, its job and lines -/
  log : Option (Nat × List LogLine) := none
  logOmitted : Bool := false
  /-- `logCursor.current` -/
  cursor : Nat := 0

def ofLine (line : Jobs.LogLine) : LogLine := ⟨line.seq, line.stream, line.text⟩

/-- `MAX_LINE_BYTES` -/
def maxLineBytes : Nat := 8 * 1024

def truncated (text : String) : String :=
  if text.length > maxLineBytes then
    String.ofList (text.toList.take maxLineBytes) ++ " ...[truncated]"
  else text

/-- A line as `LogBatcher.add` queues it. -/
def queued (line : Jobs.LogLine) : LogLine := ⟨line.seq, line.stream, truncated line.text⟩

/-- `job_get`, the part of it about the log. -/
def jobGet (log : JobLog) (logFrom : Nat) : JobGet :=
  let (lines, servedFrom, logNext) := log.logSince logFrom
  ⟨lines.map ofLine, servedFrom, logNext, log.dropped⟩

def Store.linesOf (s : Store) (jobId : Nat) : List LogLine :=
  match s.log with
  | some (id, lines) => if id = jobId then lines else []
  | none => []

def Store.appendLog (s : Store) (batch : LogBatch) : Store :=
  { s with log := some (batch.jobId, s.linesOf batch.jobId ++ batch.lines) }

/-- `merged.set(line.i, line)`, a map kept as its values. -/
def setLine (merged : List LogLine) (line : LogLine) : List LogLine :=
  if merged.any (·.i = line.i) then merged.map fun l => if l.i = line.i then line else l
  else merged ++ [line]

def mergeLines (shown fetched : List LogLine) : List LogLine :=
  ((shown ++ fetched).foldl setLine []).insertionSort (·.i ≤ ·.i)

theorem setLine_keys (merged : List LogLine) (line : LogLine) :
    (setLine merged line).map (·.i) =
      if line.i ∈ merged.map (·.i) then merged.map (·.i) else merged.map (·.i) ++ [line.i] := by
  unfold setLine
  by_cases h : ∃ l ∈ merged, l.i = line.i
  · rw [if_pos (by simpa using h), if_pos (by simpa using h), List.map_map]
    refine List.map_congr_left fun l _ => ?_
    by_cases hl : l.i = line.i <;> simp [hl]
  · rw [if_neg (by simpa using h), if_neg (by simpa using h), List.map_append]
    rfl

theorem mem_setLine {merged : List LogLine} {line l : LogLine} (h : l ∈ setLine merged line) :
    l = line ∨ l ∈ merged := by
  unfold setLine at h
  split at h
  · obtain ⟨k, hk, rfl⟩ := List.mem_map.mp h
    by_cases hi : k.i = line.i
    · exact .inl (if_pos hi)
    · exact .inr (by simpa [hi] using hk)
  · rcases List.mem_append.mp h with h | h
    · exact .inr h
    · exact .inl (List.mem_singleton.mp h)

/-- `Map.set` keeps the keys apart, adds those of the new lines and loses none. -/
theorem foldl_setLine (lines merged : List LogLine) (h : (merged.map (·.i)).Nodup) :
    ((lines.foldl setLine merged).map (·.i)).Nodup ∧
    (∀ l ∈ lines.foldl setLine merged, l ∈ merged ∨ l ∈ lines) ∧
    ∀ i, i ∈ merged.map (·.i) ∨ i ∈ lines.map (·.i) →
      i ∈ (lines.foldl setLine merged).map (·.i) := by
  induction lines generalizing merged with
  | nil => exact ⟨h, fun _ => .inl, by simp⟩
  | cons line lines ih =>
    have hkeys := setLine_keys merged line
    have hn : ((setLine merged line).map (·.i)).Nodup := by
      rw [hkeys]
      split
      case isTrue => exact h
      case isFalse hi => exact List.nodup_append.mpr ⟨h, by simp, by
        intro a ha b hb
        obtain rfl := List.mem_singleton.mp hb
        exact fun hab => hi (hab ▸ ha)⟩
    obtain ⟨hnodup, hmem, hcover⟩ := ih (setLine merged line) hn
    refine ⟨hnodup, fun l hl => ?_, fun i hi => hcover i ?_⟩
    · rcases hmem l hl with hl | hl
      · rcases mem_setLine hl with rfl | hl
        · exact .inr List.mem_cons_self
        · exact .inl hl
      · exact .inr (List.mem_cons_of_mem _ hl)
    · rw [hkeys]
      split <;> simp only [List.map_cons, List.mem_cons, List.mem_append] at hi ⊢ <;> grind

theorem pairwise_mergeLines (shown fetched : List LogLine) :
    (mergeLines shown fetched).Pairwise (·.i < ·.i) := by
  obtain ⟨hn, -, -⟩ := foldl_setLine (shown ++ fetched) [] (by simp)
  have hperm := List.perm_insertionSort (·.i ≤ ·.i : LogLine → LogLine → Prop)
    ((shown ++ fetched).foldl setLine [])
  have hle : (mergeLines shown fetched).Pairwise (·.i ≤ ·.i) := by
    have : Std.Total (·.i ≤ ·.i : LogLine → LogLine → Prop) := ⟨fun a b => Nat.le_total a.i b.i⟩
    have : IsTrans LogLine (·.i ≤ ·.i) := ⟨fun _ _ _ => Nat.le_trans⟩
    exact List.pairwise_insertionSort _ _
  have hne : (mergeLines shown fetched).Pairwise (·.i ≠ ·.i) :=
    List.pairwise_map.mp ((hperm.map LogLine.i).nodup_iff.mpr hn)
  exact hle.imp₂ (fun _ _ hle hne => Nat.lt_of_le_of_ne hle hne) hne

theorem mem_mergeLines {shown fetched : List LogLine} {l : LogLine}
    (h : l ∈ mergeLines shown fetched) : l ∈ shown ∨ l ∈ fetched := by
  obtain ⟨-, hm, -⟩ := foldl_setLine (shown ++ fetched) [] (by simp)
  rcases hm l (List.mem_insertionSort _ |>.mp h) with h | h
  · cases h
  · exact List.mem_append.mp h

theorem exists_mem_mergeLines {shown fetched : List LogLine} {l : LogLine}
    (h : l ∈ shown ∨ l ∈ fetched) : ∃ k ∈ mergeLines shown fetched, k.i = l.i := by
  obtain ⟨-, -, hc⟩ := foldl_setLine (shown ++ fetched) [] (by simp)
  obtain ⟨k, hk, hi⟩ := List.mem_map.mp
    (hc l.i (.inr (List.mem_map.mpr ⟨l, List.mem_append.mpr h, rfl⟩)))
  exact ⟨k, List.mem_insertionSort _ |>.mpr hk, hi⟩

/-- `resyncLog` would drop a reply about this job. -/
def Store.ignores (s : Store) (jobId : Nat) : Bool :=
  s.job.isSome && s.job ≠ some jobId

/-- `resyncLog` from where its reply is in. -/
def Store.resynced (s : Store) (jobId cursorBeforeGap : Nat) (result : JobGet) : Store :=
  if s.ignores jobId then s
  else { s with
    logOmitted := result.logFrom > cursorBeforeGap || result.logDropped > 0
    log := some (jobId, mergeLines (s.linesOf jobId) result.log)
    cursor := max s.cursor result.logNext }

/-- A call of `resyncLog` that waits for its reply, which the agent may have made already.
`first` is no data of the program: it was made for the first batch of its job. -/
structure Resync where
  jobId : Nat
  cursorBeforeGap : Nat
  result : Option JobGet := none
  first : Bool

/-- The agent's jobs and the panel. `output n` is what job `n` has put out, `top` the
newest job. `announced` lines of job `streaming` have gone into `log` events. The last two
fields are no data of the program: the job of the last batch received, and whether the
last one announced was received in sequence. -/
structure Session where
  output : Nat → List (String × String)
  top : Nat
  streaming : Nat
  announced : Nat
  store : Store := {}
  resyncs : List Resync := []
  received : Option Nat := none
  inSequence : Bool := false

inductive Action
  | append (stream text : String)
  | submit
  /-- a `job` event about a job made so far -/
  | jobEvent (j : Nat)
  /-- the next lines go out as a batch and arrive -/
  | receive (k : Nat)
  /-- the next lines go out as a batch and are lost -/
  | lose (k : Nat)
  /-- all lines of a job are out; the next batches are the next job's -/
  | nextJob
  /-- the agent answers a `fw.job.get` -/
  | answer (n : Nat)
  /-- the reply arrives -/
  | reply (n : Nat)

/-- The next `k` lines as a `log` event. -/
def Session.batch (s : Session) (k : Nat) : LogBatch :=
  ⟨s.streaming, s.announced,
    (((numbered (s.output s.streaming)).drop s.announced).take k).map queued⟩

/-- There are `k` lines, and at least one, to go out. -/
def Session.canAnnounce (s : Session) (k : Nat) : Prop :=
  0 < k ∧ s.announced + k ≤ (s.output s.streaming).length

instance (s : Session) (k : Nat) : Decidable (s.canAnnounce k) := inferInstanceAs (Decidable (_ ∧ _))

/-- `routeAgentEvent` on a `log` event: `onLog`, then the cursor. -/
def Session.onLog (s : Session) (batch : LogBatch) : Session :=
  let isGap := batch.seq ≠ s.store.cursor
  let cursor := batch.seq + batch.lines.length
  if isGap then
    { s with
      resyncs := s.resyncs ++ [{
        jobId := batch.jobId
        cursorBeforeGap := s.store.cursor
        first := s.received ≠ some batch.jobId }]
      store := { s.store with cursor }
      received := some batch.jobId
      inSequence := false }
  else
    { s with
      store := { s.store.appendLog batch with cursor }
      received := some batch.jobId
      inSequence := true }

variable (size : Nat → Nat)

/-- The log of job `n`, whose ring buffer holds `size n` lines. -/
def Session.jobLog (s : Session) (n : Nat) : JobLog := JobLog.of (size n) (s.output n)

def Session.step (s : Session) : Action → Option Session
  | .append stream text =>
    some { s with output := Function.update s.output s.top (s.output s.top ++ [(stream, text)]) }
  | .submit => some { s with top := s.top + 1 }
  | .jobEvent j => if j ≤ s.top then some { s with store := { s.store with job := some j } } else none
  | .receive k =>
    if s.canAnnounce k then some { s.onLog (s.batch k) with announced := s.announced + k } else none
  | .lose k =>
    if s.canAnnounce k then some { s with announced := s.announced + k, inSequence := false }
    else none
  | .nextJob =>
    if s.announced = (s.output s.streaming).length ∧ s.streaming < s.top then
      some { s with streaming := s.streaming + 1, announced := 0, inSequence := false }
    else none
  | .answer n =>
    match s.resyncs[n]? with
    | some r =>
      let result := jobGet (s.jobLog size r.jobId) r.cursorBeforeGap
      if r.result.isNone then
        some { s with resyncs := s.resyncs.set n { r with result := some result } }
      else none
    | none => none
  | .reply n =>
    match s.resyncs[n]? with
    | some r => r.result.map fun result => { s with
        resyncs := s.resyncs.eraseIdx n
        store := s.store.resynced r.jobId r.cursorBeforeGap result }
    | none => none

/-- The panel has just connected, in the middle of whatever the agent does. -/
structure Session.Fresh (s : Session) : Prop where
  store : s.store = {}
  resyncs : s.resyncs = []
  received : s.received = none
  inSequence : s.inSequence = false
  streaming : s.streaming ≤ s.top
  announced : s.announced ≤ (s.output s.streaming).length
  unborn : ∀ n, s.top < n → s.output n = []

end McuUpdater.Ui
