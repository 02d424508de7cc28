import McuUpdater.Ui.Store

/-! `agent/events.py`: the lines of the jobs' logs on their way to the panel, in batches. A flush,
the timer's or the one of `stop`, is one step under the lock, and so is an `add`. -/
namespace McuUpdater.Agent
open Jobs (LogLine)
open Ui (queued)

/-- `MAX_LINES` -/
def maxLines : Nat := 40

/-- `MAX_BYTES` -/
def maxBytes : Nat := 32 * 1024

/-- The data of a `log` event. -/
structure Batch where
  jobId : Nat
  seq : Option Nat
  lines : List Ui.LogLine
  deriving DecidableEq

/-- `emitted` is history: what `emit` was handed, whether or not a peer was there. -/
structure LogBatcher where
  jobId : Option Nat := none
  pending : List Ui.LogLine := []
  firstSeq : Option Nat := none
  bytes : Nat := 0
  emitted : List Batch := []

/-- `_flush_locked` -/
def LogBatcher.flush (b : LogBatcher) : LogBatcher :=
  match b.pending, b.jobId with
  | [], _ | _, none => b
  | _ :: _, some jobId =>
    { b with pending := [], firstSeq := none, bytes := 0,
             emitted := b.emitted ++ [⟨jobId, b.firstSeq, b.pending⟩] }

/-- A line is put with those of its job that wait. -/
def LogBatcher.push (b : LogBatcher) (jobId : Nat) (line : LogLine) : LogBatcher :=
  { b with jobId := some jobId, firstSeq := b.firstSeq.or (some line.seq),
           pending := b.pending ++ [queued line],
           bytes := b.bytes + (queued line).t.length + 24 }

def LogBatcher.separate (b : LogBatcher) (jobId : Nat) : LogBatcher :=
  if b.jobId.isSome && b.jobId ≠ some jobId then b.flush else b

def LogBatcher.full (b : LogBatcher) : Bool :=
  maxLines ≤ b.pending.length || maxBytes ≤ b.bytes

def LogBatcher.add (b : LogBatcher) (jobId : Nat) (line : LogLine) : LogBatcher :=
  let next := (b.separate jobId).push jobId line
  if next.full then next.flush else next

inductive BatchAction
  | add (jobId : Nat) (line : LogLine)
  | flush

def LogBatcher.step (b : LogBatcher) : BatchAction → LogBatcher
  | .add jobId line => b.add jobId line
  | .flush => b.flush

def LogBatcher.run (actions : List BatchAction) : LogBatcher :=
  actions.foldl LogBatcher.step {}

def LogBatcher.batchesOf (b : LogBatcher) (jobId : Nat) : List Batch :=
  b.emitted.filter (·.jobId = jobId)

def LogBatcher.pendingOf (b : LogBatcher) (jobId : Nat) : List Ui.LogLine :=
  if b.jobId = some jobId then b.pending else []

def linesOf (actions : List BatchAction) (jobId : Nat) : List LogLine :=
  actions.filterMap fun action =>
    match action with
    | .add id line => if id = jobId then some line else none
    | .flush => none

/-- A batch is numbered by its first line, and holds no more lines than are allowed. -/
structure Batch.Sound (batch : Batch) : Prop where
  nonempty : batch.lines ≠ []
  seq : batch.seq = batch.lines.head?.map (·.i)
  short : batch.lines.length ≤ maxLines

/-- Every line that was added is in a batch of its job or waits, at most `n` of them. -/
structure Batched (actions : List BatchAction) (n : Nat) (b : LogBatcher) : Prop where
  conserved : ∀ j, (b.batchesOf j).flatMap Batch.lines ++ b.pendingOf j =
    (linesOf actions j).map queued
  first : b.firstSeq = b.pending.head?.map (·.i)
  owned : b.pending ≠ [] → b.jobId ≠ none
  short : b.pending.length ≤ n
  sound : ∀ batch ∈ b.emitted, batch.Sound

section Facts
variable {actions : List BatchAction} {b : LogBatcher} {jobId n : Nat} {line : LogLine}

theorem flush_pending (h : b.pending ≠ [] → b.jobId ≠ none) : b.flush.pending = [] := by
  unfold LogBatcher.flush
  split
  case h_1 hnil => exact hnil
  case h_2 hnone _ =>
    by_contra hne
    exact h hne hnone
  case h_3 => rfl

theorem Batched.flush (h : Batched actions maxLines b) : Batched actions 0 b.flush := by
  have hnil := flush_pending h.owned
  have hempty : b.pending = [] → b.flush = b := by
    intro hp
    rw [LogBatcher.flush, hp]
  by_cases hp : b.pending = []
  · rw [hempty hp]
    exact ⟨h.conserved, h.first, h.owned, by simp [hp], h.sound⟩
  · obtain ⟨id, hid⟩ := Option.ne_none_iff_exists'.mp (h.owned hp)
    obtain ⟨head, rest, hcons⟩ := List.exists_cons_of_ne_nil hp
    have hflush : b.flush =
        ⟨b.jobId, [], none, 0, b.emitted ++ [⟨id, b.firstSeq, b.pending⟩]⟩ := by
      rw [LogBatcher.flush, hcons, hid]
    refine ⟨fun j => ?_, ?_, fun hne => absurd hnil hne, by rw [hnil]; rfl, fun batch hbatch => ?_⟩
    · rw [← h.conserved j, hflush]
      by_cases hj : id = j
      · simp [LogBatcher.batchesOf, LogBatcher.pendingOf, hid, hj]
      · simp [LogBatcher.batchesOf, LogBatcher.pendingOf, hid, hj]
    · rw [hflush]
      rfl
    · rw [hflush] at hbatch
      rcases List.mem_append.mp hbatch with hold | hlast
      · exact h.sound batch hold
      · rw [List.mem_singleton.mp hlast]
        exact ⟨hp, h.first, h.short⟩

theorem linesOf_add (jobId j : Nat) (line : LogLine) :
    linesOf (actions ++ [.add jobId line]) j =
      linesOf actions j ++ if jobId = j then [line] else [] := by
  by_cases hj : jobId = j <;> simp [linesOf, hj]

theorem linesOf_flush (j : Nat) : linesOf (actions ++ [.flush]) j = linesOf actions j := by
  simp [linesOf]

theorem Batched.push (h : Batched actions n b) (hown : b.pending = [] ∨ b.jobId = some jobId) :
    Batched (actions ++ [.add jobId line]) (n + 1) (b.push jobId line) := by
  have hbefore : ∀ j, b.pendingOf j = if jobId = j then b.pending else [] := by
    intro j
    rcases hown with hnil | hid
    · simp [LogBatcher.pendingOf, hnil]
    · simp [LogBatcher.pendingOf, hid]
  refine ⟨fun j => ?_, ?_, fun _ => by simp [LogBatcher.push], ?_, h.sound⟩
  · have hafter : (b.push jobId line).pendingOf j =
        b.pendingOf j ++ if jobId = j then [queued line] else [] := by
      rw [hbefore]
      by_cases hj : jobId = j <;> simp [LogBatcher.pendingOf, LogBatcher.push, hj]
    rw [hafter, linesOf_add, List.map_append, ← h.conserved j, List.append_assoc]
    change (b.batchesOf j).flatMap Batch.lines ++ _ = _
    by_cases hj : jobId = j <;> simp [hj]
  · change b.firstSeq.or (some line.seq) = ((b.pending ++ [queued line]).head?).map (·.i)
    rw [h.first]
    cases b.pending with
    | nil => rfl
    | cons head rest => rfl
  · change (b.pending ++ [queued line]).length ≤ n + 1
    have hshort := h.short
    rw [List.length_append, List.length_singleton]
    omega

theorem Batched.mono (h : Batched actions n b) {m : Nat} (hm : n ≤ m) : Batched actions m b :=
  ⟨h.conserved, h.first, h.owned, h.short.trans hm, h.sound⟩

theorem Batched.separate (h : Batched actions (maxLines - 1) b) (jobId : Nat) :
    Batched actions (maxLines - 1) (b.separate jobId) ∧
      ((b.separate jobId).pending = [] ∨ (b.separate jobId).jobId = some jobId) := by
  unfold LogBatcher.separate
  split
  case isTrue =>
    exact ⟨(h.mono (Nat.sub_le _ _)).flush.mono (Nat.zero_le _), .inl (flush_pending h.owned)⟩
  case isFalse hother =>
    refine ⟨h, ?_⟩
    by_cases hid : b.jobId = some jobId
    · exact .inr hid
    · refine .inl (by_contra fun hne => hother ?_)
      simpa [hid] using Option.isSome_iff_ne_none.mpr (h.owned hne)

theorem Batched.add (h : Batched actions (maxLines - 1) b) (jobId : Nat) (line : LogLine) :
    Batched (actions ++ [.add jobId line]) (maxLines - 1) (b.add jobId line) := by
  obtain ⟨hsep, hown⟩ := h.separate jobId
  have hpush : Batched (actions ++ [.add jobId line]) maxLines
      ((b.separate jobId).push jobId line) := hsep.push hown
  unfold LogBatcher.add
  dsimp only
  split
  case isTrue => exact hpush.flush.mono (Nat.zero_le _)
  case isFalse hfull =>
    refine ⟨hpush.conserved, hpush.first, hpush.owned, ?_, hpush.sound⟩
    simp only [LogBatcher.full, Bool.or_eq_true, decide_eq_true_eq, not_or] at hfull
    omega

theorem batched_run (actions : List BatchAction) :
    Batched actions (maxLines - 1) (LogBatcher.run actions) := by
  induction actions using List.reverseRecOn with
  | nil => exact ⟨fun _ => rfl, rfl, fun h => absurd rfl h, Nat.zero_le _, by simp [LogBatcher.run]⟩
  | append_singleton actions action ih =>
    rw [LogBatcher.run, List.foldl_append]
    cases action with
    | add jobId line => exact ih.add jobId line
    | flush =>
      have hflushed := (ih.mono (Nat.sub_le _ _)).flush
      refine ⟨fun j => ?_, hflushed.first, hflushed.owned,
        hflushed.short.trans (Nat.zero_le _), hflushed.sound⟩
      rw [linesOf_flush]
      exact hflushed.conserved j

def Follows (x y : Batch) : Prop := ∃ s, x.seq = some s ∧ y.seq = some (s + x.lines.length)

theorem Batch.Sound.seq_of_range {batch : Batch} {more : List Ui.LogLine} {start : Nat}
    (h : batch.Sound) (hrange : (batch.lines ++ more).map (·.i) = List.range' start n) :
    batch.seq = some start := by
  obtain ⟨head, rest, hcons⟩ := List.exists_cons_of_ne_nil h.nonempty
  rw [hcons, List.cons_append, List.map_cons] at hrange
  have hstart := (List.range'_eq_cons_iff.mp hrange.symm).1
  rw [h.seq, hcons, hstart]
  rfl

theorem isChain_follows {batches : List Batch} {start : Nat} (hsound : ∀ batch ∈ batches, batch.Sound)
    (hrange : (batches.flatMap Batch.lines).map (·.i) = List.range' start n) :
    batches.IsChain Follows := by
  induction batches generalizing start n with
  | nil => exact .nil
  | cons x rest ih =>
    rw [List.forall_mem_cons] at hsound
    rw [List.flatMap_cons] at hrange
    have hx := hsound.1.seq_of_range hrange
    rw [List.map_append] at hrange
    obtain ⟨k, -, hhead, htail⟩ := List.range'_eq_append_iff.mp hrange.symm
    have hchain := ih hsound.2 htail
    cases rest with
    | nil => exact .singleton _
    | cons y rest =>
      refine .cons_cons ⟨start, hx, ?_⟩ hchain
      have hlen := congrArg List.length hhead
      rw [List.length_map, List.length_range'] at hlen
      rw [List.flatMap_cons] at htail
      rw [(List.forall_mem_cons.mp hsound.2).1.seq_of_range htail, hlen, Nat.mul_one]

end Facts

/-- Once flushed, the batches of a job hold its lines as they were queued, in order; none is over
the limit, each is numbered by its first line, and the next one starts where it ends. -/
theorem log_batches (actions : List BatchAction)
    (hnumbered : ∀ j, ∃ start n, (linesOf actions j).map LogLine.seq = List.range' start n) :
    let b := LogBatcher.run actions
    (∀ j, (b.flush.batchesOf j).flatMap Batch.lines = (linesOf actions j).map queued) ∧
      (∀ batch ∈ b.flush.emitted, batch.Sound) ∧ b.emitted <+: b.flush.emitted ∧
      ∀ j, (b.flush.batchesOf j).IsChain Follows := by
  intro b
  have h := (batched_run actions).mono (Nat.sub_le _ _)
  have hall : ∀ j, (b.flush.batchesOf j).flatMap Batch.lines = (linesOf actions j).map queued := by
    intro j
    have hnone : b.flush.pendingOf j = [] := by simp [LogBatcher.pendingOf, flush_pending h.owned, b]
    rw [← h.flush.conserved j, hnone, List.append_nil]
  refine ⟨hall, h.flush.sound, ?_, fun j => ?_⟩
  · unfold LogBatcher.flush
    split
    case h_1 | h_2 => exact List.prefix_rfl
    case h_3 => exact List.prefix_append _ _
  · obtain ⟨start, n, hrange⟩ := hnumbered j
    have hseqs : ((b.flush.batchesOf j).flatMap Batch.lines).map (·.i) = List.range' start n := by
      rw [hall, List.map_map, ← hrange]
      rfl
    exact isChain_follows (fun batch hbatch => h.flush.sound batch (List.mem_filter.mp hbatch).1) hseqs

def twoJobs : List BatchAction :=
  [.add 1 ⟨0, "out", "a"⟩, .add 1 ⟨1, "out", "b"⟩, .add 2 ⟨0, "out", "c"⟩, .flush]

theorem log_batches_two_jobs :
    ((LogBatcher.run twoJobs).flush.batchesOf 1).flatMap Batch.lines =
      [⟨0, "out", "a"⟩, ⟨1, "out", "b"⟩] ∧
    ((LogBatcher.run twoJobs).flush.batchesOf 2).IsChain Follows := by
  have hnumbered : ∀ j, ∃ start n, (linesOf twoJobs j).map LogLine.seq = List.range' start n := by
    intro j
    by_cases h1 : j = 1
    · exact ⟨0, 2, by rw [h1]; rfl⟩
    · by_cases h2 : j = 2
      · exact ⟨0, 1, by rw [h2]; rfl⟩
      · exact ⟨0, 0, by simp [linesOf, twoJobs, Ne.symm h1, Ne.symm h2]⟩
  obtain ⟨hlines, -, -, hchain⟩ := log_batches twoJobs hnumbered
  exact ⟨(hlines 1).trans (by decide +kernel), hchain 2⟩

/-- A line of 8193 characters reaches the panel cut. -/
theorem long_line_is_cut : ∃ line : LogLine,
    ((LogBatcher.run [.add 1 line]).flush.batchesOf 1).flatMap Batch.lines ≠ [Ui.ofLine line] := by
  refine ⟨⟨0, "out", String.ofList (List.replicate (Ui.maxLineBytes + 1) 'a')⟩, fun hsame => ?_⟩
  have h := (batched_run [.add 1 ⟨0, "out", String.ofList
    (List.replicate (Ui.maxLineBytes + 1) 'a')⟩]).mono (Nat.sub_le maxLines 1)
  have hall := h.flush.conserved 1
  have hnone : ∀ b : LogBatcher, b.pending = [] → b.pendingOf 1 = [] := by
    intro b hnil
    simp [LogBatcher.pendingOf, hnil]
  rw [hnone _ (flush_pending h.owned), List.append_nil, hsame] at hall
  have htext := congrArg (List.map fun line : Ui.LogLine => line.t.length) hall
  simp [linesOf, queued, Ui.ofLine, Ui.truncated] at htext
  exact absurd htext (by decide)

end McuUpdater.Agent
