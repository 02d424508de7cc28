import McuUpdater.Jobs.Log

/-! `jobs.py`: a client that asks for a job's log again and again, each time from the number it
was told to ask with next. -/
namespace McuUpdater.Jobs

/-- What one request was answered, and the job's log as it was then. -/
structure Poll where
  asked : Nat
  output : List (String × String)
  log : JobLog
  answer : List LogLine × Nat × Nat

/-- A job and one client; `output` and `polls` are history. -/
structure Polling where
  log : JobLog := {}
  output : List (String × String) := []
  told : Nat := 0
  polls : List Poll := []

inductive PollEvent
  | append (stream text : String)
  | poll

def PollEvent.line : PollEvent → Option (String × String)
  | .append stream text => some (stream, text)
  | .poll => none

def Polling.step (size : Nat) (s : Polling) : PollEvent → Polling
  | .append stream text =>
    { s with log := s.log.append size stream text, output := s.output ++ [(stream, text)] }
  | .poll =>
    let answer := s.log.logSince s.told
    { s with told := answer.2.2, polls := s.polls ++ [⟨s.told, s.output, s.log, answer⟩] }

def Polling.run (size : Nat) (events : List PollEvent) : Polling :=
  events.foldl (Polling.step size) {}

def Polling.seen (s : Polling) : List LogLine := s.polls.flatMap fun poll => poll.answer.1

/-- The lines from `asked` on, or from the first that is not evicted, to the newest. -/
def served (output : List (String × String)) (dropped asked : Nat) : List LogLine × Nat × Nat :=
  ((numbered output).drop (max asked dropped), max asked dropped, output.length)

section Facts
variable {size : Nat} {output : List (String × String)} {s : Polling}

theorem filter_numbered (d start : Nat) : ((numbered output).drop d).filter (start ≤ ·.seq) =
    (numbered output).drop (max start d) := by
  induction output using List.reverseRecOn with
  | nil => simp [numbered]
  | append_singleton output line ih =>
    rw [numbered_append]
    by_cases hd : d ≤ output.length
    · rw [List.drop_append_of_le_length (by simpa using hd), List.filter_append, ih]
      by_cases hs : start ≤ output.length
      · have hmax : max start d ≤ (numbered output).length := by
          rw [length_numbered]
          omega
        rw [List.drop_append_of_le_length hmax]
        simp [hs]
      · have hlong : output.length < max start d := by omega
        have hbefore : (numbered output).drop (max start d) = [] :=
          List.drop_eq_nil_of_le (by rw [length_numbered]; omega)
        rw [hbefore, List.drop_eq_nil_of_le (by simp; omega)]
        simp [hs]
    · rw [List.drop_eq_nil_of_le (by simp; omega), List.drop_eq_nil_of_le (by simp; omega),
        List.filter_nil]

theorem logSince_eq_served (asked : Nat) : (JobLog.of size output).logSince asked =
    served output (output.length - size) asked := by
  have hsnd : ((JobLog.of size output).logSince asked).2 = _ := JobLog.logSince_of asked
  refine Prod.ext ?_ hsnd
  rw [JobLog.of_eq, JobLog.logSince] at hsnd ⊢
  rw [served]
  have hfilter := @filter_numbered output (output.length - size) (max asked (output.length - size))
  cases hl : (numbered output).drop (output.length - size) with
  | nil =>
    rw [hl, List.filter_nil, Nat.max_assoc, Nat.max_self] at hfilter
    exact hfilter
  | cons oldest rest =>
    rw [hl] at hsnd
    have hstart : max asked oldest.seq = max asked (output.length - size) := congrArg Prod.fst hsnd
    rw [hl, Nat.max_assoc, Nat.max_self] at hfilter
    change (oldest :: rest).filter (max asked oldest.seq ≤ ·.seq) = _
    rw [hstart]
    exact hfilter

theorem pairwise_numbered : (numbered output).Pairwise (·.seq < ·.seq) := by
  induction output using List.reverseRecOn with
  | nil => exact .nil
  | append_singleton output line ih =>
    rw [numbered_append, List.pairwise_append]
    refine ⟨ih, List.pairwise_singleton _ _, fun first hfirst last hlast => ?_⟩
    have hlt := (@mem_drop_numbered output first 0).mp hfirst
    rw [List.mem_singleton.mp hlast]
    exact (List.getElem?_eq_some_iff.mp hlt.1).1

/-- What holds of a job and its client after any events. -/
structure Told (size : Nat) (s : Polling) : Prop where
  log : s.log = JobLog.of size s.output
  told : s.told ≤ s.output.length
  /-- each poll's log is what the ring holds of the lines put out by then -/
  logs : ∀ poll ∈ s.polls, poll.log = JobLog.of size poll.output ∧ poll.output <+: s.output ∧
    poll.log.dropped ≤ s.told
  answers : ∀ poll ∈ s.polls, poll.answer = served poll.output poll.log.dropped poll.asked
  seen : ∀ line ∈ s.seen, line ∈ numbered s.output ∧ line.seq < s.told
  sorted : s.seen.Pairwise (·.seq < ·.seq)
  missed : ∀ i < s.told, (∀ line ∈ s.seen, line.seq ≠ i) ↔
    ∃ poll ∈ s.polls, poll.asked ≤ i ∧ i < poll.log.dropped

theorem mem_numbered_append {line : LogLine} {more : List (String × String)}
    (h : line ∈ numbered output) : line ∈ numbered (output ++ more) := by
  have hline := (@mem_drop_numbered output line 0).mp h
  refine (@mem_drop_numbered (output ++ more) line 0).mpr ⟨?_, hline.2⟩
  rw [List.getElem?_append_left (List.getElem?_eq_some_iff.mp hline.1).1]
  exact hline.1

theorem Told.append (h : Told size s) (stream text : String) :
    Told size (s.step size (.append stream text)) where
  log := by
    change s.log.append size stream text = JobLog.of size (s.output ++ [(stream, text)])
    rw [JobLog.of_append, ← h.log]
  told := by
    have ht := h.told
    change s.told ≤ (s.output ++ [(stream, text)]).length
    rw [List.length_append]
    omega
  logs poll hpoll :=
    ⟨(h.logs poll hpoll).1, (h.logs poll hpoll).2.1.trans (List.prefix_append _ _),
      (h.logs poll hpoll).2.2⟩
  answers := h.answers
  seen line hline := ⟨mem_numbered_append (h.seen line hline).1, (h.seen line hline).2⟩
  sorted := h.sorted
  missed := h.missed

theorem seen_poll (s : Polling) (size : Nat) :
    (s.step size .poll).seen = s.seen ++ (s.log.logSince s.told).1 := by
  simp [Polling.step, Polling.seen]

theorem Told.logSince_told (h : Told size s) :
    s.log.logSince s.told = served s.output s.log.dropped s.told := by
  have hdropped : s.log.dropped = s.output.length - size := by rw [h.log, JobLog.of_eq]
  rw [hdropped, h.log]
  exact logSince_eq_served s.told

theorem Told.told_poll (h : Told size s) : (s.step size .poll).told = s.output.length := by
  change (s.log.logSince s.told).2.2 = s.output.length
  rw [h.logSince_told]
  rfl

theorem Told.dropped_le (h : Told size s) : s.log.dropped ≤ s.output.length := by
  rw [h.log, JobLog.of_eq]
  exact Nat.sub_le _ _

theorem Told.mem_answer (h : Told size s) {line : LogLine} :
    line ∈ (s.log.logSince s.told).1 ↔ s.output[line.seq]? = some (line.stream, line.text) ∧
      max s.told s.log.dropped ≤ line.seq := by
  rw [h.logSince_told]
  exact mem_drop_numbered

theorem Told.unseen_poll (h : Told size s) {i : Nat} (hi : i < s.output.length) :
    (∀ line ∈ (s.step size .poll).seen, line.seq ≠ i) ↔
      (∀ line ∈ s.seen, line.seq ≠ i) ∧ i < max s.told s.log.dropped := by
  rw [seen_poll]
  constructor
  · intro hall
    refine ⟨fun line hline => hall line (List.mem_append_left _ hline), ?_⟩
    by_contra hlow
    have hget : s.output[i]? = some s.output[i] := List.getElem?_eq_getElem hi
    have hline := (@Told.mem_answer size s h ⟨i, s.output[i].1, s.output[i].2⟩).mpr
      ⟨hget, Nat.le_of_not_lt hlow⟩
    exact hall _ (List.mem_append_right _ hline) rfl
  · intro hall line hline
    rcases List.mem_append.mp hline with hold | hlast
    · exact hall.1 line hold
    · have hlow := (h.mem_answer.mp hlast).2
      omega

theorem Told.missed_poll (h : Told size s) {i : Nat} (hi : i < s.output.length) :
    (∀ line ∈ (s.step size .poll).seen, line.seq ≠ i) ↔
      ∃ poll ∈ (s.step size .poll).polls, poll.asked ≤ i ∧ i < poll.log.dropped := by
  have hpolls : (∃ poll ∈ (s.step size .poll).polls, poll.asked ≤ i ∧ i < poll.log.dropped) ↔
      (∃ poll ∈ s.polls, poll.asked ≤ i ∧ i < poll.log.dropped) ∨
        s.told ≤ i ∧ i < s.log.dropped := by
    simp [Polling.step, or_and_right, exists_or]
  rw [hpolls, h.unseen_poll hi]
  by_cases hold : i < s.told
  · rw [h.missed i hold]
    constructor
    · intro hand
      exact .inl hand.1
    · intro hor
      rcases hor with hmissed | hrange
      · exact ⟨hmissed, by omega⟩
      · omega
  · -- no earlier answer reached this line
    have hnone : ∀ line ∈ s.seen, line.seq ≠ i := by
      intro line hline
      have hlt := (h.seen line hline).2
      omega
    constructor
    · intro hand
      exact .inr (by omega)
    · intro hor
      refine ⟨hnone, ?_⟩
      rcases hor with hmissed | hrange
      · obtain ⟨poll, hpoll, -, hlt⟩ := hmissed
        have hdropped := (h.logs poll hpoll).2.2
        omega
      · omega

/-- The lines of an answer are the newest, and none of them was in an earlier answer. -/
theorem Told.poll (h : Told size s) : Told size (s.step size .poll) where
  log := h.log
  told := by
    rw [h.told_poll]
    exact Nat.le_refl _
  logs poll hpoll := by
    rw [h.told_poll]
    rcases List.mem_append.mp hpoll with hold | hlast
    · obtain ⟨hlog, hpre, hdropped⟩ := h.logs poll hold
      exact ⟨hlog, hpre, Nat.le_trans hdropped h.told⟩
    · rw [List.mem_singleton.mp hlast]
      exact ⟨h.log, List.prefix_rfl, h.dropped_le⟩
  answers poll hpoll := by
    rcases List.mem_append.mp hpoll with hold | hlast
    · exact h.answers poll hold
    · rw [List.mem_singleton.mp hlast]
      exact h.logSince_told
  seen line hline := by
    rw [h.told_poll]
    rw [seen_poll] at hline
    rcases List.mem_append.mp hline with hold | hlast
    · have hmem := h.seen line hold
      exact ⟨hmem.1, Nat.lt_of_lt_of_le hmem.2 h.told⟩
    · have hmem := h.mem_answer.mp hlast
      refine ⟨(@mem_drop_numbered s.output line 0).mpr ⟨hmem.1, Nat.zero_le _⟩, ?_⟩
      exact (List.getElem?_eq_some_iff.mp hmem.1).1
  sorted := by
    rw [seen_poll, List.pairwise_append]
    refine ⟨h.sorted, ?_, fun first hfirst last hlast => ?_⟩
    · rw [h.logSince_told]
      exact pairwise_numbered.sublist (List.drop_sublist _ _)
    · have hbefore := (h.seen first hfirst).2
      have hafter := (h.mem_answer.mp hlast).2
      omega
  missed i hi := h.missed_poll (by rwa [h.told_poll] at hi)

theorem told_run (size : Nat) (events : List PollEvent) : Told size (Polling.run size events) := by
  induction events using List.reverseRecOn with
  | nil =>
    refine ⟨rfl, Nat.le_refl _, ?_, ?_, ?_, .nil, fun i hi => absurd hi (Nat.not_lt_zero i)⟩ <;>
      simp [Polling.run, Polling.seen]
  | append_singleton events event ih =>
    rw [Polling.run, List.foldl_append]
    cases event with
    | append stream text => exact ih.append stream text
    | poll => exact ih.poll

theorem output_run (size : Nat) (events : List PollEvent) :
    (Polling.run size events).output = events.filterMap PollEvent.line := by
  induction events using List.reverseRecOn with
  | nil => rfl
  | append_singleton events event ih =>
    rw [Polling.run, List.foldl_append, List.filterMap_append, ← ih]
    cases event with
    | append stream text => rfl
    | poll => exact (List.append_nil _).symm

end Facts

/-- The ring holds the newest lines, as many as fit. Any request is served from them, with the
lines' own numbers. A client that asks from where it was told to is given each line at most once
and in order, and misses exactly those that were evicted before it asked for them. -/
theorem log_since_polled (size : Nat) (events : List PollEvent) :
    let s := Polling.run size events
    (s.output = events.filterMap PollEvent.line ∧ s.log.dropped = s.output.length - size ∧
      s.log.lines = (numbered s.output).drop s.log.dropped ∧
      ∀ asked, s.log.logSince asked = served s.output s.log.dropped asked) ∧
    (∀ poll ∈ s.polls, poll.output <+: s.output ∧
      poll.log.dropped = poll.output.length - size ∧
      poll.log.lines = (numbered poll.output).drop poll.log.dropped ∧
      poll.answer = served poll.output poll.log.dropped poll.asked) ∧
    (∀ line ∈ s.seen, line ∈ numbered s.output) ∧ s.seen.Pairwise (·.seq < ·.seq) ∧
    ∀ i < s.told, (∀ line ∈ s.seen, line.seq ≠ i) ↔
      ∃ poll ∈ s.polls, poll.asked ≤ i ∧ i < poll.log.dropped := by
  intro s
  have h : Told size s := told_run size events
  have hring : ∀ output, (JobLog.of size output).lines =
      (numbered output).drop (JobLog.of size output).dropped := by
    intro output
    rw [JobLog.of_eq]
  have hdropped : s.log.dropped = s.output.length - size := by rw [h.log, JobLog.of_eq]
  refine ⟨⟨output_run size events, hdropped, ?_, fun asked => ?_⟩, fun poll hpoll => ?_, fun line hline => (h.seen line hline).1,
    h.sorted, h.missed⟩
  · rw [h.log]
    exact hring s.output
  · rw [hdropped, h.log]
    exact logSince_eq_served asked
  · obtain ⟨hlog, hpre, -⟩ := h.logs poll hpoll
    refine ⟨hpre, ?_, ?_, h.answers poll hpoll⟩
    · rw [hlog, JobLog.of_eq]
    · rw [hlog]
      exact hring poll.output

end McuUpdater.Jobs
