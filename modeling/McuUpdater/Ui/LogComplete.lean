import McuUpdater.Ui.Store

/-! Which lines of a job the panel has, while batches are lost and replies come when
they come. -/
namespace McuUpdater.Ui
open Jobs Transition

/-- The line `l` is the one job `j` has put out at its index. -/
def Session.IsLine (s : Session) (j : Nat) (l : LogLine) : Prop :=
  ∃ text, (s.output j)[l.i]? = some (l.s, text) ∧ (l.t = text ∨ l.t = truncated text)

/-- The panel has line `i` of job `j`. -/
def Session.Shows (s : Session) (j i : Nat) : Prop := ∃ l ∈ s.store.linesOf j, l.i = i

variable (size : Nat → Nat)

/-- With no resync outstanding and the last batch received in sequence, the panel has the
job's lines in order, each once: all that the agent still has, and all that there were
unless it says that some are omitted. -/
def Session.LogComplete (s : Session) : Prop :=
  s.resyncs = [] → s.inSequence = true → ∃ lines, s.store.log = some (s.streaming, lines) ∧
    lines.Pairwise (·.i < ·.i) ∧ (∀ l ∈ lines, s.IsLine s.streaming l) ∧
    (∀ i, (s.jobLog size s.streaming).dropped ≤ i → i < s.announced → ∃ l ∈ lines, l.i = i) ∧
    (s.store.logOmitted = false → ∀ i, i < s.announced → ∃ l ∈ lines, l.i = i)

/-- A job's first batch finds the cursor at 0, or makes a resync that is answered when the
lines below the cursor are gone from the ring buffer; a reply is heeded just when it is
about the job that is streaming in, and does not take back what an earlier one omitted. -/
def cursorIsTheJobs (s : Session) : Action → Prop
  | .receive _ => s.received ≠ some s.streaming →
      s.store.cursor = 0 ∨ s.announced ≠ s.store.cursor
  | .answer n => ∀ r, s.resyncs[n]? = some r → r.first = true →
      r.cursorBeforeGap ≤ (s.jobLog size r.jobId).dropped
  | .reply n => ∀ r result, s.resyncs[n]? = some r → r.result = some result →
      (s.store.ignores r.jobId = true ↔ s.received ≠ some r.jobId) ∧
      (s.received = some r.jobId → s.store.logOmitted = true →
        s.store.log.map Prod.fst = some r.jobId →
        r.cursorBeforeGap < result.logFrom ∨ 0 < result.logDropped)
  | _ => True

/-- Line `i` of job `j` comes with a reply that is outstanding. -/
def Session.Awaits (s : Session) (j i : Nat) : Prop :=
  ∃ r ∈ s.resyncs, r.jobId = j ∧ r.cursorBeforeGap ≤ i ∧
    ∀ result, r.result = some result → i < result.logNext

/-- Line `i` of job `j` was skipped by the job's first resync, which is outstanding. -/
def Session.Skips (s : Session) (j i : Nat) : Prop :=
  ∃ r ∈ s.resyncs, r.jobId = j ∧ r.first = true ∧ i < r.cursorBeforeGap

/-- Line `i` of job `j` is gone from the ring buffer, and the panel says that lines are. -/
def Session.Omits (s : Session) (j i : Nat) : Prop :=
  i < (s.jobLog size j).dropped ∧ s.store.logOmitted = true ∧ s.store.log.map Prod.fst = some j

/-- The reply to `r` was made from the job's log as it once was. -/
def Session.Answered (s : Session) (r : Resync) : Prop :=
  ∀ result, r.result = some result → ∃ out, out <+: s.output r.jobId ∧
    result = jobGet (JobLog.of (size r.jobId) out) r.cursorBeforeGap ∧
    (r.first = true → r.cursorBeforeGap ≤ out.length - size r.jobId)

/-- Every line of job `j` below `high` is accounted for, where `high` is the furthest the
cursor has been in this job. -/
structure Session.Tracked (s : Session) (j high : Nat) : Prop where
  received : s.received = some j
  behind : j ≤ s.streaming
  logJob : ∀ k, s.store.log.map Prod.fst = some k → k ≤ j
  jobs : ∀ r ∈ s.resyncs, r.jobId ≤ j
  answered : ∀ r ∈ s.resyncs, s.Answered size r
  asked : ∀ r ∈ s.resyncs, r.jobId = j → r.cursorBeforeGap ≤ high ∨ r.first = true
  cursor : s.store.cursor ≤ high
  within : high ≤ (s.output j).length
  account : ∀ i, i < high → s.Shows j i ∨ s.Awaits j i ∨ s.Skips j i ∨ s.Omits size j i
  back : s.store.cursor = high ∨ ∃ r ∈ s.resyncs, r.jobId = j ∧
    ∀ result, r.result = some result → high ≤ result.logNext
  lines : ∀ l ∈ s.store.linesOf j, l.i < high ∧ s.IsLine j l
  sorted : (∃ r ∈ s.resyncs, r.jobId = j) ∨ (s.store.linesOf j).Pairwise (·.i < ·.i)
  inSeq : s.inSequence = true → j = s.streaming ∧ s.announced ≤ s.store.cursor ∧
    s.store.log.map Prod.fst = some j

section Lemmas
variable {size} {s t : Session} {j high : Nat}

theorem jobGet_of (size : Nat) (out : List (String × String)) (logFrom : Nat) :
    (jobGet (JobLog.of size out) logFrom).logFrom = max logFrom (out.length - size) ∧
    (jobGet (JobLog.of size out) logFrom).logNext = out.length ∧
    (jobGet (JobLog.of size out) logFrom).logDropped = out.length - size := by
  have h : ((JobLog.of size out).logSince logFrom).2 = _ := JobLog.logSince_of logFrom
  refine ⟨congrArg Prod.fst h, congrArg Prod.snd h, ?_⟩
  simp [jobGet, JobLog.of_eq]

theorem mem_jobGet_log {size logFrom : Nat} {out : List (String × String)} {l : LogLine} :
    l ∈ (jobGet (JobLog.of size out) logFrom).log ↔
      out[l.i]? = some (l.s, l.t) ∧ max logFrom (out.length - size) ≤ l.i := by
  simp only [jobGet, List.mem_map, JobLog.mem_logSince_of]
  constructor
  · rintro ⟨line, h, rfl⟩
    exact h
  · intro h
    exact ⟨⟨l.i, l.s, l.t⟩, h, rfl⟩

theorem Session.jobLog_dropped (s : Session) (j : Nat) :
    (s.jobLog size j).dropped = (s.output j).length - size j := by
  simp [Session.jobLog, JobLog.of_eq]

theorem Session.IsLine.once {l : LogLine} {out : List (String × String)}
    (h : out <+: s.output j) (hl : out[l.i]? = some (l.s, l.t)) : s.IsLine j l := by
  refine ⟨l.t, ?_, .inl rfl⟩
  obtain ⟨rest, hrest⟩ := h
  have hlt := (List.getElem?_eq_some_iff.mp hl).1
  rw [← hrest, List.getElem?_append_left hlt]
  exact hl

theorem Store.linesOf_eq {st : Store} {lines : List LogLine} (h : st.log = some (j, lines)) :
    st.linesOf j = lines := by
  simp [Store.linesOf, h]

theorem Store.linesOf_eq_nil {st : Store} (h : st.log.map Prod.fst ≠ some j) :
    st.linesOf j = [] := by
  cases hl : st.log with
  | none => simp [Store.linesOf, hl]
  | some log => simpa [Store.linesOf, hl] using fun hj => absurd (by simp [hl, hj]) h

theorem Session.Tracked.grow (h : s.Tracked size j high)
    (hout : ∀ n, s.output n <+: t.output n) (hlog : t.store.log = s.store.log)
    (hom : t.store.logOmitted = s.store.logOmitted) (hcur : t.store.cursor = s.store.cursor)
    (hres : t.resyncs = s.resyncs) (hrec : t.received = s.received)
    (hstr : s.streaming ≤ t.streaming)
    (hseq : t.inSequence = true →
      s.inSequence = true ∧ t.streaming = s.streaming ∧ t.announced = s.announced) :
    t.Tracked size j high := by
  have hlines : t.store.linesOf j = s.store.linesOf j := by simp [Store.linesOf, hlog]
  have hlen : (s.output j).length ≤ (t.output j).length := (hout j).length_le
  refine ⟨hrec ▸ h.received, h.behind.trans hstr, hlog ▸ h.logJob, hres ▸ h.jobs, ?_,
    hres ▸ h.asked, hcur ▸ h.cursor, h.within.trans hlen, ?_, ?_, ?_, ?_, ?_⟩
  · intro r hr result hres'
    obtain ⟨out, hpre, hget, hfirst⟩ := h.answered r (hres ▸ hr) result hres'
    exact ⟨out, hpre.trans (hout r.jobId), hget, hfirst⟩
  · intro i hi
    rcases h.account i hi with hs | ha | hk | ⟨hd, ho, hl⟩
    · exact .inl (by rwa [Session.Shows, hlines])
    · exact .inr (.inl (by rwa [Session.Awaits, hres]))
    · exact .inr (.inr (.inl (by rwa [Session.Skips, hres])))
    · refine .inr (.inr (.inr ⟨?_, hom ▸ ho, hlog ▸ hl⟩))
      rw [Session.jobLog_dropped] at hd ⊢
      omega
  · rw [hcur, hres]
    exact h.back
  · intro l hl
    rw [hlines] at hl
    obtain ⟨hlt, text, htext, ht⟩ := h.lines l hl
    refine ⟨hlt, text, ?_, ht⟩
    obtain ⟨rest, hrest⟩ := hout j
    rw [← hrest, List.getElem?_append_left (List.getElem?_eq_some_iff.mp htext).1]
    exact htext
  · rw [hres, hlines]
    exact h.sorted
  · intro hs
    obtain ⟨hs, hstr, hann⟩ := hseq hs
    rw [hstr, hann, hcur, hlog]
    exact h.inSeq hs

theorem Session.batch_indices {k : Nat} (hk : s.canAnnounce k) :
    (s.batch k).lines.map (·.i) = List.range' s.announced k := by
  have hlen := hk.2
  refine List.ext_getElem? fun i => ?_
  by_cases hi : i < k
  · have hlt : s.announced + i < (s.output s.streaming).length := by omega
    simp [Session.batch, numbered, queued, hi, hlt]
  · simp [Session.batch, hi]

theorem Session.isLine_of_mem_batch {k : Nat} {l : LogLine} (h : l ∈ (s.batch k).lines) :
    s.IsLine s.streaming l := by
  obtain ⟨line, hline, rfl⟩ := List.mem_map.mp h
  exact ⟨line.text, (mem_drop_numbered.mp (List.mem_of_mem_take hline)).1, .inr rfl⟩

theorem Session.length_batch {k : Nat} (hk : s.canAnnounce k) : (s.batch k).lines.length = k := by
  simpa using congrArg List.length (s.batch_indices hk)

theorem Session.mem_batch {k i : Nat} (hk : s.canAnnounce k) :
    (∃ l ∈ (s.batch k).lines, l.i = i) ↔ s.announced ≤ i ∧ i < s.announced + k := by
  rw [← List.mem_range'_1, ← s.batch_indices hk, List.mem_map]

theorem Session.pairwise_batch {k : Nat} (hk : s.canAnnounce k) :
    (s.batch k).lines.Pairwise (·.i < ·.i) := by
  have h : ((s.batch k).lines.map (·.i)).Pairwise (· < ·) := by
    rw [s.batch_indices hk]
    exact List.pairwise_lt_range'
  exact List.pairwise_map.mp h

theorem Store.linesOf_appendLog (st : Store) (batch : LogBatch) :
    (st.appendLog batch).linesOf batch.jobId = st.linesOf batch.jobId ++ batch.lines := by
  simp [Store.appendLog, Store.linesOf]

/-- The session after the next `k` lines have arrived as a batch. -/
def Session.receives (s : Session) (k : Nat) : Session :=
  { s.onLog (s.batch k) with announced := s.announced + k }

theorem Session.receives_of_seq {k : Nat} (hseq : s.announced = s.store.cursor) :
    s.receives k = { s with
      announced := s.announced + k
      store := { s.store.appendLog (s.batch k) with
        cursor := s.announced + (s.batch k).lines.length }
      received := some s.streaming
      inSequence := true } := by
  rw [Session.receives, Session.onLog, if_neg (by simpa [Session.batch] using hseq)]
  rfl

theorem Session.receives_of_gap {k : Nat} (hseq : s.announced ≠ s.store.cursor) :
    s.receives k = { s with
      announced := s.announced + k
      resyncs := s.resyncs ++ [{
        jobId := s.streaming
        cursorBeforeGap := s.store.cursor
        first := s.received ≠ some s.streaming }]
      store := { s.store with cursor := s.announced + (s.batch k).lines.length }
      received := some s.streaming
      inSequence := false } := by
  rw [Session.receives, Session.onLog, if_pos (by simpa [Session.batch] using hseq)]
  rfl

theorem Session.Tracked.receives_seq {k : Nat} (h : s.Tracked size s.streaming high)
    (hk : s.canAnnounce k) (hseq : s.announced = s.store.cursor) :
    (s.receives k).Tracked size s.streaming (max high (s.announced + k)) := by
  have hlen := s.length_batch hk
  have hmem := fun i => s.mem_batch (i := i) hk
  have hlines : (s.receives k).store.linesOf s.streaming =
      s.store.linesOf s.streaming ++ (s.batch k).lines := by
    rw [receives_of_seq hseq]
    exact s.store.linesOf_appendLog (s.batch k)
  rw [receives_of_seq hseq] at hlines ⊢
  refine ⟨rfl, Nat.le_refl _, fun j hj => ?_, h.jobs, h.answered, ?_, ?_, ?_, ?_, ?_, ?_, ?_, ?_⟩
  · obtain rfl : s.streaming = j := by simpa [Store.appendLog, Session.batch] using hj
    exact Nat.le_refl _
  · exact fun r hr hj => (h.asked r hr hj).imp_left fun hle => Nat.le_trans hle (Nat.le_max_left _ _)
  · show s.announced + _ ≤ _
    rw [hlen]
    exact Nat.le_max_right _ _
  · exact Nat.max_le.mpr ⟨h.within, hk.2⟩
  · intro i hi
    by_cases hin : s.announced ≤ i ∧ i < s.announced + k
    · obtain ⟨l, hl, hli⟩ := (hmem i).mpr hin
      exact .inl ⟨l, hlines ▸ List.mem_append_right _ hl, hli⟩
    · have hcur := h.cursor
      rcases h.account i (by omega) with ⟨l, hl, hli⟩ | ha | hs | ho
      · exact .inl ⟨l, hlines ▸ List.mem_append_left _ hl, hli⟩
      · exact .inr (.inl ha)
      · exact .inr (.inr (.inl hs))
      · exact .inr (.inr (.inr ⟨ho.1, ho.2.1, rfl⟩))
  · have hcur := h.cursor
    by_cases hle : high ≤ s.announced + k
    · left
      show s.announced + _ = _
      omega
    · refine .inr (h.back.resolve_left (by omega) |>.imp fun r ⟨hr, hj, hres⟩ => ⟨hr, hj, ?_⟩)
      exact fun result hresult => Nat.max_le.mpr ⟨hres result hresult, by
        have := hres result hresult
        omega⟩
  · intro l hl
    rcases List.mem_append.mp (hlines ▸ hl) with hl | hl
    · exact ⟨Nat.lt_of_lt_of_le (h.lines l hl).1 (Nat.le_max_left _ _), (h.lines l hl).2⟩
    · have hli := ((hmem l.i).mp ⟨l, hl, rfl⟩).2
      exact ⟨Nat.lt_of_lt_of_le hli (Nat.le_max_right _ _), s.isLine_of_mem_batch hl⟩
  · -- with no resync of this job outstanding the cursor is past all that is shown
    by_cases hr : ∃ r ∈ s.resyncs, r.jobId = s.streaming
    · exact .inl hr
    · right
      rw [hlines]
      have hback := h.back.resolve_right fun ⟨r, hrm, hj, _⟩ => hr ⟨r, hrm, hj⟩
      refine List.pairwise_append.mpr ⟨h.sorted.resolve_left hr, s.pairwise_batch hk, ?_⟩
      intro l hl l' hl'
      have hlo := (h.lines l hl).1
      have hhi := ((hmem l'.i).mp ⟨l', hl', rfl⟩).1
      omega
  · intro _
    refine ⟨rfl, ?_, rfl⟩
    show s.announced + k ≤ s.announced + _
    omega

theorem Session.Tracked.receives_gap {k : Nat} (h : s.Tracked size s.streaming high)
    (hk : s.canAnnounce k) (hseq : s.announced ≠ s.store.cursor) :
    (s.receives k).Tracked size s.streaming (max high (s.announced + k)) := by
  have hlen := s.length_batch hk
  rw [receives_of_gap hseq]
  refine ⟨rfl, Nat.le_refl _, h.logJob, ?_, ?_, ?_, ?_, ?_, ?_, ?_, ?_, ?_, nofun⟩
  · exact List.forall_mem_append.mpr ⟨h.jobs, by simp⟩
  · exact List.forall_mem_append.mpr ⟨h.answered, by simp [Session.Answered]⟩
  · refine List.forall_mem_append.mpr ⟨fun r hr hj => ?_, ?_⟩
    · exact (h.asked r hr hj).imp_left fun hle => Nat.le_trans hle (Nat.le_max_left _ _)
    · simpa using .inl (.inl h.cursor)
  · show s.announced + _ ≤ _
    omega
  · exact Nat.max_le.mpr ⟨h.within, hk.2⟩
  · intro i hi
    by_cases hin : i < high
    · rcases h.account i hin with hs | ⟨r, hr, ha⟩ | ⟨r, hr, hs⟩ | ho
      · exact .inl hs
      · exact .inr (.inl ⟨r, List.mem_append_left _ hr, ha⟩)
      · exact .inr (.inr (.inl ⟨r, List.mem_append_left _ hr, hs⟩))
      · exact .inr (.inr (.inr ho))
    · have hcur : s.store.cursor ≤ i := Nat.le_trans h.cursor (Nat.le_of_not_lt hin)
      exact .inr (.inl ⟨_, List.mem_append_right _ List.mem_cons_self, rfl, hcur, nofun⟩)
  · exact .inr ⟨_, List.mem_append_right _ List.mem_cons_self, rfl, nofun⟩
  · exact fun l hl => ⟨Nat.lt_of_lt_of_le (h.lines l hl).1 (Nat.le_max_left _ _), (h.lines l hl).2⟩
  · exact .inl ⟨_, List.mem_append_right _ List.mem_cons_self, rfl⟩

/-- No batch of the job that is streaming in has been received. -/
structure Session.Unseen (size : Nat → Nat) (s : Session) : Prop where
  received : s.received ≠ some s.streaming
  logJob : ∀ k, s.store.log.map Prod.fst = some k → k < s.streaming
  jobs : ∀ r ∈ s.resyncs, r.jobId < s.streaming
  answered : ∀ r ∈ s.resyncs, s.Answered size r

theorem Session.Unseen.linesOf (h : s.Unseen size) : s.store.linesOf s.streaming = [] :=
  Store.linesOf_eq_nil fun hl => Nat.lt_irrefl _ (h.logJob _ hl)

/-- The first batch of a job, where the cursor is. -/
theorem Session.Unseen.receives_seq {k : Nat} (h : s.Unseen size) (hk : s.canAnnounce k)
    (hseq : s.announced = s.store.cursor) (hcur : s.store.cursor = 0) :
    (s.receives k).Tracked size s.streaming (s.announced + k) := by
  have h0 : Session.Tracked size { s with received := some s.streaming, inSequence := false }
      s.streaming 0 := by
    refine ⟨rfl, Nat.le_refl _, fun j hj => Nat.le_of_lt (h.logJob j hj),
      fun r hr => Nat.le_of_lt (h.jobs r hr), h.answered, ?_, ?_, Nat.zero_le _, nofun,
      .inl hcur, ?_, .inr ?_, nofun⟩
    · exact fun r hr hj => absurd hj (Nat.ne_of_lt (h.jobs r hr))
    · exact Nat.le_of_eq hcur
    · simp [h.linesOf]
    · simp [h.linesOf]
  have ht := h0.receives_seq (k := k) hk hseq
  rw [Session.receives_of_seq (by exact hseq), Nat.zero_max] at ht
  rwa [receives_of_seq hseq]

theorem Session.Unseen.receives_gap {k : Nat} (h : s.Unseen size) (hk : s.canAnnounce k)
    (hseq : s.announced ≠ s.store.cursor) :
    (s.receives k).Tracked size s.streaming (s.announced + k) := by
  have hlen := s.length_batch hk
  have hold : ∀ r ∈ s.resyncs, r.jobId ≠ s.streaming := fun r hr => Nat.ne_of_lt (h.jobs r hr)
  rw [receives_of_gap hseq]
  refine ⟨rfl, Nat.le_refl _, fun j hj => Nat.le_of_lt (h.logJob j hj), ?_, ?_, ?_, ?_, hk.2,
    ?_, .inl ?_, ?_, .inl ?_, nofun⟩
  · exact List.forall_mem_append.mpr ⟨fun r hr => Nat.le_of_lt (h.jobs r hr), by simp⟩
  · exact List.forall_mem_append.mpr ⟨h.answered, by simp [Session.Answered]⟩
  · exact List.forall_mem_append.mpr
      ⟨fun r hr hj => absurd hj (hold r hr), by simp [h.received]⟩
  · show s.announced + _ ≤ _
    omega
  · intro i hi
    by_cases hc : s.store.cursor ≤ i
    · exact .inr (.inl ⟨_, List.mem_append_right _ List.mem_cons_self, rfl, hc, nofun⟩)
    · exact .inr (.inr (.inl ⟨_, List.mem_append_right _ List.mem_cons_self, rfl,
        by simpa using h.received, Nat.lt_of_not_le hc⟩))
  · show s.announced + _ = _
    omega
  · intro l hl
    have hnil := h.linesOf
    simp only [Store.linesOf] at hl hnil
    simp [hnil] at hl
  · exact ⟨_, List.mem_append_right _ List.mem_cons_self, rfl⟩

theorem exists_mem_set {α : Type*} {l : List α} {n : Nat} {a b : α} {P : α → Prop}
    (hn : l[n]? = some a) (hab : P a → P b) (h : ∃ c ∈ l, P c) : ∃ c ∈ l.set n b, P c := by
  obtain ⟨c, hc, hp⟩ := h
  obtain ⟨m, hm⟩ := List.mem_iff_getElem?.mp hc
  have hlt := (List.getElem?_eq_some_iff.mp hn).1
  by_cases hmn : n = m
  · subst hmn
    obtain rfl : a = c := Option.some.inj (hn.symm.trans hm)
    exact ⟨b, List.mem_set hlt b, hab hp⟩
  · exact ⟨c, List.mem_iff_getElem?.mpr ⟨m, by rw [List.getElem?_set_ne hmn, hm]⟩, hp⟩

theorem exists_mem_eraseIdx {α : Type*} {l : List α} {n : Nat} {a : α} {P : α → Prop}
    (hn : l[n]? = some a) (h : ∃ c ∈ l, P c) : P a ∨ ∃ c ∈ l.eraseIdx n, P c := by
  obtain ⟨c, hc, hp⟩ := h
  obtain ⟨m, hm⟩ := List.mem_iff_getElem?.mp hc
  by_cases hmn : m = n
  · subst hmn
    obtain rfl : a = c := Option.some.inj (hn.symm.trans hm)
    exact .inl hp
  · exact .inr ⟨c, List.mem_eraseIdx_iff_getElem?.mpr ⟨m, hmn, hm⟩, hp⟩

theorem Session.Tracked.answer {n : Nat} {r : Resync} (h : s.Tracked size j high)
    (hn : s.resyncs[n]? = some r)
    (hfirst : r.first = true → r.cursorBeforeGap ≤ (s.jobLog size r.jobId).dropped) :
    Session.Tracked size { s with resyncs := s.resyncs.set n { r with
      result := some (jobGet (s.jobLog size r.jobId) r.cursorBeforeGap) } } j high := by
  have hr : r ∈ s.resyncs := List.mem_of_getElem? hn
  have hnext := (jobGet_of (size r.jobId) (s.output r.jobId) r.cursorBeforeGap).2.1
  have later : ∀ i, i ≤ high → r.jobId = j →
      i ≤ (jobGet (s.jobLog size r.jobId) r.cursorBeforeGap).logNext := by
    rintro i hi rfl
    exact Nat.le_trans hi (Nat.le_trans h.within (Nat.le_of_eq hnext.symm))
  have all : ∀ {P : Resync → Prop}, (∀ r ∈ s.resyncs, P r) → P { r with
      result := some (jobGet (s.jobLog size r.jobId) r.cursorBeforeGap) } →
      ∀ r' ∈ s.resyncs.set n { r with
        result := some (jobGet (s.jobLog size r.jobId) r.cursorBeforeGap) }, P r' := by
    intro P hP hr' r' hmem
    rcases List.mem_or_eq_of_mem_set hmem with hmem | rfl
    · exact hP r' hmem
    · exact hr'
  refine ⟨h.received, h.behind, h.logJob, all h.jobs (h.jobs r hr), all h.answered ?_,
    all h.asked (h.asked r hr), h.cursor, h.within, fun i hi => ?_, ?_, h.lines, ?_, h.inSeq⟩
  · rintro _ ⟨rfl⟩
    refine ⟨s.output r.jobId, List.prefix_refl _, rfl, fun hf => ?_⟩
    rw [← jobLog_dropped]
    exact hfirst hf
  · rcases h.account i hi with hs | ha | hk | ho
    · exact .inl hs
    · refine .inr (.inl (exists_mem_set hn ?_ ha))
      rintro ⟨hj, hle, -⟩
      refine ⟨hj, hle, ?_⟩
      rintro _ ⟨rfl⟩
      exact later (i + 1) hi hj
    · exact .inr (.inr (.inl (exists_mem_set hn id hk)))
    · exact .inr (.inr (.inr ho))
  · refine h.back.imp_right (exists_mem_set hn ?_)
    rintro ⟨hj, -⟩
    refine ⟨hj, ?_⟩
    rintro _ ⟨rfl⟩
    exact later high (Nat.le_refl _) hj
  · exact h.sorted.imp_left (exists_mem_set hn id)

theorem Session.Tracked.reply_ignored {n : Nat} {r : Resync} (h : s.Tracked size j high)
    (hn : s.resyncs[n]? = some r) (hj : r.jobId ≠ j) :
    Session.Tracked size { s with resyncs := s.resyncs.eraseIdx n } j high := by
  have kept : ∀ {P : Resync → Prop}, (∃ r' ∈ s.resyncs, r'.jobId = j ∧ P r') →
      ∃ r' ∈ s.resyncs.eraseIdx n, r'.jobId = j ∧ P r' := fun hP =>
    (exists_mem_eraseIdx hn hP).resolve_left fun hr => hj hr.1
  have all : ∀ r' ∈ s.resyncs.eraseIdx n, r' ∈ s.resyncs := fun _ => List.mem_of_mem_eraseIdx
  refine ⟨h.received, h.behind, h.logJob, fun r' hr' => h.jobs r' (all r' hr'),
    fun r' hr' => h.answered r' (all r' hr'), fun r' hr' => h.asked r' (all r' hr'), h.cursor,
    h.within, fun i hi => ?_, h.back.imp_right kept, h.lines, ?_, h.inSeq⟩
  · rcases h.account i hi with hs | ha | hk | ho
    · exact .inl hs
    · exact .inr (.inl (kept ha))
    · exact .inr (.inr (.inl (kept hk)))
    · exact .inr (.inr (.inr ho))
  · exact h.sorted.imp_left fun ⟨r', hr', hj'⟩ =>
      (kept (P := fun _ => True) ⟨r', hr', hj', trivial⟩).imp fun _ hk => ⟨hk.1, hk.2.1⟩

theorem Store.linesOf_resynced {st : Store} {c : Nat} {result : JobGet}
    (hi : st.ignores j = false) :
    (st.resynced j c result).linesOf j = mergeLines (st.linesOf j) result.log := by
  simp [Store.resynced, hi, Store.linesOf]

/-- The session after the reply to its `n`th resync has arrived. -/
def Session.replied (s : Session) (n : Nat) (r : Resync) (result : JobGet) : Session :=
  { s with
    resyncs := s.resyncs.eraseIdx n
    store := s.store.resynced r.jobId r.cursorBeforeGap result }

section Reply
variable {n : Nat} {r : Resync} {out : List (String × String)}

/-- What a reply leaves out of the lines it was asked for is gone from the ring buffer. -/
theorem Session.brought_by_reply {i : Nat} (hi : s.store.ignores r.jobId = false)
    (hpre : out <+: s.output r.jobId)
    (hlo : r.cursorBeforeGap ≤ i ∨ i < out.length - size r.jobId) (hhi : i < out.length) :
    (s.replied n r (jobGet (JobLog.of (size r.jobId) out) r.cursorBeforeGap)).Shows r.jobId i ∨
    (s.replied n r (jobGet (JobLog.of (size r.jobId) out) r.cursorBeforeGap)).Omits
      size r.jobId i := by
  obtain ⟨-, -, hdrop⟩ := jobGet_of (size r.jobId) out r.cursorBeforeGap
  by_cases hd : i < out.length - size r.jobId
  · refine .inr ⟨?_, ?_, ?_⟩
    · have hlen := hpre.length_le
      rw [Session.jobLog_dropped]
      show i < (s.output r.jobId).length - _
      omega
    · simp only [Session.replied, Store.resynced, hi, hdrop]
      simp
      omega
    · simp [Session.replied, Store.resynced, hi]
  · left
    have hl : ⟨i, out[i].1, out[i].2⟩ ∈
        (jobGet (JobLog.of (size r.jobId) out) r.cursorBeforeGap).log := by
      rw [mem_jobGet_log]
      exact ⟨by simp [hhi], by simp; omega⟩
    obtain ⟨l, hl, hli⟩ := exists_mem_mergeLines (.inr hl)
    exact ⟨l, (Store.linesOf_resynced hi).symm ▸ hl, hli⟩

theorem Session.Tracked.account_reply {i : Nat} (h : s.Tracked size r.jobId high)
    (hn : s.resyncs[n]? = some r) (hi : s.store.ignores r.jobId = false)
    (hpre : out <+: s.output r.jobId)
    (hres : r.result = some (jobGet (JobLog.of (size r.jobId) out) r.cursorBeforeGap))
    (hfirst : r.first = true → r.cursorBeforeGap ≤ out.length - size r.jobId)
    (hflag : s.store.logOmitted = true → s.store.log.map Prod.fst = some r.jobId →
      r.cursorBeforeGap < max r.cursorBeforeGap (out.length - size r.jobId) ∨
      0 < out.length - size r.jobId) (hlt : i < max high out.length) :
    let t := s.replied n r (jobGet (JobLog.of (size r.jobId) out) r.cursorBeforeGap)
    t.Shows r.jobId i ∨ t.Awaits r.jobId i ∨ t.Skips r.jobId i ∨ t.Omits size r.jobId i := by
  intro t
  obtain ⟨hfrom, hnext, hdrop⟩ := jobGet_of (size r.jobId) out r.cursorBeforeGap
  have brought : r.cursorBeforeGap ≤ i ∨ i < out.length - size r.jobId → i < out.length →
      t.Shows r.jobId i ∨ t.Awaits r.jobId i ∨ t.Skips r.jobId i ∨ t.Omits size r.jobId i :=
    fun hlo hhi => (Session.brought_by_reply hi hpre hlo hhi).imp_right
      fun ho => .inr (.inr ho)
  have skipped : r.first = true → i < r.cursorBeforeGap → i < out.length - size r.jobId :=
    fun hf hc => Nat.lt_of_lt_of_le hc (hfirst hf)
  by_cases hin : i < high
  · rcases h.account i hin with ⟨l, hl, hli⟩ | ha | hk | ⟨hd, ho, hlog⟩
    · obtain ⟨k, hk, hki⟩ := exists_mem_mergeLines (.inl hl)
      exact .inl ⟨k, (Store.linesOf_resynced hi).symm ▸ hk, hki.trans hli⟩
    · rcases exists_mem_eraseIdx hn ha with ⟨-, hc, hall⟩ | ha
      · exact brought (.inl hc) (hnext ▸ hall _ hres)
      · exact .inr (.inl ha)
    · rcases exists_mem_eraseIdx hn hk with ⟨-, hf, hc⟩ | hk
      · have hd := skipped hf hc
        exact brought (.inr hd) (by omega)
      · exact .inr (.inr (.inl hk))
    · refine .inr (.inr (.inr ⟨hd, ?_, ?_⟩))
      · have hflag := hflag ho hlog
        simp only [t, Session.replied, Store.resynced, hi, hdrop, hfrom]
        simpa using hflag
      · simp [t, Session.replied, Store.resynced, hi]
  · rcases h.asked r (List.mem_of_getElem? hn) rfl with hc | hf
    · exact brought (.inl (by omega)) (by omega)
    · by_cases hc : r.cursorBeforeGap ≤ i
      · exact brought (.inl hc) (by omega)
      · exact brought (.inr (skipped hf (by omega))) (by omega)

/-- A reply about the job arrives. -/
theorem Session.Tracked.reply {result : JobGet} (h : s.Tracked size r.jobId high)
    (hn : s.resyncs[n]? = some r) (hres : r.result = some result)
    (hi : s.store.ignores r.jobId = false)
    (hflag : s.store.logOmitted = true → s.store.log.map Prod.fst = some r.jobId →
      r.cursorBeforeGap < result.logFrom ∨ 0 < result.logDropped) :
    (s.replied n r result).Tracked size r.jobId (max high result.logNext) := by
  have hr : r ∈ s.resyncs := List.mem_of_getElem? hn
  have all : ∀ r' ∈ s.resyncs.eraseIdx n, r' ∈ s.resyncs := fun _ => List.mem_of_mem_eraseIdx
  obtain ⟨out, hpre, rfl, hfirst⟩ := h.answered r hr result hres
  obtain ⟨hfrom, hnext, hdrop⟩ := jobGet_of (size r.jobId) out r.cursorBeforeGap
  rw [hfrom, hdrop] at hflag
  have account := fun i => h.account_reply (i := i) hn hi hpre hres hfirst hflag
  have hc := h.cursor
  have hcursor : (s.replied n r (jobGet (JobLog.of (size r.jobId) out)
      r.cursorBeforeGap)).store.cursor = max s.store.cursor out.length := by
    simp [Session.replied, Store.resynced, hi, hnext]
  have hlog : (s.replied n r (jobGet (JobLog.of (size r.jobId) out)
      r.cursorBeforeGap)).store.log.map Prod.fst = some r.jobId := by
    simp [Session.replied, Store.resynced, hi]
  rw [hnext]
  refine ⟨h.received, h.behind, fun k hk => ?_, fun r' hr' => h.jobs r' (all r' hr'),
    fun r' hr' => h.answered r' (all r' hr'), ?_, ?_, ?_, account, ?_, ?_, .inr ?_, ?_⟩
  · obtain rfl : r.jobId = k := Option.some.inj (hlog.symm.trans hk)
    exact Nat.le_refl _
  · exact fun r' hr' hj => (h.asked r' (all r' hr') hj).imp_left fun hle =>
      Nat.le_trans hle (Nat.le_max_left _ _)
  · rw [hcursor]
    omega
  · exact Nat.max_le.mpr ⟨h.within, hpre.length_le⟩
  · rw [hcursor]
    by_cases hle : high ≤ max s.store.cursor out.length
    · left
      omega
    · -- the resync that will bring the cursor back is another one
      obtain ⟨r', hr', hj', hback⟩ := ((exists_mem_eraseIdx hn) (h.back.resolve_left
        (by omega))).resolve_left fun hback => by
          have := hback.2 _ hres
          omega
      exact .inr ⟨r', hr', hj', fun result hresult => Nat.max_le.mpr
        ⟨hback result hresult, Nat.le_trans (by omega) (hback result hresult)⟩⟩
  · intro l hl
    have hl := (Store.linesOf_resynced hi) ▸ hl
    rcases mem_mergeLines hl with hl | hl
    · exact ⟨Nat.lt_of_lt_of_le (h.lines l hl).1 (Nat.le_max_left _ _), (h.lines l hl).2⟩
    · have hget := (mem_jobGet_log.mp hl).1
      have hlt := (List.getElem?_eq_some_iff.mp hget).1
      exact ⟨Nat.lt_of_lt_of_le hlt (Nat.le_max_right _ _), .once hpre hget⟩
  · exact (Store.linesOf_resynced hi).symm ▸ pairwise_mergeLines _ _
  · intro hs
    obtain ⟨hj, hann, -⟩ := h.inSeq hs
    exact ⟨hj, hcursor ▸ Nat.le_trans hann (Nat.le_max_left _ _), hlog⟩

end Reply
structure Session.Blank (s : Session) : Prop where
  received : s.received = none
  log : s.store.log = none
  resyncs : s.resyncs = []
  inSequence : s.inSequence = false

theorem Session.Blank.unseen (h : s.Blank) : s.Unseen size :=
  ⟨by simp [h.received], by simp [h.log], by simp [h.resyncs], by simp [h.resyncs]⟩

theorem Session.Tracked.unseen (h : s.Tracked size j high) (hj : j ≠ s.streaming) :
    s.Unseen size := by
  have hlt : j < s.streaming := Nat.lt_of_le_of_ne h.behind hj
  exact ⟨by simp [h.received, hj], fun k hk => Nat.lt_of_le_of_lt (h.logJob k hk) hlt,
    fun r hr => Nat.lt_of_le_of_lt (h.jobs r hr) hlt, h.answered⟩

theorem Session.Tracked.of_receives {k : Nat} (h : s.Blank ∨ ∃ j high, s.Tracked size j high)
    (hk : s.canAnnounce k) (hg : cursorIsTheJobs size s (.receive k)) :
    ∃ high, (s.receives k).Tracked size s.streaming high := by
  have first : s.Unseen size → ∃ high, (s.receives k).Tracked size s.streaming high := by
    intro hu
    by_cases hseq : s.announced = s.store.cursor
    · exact ⟨_, hu.receives_seq hk hseq ((hg hu.received).resolve_right (absurd hseq))⟩
    · exact ⟨_, hu.receives_gap hk hseq⟩
  rcases h with hb | ⟨j, high, ht⟩
  · exact first hb.unseen
  · by_cases hj : j = s.streaming
    · subst hj
      by_cases hseq : s.announced = s.store.cursor
      · exact ⟨_, ht.receives_seq hk hseq⟩
      · exact ⟨_, ht.receives_gap hk hseq⟩
    · exact first (ht.unseen hj)

theorem Session.prefix_append (s : Session) (line : String × String) (n : Nat) :
    s.output n <+: Function.update s.output s.top (s.output s.top ++ [line]) n := by
  by_cases hn : n = s.top
  · subst hn
    simp
  · simp [hn]

theorem Session.Tracked.step {a : Action} (h : s.Blank ∨ ∃ j high, s.Tracked size j high)
    (hg : cursorIsTheJobs size s a) (hs : s.step size a = some t) :
    t.Blank ∨ ∃ j high, t.Tracked size j high := by
  cases a with
  | append stream text =>
    cases hs
    exact h.imp (fun hb => ⟨hb.received, hb.log, hb.resyncs, hb.inSequence⟩)
      fun ⟨j, high, ht⟩ => ⟨j, high, ht.grow (s.prefix_append _) rfl rfl rfl rfl rfl
        (Nat.le_refl _) fun hs => ⟨hs, rfl, rfl⟩⟩
  | submit =>
    cases hs
    exact h.imp (fun hb => ⟨hb.received, hb.log, hb.resyncs, hb.inSequence⟩)
      fun ⟨j, high, ht⟩ => ⟨j, high, ht.grow (fun _ => List.prefix_refl _) rfl rfl rfl rfl rfl
        (Nat.le_refl _) fun hs => ⟨hs, rfl, rfl⟩⟩
  | jobEvent k =>
    by_cases hk : k ≤ s.top <;> simp only [Session.step, hk, if_true, if_false] at hs <;> cases hs
    exact h.imp (fun hb => ⟨hb.received, hb.log, hb.resyncs, hb.inSequence⟩)
      fun ⟨j, high, ht⟩ => ⟨j, high, ht.grow (fun _ => List.prefix_refl _) rfl rfl rfl rfl rfl
        (Nat.le_refl _) fun hs => ⟨hs, rfl, rfl⟩⟩
  | lose k =>
    by_cases hk : s.canAnnounce k <;> simp only [Session.step, hk, if_true, if_false] at hs <;>
      cases hs
    exact h.imp (fun hb => ⟨hb.received, hb.log, hb.resyncs, rfl⟩)
      fun ⟨j, high, ht⟩ => ⟨j, high, ht.grow (fun _ => List.prefix_refl _) rfl rfl rfl rfl rfl
        (Nat.le_refl _) nofun⟩
  | nextJob =>
    by_cases hk : s.announced = (s.output s.streaming).length ∧ s.streaming < s.top <;>
      simp only [Session.step, hk, and_self, if_true, if_false] at hs <;> cases hs
    exact h.imp (fun hb => ⟨hb.received, hb.log, hb.resyncs, rfl⟩)
      fun ⟨j, high, ht⟩ => ⟨j, high, ht.grow (fun _ => List.prefix_refl _) rfl rfl rfl rfl rfl
        (Nat.le_succ _) nofun⟩
  | receive k =>
    by_cases hk : s.canAnnounce k <;> simp only [Session.step, hk, if_true, if_false] at hs <;>
      cases hs
    exact .inr ⟨_, Session.Tracked.of_receives h hk hg⟩
  | answer n =>
    cases hn : s.resyncs[n]? with
    | none => simp [Session.step, hn] at hs
    | some r =>
      by_cases hr : r.result.isNone = true <;>
        simp only [Session.step, hn, hr, if_true] at hs <;> cases hs
      rcases h with hb | ⟨j, high, ht⟩
      · simp [hb.resyncs] at hn
      · exact .inr ⟨j, high, ht.answer hn (hg r hn)⟩
  | reply n =>
    cases hn : s.resyncs[n]? with
    | none => simp [Session.step, hn] at hs
    | some r =>
      simp only [Session.step, hn] at hs
      obtain ⟨result, hres, rfl⟩ := Option.map_eq_some_iff.mp hs
      rcases h with hb | ⟨j, high, ht⟩
      · simp [hb.resyncs] at hn
      · obtain ⟨heeds, flag⟩ := hg r result hn hres
        rw [ht.received] at heeds flag
        by_cases hj : r.jobId = j
        · subst hj
          have hi : s.store.ignores r.jobId = false := by simpa using heeds
          exact .inr ⟨_, _, ht.reply hn hres hi (flag rfl)⟩
        · have hi : s.store.ignores r.jobId = true := heeds.mpr (by simpa using Ne.symm hj)
          simp only [Store.resynced, hi, if_true]
          exact .inr ⟨j, high, ht.reply_ignored hn hj⟩

theorem Session.Tracked.of_reach
    (hr : Reach (Session.step size) (cursorIsTheJobs size) Session.Fresh s) :
    s.Blank ∨ ∃ j high, s.Tracked size j high := by
  refine hr.invariant (I := fun s => s.Blank ∨ ∃ j high, s.Tracked size j high) ?_ ?_
  · exact fun s hs => .inl ⟨hs.received, by rw [hs.store], hs.resyncs, hs.inSequence⟩
  · exact fun s a t h hg hs => Session.Tracked.step h hg hs

end Lemmas

/-- In every run in which each job starts with the cursor of its own, and replies are
heeded for the job they are about, the panel's log is complete. -/
theorem log_complete {size : Nat → Nat} {s : Session}
    (hr : Reach (Session.step size) (cursorIsTheJobs size) Session.Fresh s) :
    s.LogComplete size := by
  intro hres hseq
  rcases Session.Tracked.of_reach hr with hb | ⟨j, high, h⟩
  · simp [hb.inSequence] at hseq
  obtain ⟨rfl, hann, hlog⟩ := h.inSeq hseq
  obtain ⟨⟨k, lines⟩, hsome, hk⟩ := Option.map_eq_some_iff.mp hlog
  obtain rfl : k = s.streaming := hk
  have hlines := Store.linesOf_eq hsome
  have hcur := h.cursor
  -- nothing is awaited, so a line is there or the panel says that lines are omitted
  have there : ∀ i, i < s.announced → (∃ l ∈ lines, l.i = i) ∨ s.Omits size s.streaming i := by
    intro i hi
    rcases h.account i (by omega) with hs | ⟨r, hr, -⟩ | ⟨r, hr, -⟩ | ho
    · exact .inl (by rwa [Session.Shows, hlines] at hs)
    · simp [hres] at hr
    · simp [hres] at hr
    · exact .inr ho
  refine ⟨lines, hsome, ?_, fun l hl => (h.lines l (hlines ▸ hl)).2, ?_, ?_⟩
  · exact hlines ▸ h.sorted.resolve_left (by simp [hres])
  · intro i hd hi
    exact (there i hi).resolve_right fun ho => absurd ho.1 (by omega)
  · intro hom i hi
    exact (there i hi).resolve_right fun ho => absurd ho.2.1 (by simp [hom])

/-- The steps that need no look at the lines: of a job seen before, with nothing omitted. -/
def plainly (s : Session) : Action → Bool
  | .receive _ => s.received = some s.streaming || s.store.cursor == 0
  | .answer n => s.resyncs[n]?.all fun r => !r.first
  | .reply n => s.resyncs[n]?.all fun r =>
      s.received = some r.jobId && !s.store.ignores r.jobId && !s.store.logOmitted
  | _ => true

theorem cursorIsTheJobs_of_plainly {size : Nat → Nat} {s : Session} {a : Action}
    (h : plainly s a = true) : cursorIsTheJobs size s a := by
  cases a with
  | receive k =>
    intro hne
    simp only [plainly, Bool.or_eq_true, decide_eq_true_iff, beq_iff_eq] at h
    exact .inl (h.resolve_left hne)
  | answer n =>
    intro r hn hf
    simp [plainly, hn, hf] at h
  | reply n =>
    intro r result hn _
    simp only [plainly, hn, Option.all_some, Bool.and_eq_true, decide_eq_true_iff,
      Bool.not_eq_true'] at h
    simp [h]
  | _ => trivial

def connected : Session := { output := fun _ => [], top := 0, streaming := 0, announced := 0 }

theorem connected_fresh : connected.Fresh := ⟨rfl, rfl, rfl, rfl, Nat.le_refl _, Nat.le_refl _,
  fun _ _ => rfl⟩

/-- Of five lines the third is lost on the way, fetched, and the last comes in sequence. -/
theorem log_complete_after_loss : ∃ s : Session, s.resyncs = [] ∧ s.inSequence = true ∧
    s.announced = 5 ∧ s.LogComplete fun _ => 10 := by
  have hr := (Reach.start connected_fresh : Reach (Session.step fun _ => 10)
    (cursorIsTheJobs fun _ => 10) Session.Fresh connected).extend_checked
    (l := List.replicate 4 (.append "stdout" "cc") ++ [.receive 2, .lose 1, .receive 1, .answer 0,
      .reply 0, .append "stdout" "ld", .receive 1])
    (fun _ _ => cursorIsTheJobs_of_plainly) rfl
  exact ⟨_, rfl, rfl, rfl, log_complete hr⟩

/-- The second job's first line is asked for from the first job's cursor, and stays away
without a word. -/
theorem second_job_starts_late :
    ¬ ∀ s, Reach (Session.step fun _ => 10) anyStep Session.Fresh s →
      s.LogComplete fun _ => 10 := by
  intro hall
  have hr := (Reach.start connected_fresh : Reach (Session.step fun _ => 10) anyStep
    Session.Fresh connected).extend (l := [.jobEvent 0, .append "stdout" "cc", .receive 1, .submit,
      .nextJob, .jobEvent 1, .append "stdout" "cc", .receive 1, .answer 0, .reply 0,
      .append "stdout" "ld", .receive 1]) (fun _ _ _ => trivial) rfl
  obtain ⟨lines, hlog, -, -, hkept, -⟩ := hall _ hr rfl rfl
  cases hlog
  obtain ⟨l, hl, hi⟩ := hkept 0 (Nat.le_refl _) (by decide)
  obtain rfl := List.mem_singleton.mp hl
  exact absurd hi (by decide)

end McuUpdater.Ui
