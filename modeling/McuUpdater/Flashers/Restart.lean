import McuUpdater.Flashers.Batch

/-! `flashers/batch.py`: what a batch leaves of the services however it ends. -/
namespace McuUpdater.Flashers

def Outcome.last : Outcome → Batch
  | .done s => s
  | .raised _ s => s

/-- An event of a group's writes: no service is touched, and what is written is of the group. -/
def Event.Of (group : List FlashTarget) : Event → Prop
  | .stopServices _ _ | .startServices _ => False
  | .write _ t => t ∈ group
  | _ => True

/-- All that a part of a batch adds has this property. -/
def Adds (P : Event → Prop) (s : Batch) (o : Outcome) : Prop :=
  ∃ new, o.last.events = s.events ++ new ∧ ∀ e ∈ new, P e

/-- Services are never stopped, or cannot be, or are started again after the writes that need
them stopped, and then nothing more is written. -/
inductive Restarted (free stopped : List FlashTarget) : List Event → Prop
  | never {es : List Event} (writes : ∀ e ∈ es, e.Of free) : Restarted free stopped es
  | refused {before : List Event} {units : List String} {reason : String}
      (writes : ∀ e ∈ before, e.Of free) :
      Restarted free stopped (before ++ [.stopServices units reason])
  | restarted {before during after : List Event} {units : List String} {reason : String}
      (first : ∀ e ∈ before, e.Of free) (writes : ∀ e ∈ during, e.Of stopped)
      (nothing : ∀ e ∈ after, e.Of []) :
      Restarted free stopped
        (before ++ .stopServices units reason :: (during ++ .startServices units :: after))

section Facts
variable {P : Event → Prop} {s s' : Batch} {o : Outcome} {group : List FlashTarget} {c : Calls}
  {dryRun : Bool} {k total : Nat} {t : FlashTarget}

theorem Event.Of.mono {group' : List FlashTarget} (h : group ⊆ group') {e : Event} (he : e.Of group) :
    e.Of group' := by
  cases e with
  | write k t => exact h he
  | _ => exact he

theorem Adds.of_events (h : o.last.events = s.events) : Adds P s o := ⟨[], by simp [h], by simp⟩

theorem Adds.emit {e : Event} (he : P e) : Adds P s (.done (s.emit e)) :=
  ⟨[e], rfl, by simpa using he⟩

theorem Adds.call {e : Event} (he : P e) (r : Option Exc) : Adds P s (s.call e r) := by
  cases r with
  | none => exact .emit he
  | some exc => exact ⟨[e], rfl, by simpa using he⟩

theorem last_call (s : Batch) (e : Event) (r : Option Exc) :
    (s.call e r).last.events = s.events ++ [e] := by
  cases r <;> rfl

theorem Adds.trans (h : Adds P s (.done s')) (h' : Adds P s' o) : Adds P s o := by
  obtain ⟨new, heq, hnew⟩ := h
  obtain ⟨more, heq', hmore⟩ := h'
  refine ⟨new ++ more, ?_, fun e he => (List.mem_append.mp he).elim (hnew e) (hmore e)⟩
  rw [heq', show s'.events = s.events ++ new from heq, List.append_assoc]

theorem Adds.of_same_events (h : Adds P s' o) (heq : s'.events = s.events) : Adds P s o :=
  .trans (.of_events heq) h

theorem Adds.bind {next : Batch → Outcome} (h : Adds P s o) (hnext : ∀ s', Adds P s' (next s')) :
    Adds P s (o.bind next) := by
  cases o with
  | done s' => exact h.trans (hnext s')
  | raised e s' => exact h

theorem Outcome.last_exit (o : Outcome) (exit : Batch → Outcome) :
    (o.exit exit).last = (exit o.last).last := by
  cases o with
  | done s => rfl
  | raised e s =>
    show (match exit s with | .done s => Outcome.raised e s | .raised e' s => .raised e' s).last = _
    cases h : exit s <;> simp [Outcome.last, h]

theorem Adds.exit {exit : Batch → Outcome} (h : Adds P s o) (hexit : ∀ s', Adds P s' (exit s')) :
    Adds P s (o.exit exit) := by
  obtain ⟨new, heq, hnew⟩ := h
  obtain ⟨more, heq', hmore⟩ := hexit o.last
  refine ⟨new ++ more, ?_, fun e he => (List.mem_append.mp he).elim (hnew e) (hmore e)⟩
  rw [Outcome.last_exit, heq', heq, List.append_assoc]

theorem adds_report (level text : String) (s : Batch) :
    Adds (Event.Of group) s (.done (s.emit (.report level text))) := .emit trivial

theorem adds_step (label : String) (index total : Nat) (s : Batch) :
    Adds (Event.Of group) s (.done (s.emit (.step label index total))) := .emit trivial

theorem adds_unlessFatal (prelude : String) (exc : Exc) :
    Adds (Event.Of group) s (s.unlessFatal prelude exc) := by
  cases exc with
  | updater text => exact .emit trivial
  | _ => exact .of_events rfl

theorem adds_fileRecord (confidence : PyValue.PyVal) :
    Adds (Event.Of group) s (fileRecord c dryRun k t confidence s) := by
  unfold fileRecord
  dsimp only
  split
  · exact .of_events rfl
  · split
    · exact adds_unlessFatal _ _
    · exact .of_events rfl
    · split
      · exact adds_unlessFatal _ _
      · exact .of_events rfl
      · exact .emit trivial

theorem adds_settle : Adds (Event.Of group) s (settle c k t s) := by
  unfold settle
  split
  · exact .emit trivial
  · exact (Adds.emit trivial).trans (adds_unlessFatal _ _)

theorem adds_writeDevice (ht : t ∈ group) :
    Adds (Event.Of group) s (writeDevice c dryRun k t s) := by
  have hwrite : Adds (Event.Of group) s (.done (s.emit (.write k t))) := .emit ht
  unfold writeDevice
  dsimp only
  split
  · exact hwrite.trans (Adds.emit trivial)
  · exact hwrite
  · refine hwrite.trans ((adds_fileRecord _).bind fun s' => ?_)
    exact (adds_settle : Adds _ { s' with flashed := _ } _).of_same_events rfl

theorem adds_writeOne (ht : t ∈ group) : Adds (Event.Of group) s (writeOne c dryRun total t s) := by
  refine (Adds.call trivial _).bind fun s' => ?_
  exact (Adds.emit trivial).trans (Adds.trans (.of_events rfl) (adds_writeDevice ht))

theorem adds_writeEach {ts : List FlashTarget} (hts : ts ⊆ group) :
    Adds (Event.Of group) s (writeEach c dryRun total ts s) := by
  induction ts generalizing s with
  | nil => exact .of_events rfl
  | cons t ts ih =>
    obtain ⟨ht, hts⟩ := List.cons_subset.mp hts
    exact (adds_writeOne ht).bind fun s' => ih hts

theorem adds_writeSessions {gs : List (Flasher × List FlashTarget)}
    (hgs : ∀ g ∈ gs, g.2 ⊆ group) : Adds (Event.Of group) s (writeSessions c dryRun total gs s) := by
  induction gs generalizing s with
  | nil => exact .of_events rfl
  | cons g gs ih =>
    obtain ⟨hg, hgs⟩ := List.forall_mem_cons.mp hgs
    refine Adds.bind ?_ fun s' => ih hgs
    refine (Adds.call trivial _).bind fun s' => ?_
    exact (adds_writeEach hg).exit fun s' => Adds.call trivial _

theorem adds_writeGroup : Adds (Event.Of group) s (writeGroup c dryRun total group s) := by
  unfold writeGroup
  split
  · exact .of_events rfl
  · rename_i gs hgs
    refine adds_writeSessions fun g hg => ?_
    rw [(byFlasher_sessionsOf hgs).own g hg]
    exact List.filter_subset_self _

theorem adds_finish (targets : List FlashTarget) : Adds (Event.Of []) s (finish c targets s) := by
  unfold finish
  dsimp only
  generalize "Flashed " ++ toString s.flashed.length ++ " of " ++ toString targets.length = label
  have hstep := @adds_step [] label targets.length targets.length s
  split
  · split
    · exact hstep
    · refine hstep.trans ((adds_report "info" "Waiting for Klipper to be ready..." _).trans ?_)
      split
      · exact .emit trivial
      · exact ⟨[.onReady], rfl, by simp [Event.Of]⟩
  · exact hstep

theorem adds_refused (refused : List Refusal) (s : Batch) :
    Adds (Event.Of group) s (.done (refused.foldl Batch.refuse s)) := by
  induction refused generalizing s with
  | nil => exact .of_events rfl
  | cons r refused ih =>
    exact (adds_report _ _ s).trans ((ih (s.refuse r)).of_same_events rfl)

theorem restarted_of_writeStopped {free stopped targets : List FlashTarget} {before : List Event}
    (hbefore : s.events = before) (hfirst : ∀ e ∈ before, e.Of free) :
    Restarted free stopped
      ((writeStopped c dryRun total stopped s).bind (finish c targets)).last.events := by
  unfold writeStopped
  split_ifs with hnone
  · obtain ⟨after, hafter, hnothing⟩ := @adds_finish s c targets
    refine .never fun e he => ?_
    rw [Outcome.bind, hafter, hbefore] at he
    rcases List.mem_append.mp he with he | he
    · exact hfirst e he
    · exact (hnothing e he).mono (List.nil_subset _)
  dsimp only
  cases hstop : c.stopServices with
  | some exc =>
    subst hbefore
    exact .refused hfirst
  | none =>
    set stop : Event := .stopServices (stopServicesUnion stopped)
      ("flash " ++ toString stopped.length ++ " device(s)")
    set start : Event := .startServices (stopServicesUnion stopped)
    obtain ⟨during, hduring, hwrites⟩ := @adds_writeGroup (s.emit stop) stopped c dryRun total
    have hexit : ((writeGroup c dryRun total stopped (s.emit stop)).exit
        fun s => s.call start c.startServices).last.events = before ++ stop :: (during ++ [start]) := by
      rw [Outcome.last_exit, last_call, hduring]
      simp [Batch.emit, hbefore]
    -- however the writes and the start of the services end
    show Restarted free stopped (((writeGroup c dryRun total stopped (s.emit stop)).exit
      fun s => s.call start c.startServices).bind (finish c targets)).last.events
    generalize (writeGroup c dryRun total stopped (s.emit stop)).exit _ = ended at hexit ⊢
    cases ended with
    | raised e s' =>
      rw [Outcome.bind, hexit]
      exact .restarted hfirst hwrites (by simp)
    | done s' =>
      obtain ⟨after, hafter, hnothing⟩ := @adds_finish s' c targets
      rw [Outcome.bind, hafter, show s'.events = _ from hexit]
      simpa using Restarted.restarted hfirst hwrites hnothing

end Facts

/-- However a batch ends, what it stopped it starts again, and what needs a service stopped is
written only between the two. -/
theorem writeAll_restarted (c : Calls) (dryRun : Bool) (targets : List FlashTarget)
    (refused : List Refusal) :
    Restarted (targets.filter (needsServicesStopped · = some false))
      (targets.filter (needsServicesStopped · = some true))
      (writeAll c dryRun targets refused).last.events := by
  unfold writeAll
  split
  · exact .never (by simp [Outcome.last])
  rename_i stopped free hgroup
  obtain ⟨hstopped, hfree⟩ := groupByStop_filter hgroup
  rw [← hstopped, ← hfree]
  dsimp only
  obtain ⟨before, hbefore, hfirst⟩ : Adds (Event.Of free) {}
      (writeGroup c dryRun targets.length free (refused.foldl Batch.refuse {})) :=
    (adds_refused refused {}).trans adds_writeGroup
  cases hends : writeGroup c dryRun targets.length free (refused.foldl Batch.refuse {}) with
  | raised e s =>
    rw [hends] at hbefore
    exact .never (by simpa [Outcome.bind, hbefore] using hfirst)
  | done s =>
    rw [hends] at hbefore
    exact restarted_of_writeStopped hbefore hfirst

end McuUpdater.Flashers
