import McuUpdater.Jobs.Slot

/-! `jobs.py`: the order of the notifications that `_emit_change` sends, and what the last
one about a job says. -/
namespace McuUpdater.Jobs
open Transition

/-- The last notification about job `j`. -/
def lastAbout (j : Nat) (sent : List (Nat × Job)) : Option Job :=
  (sent.reverse.find? (·.1 = j)).map Prod.snd

theorem lastAbout_append (i j : Nat) (n : Job) (sent : List (Nat × Job)) :
    lastAbout j (sent ++ [(i, n)]) = if i = j then some n else lastAbout j sent := by
  by_cases h : i = j <;> simp [lastAbout, h]

/-- The job whose `submit` is between the making of the job and `thread.start()`. -/
def Call.submits : Call → Option Nat
  | .clearing j | .leaving j | .announcing j _ | .starting j => some j
  | _ => none

/-- The job a `cancel` has looked up. -/
def Call.names : Call → Option Nat
  | .found j | .requesting j | .setting j | .telling j _ => some j
  | _ => none

/-- The job a `cancel` is going to notify of. -/
def Call.tells : Call → Option Nat
  | .requesting j | .setting j | .telling j _ => some j
  | _ => none

/-- After a failed `thread.start()`. -/
def Call.failed : Call → Bool
  | .unstarted _ | .unslotted _ => true
  | _ => false

def Worker.finished : Worker → Bool
  | .ended | .released | .announcing _ | .done => true
  | _ => false

/-- A notification about job `j` is still to come. -/
def Runner.Outstanding (s : Runner) (j : Nat) : Prop :=
  j < s.nextId ∧ (s.workers j ≠ .done ∨ ∃ p, (s.calls p).tells = some j)

/-- The step hands over the notification `n` about job `j`. -/
def Runner.Delivers (s : Runner) (a : Action) (j : Nat) (n : Job) : Prop :=
  (∃ p, a = .advance p ∧
    (s.calls p = .announcing j (some n) ∨ s.calls p = .telling j (some n))) ∨
  a = .work j ∧ (s.workers j = .stepping (some n) ∨ s.workers j = .announcing (some n))

/-- Every thread starts; the first notification about a job waits for all about the jobs
before it, and a job's own last one for the cancels that saw it unfinished. -/
structure noticesInTurn (s : Runner) (a : Action) : Prop where
  starts : ∀ p, a ≠ .startFails p
  turn : ∀ j n, s.Delivers a j n → (∀ m ∈ s.sent, m.1 ≠ j) → ∀ k, k < j → ¬ s.Outstanding k
  final : ∀ j n, a = .work j → s.workers j = .announcing (some n) →
    ∀ p m, s.calls p = .telling j (some m) → m.state.isTerminal = true

/-- The threads of the job itself are through. -/
def Runner.Finished (s : Runner) (j : Nat) : Prop :=
  (s.jobs j).state.isTerminal = true ∧ (s.workers j = .done ∨ s.workers j = .notStarted)

/-- Job ids never decrease along the notifications, the last one about a finished job has
its state, and so the latest one of all is about the latest job and true of it if it has
finished. -/
structure Runner.EndsOnTruth (s : Runner) : Prop where
  order : s.sent.Pairwise fun m n => m.1 ≤ n.1
  last : ∀ j, s.Finished j → ∃ n, lastAbout j s.sent = some n ∧ n.state = (s.jobs j).state
  latest : ∀ j n, s.sent.getLast? = some (j, n) →
    (∀ m ∈ s.sent, m.1 ≤ j) ∧ (s.Finished j → n.state = (s.jobs j).state)

/-- Where the threads are, against the ids given out and the states of the jobs. -/
structure Runner.Placed (s : Runner) : Prop where
  submits : ∀ p j, (s.calls p).submits = some j → j < s.nextId ∧ s.workers j = .notStarted
  names : ∀ p j, (s.calls p).names = some j → j < s.nextId
  begun : ∀ j, s.workers j ≠ .notStarted → j < s.nextId
  started : ∀ p, (s.calls p).failed = false
  state : ∀ j, (s.jobs j).state.isTerminal = (s.workers j).finished
  final : ∀ j n, s.workers j = .announcing (some n) → n.state = (s.jobs j).state
  told : ∀ p j n, s.calls p = .telling j (some n) → n.state.isTerminal = true →
    n.state = (s.jobs j).state

attribute [local grind] Call.submits Call.names Call.tells Call.failed Worker.finished
  JobState.isTerminal Call.stage

theorem Call.submits_eq_none {p : Nat} {c : Call} (h : c.stage p = none) : c.submits = none := by
  cases c <;> grind

section Step
variable {s t : Runner} {st : Option Stage} {a : Action}

theorem Runner.Placed.submits_step (hi : s.Placed) (ho : s.Owned st) (hm : s.Move a t) :
    ∀ p j, (t.calls p).submits = some j → j < t.nextId ∧ t.workers j = .notStarted := by
  obtain ⟨submits, -, begun, -, -, -, -⟩ := hi
  cases hm
  case unknownJob => exact submits
  case start p j h =>
    obtain ⟨calls, -⟩ := ho.call_alone (p := p) (x := .submitted p j) (by simp [h, Call.stage])
    have hj := submits p j (by simp [h, Call.submits])
    have others : ∀ q, q ≠ p → (s.calls q).submits = none := fun q hq =>
      Call.submits_eq_none (calls q hq)
    simp only [Runner.setCall, Runner.setWorker]
    grind [Function.update]
  all_goals
    simp only [Runner.setCall, Runner.setJob, Runner.setWorker, Runner.send]
    grind [Function.update]

theorem Runner.Placed.names_step (hi : s.Placed) (hm : s.Move a t) :
    ∀ p j, (t.calls p).names = some j → j < t.nextId := by
  have names := hi.names
  clear hi
  cases hm
  case unknownJob => exact names
  all_goals
    simp only [Runner.setCall, Runner.setJob, Runner.setWorker, Runner.send]
    first
      | exact names
      | grind [Function.update]

theorem Runner.Placed.begun_step (hi : s.Placed) (hm : s.Move a t) :
    ∀ j, t.workers j ≠ .notStarted → j < t.nextId := by
  obtain ⟨submits, -, begun, -, -, -, -⟩ := hi
  cases hm
  case start p j h =>
    have hj := (submits p j (by simp [h, Call.submits])).1
    simp only [Runner.setCall, Runner.setWorker]
    grind [Function.update]
  all_goals
    first
      | exact begun
      | (simp only [Runner.setCall, Runner.setJob, Runner.setWorker, Runner.send]
         grind [Function.update])

theorem Runner.Placed.started_step (hi : s.Placed) (hg : ∀ p, a ≠ .startFails p)
    (hm : s.Move a t) : ∀ p, (t.calls p).failed = false := by
  have started := hi.started
  clear hi
  cases hm
  case unknownJob => exact started
  case startFails p j h => exact absurd rfl (hg p)
  all_goals
    simp only [Runner.setCall, Runner.setJob, Runner.setWorker, Runner.send]
    first
      | exact started
      | grind [Function.update]

theorem Runner.Placed.state_step (hi : s.Placed) (hm : s.Move a t) :
    ∀ j, (t.jobs j).state.isTerminal = (t.workers j).finished := by
  obtain ⟨submits, -, begun, started, state, -, -⟩ := hi
  cases hm
  all_goals
    first
      | exact state
      | (simp only [Runner.setCall, Runner.setJob, Runner.setWorker, Runner.send]
         grind [Function.update])

theorem Runner.Placed.final_step (hi : s.Placed) (hm : s.Move a t) :
    ∀ j n, t.workers j = .announcing (some n) → n.state = (t.jobs j).state := by
  obtain ⟨-, -, begun, started, -, final, -⟩ := hi
  cases hm
  all_goals
    first
      | exact final
      | (simp only [Runner.setCall, Runner.setJob, Runner.setWorker, Runner.send]
         grind [Function.update])

theorem Runner.Placed.told_step (hi : s.Placed) (hm : s.Move a t) :
    ∀ p j n, t.calls p = .telling j (some n) → n.state.isTerminal = true →
      n.state = (t.jobs j).state := by
  obtain ⟨-, names, -, started, state, -, told⟩ := hi
  have known : ∀ p j n, s.calls p = .telling j n → j < s.nextId := fun p j n h =>
    names p j (by simp [h, Call.names])
  clear names
  cases hm
  all_goals
    first
      | exact told
      | (simp only [Runner.setCall, Runner.setJob, Runner.setWorker, Runner.send]
         grind [Function.update])

theorem Runner.Placed.step (hi : s.Placed) (ho : s.Owned st) (hg : ∀ p, a ≠ .startFails p)
    (hm : s.Move a t) : t.Placed :=
  ⟨hi.submits_step ho hm, hi.names_step hm, hi.begun_step hm, hi.started_step hg hm,
    hi.state_step hm, hi.final_step hm, hi.told_step hm⟩

theorem Runner.Placed.outstanding_of_delivers {j : Nat} {n : Job} (hi : s.Placed)
    (hd : s.Delivers a j n) : s.Outstanding j := by
  rcases hd with ⟨p, -, h | h⟩ | ⟨-, h⟩
  · obtain ⟨hj, hw⟩ := hi.submits p j (by simp [h, Call.submits])
    exact ⟨hj, .inl (by simp [hw])⟩
  · exact ⟨hi.names p j (by simp [h, Call.names]), .inr ⟨p, by simp [h, Call.tells]⟩⟩
  · rcases h with h | h <;> exact ⟨hi.begun j (by simp [h]), .inl (by simp [h])⟩

theorem Runner.Move.outstanding {k : Nat} (hm : s.Move a t) (hi : s.Placed)
    (hk : t.Outstanding k) : s.Outstanding k ∨ k = s.nextId := by
  obtain ⟨submits, names, -, -, state, -, -⟩ := hi
  unfold Runner.Outstanding at hk ⊢
  cases hm
  case unknownJob => exact .inl hk
  case unfinished p j h ht =>
    have hj := names p j (by simp [h, Call.names])
    have hw := (state j).symm.trans ht
    simp only [Runner.setCall] at hk
    grind [Function.update]
  case start p j h =>
    have hj := submits p j (by simp [h, Call.submits])
    simp only [Runner.setCall, Runner.setWorker] at hk
    grind [Function.update]
  all_goals
    simp only [Runner.setCall, Runner.setJob, Runner.setWorker, Runner.send] at hk
    grind [Function.update]

theorem Runner.Move.sent (hm : s.Move a t) :
    (t.sent = s.sent ∧ ∀ j, t.workers j = .done → s.workers j = .done) ∨
    ∃ j n, s.Delivers a j n ∧ t.sent = s.sent ++ [(j, n)] ∧ t.jobs = s.jobs ∧
      ∀ i, t.workers i = .done → s.workers i = .done ∨ i = j ∧ s.workers j = .announcing (some n) := by
  cases hm
  case announce p j n h =>
    exact .inr ⟨j, n, .inl ⟨p, rfl, .inl h⟩, rfl, rfl, fun _ => .inl⟩
  case tell p j n h =>
    exact .inr ⟨j, n, .inl ⟨p, rfl, .inr h⟩, rfl, rfl, fun _ => .inl⟩
  case stepped j n h =>
    refine .inr ⟨j, n, .inr ⟨rfl, .inl h⟩, rfl, rfl, fun i hi => .inl ?_⟩
    simp only [Runner.setWorker, Runner.send] at hi
    grind [Function.update]
  case announceEnd j n h =>
    refine .inr ⟨j, n, .inr ⟨rfl, .inr h⟩, rfl, rfl, fun i hi => ?_⟩
    simp only [Runner.setWorker, Runner.send] at hi
    grind [Function.update]
  case unknownJob => exact .inl ⟨rfl, fun _ => id⟩
  all_goals
    refine .inl ⟨rfl, fun j hj => ?_⟩
    simp only [Runner.setCall, Runner.setJob, Runner.setWorker] at hj
    grind [Function.update]

theorem Runner.Placed.state_of_done {j : Nat} (hi : s.Placed) (hm : s.Move a t)
    (hj : s.workers j = .done) : (t.jobs j).state = (s.jobs j).state := by
  obtain ⟨-, -, begun, started, -, -, -⟩ := hi
  have hlt := begun j (by simp [hj])
  cases hm
  case fail p i h => simpa [h, Call.failed] using started p
  all_goals first
    | rfl
    | (simp only [Runner.setCall, Runner.setJob, Runner.setWorker]; grind [Function.update])

theorem Runner.Move.nextId_le (hm : s.Move a t) : s.nextId ≤ t.nextId := by
  cases hm
  case create => exact Nat.le_succ _
  all_goals exact Nat.le_refl _

end Step

/-- What the notifications sent so far say, and that none is to come about a job before
the latest. -/
structure Runner.InTurn (s : Runner) : Prop where
  order : s.sent.Pairwise fun m n => m.1 ≤ n.1
  quiet : ∀ n ∈ s.sent, ∀ k, k < n.1 → ¬ s.Outstanding k
  known : ∀ n ∈ s.sent, n.1 < s.nextId
  last : ∀ j, s.workers j = .done →
    ∃ n, lastAbout j s.sent = some n ∧ n.state = (s.jobs j).state
  settled : ∀ j, s.workers j = .done → ∀ p m, s.calls p = .telling j (some m) →
    m.state.isTerminal = true

section Step
variable {s t : Runner} {st : Option Stage} {a : Action}

/-- No notification about an older job follows a step that keeps the turn. -/
theorem Runner.InTurn.quiet_of_delivers {j : Nat} {n : Job} (hi : s.InTurn)
    (hg : noticesInTurn s a) (hd : s.Delivers a j n) : ∀ k, k < j → ¬ s.Outstanding k := by
  by_cases hf : ∀ m ∈ s.sent, m.1 ≠ j
  · exact hg.turn j n hd hf
  · push Not at hf
    obtain ⟨m, hm, rfl⟩ := hf
    exact hi.quiet m hm

theorem Runner.InTurn.le_of_delivers {j : Nat} {n : Job} (hi : s.InTurn) (hp : s.Placed)
    (hd : s.Delivers a j n) : ∀ m ∈ s.sent, m.1 ≤ j := by
  intro m hm
  by_contra hlt
  exact hi.quiet m hm j (by omega) (hp.outstanding_of_delivers hd)

theorem Runner.InTurn.settled_step (hi : s.InTurn) (hp : s.Placed) (hg : noticesInTurn s a)
    (hm : s.Move a t) : ∀ j, t.workers j = .done → ∀ p m, t.calls p = .telling j (some m) →
      m.state.isTerminal = true := by
  have settled := hi.settled
  have state := hp.state
  cases hm
  case unknownJob => exact settled
  case announceEnd j n h =>
    have final := hg.final j n rfl h
    simp only [Runner.setWorker, Runner.send]
    grind [Function.update]
  all_goals
    simp only [Runner.setCall, Runner.setJob, Runner.setWorker, Runner.send]
    grind [Function.update]

theorem Runner.InTurn.state_of_delivers {j : Nat} {n : Job} (hi : s.InTurn) (hp : s.Placed)
    (hd : s.Delivers a j n) (hj : s.workers j = .done ∨ s.workers j = .announcing (some n)) :
    n.state = (s.jobs j).state := by
  rcases hj with hj | hj
  · rcases hd with ⟨p, -, h | h⟩ | ⟨-, h | h⟩
    · have hs := (hp.submits p j (by simp [h, Call.submits])).2
      simp [hs] at hj
    · exact hp.told p j n h (hi.settled j hj p n h)
    · simp [hj] at h
    · simp [hj] at h
  · exact hp.final j n hj

theorem Runner.InTurn.last_step (hi : s.InTurn) (hp : s.Placed) (hm : s.Move a t) (j : Nat)
    (hj : t.workers j = .done) :
    ∃ n, lastAbout j t.sent = some n ∧ n.state = (t.jobs j).state := by
  rcases hm.sent with ⟨hs, hw⟩ | ⟨i, n, hd, hs, hjobs, hw⟩
  · rw [hs, hp.state_of_done hm (hw j hj)]
    exact hi.last j (hw j hj)
  · rw [hs, lastAbout_append, hjobs]
    by_cases hij : i = j
    · subst hij
      rw [if_pos rfl]
      exact ⟨n, rfl, hi.state_of_delivers hp hd ((hw i hj).imp_right And.right)⟩
    · rw [if_neg hij]
      exact hi.last j ((hw j hj).resolve_right fun h => hij h.1.symm)

theorem Runner.InTurn.step (hi : s.InTurn) (hp : s.Placed) (hg : noticesInTurn s a)
    (hm : s.Move a t) : t.InTurn := by
  have settled := hi.settled_step hp hg hm
  have last := hi.last_step hp hm
  rcases hm.sent with ⟨hs, -⟩ | ⟨j, n, hd, hs, -, -⟩
  · refine ⟨hs ▸ hi.order, fun m hms k hk ho => ?_, fun m hms => ?_, last, settled⟩
    · rw [hs] at hms
      rcases hm.outstanding hp ho with ho | rfl
      · exact hi.quiet m hms k hk ho
      · have := hi.known m hms
        omega
    · rw [hs] at hms
      exact Nat.lt_of_lt_of_le (hi.known m hms) hm.nextId_le
  · have hj : j < s.nextId := (hp.outstanding_of_delivers hd).1
    refine ⟨?_, fun m hms k hk ho => ?_, fun m hms => ?_, last, settled⟩
    · rw [hs]
      exact List.pairwise_append.mpr ⟨hi.order, List.pairwise_singleton _ _, fun m hms m' hm' => by
        obtain rfl := List.mem_singleton.mp hm'
        exact hi.le_of_delivers hp hd m hms⟩
    · have hold : ∀ m ∈ s.sent ++ [(j, n)], m.1 < s.nextId ∧ ∀ k, k < m.1 → ¬ s.Outstanding k := by
        intro m hms
        rcases List.mem_append.mp hms with hms | hms
        · exact ⟨hi.known m hms, hi.quiet m hms⟩
        · obtain rfl := List.mem_singleton.mp hms
          exact ⟨hj, hi.quiet_of_delivers hg hd⟩
      obtain ⟨hlt, hq⟩ := hold m (hs ▸ hms)
      rcases hm.outstanding hp ho with ho | rfl
      · exact hq k hk ho
      · omega
    · rw [hs] at hms
      rcases List.mem_append.mp hms with hms | hms
      · exact Nat.lt_of_lt_of_le (hi.known m hms) hm.nextId_le
      · obtain rfl := List.mem_singleton.mp hms
        exact Nat.lt_of_lt_of_le hj hm.nextId_le

theorem Runner.InTurn.of_reach (hr : Reach Runner.step noticesInTurn Runner.Fresh s) :
    s.Placed ∧ s.InTurn := by
  suffices h : (∃ st, s.Owned st) ∧ s.Placed ∧ s.InTurn from h.2
  refine hr.invariant (I := fun s => (∃ st, s.Owned st) ∧ s.Placed ∧ s.InTurn) ?_ ?_
  · rintro s rfl
    refine ⟨⟨none, .of_fresh rfl⟩, ?_, ?_⟩ <;> constructor <;>
      simp [Call.submits, Call.names, Call.failed, Worker.finished, JobState.isTerminal]
  · rintro s a t ⟨⟨st, ho⟩, hp, hi⟩ hg hs
    have hm := Runner.step_move hs
    exact ⟨ho.step hm, hp.step ho hg.starts hm, hi.step hp hg hm⟩

theorem Runner.Placed.done_of_finished {j : Nat} (hp : s.Placed) (hf : s.Finished j) :
    s.workers j = .done := by
  refine hf.2.resolve_right fun h => ?_
  have := (hp.state j).symm.trans hf.1
  simp [h, Worker.finished] at this

end Step

theorem lastAbout_of_getLast? {sent : List (Nat × Job)} {j : Nat} {n : Job}
    (h : sent.getLast? = some (j, n)) : lastAbout j sent = some n := by
  obtain ⟨init, rfl⟩ := List.getLast?_eq_some_iff.mp h
  simp [lastAbout_append]

/-- In every run whose notifications are handed over in turn, they end on the truth. -/
theorem notices_end_on_truth {s : Runner}
    (hr : Reach Runner.step noticesInTurn Runner.Fresh s) : s.EndsOnTruth := by
  obtain ⟨hp, hi⟩ := Runner.InTurn.of_reach hr
  refine ⟨hi.order, fun j hf => hi.last j (hp.done_of_finished hf), fun j n hl => ⟨?_, ?_⟩⟩
  · intro m hm
    obtain ⟨init, hinit⟩ := List.getLast?_eq_some_iff.mp hl
    have order := hi.order
    rw [hinit] at hm order
    rcases List.mem_append.mp hm with hm | hm
    · exact (List.pairwise_append.mp order).2.2 m hm (j, n) (by simp)
    · obtain rfl := List.mem_singleton.mp hm
      exact Nat.le_refl _
  · intro hf
    obtain ⟨m, hm, hs⟩ := hi.last j (hp.done_of_finished hf)
    obtain rfl : n = m := Option.some.inj ((lastAbout_of_getLast? hl).symm.trans hm)
    exact hs

/-- Job `j` finishes and its worker goes on to where its last notification is ready. -/
def finishes (j : Nat) : List Action := .finish j .succeeded :: List.replicate 3 (.work j)

/-- The step starts its thread, and any notification it hands over is about job 0 and not
the last. -/
def firstInTurn (s : Runner) : Action → Bool
  | .startFails _ => false
  | .advance p => match s.calls p with
    | .announcing j (some _) | .telling j (some _) => j == 0
    | _ => true
  | .work j => match s.workers j with
    | .announcing (some _) => false
    | _ => j == 0
  | _ => true

theorem inTurn_of_firstInTurn {s : Runner} {a : Action} (h : firstInTurn s a = true) :
    noticesInTurn s a := by
  refine ⟨?_, ?_, ?_⟩
  · rintro p rfl
    cases h
  · rintro j n (⟨p, rfl, hp | hp⟩ | ⟨rfl, hw | hw⟩) - k hk
    all_goals simp_all [firstInTurn]
  · rintro j n rfl hw
    simp [firstInTurn, hw] at h

theorem notices_end_on_truth_build :
    ∃ s : Runner, s.Finished 0 ∧ s.EndsOnTruth := by
  have ready := (Reach.start rfl : Reach Runner.step noticesInTurn Runner.Fresh
    {}).extend_checked (l := submits 0 ++ finishes 0) (fun _ _ => inTurn_of_firstInTurn) rfl
  have hr := ready.next (a := .work 0) (by
    refine ⟨nofun, ?_, ?_⟩
    · rintro j n (⟨p, hp, -⟩ | ⟨hj, -⟩) - k hk
      · cases hp
      · cases hj
        omega
    · intro j n _ _ p m hc
      by_cases hp : p = 0
      · subst hp; cases hc
      · simp [hp] at hc) rfl
  exact ⟨_, ⟨rfl, .inl rfl⟩, notices_end_on_truth hr⟩

/-- The notifications cross: of two jobs, of two states, or the last is never sent. -/
theorem notices_cross :
    (¬ ∀ s, Reach Runner.step anyStep Runner.Fresh s →
      s.sent.Pairwise fun m n => m.1 ≤ n.1) ∧
    (¬ ∀ s, Reach Runner.step anyStep Runner.Fresh s → ∀ j, s.Finished j →
      s.workers j = .done → ∃ n, lastAbout j s.sent = some n ∧ n.state = (s.jobs j).state) ∧
    ¬ ∀ s, Reach Runner.step anyStep Runner.Fresh s → ∀ j, s.Finished j →
      s.workers j = .notStarted →
        ∃ n, lastAbout j s.sent = some n ∧ n.state = (s.jobs j).state := by
  have h0 : Reach Runner.step anyStep Runner.Fresh {} := .start rfl
  refine ⟨fun hall => ?_, fun hall => ?_, fun hall => ?_⟩
  · -- job 1 is announced between job 0's leaving the slot and its last notification
    have hr := h0.extend (l := submits 0 ++ finishes 0 ++ submits 0 ++ [.work 0])
      (fun _ _ _ => trivial) rfl
    exact absurd (hall _ hr) (by decide)
  · -- a cancel's snapshot of the running job is handed over after the job's last one
    have hr := h0.extend (l := submits 0 ++ [.cancel 1 0] ++ List.replicate 4 (.advance 1) ++
      finishes 0 ++ [.work 0, .advance 1]) (fun _ _ _ => trivial) rfl
    obtain ⟨n, hn, hs⟩ := hall _ hr 0 ⟨rfl, .inl rfl⟩ rfl
    cases hn
    exact absurd hs (by decide)
  · -- the thread of job 0 does not start
    have hr := h0.extend (l := (submits 0).take 9 ++ [.startFails 0, .advance 0, .advance 0])
      (fun _ _ _ => trivial) rfl
    obtain ⟨n, hn, hs⟩ := hall _ hr 0 ⟨rfl, .inr rfl⟩ rfl
    cases hn
    exact absurd hs (by decide)

end McuUpdater.Jobs
