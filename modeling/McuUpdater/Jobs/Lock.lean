import McuUpdater.Lib.Transition
import McuUpdater.Lib.PyJson
import Mathlib.Logic.Function.Basic

/-! `lock.py`: calls of any number of processes on one lock file. Each call opens the file for
itself, and `flock` is of the open file: whoever asks for it while another has it is refused. -/
namespace McuUpdater.Lock
open PyText PyValue PyJson Transition

/-- What `acquire` writes beside the process's id; `since` is the text of a float. -/
structure Record where
  label : Str
  since : Str

def Record.text (pid : Nat) (record : Record) : Str :=
  "\x7b\"pid\": ".toList ++ Nat.toDigits 10 pid ++ ", \"label\": ".toList ++ quoted record.label ++
    ", \"since\": ".toList ++ record.since ++ "\x7d".toList

/-- `_record`, of what `json.load` made of the file, if it made anything of it -/
def readRecord (loaded : Option PyVal) : Option PyVal :=
  loaded.filter fun data => ((data.item "pid").map PyVal.truthy).getD false

/-- Where a call is. -/
inductive Call
  | idle
  /-- `acquire`, at `flock`, for the second time or the first -/
  | trying (record : Record) (again : Bool)
  /-- at `truncate` -/
  | locked (record : Record)
  /-- at `json.dump`, with this much of it to come -/
  | writing (record : Record) (rest : Str)
  /-- `acquire` has returned -/
  | inside (record : Record)
  /-- `acquire` raised with the file locked; what is in the buffer is written when the file goes -/
  | abandoned (rest : Str)
  /-- `release`, at `truncate` -/
  | releasing
  /-- at `LOCK_UN` -/
  | unlocking
  /-- at `fh.close()` -/
  | closing
  | done
  /-- `holder`, at the `flock` of `_probe_and_clear_if_free` -/
  | probing (data : PyVal)
  /-- at `truncate` -/
  | clearing (data : PyVal)
  /-- at `LOCK_UN` -/
  | freeing (data : PyVal)
  /-- `_probe_and_clear_if_free` has said whether the lock is free -/
  | answered (data : PyVal) (free : Bool)
  /-- there is no record, and nothing was probed -/
  | unrecorded
  | dead

/-- Past `flock`. -/
def Call.locks : Call → Bool
  | .locked _ | .writing _ _ | .inside _ | .abandoned _ | .releasing | .unlocking | .clearing _
  | .freeing _ => true
  | _ => false

def Call.isInside : Call → Bool
  | .inside _ => true
  | _ => false

/-- In `_probe_and_clear_if_free`. -/
def Call.isProbe : Call → Bool
  | .probing _ | .clearing _ | .freeing _ => true
  | _ => false

/-- A probe that has had the lock. -/
def Call.probed : Call → Bool
  | .clearing _ | .freeing _ | .answered _ true => true
  | _ => false

/-- What `holder` returns. -/
def Call.holder : Call → Option (Option PyVal)
  | .answered _ true | .unrecorded => some none
  | .answered data false => some (some data)
  | _ => none

structure State where
  file : Str := []
  /-- the call that has the `flock` -/
  lock : Option Nat := none
  calls : Nat → Call := fun _ => .idle

inductive Action
  | acquire (d : Nat) (record : Record)
  | release (d : Nat)
  /-- `loaded` is what `json.load` makes of the file, which others may be writing; `opens` is whether
  the probe can open it -/
  | holder (d : Nat) (loaded : Option PyVal) (opens : Bool)
  | advance (d : Nat)
  /-- it raises `OSError` -/
  | raises (d : Nat)
  | crash (p : Nat)

def State.setCall (s : State) (d : Nat) (c : Call) : State :=
  { s with calls := Function.update s.calls d c }

section Steps
variable (process : Nat → Nat) (s : State)

def State.advance (d : Nat) : Option State :=
  match s.calls d with
  | .trying record _ =>
    if s.lock = none then some ({ s with lock := some d }.setCall d (.locked record)) else none
  | .locked record =>
    some ({ s with file := [] }.setCall d (.writing record (record.text (process d))))
  | .writing record (c :: rest) =>
    some ({ s with file := s.file ++ [c] }.setCall d (.writing record rest))
  | .writing record [] => some (s.setCall d (.inside record))
  | .abandoned (c :: rest) =>
    some ({ s with file := s.file ++ [c] }.setCall d (.abandoned rest))
  | .abandoned [] => some ({ s with lock := none }.setCall d .done)
  | .releasing => some ({ s with file := [] }.setCall d .unlocking)
  | .unlocking => some ({ s with lock := none }.setCall d .closing)
  | .closing => some ({ s with lock := if s.lock = some d then none else s.lock }.setCall d .done)
  | .probing data =>
    if s.lock = none then some ({ s with lock := some d }.setCall d (.clearing data)) else none
  | .clearing data => some ({ s with file := [] }.setCall d (.freeing data))
  | .freeing data => some ({ s with lock := none }.setCall d (.answered data true))
  | .idle | .inside _ | .done | .answered _ _ | .unrecorded | .dead => none

def State.raises (d : Nat) : Option State :=
  match s.calls d with
  | .trying record false => some (s.setCall d (.trying record true))
  -- `BusyError`
  | .trying _ true => some (s.setCall d .done)
  | .locked _ => some (s.setCall d (.abandoned []))
  | .writing _ rest => some (s.setCall d (.abandoned rest))
  | .abandoned _ => some ({ s with lock := none }.setCall d .done)
  | .releasing | .unlocking => some (s.setCall d .closing)
  | .closing => some ({ s with lock := if s.lock = some d then none else s.lock }.setCall d .done)
  | .probing data => some (s.setCall d (.answered data false))
  | .clearing data => some (s.setCall d (.freeing data))
  | .freeing _ => some ({ s with lock := none }.setCall d .done)
  | .idle | .inside _ | .done | .answered _ _ | .unrecorded | .dead => none

/-- The kernel closes what the process had open. -/
def State.crash (p : Nat) : State :=
  { s with
    lock := s.lock.filter fun d => process d ≠ p
    calls := fun d => match s.calls d with
      | .idle => .idle
      | c => if process d = p then .dead else c }

def State.step (s : State) : Action → Option State
  | .acquire d record =>
    match s.calls d with
    | .idle => some (s.setCall d (.trying record false))
    | _ => none
  | .release d =>
    match s.calls d with
    | .inside _ => some (s.setCall d .releasing)
    | _ => none
  | .holder d loaded opens =>
    match s.calls d with
    | .idle => some (s.setCall d <|
      match readRecord loaded with
      | none => .unrecorded
      | some data => if opens then .probing data else .answered data false)
    | _ => none
  | .advance d => s.advance process d
  | .raises d => s.raises d
  | .crash p => some (s.crash process p)

end Steps

/-- What the file has to have in it, for a call that is writing its record or has written it. -/
def Call.Wrote (pid : Nat) (file : Str) : Call → Prop
  | .writing record rest => file ++ rest = record.text pid
  | .inside record => file = record.text pid
  | _ => True

/-- A call that is past `flock` has the lock, and the record of one that is inside is in the file. -/
structure State.Sound (process : Nat → Nat) (s : State) : Prop where
  lock : ∀ d, (s.calls d).locks = true → s.lock = some d
  wrote : ∀ d, (s.calls d).Wrote (process d) s.file

/-- A step of one call, by what it does to the lock and to the file. -/
inductive State.Move (process : Nat → Nat) (s : State) (d : Nat) : State → Prop
  | pass (c : Call) (hc : c.locks = true → (s.calls d).locks = true)
      (hp : c.probed = true → (s.calls d).probed = true)
      (hw : (s.calls d).Wrote (process d) s.file → c.Wrote (process d) s.file) :
      Move process s d (s.setCall d c)
  | take (c : Call) (hfree : s.lock = none)
      (hp : c.probed = true → ∃ data, s.calls d = .probing data)
      (hw : c.Wrote (process d) s.file) :
      Move process s d ({ s with lock := some d }.setCall d c)
  | write (file : Str) (c : Call) (hlocks : (s.calls d).locks = true)
      (hp : c.probed = true → (s.calls d).probed = true)
      (hw : (s.calls d).Wrote (process d) s.file → c.Wrote (process d) file) :
      Move process s d ({ s with file }.setCall d c)
  | drop (c : Call) (hlocks : (s.calls d).locks = true ∨ s.lock = some d) (hc : c.locks = false)
      (hp : c.probed = true → (s.calls d).probed = true) (hw : c.Wrote (process d) s.file) :
      Move process s d ({ s with lock := none }.setCall d c)

attribute [local simp] Call.locks Call.probed

@[simp] theorem setCall_calls_self (s : State) (d : Nat) (c : Call) : (s.setCall d c).calls d = c :=
  Function.update_self ..

theorem setCall_calls_of_ne {d e : Nat} (h : e ≠ d) (s : State) (c : Call) :
    (s.setCall d c).calls e = s.calls e := Function.update_of_ne h ..

section Facts
variable {process : Nat → Nat} {s t : State} {d : Nat}

theorem wrote_of_not_locks {c : Call} {pid : Nat} {file : Str} (h : c.locks = false) :
    c.Wrote pid file := by
  cases c with
  | writing record rest => cases h
  | inside record => cases h
  | _ => trivial

theorem State.Move.outside {c : Call} (hc : c.locks = false) (hp : c.probed = false) :
    s.Move process d (s.setCall d c) := by
  refine .pass c (fun h => ?_) (fun h => ?_) fun _ => wrote_of_not_locks hc
  · rw [hc] at h
    cases h
  · rw [hp] at h
    cases h

theorem State.Move.unlock {c : Call} (hlocks : (s.calls d).locks = true ∨ s.lock = some d)
    (hc : c.locks = false) (hp : c.probed = true → (s.calls d).probed = true) :
    s.Move process d ({ s with lock := none }.setCall d c) :=
  .drop c hlocks hc hp (wrote_of_not_locks hc)

theorem advance_move (hs : s.advance process d = some t) : s.Move process d t := by
  unfold State.advance at hs
  split at hs
  case h_1 record _ h =>
    split at hs <;> cases hs
    exact .take _ ‹_› (by simp) trivial
  case h_2 record h =>
    cases hs
    exact .write _ _ (by simp [h]) (by simp) fun _ => rfl
  case h_3 record c rest h =>
    cases hs
    refine .write _ _ (by simp [h]) (by simp) fun hw => ?_
    rw [h] at hw
    simpa [Call.Wrote] using hw
  case h_4 record h =>
    cases hs
    refine .pass _ (by simp [h]) (by simp) fun hw => ?_
    rw [h] at hw
    simpa [Call.Wrote] using hw
  case h_5 c rest h =>
    cases hs
    exact .write _ _ (by simp [h]) (by simp) fun _ => trivial
  case h_6 h =>
    cases hs
    exact .unlock (by simp [h]) rfl (by simp)
  case h_7 h =>
    cases hs
    exact .write _ _ (by simp [h]) (by simp) fun _ => trivial
  case h_8 h =>
    cases hs
    exact .unlock (by simp [h]) rfl (by simp)
  case h_9 h =>
    split_ifs at hs with hown
    · cases hs
      exact .unlock (.inr hown) rfl (by simp)
    · cases hs
      exact .outside rfl rfl
  case h_10 data h =>
    split at hs <;> cases hs
    exact .take _ ‹_› (fun _ => ⟨data, h⟩) trivial
  case h_11 data h =>
    cases hs
    exact .write _ _ (by simp [h]) (by simp [h]) fun _ => trivial
  case h_12 data h =>
    cases hs
    exact .unlock (by simp [h]) rfl (by simp [h])
  all_goals cases hs

theorem raises_move (hs : s.raises d = some t) : s.Move process d t := by
  unfold State.raises at hs
  split at hs
  case h_1 record h =>
    cases hs
    exact .outside rfl rfl
  case h_2 record h =>
    cases hs
    exact .outside rfl rfl
  case h_3 record h =>
    cases hs
    exact .pass _ (by simp [h]) (by simp) fun _ => trivial
  case h_4 record rest h =>
    cases hs
    exact .pass _ (by simp [h]) (by simp) fun _ => trivial
  case h_5 rest h =>
    cases hs
    exact .unlock (by simp [h]) rfl (by simp)
  case h_6 h =>
    cases hs
    exact .outside rfl rfl
  case h_7 h =>
    cases hs
    exact .outside rfl rfl
  case h_8 h =>
    split_ifs at hs with hown
    · cases hs
      exact .unlock (.inr hown) rfl (by simp)
    · cases hs
      exact .outside rfl rfl
  case h_9 data h =>
    cases hs
    exact .outside rfl rfl
  case h_10 data h =>
    cases hs
    exact .pass _ (by simp [h]) (by simp [h]) fun _ => trivial
  case h_11 data h =>
    cases hs
    exact .unlock (by simp [h]) rfl (by simp)
  all_goals cases hs

/-- Whose step it is; a crash is of a whole process. -/
def Action.call : Action → Option Nat
  | .acquire d _ | .release d | .holder d _ _ | .advance d | .raises d => some d
  | .crash _ => none

theorem step_move {a : Action} (hs : s.step process a = some t) :
    (∃ d, a.call = some d ∧ s.Move process d t) ∨ ∃ p, a = .crash p ∧ t = s.crash process p := by
  cases a with
  | acquire d record =>
    rw [State.step] at hs
    split at hs <;> cases hs
    exact .inl ⟨d, rfl, .outside rfl rfl⟩
  | release d =>
    rw [State.step] at hs
    split at hs <;> cases hs
    case h_1 record h => exact .inl ⟨d, rfl, .pass _ (by simp [h]) (by simp) fun _ => trivial⟩
  | holder d loaded opens =>
    rw [State.step] at hs
    split at hs <;> cases hs
    refine .inl ⟨d, rfl, ?_⟩
    split
    · exact .outside rfl rfl
    · split_ifs <;> exact .outside rfl rfl
  | advance d => exact .inl ⟨d, rfl, advance_move hs⟩
  | raises d => exact .inl ⟨d, rfl, raises_move hs⟩
  | crash p =>
    cases hs
    exact .inr ⟨p, rfl, rfl⟩

theorem crash_calls (s : State) (p e : Nat) : (s.crash process p).calls e = .dead ∨
    ((s.crash process p).calls e = s.calls e ∧ (process e = p → s.calls e = .idle)) := by
  rw [State.crash]
  by_cases hp : process e = p
  · cases h : s.calls e <;> simp [h, hp]
  · cases h : s.calls e <;> simp [h, hp]

theorem State.Sound.crash (h : s.Sound process) (p : Nat) : (s.crash process p).Sound process := by
  constructor
  · intro e he
    rcases crash_calls s p e with hdead | ⟨hsame, hidle⟩
    · rw [hdead] at he
      cases he
    · rw [hsame] at he
      have hp : process e ≠ p := by
        intro hp
        rw [hidle hp] at he
        cases he
      change s.lock.filter _ = some e
      rw [h.lock e he]
      simp [hp]
  · intro e
    rcases crash_calls s p e with hdead | ⟨hsame, -⟩
    · rw [hdead]
      trivial
    · rw [hsame]
      exact h.wrote e

theorem State.Sound.not_locks (h : s.Sound process) {e : Nat} (hlock : s.lock ≠ some e) :
    (s.calls e).locks = false := by
  by_contra hlocks
  exact hlock (h.lock e (by simpa using hlocks))

theorem sound_setCall {file : Str} {lock : Option Nat} {c : Call}
    (hlock : ∀ e ≠ d, (s.calls e).locks = true → lock = some e)
    (hwrote : ∀ e ≠ d, (s.calls e).Wrote (process e) file) (hc : c.locks = true → lock = some d)
    (hw : c.Wrote (process d) file) :
    State.Sound process (State.setCall ⟨file, lock, s.calls⟩ d c) := by
  constructor
  · intro e he
    rcases eq_or_ne e d with rfl | hne
    · rw [setCall_calls_self] at he
      exact hc he
    · rw [setCall_calls_of_ne hne] at he
      exact hlock e hne he
  · intro e
    rcases eq_or_ne e d with rfl | hne
    · rw [setCall_calls_self]
      exact hw
    · rw [setCall_calls_of_ne hne]
      exact hwrote e hne

theorem State.Sound.move (h : s.Sound process) (hm : s.Move process d t) : t.Sound process := by
  cases hm with
  | pass c hc hp hw =>
    exact sound_setCall (fun e _ => h.lock e) (fun e _ => h.wrote e) (fun hlocks => h.lock d (hc hlocks))
      (hw (h.wrote d))
  | take c hfree hp hw =>
    have hnone : ∀ e, (s.calls e).locks = false := fun e => h.not_locks (by simp [hfree])
    refine sound_setCall (fun e _ he => ?_) (fun e _ => h.wrote e) (fun _ => rfl) hw
    rw [hnone e] at he
    cases he
  | write file c hlocks hp hw =>
    -- the others are not past `flock`, so what they have written is no matter
    have hlock := h.lock d hlocks
    have hothers : ∀ e ≠ d, (s.calls e).locks = false :=
      fun e hne => h.not_locks (by simpa [hlock] using hne.symm)
    exact sound_setCall (fun e _ => h.lock e) (fun e hne => wrote_of_not_locks (hothers e hne))
      (fun _ => hlock) (hw (h.wrote d))
  | drop c hlocks hc hp hw =>
    have hlock : s.lock = some d := hlocks.elim (h.lock d) id
    have hothers : ∀ e ≠ d, (s.calls e).locks = false :=
      fun e hne => h.not_locks (by simpa [hlock] using hne.symm)
    refine sound_setCall (fun e hne he => ?_) (fun e _ => h.wrote e) (fun hcl => ?_) hw
    · rw [hothers e hne] at he
      cases he
    · rw [hc] at hcl
      cases hcl

theorem State.Sound.step {a : Action} (h : s.Sound process) (hs : s.step process a = some t) :
    t.Sound process := by
  rcases step_move hs with ⟨d, -, hm⟩ | ⟨p, -, rfl⟩
  · exact h.move hm
  · exact h.crash p

theorem probed_step {a : Action} (hs : s.step process a = some t) (hp : (t.calls d).probed = true) :
    (s.calls d).probed = true ∨ (s.lock = none ∧ ∃ data, s.calls d = .probing data) := by
  have hmove : ∀ e, s.Move process e t → (s.calls d).probed = true ∨
      (s.lock = none ∧ ∃ data, s.calls d = .probing data) := by
    intro e hm
    rcases eq_or_ne d e with rfl | hne
    · cases hm with
      | pass c hc hprobed hw => exact .inl (hprobed (by simpa using hp))
      | take c hfree hprobed hw => exact .inr ⟨hfree, hprobed (by simpa using hp)⟩
      | write file c hlocks hprobed hw => exact .inl (hprobed (by simpa using hp))
      | drop c hlocks hc hprobed hw => exact .inl (hprobed (by simpa using hp))
    · left
      cases hm <;> rwa [setCall_calls_of_ne hne] at hp
  rcases step_move hs with ⟨e, -, hm⟩ | ⟨p, -, rfl⟩
  · exact hmove e hm
  · rcases crash_calls s p d with hdead | ⟨hsame, -⟩
    · rw [hdead] at hp
      cases hp
    · rw [hsame] at hp
      exact .inl hp

/-- A step of a call of `holder`. -/
def Action.OfHolder (s : State) : Action → Prop
  | .holder _ _ _ => True
  | .advance d | .raises d => (s.calls d).isProbe = true
  | _ => False

theorem probe_move {e : Nat} (h : s.Sound process) (hm : s.Move process d t)
    (hd : (s.calls d).isProbe = true) (hlock : s.lock = some e) (he : (s.calls e).isProbe = false) :
    t.file = s.file ∧ t.lock = s.lock := by
  have hne : s.lock ≠ some d := by
    intro hsame
    obtain rfl : e = d := Option.some.inj (hlock.symm.trans hsame)
    rw [hd] at he
    cases he
  cases hm with
  | pass c hc hp hw => exact ⟨rfl, rfl⟩
  | take c hfree hp hw =>
    rw [hfree] at hlock
    cases hlock
  | write file c hlocks hp hw => exact absurd (h.lock d hlocks) hne
  | drop c hlocks hc hp hw => exact absurd (hlocks.elim (h.lock d) id) hne

theorem holder_keeps {a : Action} {e : Nat} (h : s.Sound process) (ha : a.OfHolder s)
    (hs : s.step process a = some t) (hlock : s.lock = some e) (he : (s.calls e).isProbe = false) :
    t.file = s.file ∧ t.lock = s.lock := by
  cases a with
  | holder d loaded opens =>
    rw [State.step] at hs
    split at hs <;> cases hs
    exact ⟨rfl, rfl⟩
  | advance d => exact probe_move h (advance_move hs) ha hlock he
  | raises d => exact probe_move h (raises_move hs) ha hlock he
  | _ => exact ha.elim

theorem sound_run {leftover : Str} {actions : List Action}
    (h : run (State.step process) actions { file := leftover } = some s) : s.Sound process := by
  have hreach : Reach (State.step process) anyStep (fun s => s = { file := leftover }) s :=
    Reach.extend (.start rfl) (fun _ _ _ => trivial) h
  refine hreach.invariant (fun s hs => ?_) fun s a t hsound _ hs => hsound.step hs
  rw [hs]
  constructor
  · intro d hd
    cases hd
  · intro d
    trivial

/-- Neither a call of `acquire` nor a probe has the lock. -/
def State.Unlocked (s : State) : Prop := s.lock = none ∧ ∀ e, (s.calls e).locks = false

/-- Some time in the run, when the call was about to probe, nobody had the lock. -/
def FoundFree (process : Nat → Nat) (leftover : Str) (actions : List Action) (d : Nat) : Prop :=
  ∃ earlier later s data, actions = earlier ++ later ∧
    run (State.step process) earlier { file := leftover } = some s ∧
    s.calls d = .probing data ∧ s.Unlocked

theorem foundFree {leftover : Str} {actions : List Action}
    (h : run (State.step process) actions { file := leftover } = some s)
    (hp : (s.calls d).probed = true) : FoundFree process leftover actions d := by
  induction actions using List.reverseRecOn generalizing s with
  | nil =>
    cases h
    cases hp
  | append_singleton actions a ih =>
    rw [run_append] at h
    obtain ⟨u, hu, hlast⟩ := Option.bind_eq_some_iff.mp h
    obtain ⟨v, hs, hend⟩ := Option.bind_eq_some_iff.mp hlast
    obtain rfl : v = s := Option.some.inj hend
    rcases probed_step hs hp with hbefore | ⟨hfree, data, hprobing⟩
    · obtain ⟨earlier, later, v, data, rfl, hv⟩ := ih hu hbefore
      exact ⟨earlier, later ++ [a], v, data, by simp, hv⟩
    · have hnone : ∀ e, (u.calls e).locks = false :=
        fun e => (sound_run hu).not_locks (by simp [hfree])
      exact ⟨actions, [a], u, data, rfl, hu, hprobing, hfree, hnone⟩

end Facts

/-- While a call is inside, the file has its record; a probe that answers that the lock is free has
found it so, and `holder` says None else only where it could read no record. -/
theorem lock_follows_holder (process : Nat → Nat) (leftover : Str) (actions : List Action) (s : State)
    (h : run (State.step process) actions { file := leftover } = some s) :
    (∀ d e, (s.calls d).isInside = true → (s.calls e).isInside = true → d = e) ∧
    (∀ d record, s.calls d = .inside record →
      s.lock = some d ∧ s.file = record.text (process d)) ∧
    (∀ a t e, a.OfHolder s → s.step process a = some t → s.lock = some e →
      (s.calls e).isProbe = false → t.file = s.file ∧ t.lock = s.lock) ∧
    (∀ d data, s.calls d = .answered data true → FoundFree process leftover actions d) ∧
    ∀ d, (s.calls d).holder = some none → s.calls d = .unrecorded ∨
      FoundFree process leftover actions d := by
  have hsound := sound_run h
  have hinside : ∀ d, (s.calls d).isInside = true → s.lock = some d := by
    intro d hd
    refine hsound.lock d ?_
    cases hc : s.calls d <;> simp_all [Call.isInside]
  refine ⟨fun d e hd he => ?_, fun d record hd => ⟨?_, ?_⟩, fun a t e ha hs hlock he => ?_,
    fun d data hd => ?_, fun d hd => ?_⟩
  · exact Option.some.inj ((hinside d hd).symm.trans (hinside e he))
  · exact hinside d (by simp [hd, Call.isInside])
  · have hw := hsound.wrote d
    rwa [hd] at hw
  · exact holder_keeps hsound ha hs hlock he
  · exact foundFree h (by simp [hd])
  · cases hc : s.calls d with
    | unrecorded => exact .inl rfl
    | answered data free =>
      cases free with
      | true => exact .inr (foundFree h (by simp [hc]))
      | false => simp [hc, Call.holder] at hd
    | _ => simp [hc, Call.holder] at hd

/-- A killed holder's record is read by a second process, whose probe finds the lock free, while a
third is about to take it. -/
def killedHolder : List Action :=
  [.acquire 0 ⟨"build".toList, "1.5".toList⟩, .advance 0, .advance 0, .crash 0,
    .holder 1 (some (.dict [(.str "pid".toList, .int 7)])) true,
    .acquire 2 ⟨"flash".toList, "2.5".toList⟩, .advance 1, .raises 2, .advance 1, .advance 1, .advance 2]

theorem lock_follows_holder_killed : ∃ s,
    run (State.step id) killedHolder { file := "\x7b".toList } = some s ∧
      s.lock = some 2 ∧ FoundFree id "\x7b".toList killedHolder 1 :=
  ⟨_, rfl, rfl, (lock_follows_holder id _ killedHolder _ rfl).2.2.2.1 1 _ rfl⟩

end McuUpdater.Lock
