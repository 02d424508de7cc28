import Mathlib.Data.List.Nodup
import Mathlib.Data.List.Range
import Mathlib.Data.List.Infix
import McuUpdater.Lib.Except

/-! `service.py`: `services_stopped`, where every call of it may raise. -/
namespace McuUpdater.Service

inductive Fault
  /-- what a controller, the reporter, the journal or the body raised -/
  | raised (text : String)
  /-- the `ServiceControlError` of a stop that does not take effect -/
  | couldNotStop
  deriving DecidableEq

/-- How the `while svc.is_active()` of a stopped controller ends. -/
inductive Verified
  | down
  /-- still active at the deadline -/
  | stuck
  | raised (e : Fault)

/-- What the calls of one block answer or raise; a controller is its place in the list. -/
structure Calls where
  active : Nat → Except Fault Bool
  /-- the reporter's "is already stopped" -/
  noted : Nat → Option Fault
  recordStop : Option Fault
  stop : Nat → Option Fault
  verified : Nat → Verified
  /-- the reporter's "confirmed stopped" -/
  confirmed : Nat → Option Fault
  body : Option Fault
  start : Nat → Option Fault
  clear : Option Fault

/-- A controller is asked, whether or not the call returns. -/
inductive Ask
  | stop (i : Nat)
  | start (i : Nat)
  deriving DecidableEq

/-- What was asked so far, and the exception under way. -/
structure Exit where
  asks : List Ask := []
  fault : Option Fault := none

def Exit.after (a : Ask) (e : Exit) : Exit := { e with asks := a :: e.asks }

section Model
variable (c : Calls)

/-- The loop of `_restart_all`, over what is left of it. -/
def restartEach : List Nat → Exit
  | [] => {}
  | i :: rest =>
    match c.start i with
    | some e => { asks := [.start i], fault := some e }
    | none => (restartEach rest).after (.start i)

/-- `_restart_all`; what `journal.clear()` raises in its `finally` is raised instead. -/
def restartAll (toStop : List Nat) : Exit :=
  let e := restartEach c toStop.reverse
  { e with fault := c.clear <|> e.fault }

/-- The stop loop and what follows it. Only the body is inside the `try`. -/
def stopEach (verify : Bool) (toStop : List Nat) : List Nat → Exit
  | [] =>
    let e := restartAll c toStop
    { e with fault := e.fault <|> c.body }
  | i :: todo =>
    match c.stop i with
    | some e => { asks := [.stop i], fault := some e }
    | none =>
      if verify then
        match c.verified i with
        | .raised e => { asks := [.stop i], fault := some e }
        | .stuck =>
          let e := restartAll c toStop
          { asks := .stop i :: e.asks, fault := e.fault <|> some .couldNotStop }
        | .down =>
          match c.confirmed i with
          | some e => { asks := [.stop i], fault := some e }
          | none => (stopEach verify toStop todo).after (.stop i)
      else (stopEach verify toStop todo).after (.stop i)

/-- `[svc for svc in controllers if svc.is_active()]` -/
def scan : List Nat → Except Fault (List Nat)
  | [] => .ok []
  | i :: rest => do
    let active ← c.active i
    let toStop ← scan rest
    return if active then i :: toStop else toStop

def firstRaised (f : Nat → Option Fault) (l : List Nat) : Option Fault := l.findSome? f

/-- `services_stopped` over `n` controllers. -/
def servicesStopped (verify : Bool) (n : Nat) : Exit :=
  match scan c (List.range n) with
  | .error e => { fault := some e }
  | .ok toStop =>
    match firstRaised c.noted ((List.range n).filter fun i => i ∉ toStop) with
    | some e => { fault := some e }
    | none =>
      match if toStop = [] then none else c.recordStop with
      | some e => { fault := some e }
      | none => stopEach c verify toStop toStop

end Model

def stops (asks : List Ask) : List Nat :=
  asks.filterMap fun a => match a with | .stop i => some i | .start _ => none

def starts (asks : List Ask) : List Nat :=
  asks.filterMap fun a => match a with | .start i => some i | .stop _ => none

/-- Each controller that is asked to stop is asked to start later on, and that in reverse. -/
structure Restored (asks : List Ask) : Prop where
  again : ∀ i before after, asks = before ++ .stop i :: after → .start i ∈ after
  reversed : (stops asks).reverse.Sublist (starts asks)

/-- The stop loop raises nothing of its own: no stop, no activity check and no report of a
controller it gets to. -/
def StopsQuietly (c : Calls) (verify : Bool) : List Nat → Prop
  | [] => True
  | i :: todo => c.stop i = none ∧ (verify = false ∧ StopsQuietly c verify todo ∨
      verify = true ∧ match c.verified i with
        | .raised _ => False
        | .stuck => True
        | .down => c.confirmed i = none ∧ StopsQuietly c verify todo)

/-- Where anything is to be stopped at all, the stop loop raises nothing of its own, and no
start raises but the last, that of the first controller stopped. -/
def Unbroken (c : Calls) (verify : Bool) (n : Nat) : Prop :=
  ∀ toStop, scan c (List.range n) = .ok toStop →
    firstRaised c.noted ((List.range n).filter fun i => i ∉ toStop) = none →
    (toStop ≠ [] → c.recordStop = none) →
    StopsQuietly c verify toStop ∧ ∀ i ∈ toStop.tail, c.start i = none

variable {c : Calls} {verify : Bool} {toStop todo : List Nat}

/-! A pass over the controllers to start. -/

/-- Those that are asked to start: up to the first that raises. -/
def taken (c : Calls) : List Nat → List Nat
  | [] => []
  | i :: rest => if (c.start i).isSome then [i] else i :: taken c rest

theorem restartEach_asks (c : Calls) (l : List Nat) :
    (restartEach c l).asks = (taken c l).map .start := by
  induction l with
  | nil => rfl
  | cons i rest ih =>
    rw [restartEach, taken]
    cases c.start i with
    | some e => rfl
    | none =>
      change Ask.start i :: (restartEach c rest).asks = Ask.start i :: (taken c rest).map .start
      rw [ih]

theorem restartAll_asks (c : Calls) (toStop : List Nat) :
    (restartAll c toStop).asks = (taken c toStop.reverse).map .start :=
  restartEach_asks c toStop.reverse

theorem taken_prefix_of (c : Calls) (l : List Nat) : taken c l <+: l := by
  induction l with
  | nil => exact List.prefix_refl []
  | cons i rest ih =>
    rw [taken]
    split_ifs
    · exact ⟨rest, rfl⟩
    · exact (List.cons_prefix_cons).mpr ⟨rfl, ih⟩

theorem taken_eq_iff (c : Calls) (l : List Nat) :
    taken c l = l ↔ ∀ i ∈ l.dropLast, c.start i = none := by
  induction l with
  | nil => simp [taken]
  | cons i rest ih =>
    rw [taken]
    cases rest with
    | nil => simp [taken]
    | cons j rest =>
      cases hs : c.start i with
      | some e => simp [hs]
      | none =>
        rw [if_neg (by simp), List.cons.injEq, and_iff_right rfl, ih]
        simp [List.dropLast_cons_of_ne_nil, hs]

/-! The shape of what is asked: first stops, then starts. -/

theorem stops_append (stopped started : List Nat) :
    stops (stopped.map .stop ++ started.map .start) = stopped := by
  simp [stops, List.filterMap_map]

theorem starts_append (stopped started : List Nat) :
    starts (stopped.map .stop ++ started.map .start) = started := by
  simp [starts, List.filterMap_map]

theorem restored_iff (stopped started : List Nat) :
    Restored (stopped.map .stop ++ started.map .start) ↔ stopped.reverse.Sublist started := by
  constructor
  · intro h
    simpa [stops_append, starts_append] using h.reversed
  · intro h
    refine ⟨fun i before after heq => ?_, by simpa [stops_append, starts_append] using h⟩
    have hmem : Ask.stop i ∈ stopped.map Ask.stop ++ started.map Ask.start := heq ▸ by simp
    have hi : i ∈ stopped := by simpa using hmem
    have hstart : i ∈ started := h.subset (List.mem_reverse.mpr hi)
    rcases List.append_eq_append_iff.mp heq with ⟨mid, rfl, hmid⟩ | ⟨mid, hmid, hafter⟩
    · -- a stop is none of the starts
      have hbad : Ask.stop i ∈ started.map Ask.start := hmid ▸ by simp
      simp at hbad
    · cases mid with
      | nil =>
        have hbad : Ask.stop i ∈ started.map Ask.start := by
          rw [List.nil_append] at hafter
          exact hafter ▸ List.mem_cons_self
        simp at hbad
      | cons a mid =>
        rw [List.cons_append, List.cons.injEq] at hafter
        rw [hafter.2]
        exact List.mem_append_right _ (List.mem_map_of_mem hstart)

variable (toStop) in
theorem stopEach_quiet (h : StopsQuietly c verify todo) :
    ∃ stopped, stopped <+: todo ∧ (stopped = [] → todo = []) ∧
      (stopEach c verify toStop todo).asks =
        stopped.map .stop ++ (taken c toStop.reverse).map .start := by
  induction todo with
  | nil => exact ⟨[], List.prefix_refl _, fun _ => rfl, restartAll_asks c toStop⟩
  | cons i todo ih =>
    obtain ⟨hstop, h⟩ := h
    have hgoes : StopsQuietly c verify todo → ∃ stopped, stopped <+: i :: todo ∧
        (stopped = [] → i :: todo = []) ∧
        ((stopEach c verify toStop todo).after (.stop i)).asks =
          stopped.map .stop ++ (taken c toStop.reverse).map .start := by
      intro hquiet
      obtain ⟨stopped, hsub, -, hasks⟩ := ih hquiet
      refine ⟨i :: stopped, List.cons_prefix_cons.mpr ⟨rfl, hsub⟩, by simp, ?_⟩
      change Ask.stop i :: (stopEach c verify toStop todo).asks = _
      rw [hasks, List.map_cons, List.cons_append]
    rw [stopEach, hstop]
    rcases h with ⟨rfl, hquiet⟩ | ⟨rfl, hverified⟩
    · exact hgoes hquiet
    · cases hv : c.verified i with
      | raised e => simp [hv] at hverified
      | stuck =>
        refine ⟨[i], ⟨todo, rfl⟩, by simp, ?_⟩
        change Ask.stop i :: (restartAll c toStop).asks = _
        rw [restartAll_asks]
        rfl
      | down =>
        simp only [hv] at hverified
        simp only [if_true, hverified.1]
        exact hgoes hverified.2

variable (toStop) in
/-- A stop loop that raises of its own leaves those it has stopped as they are. -/
theorem stopEach_loud (h : ¬ StopsQuietly c verify todo) :
    ∃ stopped, stopped ≠ [] ∧ (stopEach c verify toStop todo).asks = stopped.map .stop := by
  induction todo with
  | nil => exact absurd trivial h
  | cons i todo ih =>
    have hgoes : ¬ StopsQuietly c verify todo → ∃ stopped, stopped ≠ [] ∧
        ((stopEach c verify toStop todo).after (.stop i)).asks = stopped.map .stop := by
      intro hloud
      obtain ⟨stopped, -, hasks⟩ := ih hloud
      refine ⟨i :: stopped, by simp, ?_⟩
      change Ask.stop i :: (stopEach c verify toStop todo).asks = _
      rw [hasks, List.map_cons]
    rw [StopsQuietly] at h
    rw [stopEach]
    cases hstop : c.stop i with
    | some e => exact ⟨[i], by simp, rfl⟩
    | none =>
      rw [hstop, and_iff_right rfl] at h
      cases verify with
      | false => exact hgoes (by simpa using h)
      | true =>
        cases hv : c.verified i with
        | raised e => exact ⟨[i], by simp, rfl⟩
        | stuck => simp [hv] at h
        | down =>
          simp only [hv] at h
          cases hconfirmed : c.confirmed i with
          | some e =>
            refine ⟨[i], by simp, ?_⟩
            simp
          | none =>
            simp only [if_true]
            exact hgoes (by simpa [hconfirmed] using h)

/-! What the entry finds active. -/

theorem scan_ok {l : List Nat} (h : scan c l = .ok toStop) :
    toStop.Sublist l ∧ ∀ i ∈ toStop, c.active i = .ok true := by
  induction l generalizing toStop with
  | nil =>
    cases h
    simp
  | cons i rest ih =>
    obtain ⟨active, hactive, h⟩ := ExceptList.bind_ok h
    obtain ⟨others, hothers, h⟩ := ExceptList.bind_ok h
    obtain ⟨hsub, hall⟩ := ih hothers
    cases active with
    | false =>
      cases h
      exact ⟨hsub.cons i, hall⟩
    | true =>
      cases h
      refine ⟨hsub.cons_cons i, fun j hj => ?_⟩
      rcases List.mem_cons.mp hj with rfl | hj
      · exact hactive
      · exact hall j hj

theorem stopEach_restored_iff (hnodup : toStop.Nodup) :
    Restored (stopEach c verify toStop toStop).asks ↔
      StopsQuietly c verify toStop ∧ ∀ i ∈ toStop.tail, c.start i = none := by
  by_cases hquiet : StopsQuietly c verify toStop
  · rw [and_iff_right hquiet]
    obtain ⟨stopped, hsub, hnil, hasks⟩ := stopEach_quiet toStop hquiet
    rw [hasks, restored_iff]
    have hall : taken c toStop.reverse = toStop.reverse ↔ ∀ i ∈ toStop.tail, c.start i = none := by
      rw [taken_eq_iff]
      simp
    rw [← hall]
    constructor
    · intro hsublist
      by_contra hcut
      -- a pass that is cut short does not come to the first controller stopped
      obtain ⟨rest, hrest⟩ := taken_prefix_of c toStop.reverse
      cases toStop with
      | nil => exact hcut rfl
      | cons i toStop =>
        obtain ⟨stopped', rfl⟩ : ∃ stopped', stopped = i :: stopped' := by
          cases stopped with
          | nil => cases hnil rfl
          | cons j stopped' =>
            obtain ⟨rfl, -⟩ := List.cons_prefix_cons.mp hsub
            exact ⟨stopped', rfl⟩
        have hmem : i ∈ taken c (i :: toStop).reverse := hsublist.subset (by simp)
        have hrest' : rest ≠ [] := by
          rintro rfl
          rw [List.append_nil] at hrest
          exact hcut hrest
        have hlast : i ∈ rest := by
          have hget := congrArg List.getLast? hrest
          rw [List.getLast?_append_of_ne_nil _ hrest', List.reverse_cons, List.getLast?_concat]
            at hget
          exact List.mem_of_getLast? hget
        have hnodup' := List.nodup_reverse.mpr hnodup
        rw [← hrest, List.nodup_append'] at hnodup'
        exact hnodup'.2.2 hmem hlast
    · intro hfull
      rw [hfull]
      exact (List.reverse_sublist.mpr hsub.sublist)
  · obtain ⟨stopped, hne, hasks⟩ := stopEach_loud toStop hquiet
    refine iff_of_false (fun h => ?_) fun h => hquiet h.1
    have hshape : (stopEach c verify toStop toStop).asks =
        stopped.map .stop ++ ([] : List Nat).map .start := by
      rw [hasks, List.map_nil, List.append_nil]
    rw [hshape, restored_iff, List.sublist_nil, List.reverse_eq_nil_iff] at h
    exact hne h

theorem restored_nil : Restored [] := ⟨fun _ _ _ h => by simp at h, by simp [stops]⟩

theorem stopEach_starts {i : Nat} (h : Ask.start i ∈ (stopEach c verify toStop todo).asks) :
    i ∈ toStop := by
  have hpass : Ask.start i ∈ (restartAll c toStop).asks → i ∈ toStop := by
    intro h
    rw [restartAll_asks, List.mem_map_of_injective fun _ _ => Ask.start.inj] at h
    exact List.mem_reverse.mp ((taken_prefix_of c toStop.reverse).subset h)
  induction todo with
  | nil => exact hpass h
  | cons j todo ih =>
    have hgoes (h : Ask.start i ∈ ((stopEach c verify toStop todo).after (.stop j)).asks) :
        i ∈ toStop :=
      ih ((List.mem_cons.mp h).resolve_left nofun)
    rw [stopEach] at h
    split at h
    · simp at h
    · split at h
      · split at h
        · simp at h
        · exact hpass ((List.mem_cons.mp h).resolve_left nofun)
        · split at h
          · simp at h
          · exact hgoes h
      · exact hgoes h

/-- Where the block gets to the stop loop at all. -/
inductive Entered (c : Calls) (n : Nat) (toStop : List Nat) : Prop
  | intro (scanned : scan c (List.range n) = .ok toStop)
      (noted : firstRaised c.noted ((List.range n).filter fun i => i ∉ toStop) = none)
      (recorded : toStop ≠ [] → c.recordStop = none)

theorem servicesStopped_cases (c : Calls) (verify : Bool) (n : Nat) :
    (servicesStopped c verify n).asks = [] ∧ (∀ toStop, ¬ Entered c n toStop) ∨
      ∃ toStop, Entered c n toStop ∧
        servicesStopped c verify n = stopEach c verify toStop toStop := by
  rw [servicesStopped]
  cases hscan : scan c (List.range n) with
  | error e => exact .inl ⟨rfl, fun toStop ⟨h, _, _⟩ => by simp [hscan] at h⟩
  | ok toStop =>
    have hsame {other : List Nat} (h : scan c (List.range n) = .ok other) : other = toStop := by
      rw [hscan] at h
      exact (Except.ok.inj h).symm
    cases hnoted : firstRaised c.noted ((List.range n).filter fun i => i ∉ toStop) with
    | some e =>
      refine .inl ⟨by simp only [hnoted], fun other ⟨h, hquiet, _⟩ => ?_⟩
      obtain rfl := hsame h
      simp only [hnoted, reduceCtorEq] at hquiet
    | none =>
      cases hrecord : (if toStop = [] then none else c.recordStop) with
      | some e =>
        refine .inl ⟨by simp only [hnoted, hrecord], fun other ⟨h, _, hquiet⟩ => ?_⟩
        obtain rfl := hsame h
        by_cases hnil : other = []
        · simp [hnil] at hrecord
        · simp [hnil, hquiet hnil] at hrecord
      | none =>
        refine .inr ⟨toStop, ⟨hscan, hnoted, fun hne => ?_⟩, by simp only [hnoted, hrecord]⟩
        simpa [hne] using hrecord

theorem Entered.unique {n : Nat} {other : List Nat} (h : Entered c n toStop)
    (h' : Entered c n other) : other = toStop := by
  obtain ⟨h, -, -⟩ := h
  obtain ⟨h', -, -⟩ := h'
  rw [h] at h'
  exact (Except.ok.inj h').symm

/-- On every way out, each controller asked to stop has been asked to start again, in reverse,
and none that was inactive has: exactly where the block is not broken off. -/
theorem servicesStopped_restores_iff (c : Calls) (verify : Bool) (n : Nat) :
    (Restored (servicesStopped c verify n).asks ∧
      ∀ i, Ask.start i ∈ (servicesStopped c verify n).asks → c.active i = .ok true) ↔
    Unbroken c verify n := by
  have hunbroken : Unbroken c verify n ↔ ∀ toStop, Entered c n toStop →
      StopsQuietly c verify toStop ∧ ∀ i ∈ toStop.tail, c.start i = none :=
    ⟨fun h toStop ⟨hscan, hnoted, hrecord⟩ => h toStop hscan hnoted hrecord,
      fun h toStop hscan hnoted hrecord => h toStop ⟨hscan, hnoted, hrecord⟩⟩
  rw [hunbroken]
  rcases servicesStopped_cases c verify n with ⟨hasks, hout⟩ | ⟨toStop, hin, heq⟩
  · rw [hasks]
    exact iff_of_true ⟨restored_nil, nofun⟩ fun toStop h => absurd h (hout toStop)
  · obtain ⟨hsub, hactive⟩ := scan_ok hin.1
    have hnodup : toStop.Nodup := List.nodup_range.sublist hsub
    rw [heq, and_iff_left fun i hi => hactive i (stopEach_starts hi), stopEach_restored_iff hnodup]
    exact ⟨fun h other hother => hin.unique hother ▸ h, fun h => h toStop hin⟩

/-- Two active controllers: the wait for the second to go down is interrupted, and the first
stays stopped. -/
theorem interrupted_wait_leaves_stopped :
    let c : Calls :=
      { active := fun _ => .ok true
        noted := fun _ => none
        recordStop := none
        stop := fun _ => none
        verified := fun i => if i = 0 then .down else .raised (.raised "KeyboardInterrupt")
        confirmed := fun _ => none
        body := none
        start := fun _ => none
        clear := none }
    (servicesStopped c true 2).asks = [.stop 0, .stop 1] ∧
      ¬ Restored (servicesStopped c true 2).asks := by
  refine ⟨rfl, fun h => ?_⟩
  have hstart := h.again 0 [] [.stop 1] rfl
  simp at hstart

end McuUpdater.Service
