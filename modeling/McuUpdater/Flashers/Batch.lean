import McuUpdater.Flashers.Registry
import McuUpdater.Lib.PyValue

/-! `flashers/batch.py`: `write_all`. The flashers, the services and the ledger file are
given by what each call to them does; the reporter and the progress step do not raise. -/
namespace McuUpdater.Flashers
open PyValue

/-- What a call may raise. `OperationCancelled` is an `UpdaterError` with its own handler. -/
inductive Exc
  | updater (text : String)
  | cancelled
  | other

structure FlashRecord where
  key : String
  mcuType : String
  fw : String
  binSha256 : Option String
  fwSha : Option String
  version : Option String

/-- What `FlashLog.record` is given. -/
structure LedgerEntry extends FlashRecord where
  confidence : PyVal

/-- The outcomes of the calls of one batch. The calls about a device, and those around
a flasher's devices, are numbered by the devices begun before them. -/
structure Calls where
  checkCancelled : Nat → Option Exc
  prepare : Nat → Option Exc
  tearDown : Nat → Option Exc
  write : Nat → Except Exc Mapping
  record : Nat → Except Exc (Option FlashRecord)
  /-- `FlashLog.record` swallows an `OSError`; the entry is then not filed. -/
  file : Nat → Except Exc Bool
  settled : Nat → Option Exc
  stopServices : Option Exc
  startServices : Option Exc
  /-- `none` when the caller has nobody to ask. -/
  onReady : Option (Except Exc Unit)

inductive Event
  | report (level text : String)
  | step (label : String) (index total : Nat)
  | checkCancelled (k : Nat)
  | prepare (f : Flasher)
  | tearDown (f : Flasher)
  | write (k : Nat) (t : FlashTarget)
  | filed (k : Nat) (entry : LedgerEntry)
  | settle (k : Nat)
  | stopServices (units : List String) (reason : String)
  | startServices (units : List String)
  | onReady

/-- What `refusal` puts into `failures[]`. -/
structure Refusal where
  type : String
  id : String
  error : String
  missing : List String

inductive Failure
  | refused (entry : Refusal)
  | failed (t : FlashTarget) (error : String)

structure Flashed where
  number : Nat
  target : FlashTarget
  extra : Mapping

structure Batch where
  events : List Event := []
  flashed : List Flashed := []
  failures : List Failure := []
  errors : List String := []
  done : Nat := 0

inductive Outcome
  | done (s : Batch)
  | raised (e : Exc) (s : Batch)

def Outcome.bind : Outcome → (Batch → Outcome) → Outcome
  | .done s, next => next s
  | .raised e s, _ => .raised e s

/-- The exit of a `with` block. -/
def Outcome.exit (exit : Batch → Outcome) : Outcome → Outcome
  | .done s => exit s
  | .raised e s =>
    match exit s with
    | .done s => .raised e s
    | .raised e' s => .raised e' s

def Batch.emit (s : Batch) (e : Event) : Batch := { s with events := s.events ++ [e] }

def Batch.warn (s : Batch) (text : String) : Batch := s.emit (.report "warn" text)

def Batch.call (s : Batch) (e : Event) : Option Exc → Outcome
  | none => .done (s.emit e)
  | some exc => .raised exc (s.emit e)

def FlashTarget.toJson (t : FlashTarget) : Mapping :=
  [("type", .str t.type.toList), ("id", .str t.id.toList), ("flasher", .str t.flasher.toList)]

def Flashed.toJson (f : Flashed) : Mapping := f.target.toJson.merge f.extra

def Failure.toJson : Failure → Mapping
  | .refused r =>
    [("type", .str r.type.toList), ("id", .str r.id.toList), ("flasher", .none),
      ("error", .str r.error.toList), ("missing", .list (r.missing.map (.str ·.toList)))]
  | .failed t error => t.toJson.merge [("error", .str error.toList)]

/-- `extra.pop("confidence", None)` -/
def popConfidence (extra : Mapping) : PyVal × Mapping :=
  (extra.get "confidence", extra.filter (·.1 != "confidence"))

/-- `except OperationCancelled: raise` / `except UpdaterError as exc: reporter(...)` -/
def Batch.unlessFatal (s : Batch) (prelude : String) : Exc → Outcome
  | .updater text => .done (s.warn (prelude ++ text))
  | exc => .raised exc s

/-- Off the result and onto the ledger, unless this is a rehearsal. -/
def fileRecord (c : Calls) (dryRun : Bool) (k : Nat) (t : FlashTarget) (confidence : PyVal)
    (s : Batch) : Outcome :=
  let unfiled := t.id ++ ": flashed, but its ledger record could not be filed: "
  if dryRun then .done s
  else
    match c.record k with
    | .error exc => s.unlessFatal unfiled exc
    | .ok none => .done s
    | .ok (some record) =>
      match c.file k with
      | .error exc => s.unlessFatal unfiled exc
      | .ok false => .done s
      | .ok true => .done (s.emit (.filed k ⟨record, confidence⟩))

def settle (c : Calls) (k : Nat) (t : FlashTarget) (s : Batch) : Outcome :=
  match c.settled k with
  | none => .done (s.emit (.settle k))
  | some exc => (s.emit (.settle k)).unlessFatal (t.id ++ ": ") exc

/-- The write itself, with what follows a failure and a success. -/
def writeDevice (c : Calls) (dryRun : Bool) (k : Nat) (t : FlashTarget) (s : Batch) : Outcome :=
  let s := s.emit (.write k t)
  match c.write k with
  | .error (.updater text) =>
    let s := s.warn (t.id ++ ": " ++ text)
    .done { s with failures := s.failures ++ [.failed t text], errors := s.errors ++ [text] }
  | .error exc => .raised exc s
  | .ok extra =>
    let (confidence, extra) := popConfidence extra
    (fileRecord c dryRun k t confidence s).bind fun s =>
      settle c k t { s with flashed := s.flashed ++ [⟨k, t, extra⟩] }

/-- One iteration of `for target in mine:`. -/
def writeOne (c : Calls) (dryRun : Bool) (total : Nat) (t : FlashTarget) (s : Batch) : Outcome :=
  (s.call (.checkCancelled s.done) (c.checkCancelled s.done)).bind fun s =>
    let k := s.done
    let s := s.emit (.step ("Flashing " ++ t.id ++ " (" ++ t.type ++ ")") k total)
    writeDevice c dryRun k t { s with done := k + 1 }

def writeEach (c : Calls) (dryRun : Bool) (total : Nat) : List FlashTarget → Batch → Outcome
  | [], s => .done s
  | t :: ts, s => (writeOne c dryRun total t s).bind (writeEach c dryRun total ts)

/-- `with flasher.prepared(bench, mine, ctx) as session:` -/
def writeSession (c : Calls) (dryRun : Bool) (total : Nat) (g : Flasher × List FlashTarget)
    (s : Batch) : Outcome :=
  (s.call (.prepare g.1) (c.prepare s.done)).bind fun s =>
    (writeEach c dryRun total g.2 s).exit fun s => s.call (.tearDown g.1) (c.tearDown s.done)

def writeSessions (c : Calls) (dryRun : Bool) (total : Nat) :
    List (Flasher × List FlashTarget) → Batch → Outcome
  | [], s => .done s
  | g :: gs, s => (writeSession c dryRun total g s).bind (writeSessions c dryRun total gs)

/-- `write_group`; an unknown flasher is a `KeyError`. -/
def writeGroup (c : Calls) (dryRun : Bool) (total : Nat) (group : List FlashTarget) (s : Batch) :
    Outcome :=
  match byFlasher group with
  | none => .raised .other s
  | some gs => writeSessions c dryRun total gs s

def writeStopped (c : Calls) (dryRun : Bool) (total : Nat) (stopped : List FlashTarget)
    (s : Batch) : Outcome :=
  if stopped = [] then .done s
  else
    let units := stopServicesUnion stopped
    let reason := "flash " ++ toString stopped.length ++ " device(s)"
    (s.call (.stopServices units reason) c.stopServices).bind fun s =>
      (writeGroup c dryRun total stopped s).exit fun s =>
        s.call (.startServices units) c.startServices

def Batch.refuse (s : Batch) (r : Refusal) : Batch :=
  let s := s.warn ((if r.id = "" then r.type else r.id) ++ ": " ++ r.error)
  { s with failures := s.failures ++ [.refused r] }

def finish (c : Calls) (targets : List FlashTarget) (s : Batch) : Outcome :=
  let total := targets.length
  let label := "Flashed " ++ toString s.flashed.length ++ " of " ++ toString total
  let s := s.emit (.step label total total)
  match c.onReady with
  | some ready =>
    if targets = [] then .done s
    else
      let s := s.emit (.report "info" "Waiting for Klipper to be ready...")
      match ready with
      | .ok () => .done (s.emit .onReady)
      | .error exc => .raised exc (s.emit .onReady)
  | none => .done s

/-- `write_all`: every selected device, with the services stopped once for the batch. -/
def writeAll (c : Calls) (dryRun : Bool) (targets : List FlashTarget) (refused : List Refusal) :
    Outcome :=
  match groupByStop targets with
  | none => .raised .other {}
  | some (stopped, free) =>
    let total := targets.length
    (writeGroup c dryRun total free (refused.foldl Batch.refuse {})).bind fun s =>
      (writeStopped c dryRun total stopped s).bind (finish c targets)

/-- The write of device `k` succeeded. -/
def Calls.wrote (c : Calls) (k : Nat) : Bool :=
  match c.write k with
  | .ok _ => true
  | .error _ => false

/-- The failure of device `k`'s write. -/
def Calls.failure (c : Calls) (t : FlashTarget) (k : Nat) : Option Failure :=
  match c.write k with
  | .error (.updater text) => some (.failed t text)
  | _ => none

/-- The record the ledger file gets for device `k`: its write succeeded, its flasher gives
one, and filing it neither raised nor met an `OSError`. -/
def Calls.ledgerEntry (c : Calls) (dryRun : Bool) (k : Nat) : Option LedgerEntry :=
  match dryRun, c.write k, c.record k, c.file k with
  | false, .ok extra, .ok (some record), .ok true => some ⟨record, extra.get "confidence"⟩
  | _, _, _, _ => none

/-- The events that frame the writes. -/
inductive Mark
  | prepare (f : Flasher)
  | write (t : FlashTarget)
  | tearDown (f : Flasher)
  | stopServices (units : List String)
  | startServices (units : List String)

def Event.mark : Event → Option Mark
  | .prepare f => some (.prepare f)
  | .write _ t => some (.write t)
  | .tearDown f => some (.tearDown f)
  | .stopServices units _ => some (.stopServices units)
  | .startServices units => some (.startServices units)
  | _ => none

def Event.filedEntry : Event → Option (Nat × LedgerEntry)
  | .filed k entry => some (k, entry)
  | _ => none

def Event.written : Event → Option (FlashTarget × Nat)
  | .write k t => some (t, k)
  | _ => none

section EventFacts
variable (k : Nat) (t : FlashTarget) (entry : LedgerEntry)

@[simp] theorem Event.mark_write : (Event.write k t).mark = some (.write t) := rfl
@[simp] theorem Event.mark_filed : (Event.filed k entry).mark = none := rfl
@[simp] theorem Event.filedEntry_write : (Event.write k t).filedEntry = none := rfl
@[simp] theorem Event.filedEntry_filed :
    (Event.filed k entry).filedEntry = some (k, entry) := rfl

@[simp] theorem Event.written_write : (Event.write k t).written = some (t, k) := rfl
@[simp] theorem Event.written_filed : (Event.filed k entry).written = none := rfl

end EventFacts

/-- No mark, no write and no filed record. -/
def Event.Quiet (e : Event) : Prop := e.mark = none ∧ e.written = none ∧ e.filedEntry = none

theorem quiet_report (level text : String) : (Event.report level text).Quiet := ⟨rfl, rfl, rfl⟩
theorem quiet_settle (k : Nat) : (Event.settle k).Quiet := ⟨rfl, rfl, rfl⟩

/-- Each record is filed with nothing between it and the write it is about. -/
def FiledAtOnce (es : List Event) : Prop :=
  ∀ pre k entry post, es = pre ++ .filed k entry :: post → ∃ pre' t, pre = pre' ++ [.write k t]

/-- What each flasher's session looks like from outside. -/
def sessionMarks (gs : List (Flasher × List FlashTarget)) : List Mark :=
  gs.flatMap fun g => .prepare g.1 :: g.2.map .write ++ [.tearDown g.1]

/-- Going from `es` to `es'` adds these marks, these writes and these ledger records. -/
def AddsEvents (marks : List Mark) (written : List (FlashTarget × Nat))
    (filed : List (Nat × LedgerEntry)) (es es' : List Event) : Prop :=
  ∃ new, es' = es ++ new ∧ new.filterMap Event.mark = marks ∧ FiledAtOnce new ∧
    new.filterMap Event.written = written ∧ new.filterMap Event.filedEntry = filed

/-- What writing the devices of `order`, framed by `marks`, adds to a batch. -/
structure Advance (c : Calls) (dryRun : Bool) (order : List FlashTarget) (marks : List Mark)
    (s s' : Batch) : Prop where
  done : s'.done = s.done + order.length
  flashed : s'.flashed.map (fun f => (f.target, f.number)) =
    s.flashed.map (fun f => (f.target, f.number)) ++
      (order.zipIdx s.done).filter fun p => c.wrote p.2
  failures : s'.failures = s.failures ++ (order.zipIdx s.done).filterMap fun p => c.failure p.1 p.2
  events : AddsEvents marks (order.zipIdx s.done)
    ((order.zipIdx s.done).filterMap fun p => (c.ledgerEntry dryRun p.2).map (p.2, ·))
    s.events s'.events
  /-- A batch goes on only past writes that ended in a result or in an `UpdaterError`. -/
  handled : ∀ p ∈ order.zipIdx s.done, c.wrote p.2 = false → (c.failure p.1 p.2).isSome

theorem FiledAtOnce.append {es es' : List Event} (h : FiledAtOnce es) (h' : FiledAtOnce es') :
    FiledAtOnce (es ++ es') := by
  intro pre k entry post he
  rcases List.append_eq_append_iff.mp he with ⟨mid, rfl, hr⟩ | ⟨mid, rfl, hr⟩
  · obtain ⟨pre', t, rfl⟩ := h' _ _ _ _ hr
    exact ⟨es ++ pre', t, by simp⟩
  · cases mid with
    | nil =>
      obtain ⟨pre', t, hp⟩ := h' [] k entry post (by simpa using hr.symm)
      simp at hp
    | cons e mid =>
      obtain ⟨rfl, rfl⟩ : .filed k entry = e ∧ post = mid ++ es' := by simpa using hr
      exact h _ _ _ _ rfl

theorem FiledAtOnce.of_unfiled {es : List Event} (h : ∀ e ∈ es, e.filedEntry = none) :
    FiledAtOnce es := by
  rintro pre k entry post rfl
  simpa [Event.filedEntry] using h (.filed k entry) (by simp)

theorem filedAtOnce_write (k : Nat) (t : FlashTarget) (entry : Option LedgerEntry) :
    FiledAtOnce (.write k t :: (entry.map (Event.filed k)).toList) := by
  intro pre k' entry' post he
  cases entry with
  | none => cases pre <;> simp at he
  | some entry =>
    cases pre with
    | nil => simp at he
    | cons e pre =>
      cases pre with
      | nil =>
        obtain ⟨rfl, ⟨rfl, -⟩, -⟩ : .write k t = e ∧ (k = k' ∧ entry = entry') ∧ [] = post := by
          simpa using he
        exact ⟨[], t, rfl⟩
      | cons e' pre => simp at he

theorem AddsEvents.trans {marks marks' : List Mark} {written written' : List (FlashTarget × Nat)}
    {filed filed' : List (Nat × LedgerEntry)} {es es' es'' : List Event}
    (h : AddsEvents marks written filed es es')
    (h' : AddsEvents marks' written' filed' es' es'') :
    AddsEvents (marks ++ marks') (written ++ written') (filed ++ filed') es es'' := by
  obtain ⟨new, rfl, hm, hf, hw, hl⟩ := h
  obtain ⟨new', rfl, hm', hf', hw', hl'⟩ := h'
  exact ⟨new ++ new', by simp, by simp [hm, hm'], hf.append hf', by simp [hw, hw'],
    by simp [hl, hl']⟩

theorem AddsEvents.emit {e : Event} (hw : e.written = none) (hf : e.filedEntry = none)
    (es : List Event) : AddsEvents e.mark.toList [] [] es (es ++ [e]) :=
  ⟨[e], rfl, by cases hm : e.mark <;> simp [hm], .of_unfiled (by simpa using hf), by simp [hw],
    by simp [hf]⟩

section Specs
variable {c : Calls} {dryRun : Bool} {total k : Nat} {t : FlashTarget} {s s' s'' : Batch}

theorem Outcome.bind_done {o : Outcome} {next : Batch → Outcome} (h : o.bind next = .done s') :
    ∃ s, o = .done s ∧ next s = .done s' := by
  cases o with
  | done s => exact ⟨s, rfl, h⟩
  | raised e s => cases h

theorem Outcome.exit_done {o : Outcome} {exit : Batch → Outcome} (h : o.exit exit = .done s') :
    ∃ s, o = .done s ∧ exit s = .done s' := by
  cases o with
  | done s => exact ⟨s, rfl, h⟩
  | raised e s =>
    rw [Outcome.exit] at h
    split at h <;> cases h

theorem Batch.call_done {e : Event} {r : Option Exc} (h : s.call e r = .done s') :
    s' = s.emit e := by
  cases r with
  | none =>
    cases h
    rfl
  | some exc => cases h

theorem Batch.unlessFatal_done {text : String} {exc : Exc}
    (h : s.unlessFatal text exc = .done s') : ∃ text, s' = s.warn text := by
  cases exc with
  | updater t =>
    cases h
    exact ⟨_, rfl⟩
  | _ => cases h

theorem Advance.trans {order order' : List FlashTarget} {marks marks' : List Mark}
    (h : Advance c dryRun order marks s s') (h' : Advance c dryRun order' marks' s' s'') :
    Advance c dryRun (order ++ order') (marks ++ marks') s s'' := by
  refine ⟨?_, ?_, ?_, ?_, fun p hp => ?_⟩
  · rw [h'.done, h.done, List.length_append, Nat.add_assoc]
  · rw [h'.flashed, h.flashed, h.done, List.zipIdx_append, List.filter_append, List.append_assoc]
  · rw [h'.failures, h.failures, h.done, List.zipIdx_append, List.filterMap_append,
      List.append_assoc]
  · rw [List.zipIdx_append, List.filterMap_append, ← h.done]
    exact h.events.trans h'.events
  · rw [List.zipIdx_append, List.mem_append, ← h.done] at hp
    rcases hp with hp | hp
    · exact h.handled p hp
    · exact h'.handled p hp

theorem Advance.emit {e : Event} (hw : e.written = none) (hf : e.filedEntry = none) (s : Batch) :
    Advance c dryRun [] e.mark.toList s (s.emit e) :=
  ⟨rfl, by simp [Batch.emit], by simp [Batch.emit], .emit hw hf _, by simp⟩

theorem Advance.refl (s : Batch) : Advance c dryRun [] [] s s :=
  ⟨rfl, by simp, by simp, ⟨[], by simp, rfl, .of_unfiled (by simp), rfl, rfl⟩, by simp⟩

theorem fileRecord_done {extra : Mapping} (hw : c.write k = .ok extra)
    (h : fileRecord c dryRun k t (extra.get "confidence") s = .done s') :
    ∃ warned : List Event, s' = { s with events :=
        s.events ++ ((c.ledgerEntry dryRun k).map (Event.filed k)).toList ++ warned } ∧
      ∀ e ∈ warned, e.Quiet := by
  cases dryRun with
  | true =>
    cases h
    exact ⟨[], by simp [Calls.ledgerEntry], by simp⟩
  | false =>
    simp only [fileRecord, Bool.false_eq_true, if_false] at h
    cases hr : c.record k with
    | error exc =>
      simp only [hr] at h
      obtain ⟨text, rfl⟩ := Batch.unlessFatal_done h
      exact ⟨[.report "warn" text], by simp [Calls.ledgerEntry, hr, Batch.warn, Batch.emit],
        by simp [quiet_report]⟩
    | ok record =>
      cases record with
      | none =>
        simp only [hr] at h
        cases h
        exact ⟨[], by simp [Calls.ledgerEntry, hr], by simp⟩
      | some record =>
        simp only [hr] at h
        cases hf : c.file k with
        | error exc =>
          simp only [hf] at h
          obtain ⟨text, rfl⟩ := Batch.unlessFatal_done h
          exact ⟨[.report "warn" text],
            by simp [Calls.ledgerEntry, hr, hf, Batch.warn, Batch.emit],
            by simp [quiet_report]⟩
        | ok filed =>
          cases filed <;> simp only [hf] at h <;> cases h
          · exact ⟨[], by simp [Calls.ledgerEntry, hr, hf], by simp⟩
          · exact ⟨[], by simp [Calls.ledgerEntry, hw, hr, hf, Batch.emit], by simp⟩

theorem settle_done (h : settle c k t s = .done s') :
    ∃ es : List Event, s' = { s with events := s.events ++ es } ∧
      ∀ e ∈ es, e.Quiet := by
  cases hc : c.settled k with
  | none =>
    simp only [settle, hc] at h
    cases h
    exact ⟨[.settle k], rfl, by simp [quiet_settle]⟩
  | some exc =>
    simp only [settle, hc] at h
    obtain ⟨text, rfl⟩ := Batch.unlessFatal_done h
    exact ⟨[.settle k, .report "warn" text], by simp [Batch.warn, Batch.emit],
      by simp [quiet_report, quiet_settle]⟩

theorem addsEvents_write (k : Nat) (t : FlashTarget) (entry : Option LedgerEntry)
    (es : List Event) {quiet : List Event} (hq : ∀ e ∈ quiet, e.Quiet) :
    AddsEvents [.write t] [(t, k)] (entry.map (k, ·)).toList es
      (es ++ .write k t :: ((entry.map (Event.filed k)).toList ++ quiet)) := by
  have hm : quiet.filterMap Event.mark = [] :=
    List.filterMap_eq_nil_iff.mpr fun e he => (hq e he).1
  have hw : quiet.filterMap Event.written = [] :=
    List.filterMap_eq_nil_iff.mpr fun e he => (hq e he).2.1
  have hf : quiet.filterMap Event.filedEntry = [] :=
    List.filterMap_eq_nil_iff.mpr fun e he => (hq e he).2.2
  refine ⟨_, rfl, ?_, ?_, ?_, ?_⟩
  · rw [List.filterMap_cons, List.filterMap_append, hm]
    cases entry <;> simp
  · have hfiled := (filedAtOnce_write k t entry).append (.of_unfiled fun e he => (hq e he).2.2)
    rwa [List.cons_append] at hfiled
  · rw [List.filterMap_cons, List.filterMap_append, hw]
    cases entry <;> simp
  · rw [List.filterMap_cons, List.filterMap_append, hf]
    cases entry <;> simp

theorem writeDevice_done (h : writeDevice c dryRun k t s = .done s') :
    s'.done = s.done ∧
    s'.flashed.map (fun f => (f.target, f.number)) =
      s.flashed.map (fun f => (f.target, f.number)) ++ (if c.wrote k then [(t, k)] else []) ∧
    s'.failures = s.failures ++ (c.failure t k).toList ∧
    AddsEvents [.write t] [(t, k)] ((c.ledgerEntry dryRun k).map (k, ·)).toList s.events
      s'.events ∧
    (c.wrote k = false → (c.failure t k).isSome) := by
  cases hw : c.write k with
  | error exc =>
    cases exc with
    | updater text =>
      simp only [writeDevice, hw] at h
      cases h
      refine ⟨rfl, by simp [Calls.wrote, hw, Batch.warn, Batch.emit],
        by simp [Calls.failure, hw, Batch.warn, Batch.emit], ?_, by simp [Calls.failure, hw]⟩
      have hq : ∀ e ∈ [Event.report "warn" (t.id ++ ": " ++ text)], e.Quiet := by
        simp [quiet_report]
      simpa [Calls.ledgerEntry, hw, Batch.warn, Batch.emit] using
        addsEvents_write k t none s.events hq
    | _ =>
      simp only [writeDevice, hw] at h
      cases h
  | ok extra =>
    simp only [writeDevice, hw, popConfidence] at h
    obtain ⟨s₁, h₁, h⟩ := Outcome.bind_done h
    obtain ⟨warned, rfl, hq₁⟩ := fileRecord_done hw h₁
    obtain ⟨es, rfl, hq₂⟩ := settle_done h
    refine ⟨rfl, by simp [Calls.wrote, hw, Batch.emit], by simp [Calls.failure, hw, Batch.emit], ?_,
      by simp [Calls.wrote, hw]⟩
    have hq : ∀ e ∈ warned ++ es, e.Quiet := by
      intro e he
      rcases List.mem_append.mp he with he | he
      · exact hq₁ e he
      · exact hq₂ e he
    simpa [Batch.emit] using addsEvents_write k t (c.ledgerEntry dryRun k) s.events hq

theorem writeOne_advance {s : Batch} (h : writeOne c dryRun total t s = .done s') :
    Advance c dryRun [t] [.write t] s s' := by
  obtain ⟨s₁, h₁, h⟩ := Outcome.bind_done h
  obtain rfl := Batch.call_done h₁
  obtain ⟨hd, hf, hx, he, hh⟩ := writeDevice_done h
  have hpre := (AddsEvents.emit (e := .checkCancelled s.done) rfl rfl s.events).trans
    (.emit (e := .step ("Flashing " ++ t.id ++ " (" ++ t.type ++ ")") s.done total) rfl rfl _)
  refine ⟨hd, ?_, ?_, ?_, ?_⟩
  · rw [hf]
    by_cases hw : c.wrote s.done <;> simp [Batch.emit, hw]
  · rw [hx]
    cases hc : c.failure t s.done <;> simp [Batch.emit, hc]
  · have hall := hpre.trans he
    cases hl : c.ledgerEntry dryRun s.done <;> simpa [Event.mark, Batch.emit, hl] using hall
  · simpa [Batch.emit] using hh

theorem writeEach_advance {ts : List FlashTarget}
    (h : writeEach c dryRun total ts s = .done s') :
    Advance c dryRun ts (ts.map .write) s s' := by
  induction ts generalizing s with
  | nil =>
    cases h
    exact .refl _
  | cons t ts ih =>
    obtain ⟨s₁, h₁, h⟩ := Outcome.bind_done h
    exact (writeOne_advance h₁).trans (ih h)

theorem writeSession_advance {g : Flasher × List FlashTarget}
    (h : writeSession c dryRun total g s = .done s') :
    Advance c dryRun g.2 (sessionMarks [g]) s s' := by
  obtain ⟨s₁, h₁, h⟩ := Outcome.bind_done h
  obtain rfl := Batch.call_done h₁
  obtain ⟨s₂, h₂, h⟩ := Outcome.exit_done h
  obtain rfl := Batch.call_done h
  have hall := ((Advance.emit (e := .prepare g.1) rfl rfl s).trans (writeEach_advance h₂)).trans
    (.emit (e := .tearDown g.1) rfl rfl s₂)
  simpa [sessionMarks, Event.mark] using hall

theorem writeSessions_advance {gs : List (Flasher × List FlashTarget)}
    (h : writeSessions c dryRun total gs s = .done s') :
    Advance c dryRun (gs.flatMap (·.2)) (sessionMarks gs) s s' := by
  induction gs generalizing s with
  | nil =>
    cases h
    exact .refl _
  | cons g gs ih =>
    obtain ⟨s₁, h₁, h⟩ := Outcome.bind_done h
    have hall := (writeSession_advance h₁).trans (ih h)
    simpa [sessionMarks] using hall

theorem writeGroup_advance {group : List FlashTarget}
    (h : writeGroup c dryRun total group s = .done s') :
    ∃ gs, byFlasher group = some gs ∧
      Advance c dryRun (gs.flatMap (·.2)) (sessionMarks gs) s s' := by
  cases hg : byFlasher group with
  | none =>
    simp only [writeGroup, hg] at h
    cases h
  | some gs =>
    simp only [writeGroup, hg] at h
    exact ⟨gs, rfl, writeSessions_advance h⟩

def stoppedMarks (units : List String) (stopped : List FlashTarget)
    (gs : List (Flasher × List FlashTarget)) : List Mark :=
  if stopped = [] then []
  else .stopServices units :: sessionMarks gs ++ [.startServices units]

theorem writeStopped_advance {stopped : List FlashTarget}
    (h : writeStopped c dryRun total stopped s = .done s') :
    ∃ gs, byFlasher stopped = some gs ∧
      Advance c dryRun (gs.flatMap (·.2))
        (stoppedMarks (stopServicesUnion stopped) stopped gs) s s' := by
  by_cases hs : stopped = []
  · rw [writeStopped, if_pos hs] at h
    cases h
    exact ⟨[], by rw [hs]; rfl, by simpa [stoppedMarks, hs] using Advance.refl s⟩
  · rw [writeStopped, if_neg hs] at h
    obtain ⟨s₁, h₁, h⟩ := Outcome.bind_done h
    obtain rfl := Batch.call_done h₁
    obtain ⟨s₂, h₂, h⟩ := Outcome.exit_done h
    obtain rfl := Batch.call_done h
    obtain ⟨gs, hg, ha⟩ := writeGroup_advance h₂
    let units := stopServicesUnion stopped
    have hstop : Advance c dryRun [] [.stopServices units] s _ :=
      .emit (e := .stopServices units ("flash " ++ toString stopped.length ++ " device(s)"))
        rfl rfl s
    have hall := (hstop.trans ha).trans (.emit (e := .startServices units) rfl rfl s₂)
    exact ⟨gs, hg, by simpa [stoppedMarks, hs, Event.mark] using hall⟩

theorem finish_advance {targets : List FlashTarget} (h : finish c targets s = .done s') :
    Advance c dryRun [] [] s s' := by
  have hstep : Advance c dryRun [] [] s _ :=
    .emit (e := .step ("Flashed " ++ toString s.flashed.length ++ " of " ++
      toString targets.length) targets.length targets.length) rfl rfl s
  unfold finish at h
  split at h
  · rename_i ready _
    split_ifs at h
    · cases h
      exact hstep
    · cases ready with
      | ok _ =>
        cases h
        have hwait := hstep.trans
          (.emit (e := .report "info" "Waiting for Klipper to be ready...") rfl rfl _)
        exact hwait.trans (.emit (e := .onReady) rfl rfl _)
      | error exc => cases h
  · cases h
    exact hstep

theorem refuse_foldl (refused : List Refusal) (s : Batch) :
    ∃ es : List Event, (∀ e ∈ es, e.Quiet) ∧
      refused.foldl Batch.refuse s =
        { s with events := s.events ++ es, failures := s.failures ++ refused.map .refused } := by
  induction refused generalizing s with
  | nil => exact ⟨[], by simp, by simp⟩
  | cons r refused ih =>
    obtain ⟨es, hq, he⟩ := ih (s.refuse r)
    refine ⟨.report "warn" ((if r.id = "" then r.type else r.id) ++ ": " ++ r.error) :: es, ?_, ?_⟩
    · simpa [quiet_report] using hq
    · rw [List.foldl_cons, he]
      simp [Batch.refuse, Batch.warn, Batch.emit]

end Specs

def Failure.target : Failure → Option FlashTarget
  | .refused _ => none
  | .failed t _ => some t

/-- The account a batch gives of its targets when it returns. -/
structure Accounted (c : Calls) (dryRun : Bool) (targets : List FlashTarget)
    (refused : List Refusal) (s : Batch) : Prop where
  once : (s.flashed.map (·.target) ++ s.failures.filterMap Failure.target).Perm targets
  refusedFirst : ∃ failed : List (FlashTarget × String),
    s.failures = refused.map .refused ++ failed.map fun p => .failed p.1 p.2
  /-- The devices are written once each, and numbered as they are begun. -/
  numbered : (s.events.filterMap Event.written).map Prod.snd = List.range targets.length
  flashed : s.flashed.map (fun f => (f.target, f.number)) =
    (s.events.filterMap Event.written).filter fun p => c.wrote p.2
  ledger : s.events.filterMap Event.filedEntry =
    s.flashed.filterMap fun f => (c.ledgerEntry dryRun f.number).map (f.number, ·)
  /-- The record of a device in `flashed` is missing only where filing it raised or the ledger
  file could not be written. -/
  filed : dryRun = false → ∀ f ∈ s.flashed, ∀ record, c.record f.number = .ok (some record) →
    (∃ confidence, (f.number, ⟨record, confidence⟩) ∈ s.events.filterMap Event.filedEntry) ∨
      (∃ exc, c.file f.number = .error exc) ∨ c.file f.number = .ok false
  filedAtOnce : FiledAtOnce s.events
  /-- The free targets are written first, then one stop frames all the others. -/
  framed : ∃ stopped free gs gs' units,
    stopped = targets.filter (needsServicesStopped · = some true) ∧
    free = targets.filter (needsServicesStopped · = some false) ∧
    SessionsOf free gs ∧ SessionsOf stopped gs' ∧ FirstSeenUnion units stopped ∧
    s.events.filterMap Event.mark = sessionMarks gs ++ stoppedMarks units stopped gs'

theorem Calls.ledgerEntry_wrote {c : Calls} {dryRun : Bool} {k : Nat}
    (h : (c.ledgerEntry dryRun k).isSome) : c.wrote k := by
  cases hw : c.write k with
  | error exc => simp [Calls.ledgerEntry, hw] at h
  | ok extra => simp [Calls.wrote, hw]

theorem Calls.failure_target {c : Calls} {t : FlashTarget} {k : Nat}
    (h : c.wrote k = false → (c.failure t k).isSome) :
    (c.failure t k).bind Failure.target = if c.wrote k then none else some t := by
  cases hw : c.write k with
  | ok extra => simp [Calls.wrote, Calls.failure, hw]
  | error exc =>
    cases exc <;> simp [Calls.wrote, Calls.failure, hw, Failure.target] at h ⊢

/-- The failed writes, as the entries of `failures` list them. -/
def Calls.failed (c : Calls) (p : FlashTarget × Nat) : Option (FlashTarget × String) :=
  match c.write p.2 with
  | .error (.updater text) => some (p.1, text)
  | _ => none

theorem Calls.failure_eq (c : Calls) (p : FlashTarget × Nat) :
    c.failure p.1 p.2 = (c.failed p).map fun q => .failed q.1 q.2 := by
  cases hw : c.write p.2 with
  | ok extra => simp [Calls.failure, Calls.failed, hw]
  | error exc => cases exc <;> simp [Calls.failure, Calls.failed, hw]

section Account
variable {c : Calls} {dryRun : Bool} {order targets : List FlashTarget} {refused : List Refusal}
  {marks : List Mark} {es : List Event} {s : Batch}

theorem Advance.events_of_quiet
    (h : Advance c dryRun order marks { events := es, failures := refused.map .refused } s)
    (hq : ∀ e ∈ es, e.Quiet) :
    s.events.filterMap Event.mark = marks ∧ FiledAtOnce s.events ∧
      s.events.filterMap Event.written = order.zipIdx ∧
      s.events.filterMap Event.filedEntry = order.zipIdx.filterMap fun p =>
        (c.ledgerEntry dryRun p.2).map (p.2, ·) := by
  obtain ⟨new, he, hm, hf, hw, hl⟩ := h.events
  have hm' : es.filterMap Event.mark = [] :=
    List.filterMap_eq_nil_iff.mpr fun e he => (hq e he).1
  have hw' : es.filterMap Event.written = [] :=
    List.filterMap_eq_nil_iff.mpr fun e he => (hq e he).2.1
  have hl' : es.filterMap Event.filedEntry = [] :=
    List.filterMap_eq_nil_iff.mpr fun e he => (hq e he).2.2
  have hf' : FiledAtOnce es := .of_unfiled fun e he => (hq e he).2.2
  rw [he, List.filterMap_append, List.filterMap_append, List.filterMap_append, hm', hw', hl']
  exact ⟨hm, hf'.append hf, hw, hl⟩

/-- The targets in `flashed` and in `failures` are those of the writes begun. -/
theorem Advance.once
    (h : Advance c dryRun order marks { events := es, failures := refused.map .refused } s) :
    (s.flashed.map (·.target) ++ s.failures.filterMap Failure.target).Perm order := by
  have hflashed : s.flashed.map (·.target) =
      (order.zipIdx.filter fun p => c.wrote p.2).map Prod.fst := by
    have := congrArg (List.map Prod.fst) h.flashed
    simpa [Function.comp_def] using this
  have hfailed : s.failures.filterMap Failure.target =
      (order.zipIdx.filter fun p => !c.wrote p.2).map Prod.fst := by
    have hrefused : (refused.map Failure.refused).filterMap Failure.target = [] := by
      simp [List.filterMap_map, Function.comp_def, Failure.target]
    have hkept : ((order.zipIdx.filter fun p => !c.wrote p.2).map Prod.fst) =
        order.zipIdx.filterMap fun p => if c.wrote p.2 then none else some p.1 := by
      rw [← List.filterMap_eq_map, List.filterMap_filter]
      refine List.filterMap_congr fun p _ => ?_
      cases c.wrote p.2 <;> simp
    rw [h.failures, List.filterMap_append, hrefused, List.nil_append, List.filterMap_filterMap,
      hkept]
    exact List.filterMap_congr fun p hp => Calls.failure_target (h.handled p hp)
  rw [hflashed, hfailed, ← List.map_append]
  have hperm := (List.filter_append_perm (fun p : FlashTarget × Nat => c.wrote p.2)
    order.zipIdx).map Prod.fst
  simpa using hperm

theorem Advance.refusedFirst
    (h : Advance c dryRun order marks { events := es, failures := refused.map .refused } s) :
    ∃ failed : List (FlashTarget × String),
      s.failures = refused.map .refused ++ failed.map fun p => .failed p.1 p.2 := by
  refine ⟨order.zipIdx.filterMap c.failed, ?_⟩
  rw [h.failures, List.map_filterMap]
  exact congrArg _ (List.filterMap_congr fun p _ => c.failure_eq p)

theorem Advance.ledger
    (h : Advance c dryRun order marks { events := es, failures := refused.map .refused } s) :
    (order.zipIdx.filterMap fun p => (c.ledgerEntry dryRun p.2).map (p.2, ·)) =
      s.flashed.filterMap fun f => (c.ledgerEntry dryRun f.number).map (f.number, ·) := by
  have hkeys : (s.flashed.map fun f => (f.target, f.number)) =
      order.zipIdx.filter fun p => c.wrote p.2 := by simpa using h.flashed
  have hmap : (s.flashed.filterMap fun f =>
        (c.ledgerEntry dryRun f.number).map (f.number, ·)) =
      (s.flashed.map fun f => (f.target, f.number)).filterMap fun p =>
        (c.ledgerEntry dryRun p.2).map (p.2, ·) := by
    simp [List.filterMap_map]
  rw [hmap, hkeys, List.filterMap_filter]
  refine List.filterMap_congr fun p _ => ?_
  cases hl : c.ledgerEntry dryRun p.2 with
  | none => simp
  | some entry =>
    have hw : c.wrote p.2 := Calls.ledgerEntry_wrote (by rw [hl]; rfl)
    rw [if_pos hw]

theorem ledgerEntry_of_record {k : Nat} {record : FlashRecord} (hwrote : c.wrote k = true)
    (hrecord : c.record k = .ok (some record)) :
    (∃ confidence, c.ledgerEntry false k = some ⟨record, confidence⟩) ∨
      (∃ exc, c.file k = .error exc) ∨ c.file k = .ok false := by
  cases hw : c.write k with
  | error exc => simp [Calls.wrote, hw] at hwrote
  | ok extra =>
    cases hf : c.file k with
    | error exc => exact .inr (.inl ⟨exc, rfl⟩)
    | ok filed =>
      cases filed with
      | false => exact .inr (.inr rfl)
      | true => exact .inl ⟨extra.get "confidence", by simp only [Calls.ledgerEntry, hw, hrecord, hf]⟩

end Account

/-- When `write_all` returns, its account is complete. -/
theorem write_all_accounts {c : Calls} {dryRun : Bool} {targets : List FlashTarget}
    {refused : List Refusal} {s : Batch} (h : writeAll c dryRun targets refused = .done s) :
    Accounted c dryRun targets refused s := by
  cases hg : groupByStop targets with
  | none =>
    simp only [writeAll, hg] at h
    cases h
  | some groups =>
    obtain ⟨stopped, free⟩ := groups
    simp only [writeAll, hg] at h
    obtain ⟨s₁, h₁, h⟩ := Outcome.bind_done h
    obtain ⟨s₂, h₂, h⟩ := Outcome.bind_done h
    obtain ⟨es, hq, hr⟩ := refuse_foldl refused {}
    obtain ⟨gs, hgs, ha⟩ := writeGroup_advance h₁
    obtain ⟨gs', hgs', hb⟩ := writeStopped_advance h₂
    have hall := (ha.trans hb).trans (finish_advance h)
    rw [hr, List.append_nil, List.append_nil] at hall
    have hperm : (gs.flatMap (·.2) ++ gs'.flatMap (·.2)).Perm targets :=
      ((byFlasher_perm hgs).append (byFlasher_perm hgs')).trans (groupByStop_perm hg)
    obtain ⟨hmarks, hfiled, hwritten, hledger⟩ := hall.events_of_quiet (by simpa using hq)
    obtain ⟨hstopped, hfree⟩ := groupByStop_filter hg
    have hledger := hledger.trans hall.ledger
    have hflashed : s.flashed.map (fun f => (f.target, f.number)) =
        (s.events.filterMap Event.written).filter fun p => c.wrote p.2 := by
      simpa [hwritten] using hall.flashed
    exact
      { once := hall.once.trans hperm
        refusedFirst := hall.refusedFirst
        numbered := by
          rw [hwritten, List.zipIdx_map_snd, hperm.length_eq, List.range_eq_range']
        flashed := hflashed
        ledger := hledger
        filed := fun hreal f hf record hrecord => by
          have hmem := List.mem_map_of_mem (f := fun f : Flashed => (f.target, f.number)) hf
          rw [hflashed, List.mem_filter] at hmem
          refine (ledgerEntry_of_record hmem.2 hrecord).imp_left fun ⟨confidence, hentry⟩ => ?_
          rw [hledger, hreal]
          exact ⟨confidence, List.mem_filterMap.mpr ⟨f, hf, by rw [hentry]; rfl⟩⟩
        filedAtOnce := hfiled
        framed := ⟨stopped, free, gs, gs', _, hstopped, hfree, byFlasher_sessionsOf hgs,
          byFlasher_sessionsOf hgs', stopServicesUnion_firstSeen stopped, hmarks⟩ }

def secondFails : Calls where
  checkCancelled _ := none
  prepare _ := none
  tearDown _ := none
  write k := if k = 1 then .error (.updater "no answer") else .ok [("confidence", .none)]
  record k := .ok (some ⟨"serial" ++ toString k, "ebb", "klipper", none, none, none⟩)
  file _ := .ok true
  settled _ := none
  stopServices := none
  startServices := none
  onReady := none

theorem write_all_accounts_second_fails :
    ∃ s, s.flashed.length = 2 ∧ (s.events.filterMap Event.filedEntry).length = 2 ∧
      Accounted secondFails false
        [⟨"flashtool", "ebb", "a", ["klipper"], none⟩, ⟨"dfu_util", "ebb", "b", [], none⟩,
          ⟨"flashtool", "ebb", "c", ["klipper", "can0"], none⟩] [] s :=
  ⟨_, rfl, rfl, write_all_accounts (s := _) rfl⟩

/-- The ledger cannot be written, which nothing reports: the write is in `flashed` and nowhere
else. -/
theorem full_disk_loses_record : ∃ (c : Calls) (s : Batch) (f : Flashed) (record : FlashRecord),
    writeAll c false [⟨"dfu_util", "ebb", "b", [], none⟩] [] = .done s ∧ f ∈ s.flashed ∧
      c.record f.number = .ok (some record) ∧ (∀ exc, c.file f.number ≠ .error exc) ∧
      s.events.filterMap Event.filedEntry = [] :=
  ⟨{ secondFails with file := fun _ => .ok false }, _, _, _, rfl, List.mem_singleton_self _, rfl,
    nofun, rfl⟩

end McuUpdater.Flashers
