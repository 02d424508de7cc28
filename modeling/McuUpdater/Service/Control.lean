import McuUpdater.Lib.Transition

/-! `service.py`: the crash journal, `services_stopped` and `reconcile`, as the steps
a process takes. Starting and stopping a unit succeeds; a journal write is atomic. -/
namespace McuUpdater.Service

/-- The journal file: missing, not a JSON object, or an object with the two keys
`pending` looks at (`service` is the spelling of older versions). -/
inductive JournalFile
  | absent
  | unreadable
  | entry (services : Option (List String)) (service : Option String)
  deriving DecidableEq

/-- `Journal.pending`: the units of a usable entry. -/
def JournalFile.pending : JournalFile → Option (List String)
  | .entry (some (s :: ss)) _ => some (s :: ss)
  | .entry _ (some legacy) => if legacy = "" then none else some [legacy]
  | _ => none

/-- The units a later `reconcile` will look at. -/
def JournalFile.named (j : JournalFile) : List String := j.pending.getD []

/-- The service manager and the journal file. `stopped` is no data of the program:
it marks the units the tool has stopped and not since asked to start. -/
structure World where
  active : String → Bool
  journal : JournalFile
  stopped : String → Bool

def World.stop (w : World) (u : String) : World :=
  { w with active := Function.update w.active u false
           stopped := Function.update w.stopped u true }

def World.start (w : World) (u : String) : World :=
  { w with active := Function.update w.active u true
           stopped := Function.update w.stopped u false }

def World.recordStop (w : World) (services : List String) : World :=
  { w with journal := .entry (some services) none }

def World.clear (w : World) : World := { w with journal := .absent }

@[simp] theorem World.stop_journal (w : World) (u : String) :
    (w.stop u).journal = w.journal := rfl
@[simp] theorem World.start_journal (w : World) (u : String) :
    (w.start u).journal = w.journal := rfl
@[simp] theorem World.recordStop_stopped (w : World) (ss : List String) :
    (w.recordStop ss).stopped = w.stopped := rfl
@[simp] theorem World.clear_stopped (w : World) : w.clear.stopped = w.stopped := rfl
@[simp] theorem World.clear_named (w : World) : w.clear.journal.named = [] := rfl

@[simp] theorem World.recordStop_named (w : World) (ss : List String) :
    (w.recordStop ss).journal.named = ss := by
  cases ss <;> rfl

theorem World.stop_stopped (w : World) (u v : String) :
    (w.stop u).stopped v = if v = u then true else w.stopped v := by
  simp [World.stop, Function.update_apply]

theorem World.start_stopped (w : World) (u v : String) :
    (w.start u).stopped v = if v = u then false else w.stopped v := by
  simp [World.start, Function.update_apply]

/-- Where a call of `services_stopped` or of `reconcile` has got to. -/
inductive Frame
  /-- `to_stop = [svc for svc in controllers if svc.is_active()]` -/
  | scan (verify : Bool) (todo toStop : List String)
  /-- `if to_stop: journal.record_stop(...)` -/
  | record (verify : Bool) (toStop : List String)
  /-- at the top of `for svc in to_stop:` with `done` stopped -/
  | stopping (verify : Bool) (done todo : List String)
  /-- in the `while svc.is_active():` of the unit just stopped -/
  | verifying (done : List String) (svc : String) (todo : List String)
  /-- in the `with` body -/
  | body (toStop : List String)
  /-- in the `for` of `_restart_all` -/
  | restarting (todo : List String)
  /-- at the `journal.clear()` of `_restart_all` -/
  | clearing
  /-- `reconcile`, at `journal.pending()` -/
  | load
  /-- `reconcile`, at the top of its `for` -/
  | checking (todo : List String)
  /-- `reconcile`, at `svc.start(reporter)` -/
  | starting (svc : String) (todo : List String)
  /-- `reconcile`, at its `journal.clear()` -/
  | forget
  deriving DecidableEq

/-- The next step of a call; no frame when the call returns. The body does not
move by itself: it ends when the caller leaves it. -/
def Frame.advance (w : World) : Frame → Option (World × Option Frame)
  | .scan v (u :: todo) toStop =>
      some (w, some (.scan v todo (if w.active u then toStop ++ [u] else toStop)))
  | .scan v [] toStop => some (w, some (.record v toStop))
  | .record v [] => some (w, some (.stopping v [] []))
  | .record v (u :: us) => some (w.recordStop (u :: us), some (.stopping v [] (u :: us)))
  | .stopping true done (u :: todo) => some (w.stop u, some (.verifying done u todo))
  | .stopping false done (u :: todo) =>
      some (w.stop u, some (.stopping false (done ++ [u]) todo))
  | .stopping _ done [] => some (w, some (.body done))
  -- still active before the deadline: sleep and look again
  | .verifying done u todo =>
      if w.active u then some (w, some (.verifying done u todo))
      else some (w, some (.stopping true (done ++ [u]) todo))
  | .body _ => none
  | .restarting (u :: todo) => some (w.start u, some (.restarting todo))
  | .restarting [] => some (w, some .clearing)
  | .clearing => some (w.clear, none)
  | .load =>
      match w.journal.pending with
      | none => some (w, none)
      | some services => some (w, some (.checking services.reverse))
  | .checking (u :: todo) =>
      if w.active u then some (w, some (.checking todo))
      else some (w, some (.starting u todo))
  | .checking [] => some (w, some .forget)
  | .starting u todo => some (w.start u, some (.checking todo))
  | .forget => some (w.clear, none)

inductive Action
  /-- enter `with services_stopped(...)` over these units -/
  | enter (verify : Bool) (controllers : List String)
  | reconcile
  | advance
  /-- the stop of the unit being verified did not take effect in time -/
  | timeout
  /-- the body returns or raises -/
  | leave
  /-- the process dies: its calls are gone, the world stays as it is -/
  | crash

/-- A process can make a call at its top level or in the body of a block. -/
def canCall : List Frame → Bool
  | [] => true
  | .body _ :: _ => true
  | _ => false

def stepProc (w : World) (stack : List Frame) : Action → Option (World × List Frame)
  | .enter v cs => if canCall stack then some (w, .scan v cs [] :: stack) else none
  | .reconcile => if canCall stack then some (w, .load :: stack) else none
  | .advance =>
      match stack with
      | [] => none
      | f :: rest => (f.advance w).map fun r => (r.1, r.2.toList ++ rest)
  | .timeout =>
      match stack with
      | .verifying done u todo :: rest =>
          if w.active u then some (w, .restarting (done ++ u :: todo).reverse :: rest) else none
      | _ => none
  | .leave =>
      match stack with
      | .body toStop :: rest => some (w, .restarting toStop.reverse :: rest)
      | _ => none
  | .crash => some (w, [])

end McuUpdater.Service
