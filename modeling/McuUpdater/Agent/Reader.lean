import McuUpdater.Agent.Rpc
import McuUpdater.Lib.Transition
import Mathlib.Data.List.Nodup

/-! `agent/rpc.py`: the reader of a connection and the calls that wait for an answer.
Each step is one that a lock or the reader alone makes whole; what follows `pop` in
`_resolve` touches only the future popped. -/
namespace McuUpdater.Agent
open PyText PyValue Transition

abbrev Fields := List (PyVal × PyVal)

/-- The built-ins the reader calls; an absent text or number is an exception. -/
structure Builtins where
  /-- `json.loads(raw.decode("utf-8"))`; both decoding errors are `ValueError`s. -/
  loads : Bytes → Except PyError PyVal
  str : PyVal → Option Str
  intOfText : Str → Option Int

def field (msg : Fields) (key : String) : Option PyVal :=
  (msg.find? fun kv => kv.1.eqStr key.toList).map Prod.snd

/-- `msg.get(key)` -/
def get (msg : Fields) (key : String) : PyVal := (field msg key).getD .none

/-- The int `v` is an instance of, if it is. -/
def asInt : PyVal → Option Int
  | .bool b => some (if b then 1 else 0)
  | .int n => some n
  | _ => none

inductive Reply
  | result (value : PyVal)
  | error (message : Str) (code : Int) (data : PyVal)

/-- What a notification handler does; `text` is `str(exc)`, which may raise. -/
inductive NotifyOutcome
  | returns
  | raises (text : Option Str)

inductive ReaderState
  | running
  | ended
  /-- by an exception that a message caused -/
  | raised
  deriving DecidableEq

structure Answered where
  call : Int
  reply : Reply
  msg : Fields

/-- A call is named by its id; the last five fields are history. -/
structure Peer where
  nextId : Int := 0
  /-- ids handed out and not yet in `_pending` -/
  begun : List Int := []
  pending : List Int := []
  buffer : Bytes := []
  /-- frames unpacked and not yet handled -/
  queue : List Bytes := []
  closing : Bool := false
  reader : ReaderState := .running
  received : Bytes := []
  handled : List Bytes := []
  popped : List (Int × Fields) := []
  answered : List Answered := []
  lost : List Int := []

/-- `_fail_pending` -/
def Peer.failPending (p : Peer) : Peer := { p with pending := [], lost := p.lost ++ p.pending }

/-- An exception leaves `_read_loop` through its `finally`. -/
def Peer.raise (p : Peer) : Peer := { p.failPending with reader := .raised }

/-- `self._pending.pop(req_id, None)` for a response -/
def Peer.take (p : Peer) (n : Int) (msg : Fields) : Peer :=
  { p with pending := p.pending.erase n, popped := p.popped ++ [(n, msg)] }

def Peer.answer (p : Peer) (a : Answered) : Peer := { p with answered := p.answered ++ [a] }

/-- `not chunk.strip()` -/
def isBlank (chunk : Bytes) : Bool := chunk.all fun b => (9 ≤ b && b ≤ 13) || b == 32

/-- `unframe`, with the bytes of the segment read so far. -/
def unframeFrom (segment : Bytes) : Bytes → List Bytes × Bytes
  | [] => ([], segment)
  | b :: buffer =>
    if b = etx then
      let (out, tail) := unframeFrom [] buffer
      (if isBlank segment then out else segment :: out, tail)
    else unframeFrom (segment ++ [b]) buffer

/-- The complete messages of a buffer, and the partial tail it is left with. -/
def unframe (buffer : Bytes) : List Bytes × Bytes := unframeFrom [] buffer

section Model
variable (rt : Builtins)

/-- `int(v)` -/
def toInt : PyVal → Option Int
  | .bool b => some (if b then 1 else 0)
  | .int n => some n
  | .float (.finite m e) =>
    some (if 0 ≤ e then m * Int.pow 2 e.toNat else m.tdiv (Int.pow 2 (-e).toNat))
  | .str s => rt.intOfText s
  | _ => none

/-- What `_resolve` puts in the future of a response, unless it raises. -/
def reply (msg : Fields) : Option Reply :=
  match get msg "error" with
  | .none => some (.result (get msg "result"))
  | .dict err => do
    let message ← rt.str ((field err "message").getD (.str "unknown error".toList))
    let code ← toInt rt ((field err "code").getD (.int errApplication))
    some (.error message code (get err "data"))
  | err => (rt.str err).map fun message => .error message errApplication .none

/-- `_resolve` -/
def resolve (msg : Fields) (p : Peer) : Peer :=
  match asInt (get msg "id") with
  | none => p
  | some n =>
    if n ∈ p.pending then
      match reply rt msg with
      | none => (p.take n msg).raise
      | some r => (p.take n msg).answer ⟨n, r, msg⟩
    -- the log line names the unknown id
    else if (rt.str (get msg "id")).isSome then p
    else p.raise

/-- `_handle_raw` on an object; a request goes to the pool. -/
def handleObject (o : NotifyOutcome) (msg : Fields) (p : Peer) : Peer :=
  let hasMethod := (field msg "method").isSome
  let hasId := !(get msg "id").isNone
  if hasMethod && hasId then
    -- refused while shutting down; no socket is left, so the log line names the id
    if p.closing && (rt.str (get msg "id")).isNone then p.raise else p
  else if hasMethod then
    match o with
    | .returns => p
    | .raises text => if (rt.str (get msg "method")).isSome && text.isSome then p else p.raise
  else if hasId then resolve rt msg p
  else p

/-- `_handle_raw` -/
def handleRaw (o : NotifyOutcome) (raw : Bytes) (p : Peer) : Peer :=
  match rt.loads raw with
  | .error .valueError => p
  | .error _ => p.raise
  | .ok (.dict msg) => handleObject rt o msg p
  | .ok _ => p

inductive PeerAction
  /-- `_allocate_id`, then the entry in `_pending` -/
  | allocate
  | register (id : Int)
  /-- a failed write or a timeout takes the call back -/
  | withdraw (id : Int)
  | receive (chunk : Bytes)
  | handle (o : NotifyOutcome)
  /-- the socket ends or fails, or `_stop` is seen -/
  | hangUp
  | close

def peerStep (p : Peer) : PeerAction → Option Peer
  | .allocate => some { p with nextId := p.nextId + 1, begun := p.begun ++ [p.nextId + 1] }
  | .register id =>
    if id ∈ p.begun then
      some { p with begun := p.begun.erase id, pending := p.pending ++ [id] }
    else none
  | .withdraw id => some { p with pending := p.pending.erase id }
  | .receive chunk =>
    if p.reader = .running ∧ p.queue = [] ∧ chunk ≠ [] then
      let (queue, buffer) := unframe (p.buffer ++ chunk)
      some { p with queue, buffer, received := p.received ++ chunk }
    else none
  | .handle o =>
    match p.reader, p.queue with
    | .running, raw :: queue =>
      some (handleRaw rt o raw { p with queue, handled := p.handled ++ [raw] })
    | _, _ => none
  | .hangUp => if p.reader = .running then some { p.failPending with reader := .ended } else none
  | .close => some { p.failPending with closing := true }

/-- The id is the int of a pending call and the body can be read, or the id is no int or
one that can be written to the log. -/
def benignResponse (msg : Fields) (p : Peer) : Bool :=
  match asInt (get msg "id") with
  | none => true
  | some n =>
    if n ∈ p.pending then (get msg "id" matches .int _) && (reply rt msg).isSome
    else (rt.str (get msg "id")).isSome

def benignNotification (msg : Fields) : NotifyOutcome → Bool
  | .returns => true
  | .raises text => (rt.str (get msg "method")).isSome && text.isSome

def benignObject (o : NotifyOutcome) (msg : Fields) (p : Peer) : Bool :=
  match (field msg "method").isSome, !(get msg "id").isNone with
  | true, true => !(p.closing && (rt.str (get msg "id")).isNone)
  | true, false => benignNotification rt msg o
  | false, true => benignResponse rt msg p
  | false, false => true

/-- No nesting too deep to decode, and a benign object. -/
def benignFrame (o : NotifyOutcome) (raw : Bytes) (p : Peer) : Bool :=
  match rt.loads raw with
  | .error e => e == .valueError
  | .ok (.dict msg) => benignObject rt o msg p
  | .ok _ => true

def benign (p : Peer) : PeerAction → Bool
  | .handle o => p.queue.head?.all fun raw => benignFrame rt o raw p
  | _ => true

/-- No message has ended the reader, each call is resolved at most once, each answer
bears the id of its call and is the one in its frame, and what a response took off the
table it resolved. -/
structure Faithful (p : Peer) : Prop where
  alive : p.reader ≠ .raised
  once : (p.answered.map Answered.call ++ p.lost).Nodup
  own : ∀ a ∈ p.answered, field a.msg "id" = some (.int a.call) ∧ reply rt a.msg = some a.reply
  kept : ∀ r ∈ p.popped, ∃ a ∈ p.answered, (a.call, a.msg) = r

end Model

section Facts
variable {rt : Builtins} {p q : Peer} {o : NotifyOutcome} {raw : Bytes} {msg : Fields}
  {a : PeerAction} {acts : List PeerAction}

/-- What one frame does, and whether it was benign. -/
inductive Handled (rt : Builtins) (p : Peer) : Bool → Peer → Prop
  | ignored : Handled rt p true p
  | raises : Handled rt p false p.raise
  | answers (n : Int) (r : Reply) (msg : Fields) (hn : n ∈ p.pending)
      (hid : field msg "id" = some (.int n)) (hr : reply rt msg = some r) :
      Handled rt p true ((p.take n msg).answer ⟨n, r, msg⟩)
  | drops (n : Int) (msg : Fields) (hn : n ∈ p.pending) : Handled rt p false (p.take n msg).raise
  | crosses (n : Int) (r : Reply) (msg : Fields) (hn : n ∈ p.pending)
      (hid : field msg "id" ≠ some (.int n)) :
      Handled rt p false ((p.take n msg).answer ⟨n, r, msg⟩)

theorem field_of_get {v : PyVal} {key : String} (h : get msg key = v) (hv : v.isNone = false) :
    field msg key = some v := by
  unfold get at h
  cases hf : field msg key with
  | none =>
    simp only [hf, Option.getD_none] at h
    subst h
    cases hv
  | some w =>
    simp only [hf, Option.getD_some] at h
    rw [h]

theorem resolve_handled (rt : Builtins) (msg : Fields) (p : Peer) :
    Handled rt p (benignResponse rt msg p) (resolve rt msg p) := by
  unfold benignResponse resolve
  cases hv : get msg "id" with
  | int n =>
    have hid : field msg "id" = some (.int n) := field_of_get hv rfl
    by_cases hn : n ∈ p.pending
    · cases hr : reply rt msg with
      | none => simpa [asInt, hn, hr] using Handled.drops n msg hn
      | some r => simpa [asInt, hn, hr] using Handled.answers n r msg hn hid hr
    · cases hs : rt.str (.int n) with
      | none => simpa [asInt, hn, hs] using Handled.raises
      | some s => simpa [asInt, hn, hs] using Handled.ignored
  | bool b =>
    -- `True` is an int, and finds the entry of 1
    have hid : field msg "id" = some (.bool b) := field_of_get hv rfl
    by_cases hn : (if b then 1 else 0 : Int) ∈ p.pending
    · cases hr : reply rt msg with
      | none => simpa [asInt, hn, hr] using Handled.drops _ msg hn
      | some r => simpa [asInt, hn, hr] using Handled.crosses _ r msg hn (by simp [hid])
    · cases hs : rt.str (.bool b) with
      | none => simpa [asInt, hn, hs] using Handled.raises
      | some s => simpa [asInt, hn, hs] using Handled.ignored
  | _ => simpa [asInt] using Handled.ignored

theorem handleObject_handled (rt : Builtins) (o : NotifyOutcome) (msg : Fields) (p : Peer) :
    Handled rt p (benignObject rt o msg p) (handleObject rt o msg p) := by
  unfold benignObject handleObject
  cases (field msg "method").isSome <;> cases !(get msg "id").isNone
  · exact .ignored
  · exact resolve_handled rt msg p
  · cases o with
    | returns => exact .ignored
    | raises text =>
      cases h : (rt.str (get msg "method")).isSome && text.isSome
      · simpa [benignNotification, h] using Handled.raises
      · simpa [benignNotification, h] using Handled.ignored
  · cases h : p.closing && (rt.str (get msg "id")).isNone
    · simpa [h] using Handled.ignored
    · simpa [h] using Handled.raises

theorem handleRaw_handled (rt : Builtins) (o : NotifyOutcome) (raw : Bytes) (p : Peer) :
    Handled rt p (benignFrame rt o raw p) (handleRaw rt o raw p) := by
  unfold benignFrame handleRaw
  cases rt.loads raw with
  | error e =>
    cases e with
    | valueError => exact .ignored
    | typeError | recursionError => exact .raises
  | ok v =>
    cases v with
    | dict msg => exact handleObject_handled rt o msg p
    | _ => exact .ignored

/-- Every call is in one place, and only a popped one is answered. -/
structure Tracked (p : Peer) : Prop where
  nodup : (p.begun ++ p.pending ++ p.popped.map Prod.fst ++ p.lost).Nodup
  le : ∀ n ∈ p.begun ++ p.pending ++ p.popped.map Prod.fst ++ p.lost, n ≤ p.nextId
  answered : (p.answered.map Answered.call).Sublist (p.popped.map Prod.fst)

theorem Tracked.of_count (ht : Tracked p) (hid : q.nextId = p.nextId)
    (hc : ∀ n, (q.begun ++ q.pending ++ q.popped.map Prod.fst ++ q.lost).count n ≤
      (p.begun ++ p.pending ++ p.popped.map Prod.fst ++ p.lost).count n)
    (hans : (q.answered.map Answered.call).Sublist (q.popped.map Prod.fst)) : Tracked q where
  nodup := List.nodup_iff_count_le_one.mpr fun n =>
    (hc n).trans (List.nodup_iff_count_le_one.mp ht.nodup n)
  le n hn := by
    rw [hid]
    exact ht.le n (List.count_pos_iff.mp ((List.count_pos_iff.mpr hn).trans_le (hc n)))
  answered := hans

theorem Tracked.failPending (ht : Tracked p) : Tracked p.failPending := by
  refine ht.of_count rfl (fun n => ?_) ht.answered
  simp only [Peer.failPending, List.count_append, List.count_nil]
  omega

theorem Tracked.raise (ht : Tracked p) : Tracked p.raise :=
  ⟨ht.failPending.nodup, ht.failPending.le, ht.failPending.answered⟩

theorem count_erase_of_mem {l : List Int} {n : Int} (h : n ∈ l) (m : Int) :
    (l.erase n).count m + (if m = n then 1 else 0) = l.count m := by
  have hpos := List.count_pos_iff.mpr h
  by_cases hm : m = n
  · subst hm
    rw [List.count_erase_self, if_pos rfl]
    omega
  · rw [List.count_erase_of_ne hm, if_neg hm]
    omega

theorem Tracked.take (ht : Tracked p) {n : Int} (hn : n ∈ p.pending) (msg : Fields) :
    Tracked (p.take n msg) := by
  refine ht.of_count rfl (fun m => ?_) ?_
  · have hc := count_erase_of_mem hn m
    simp only [Peer.take, List.count_append, List.map_append, List.map_cons, List.map_nil,
      List.count_singleton, beq_iff_eq, eq_comm (a := n)]
    omega
  · simpa [Peer.take] using ht.answered.trans (List.sublist_append_left _ _)

theorem Tracked.take_answer (ht : Tracked p) {n : Int} (hn : n ∈ p.pending) (r : Reply)
    (msg : Fields) : Tracked ((p.take n msg).answer ⟨n, r, msg⟩) := by
  have ht' := ht.take hn msg
  refine ⟨ht'.nodup, ht'.le, ?_⟩
  simpa [Peer.take, Peer.answer] using ht.answered.append (List.Sublist.refl [n])

theorem Handled.tracked {b : Bool} (h : Handled rt p b q) (ht : Tracked p) : Tracked q := by
  cases h with
  | ignored => exact ht
  | raises => exact ht.raise
  | answers n r msg hn => exact ht.take_answer hn r msg
  | drops n msg hn => exact (ht.take hn msg).raise
  | crosses n r msg hn => exact ht.take_answer hn r msg

theorem tracked_step (hs : peerStep rt p a = some q) (ht : Tracked p) : Tracked q := by
  cases a with
  | allocate =>
    cases hs
    have hnew : p.nextId + 1 ∉ p.begun ++ p.pending ++ p.popped.map Prod.fst ++ p.lost := fun h => by
      have := ht.le _ h
      omega
    have hperm : (p.begun ++ [p.nextId + 1] ++ p.pending ++ p.popped.map Prod.fst ++ p.lost).Perm
        ((p.nextId + 1) :: (p.begun ++ p.pending ++ p.popped.map Prod.fst ++ p.lost)) := by
      simp only [List.append_assoc, List.singleton_append]
      exact List.perm_middle
    refine ⟨hperm.nodup_iff.mpr (List.nodup_cons.mpr ⟨hnew, ht.nodup⟩), fun n hn => ?_, ht.answered⟩
    rcases List.mem_cons.mp (hperm.mem_iff.mp hn) with rfl | hn
    · exact Int.le_refl _
    · have := ht.le n hn
      simp only
      omega
  | register id =>
    simp only [peerStep] at hs
    split_ifs at hs with hid
    cases hs
    refine ht.of_count rfl (fun m => ?_) ht.answered
    have hc := count_erase_of_mem hid m
    simp only [List.count_append, List.count_singleton, beq_iff_eq, eq_comm (a := id)]
    omega
  | withdraw id =>
    cases hs
    refine ht.of_count rfl (fun m => ?_) ht.answered
    have hc := (List.erase_sublist (a := id) (l := p.pending)).count_le m
    simp only [List.count_append]
    omega
  | receive chunk =>
    simp only [peerStep] at hs
    split_ifs at hs
    cases hs
    exact ⟨ht.nodup, ht.le, ht.answered⟩
  | handle o =>
    simp only [peerStep] at hs
    split at hs
    · cases hs
      exact (handleRaw_handled rt o _ _).tracked ⟨ht.nodup, ht.le, ht.answered⟩
    · cases hs
  | hangUp =>
    simp only [peerStep] at hs
    split_ifs at hs
    cases hs
    exact ⟨ht.failPending.nodup, ht.failPending.le, ht.failPending.answered⟩
  | close =>
    cases hs
    exact ⟨ht.failPending.nodup, ht.failPending.le, ht.failPending.answered⟩

theorem Tracked.once (ht : Tracked p) : (p.answered.map Answered.call ++ p.lost).Nodup := by
  have h := ht.nodup
  rw [List.append_assoc] at h
  exact (List.nodup_append.mp h).2.1.sublist (ht.answered.append (List.Sublist.refl _))

/-- `Faithful` without what no message can break. -/
structure Fair (rt : Builtins) (p : Peer) : Prop where
  alive : p.reader ≠ .raised
  own : ∀ a ∈ p.answered, field a.msg "id" = some (.int a.call) ∧ reply rt a.msg = some a.reply
  kept : ∀ r ∈ p.popped, ∃ a ∈ p.answered, (a.call, a.msg) = r

/-- A message has ended the reader or was taken for the answer to another id. -/
def Spoilt (p : Peer) : Prop :=
  p.reader = .raised ∨ ∃ a ∈ p.answered, field a.msg "id" ≠ some (.int a.call)

theorem Spoilt.not_fair (h : Spoilt p) : ¬Fair rt p := fun hf => by
  rcases h with h | ⟨a, ha, hid⟩
  · exact hf.alive h
  · exact hid (hf.own a ha).1

theorem Handled.fair (h : Handled rt p true q) (hf : Fair rt p) : Fair rt q := by
  cases h with
  | ignored => exact hf
  | answers n r msg hn hid hr =>
    refine ⟨hf.alive, fun a ha => ?_, fun c hc => ?_⟩
    · rcases List.mem_append.mp ha with ha | ha
      · exact hf.own a ha
      · obtain rfl := List.mem_singleton.mp ha
        exact ⟨hid, hr⟩
    · rcases List.mem_append.mp hc with hc | hc
      · obtain ⟨a, ha, rfl⟩ := hf.kept c hc
        exact ⟨a, List.mem_append_left _ ha, rfl⟩
      · obtain rfl := List.mem_singleton.mp hc
        exact ⟨⟨n, r, msg⟩, List.mem_append_right _ (by simp), rfl⟩

theorem Handled.spoilt (h : Handled rt p false q) : Spoilt q := by
  cases h with
  | raises | drops => exact Or.inl rfl
  | crosses n r msg hn hid =>
    exact Or.inr ⟨⟨n, r, msg⟩, List.mem_append_right _ (by simp), hid⟩

theorem Handled.answered_subset {b : Bool} (h : Handled rt p b q) : p.answered ⊆ q.answered := by
  cases h with
  | ignored | raises | drops => exact fun _ ha => ha
  | answers | crosses => exact List.subset_append_left _ _

theorem step_cases (hs : peerStep rt p a = some q) :
    (∃ o raw queue, a = .handle o ∧ p.reader = .running ∧ p.queue = raw :: queue ∧
      q = handleRaw rt o raw { p with queue, handled := p.handled ++ [raw] }) ∨
    ((∀ o, a ≠ .handle o) ∧ q.answered = p.answered ∧ q.popped = p.popped ∧
      (q.reader = p.reader ∨ p.reader = .running ∧ q.reader = .ended)) := by
  cases a with
  | handle o =>
    simp only [peerStep] at hs
    split at hs
    case h_1 raw queue hr hq =>
      cases hs
      exact Or.inl ⟨o, raw, queue, rfl, hr, hq, rfl⟩
    case h_2 => cases hs
  | register | receive =>
    simp only [peerStep] at hs
    split_ifs at hs
    cases hs
    exact Or.inr ⟨nofun, rfl, rfl, Or.inl rfl⟩
  | hangUp =>
    simp only [peerStep] at hs
    split_ifs at hs with hr
    cases hs
    exact Or.inr ⟨nofun, rfl, rfl, Or.inr ⟨hr, rfl⟩⟩
  | allocate | withdraw | close =>
    cases hs
    exact Or.inr ⟨nofun, rfl, rfl, Or.inl rfl⟩

theorem benign_handle {queue handled : List Bytes} (hq : p.queue = raw :: queue) :
    benign rt p (.handle o) = benignFrame rt o raw { p with queue, handled } := by
  simp only [benign, hq, List.head?_cons, Option.all_some]
  rfl

theorem fair_step (hs : peerStep rt p a = some q) (hb : benign rt p a = true) (hf : Fair rt p) :
    Fair rt q := by
  rcases step_cases hs with ⟨o, raw, queue, rfl, -, hq, rfl⟩ | ⟨-, hans, hpop, hr⟩
  · have hh := handleRaw_handled rt o raw { p with queue, handled := p.handled ++ [raw] }
    rw [← benign_handle hq, hb] at hh
    exact hh.fair ⟨hf.alive, hf.own, hf.kept⟩
  · refine ⟨?_, hans ▸ hf.own, ?_⟩
    · rcases hr with hr | ⟨-, hr⟩
      · exact hr ▸ hf.alive
      · simp [hr]
    · rw [hans, hpop]
      exact hf.kept

theorem spoilt_step (hs : peerStep rt p a = some q) (hb : benign rt p a = false) : Spoilt q := by
  rcases step_cases hs with ⟨o, raw, queue, rfl, -, hq, rfl⟩ | ⟨ha, -⟩
  · have hh := handleRaw_handled rt o raw { p with queue, handled := p.handled ++ [raw] }
    rw [← benign_handle hq, hb] at hh
    exact hh.spoilt
  · cases a with
    | handle o => exact absurd rfl (ha o)
    | _ => cases hb

theorem Spoilt.step (hs : peerStep rt p a = some q) (h : Spoilt p) : Spoilt q := by
  rcases step_cases hs with ⟨o, raw, queue, -, hrun, -, rfl⟩ | ⟨-, hans, -, hr⟩
  · rcases h with h | ⟨a, ha, hid⟩
    · rw [hrun] at h
      cases h
    · exact Or.inr ⟨a, (handleRaw_handled rt o raw _).answered_subset ha, hid⟩
  · rcases h with h | h
    · rcases hr with hr | ⟨hr, -⟩
      · exact Or.inl (hr.trans h)
      · rw [hr] at h
        cases h
    · exact Or.inr (hans ▸ h)

theorem Spoilt.run (hr : run (peerStep rt) acts p = some q) (h : Spoilt p) : Spoilt q := by
  induction acts generalizing p with
  | nil =>
    cases hr
    exact h
  | cons a acts ih =>
    obtain ⟨p', hs, hr⟩ := Option.bind_eq_some_iff.mp hr
    exact ih hr (h.step hs)

theorem tracked_run (hr : run (peerStep rt) acts p = some q) (ht : Tracked p) : Tracked q := by
  induction acts generalizing p with
  | nil =>
    cases hr
    exact ht
  | cons a acts ih =>
    obtain ⟨p', hs, hr⟩ := Option.bind_eq_some_iff.mp hr
    exact ih hr (tracked_step hs ht)

/-- A run keeps `Fair` exactly when all its steps are benign. -/
theorem fair_run_iff (hr : run (peerStep rt) acts p = some q) (hf : Fair rt p) :
    Fair rt q ↔ checkedRun (peerStep rt) (benign rt) acts p = some q := by
  induction acts generalizing p with
  | nil =>
    cases hr
    exact iff_of_true hf rfl
  | cons a acts ih =>
    obtain ⟨p', hs, hr⟩ := Option.bind_eq_some_iff.mp hr
    rw [checkedRun]
    cases hb : benign rt p a with
    | false => simpa using ((spoilt_step hs hb).run hr).not_fair
    | true =>
      rw [ih hr (fair_step hs hb hf)]
      simp [hs]

theorem etx_notMem_unframeFrom {segment : Bytes} (hs : etx ∉ segment) (buffer : Bytes) :
    etx ∉ (unframeFrom segment buffer).2 := by
  induction buffer generalizing segment with
  | nil => exact hs
  | cons b buffer ih =>
    rw [unframeFrom]
    by_cases hb : b = etx
    · simpa [hb] using ih (by simp)
    · simpa [hb] using ih (by simp [hs, Ne.symm hb])

theorem unframeFrom_append_of_notMem {tail : Bytes} (ht : etx ∉ tail) (segment buffer : Bytes) :
    unframeFrom segment (tail ++ buffer) = unframeFrom (segment ++ tail) buffer := by
  induction tail generalizing segment with
  | nil => simp
  | cons b tail ih =>
    obtain ⟨hb, ht⟩ : ¬etx = b ∧ etx ∉ tail := by simpa using ht
    rw [List.cons_append, unframeFrom, if_neg (Ne.symm hb), ih ht]
    simp

/-- Unpacking two chunks one after the other is unpacking both at once. -/
theorem unframeFrom_append (segment first second : Bytes) :
    unframeFrom segment (first ++ second) =
      ((unframeFrom segment first).1 ++ (unframeFrom (unframeFrom segment first).2 second).1,
        (unframeFrom (unframeFrom segment first).2 second).2) := by
  induction first generalizing segment with
  | nil => simp [unframeFrom]
  | cons b first ih =>
    rw [List.cons_append, unframeFrom, unframeFrom]
    by_cases hb : b = etx
    · simp only [if_pos hb, ih []]
      split_ifs <;> rfl
    · simp only [if_neg hb]
      exact ih _

theorem Handled.stream {b : Bool} (h : Handled rt p b q) :
    q.received = p.received ∧ q.handled = p.handled ∧ q.queue = p.queue ∧ q.buffer = p.buffer := by
  cases h <;> exact ⟨rfl, rfl, rfl, rfl⟩

theorem stream_step (hs : peerStep rt p a = some q)
    (hp : unframe p.received = (p.handled ++ p.queue, p.buffer)) :
    unframe q.received = (q.handled ++ q.queue, q.buffer) := by
  cases a with
  | receive chunk =>
    simp only [peerStep] at hs
    split_ifs at hs with hc
    cases hs
    have hb : p.buffer = (unframeFrom [] p.received).2 := by rw [← unframe, hp]
    have hetx : etx ∉ p.buffer := hb ▸ etx_notMem_unframeFrom (by simp) _
    have hnext := unframeFrom_append_of_notMem hetx [] chunk
    simp only [unframe] at hp ⊢
    rw [unframeFrom_append, hp, hnext, List.nil_append]
    simp [hc.2.1]
  | handle o =>
    rcases step_cases hs with ⟨o, raw, queue, -, -, hq, rfl⟩ | ⟨h, -⟩
    · obtain ⟨hr, hh, hqu, hb⟩ :=
        (handleRaw_handled rt o raw { p with queue, handled := p.handled ++ [raw] }).stream
      rw [hr, hh, hqu, hb, hp, hq]
      simp
    · exact absurd rfl (h o)
  | register | hangUp =>
    simp only [peerStep] at hs
    split_ifs at hs
    cases hs
    exact hp
  | allocate | withdraw | close =>
    cases hs
    exact hp

theorem handled_of_stream (hr : run (peerStep rt) acts {} = some p) :
    unframe p.received = (p.handled ++ p.queue, p.buffer) := by
  have hrun : ∀ (acts : List PeerAction) (q : Peer),
      unframe q.received = (q.handled ++ q.queue, q.buffer) → run (peerStep rt) acts q = some p →
      unframe p.received = (p.handled ++ p.queue, p.buffer) := by
    intro acts
    induction acts with
    | nil =>
      intro q hq h
      cases h
      exact hq
    | cons a acts ih =>
      intro q hq h
      obtain ⟨q', hs, h⟩ := Option.bind_eq_some_iff.mp h
      exact ih q' (stream_step hs hq) h
  exact hrun acts {} rfl hr

end Facts

/-- In every run the reader survives its messages, no call is resolved twice and each
answer goes to the call whose id it bears, exactly when every frame was benign where it
was handled. -/
theorem reader_faithful_iff {rt : Builtins} {acts : List PeerAction} {p : Peer}
    (hr : run (peerStep rt) acts {} = some p) :
    Faithful rt p ↔ checkedRun (peerStep rt) (benign rt) acts {} = some p := by
  have ht : Tracked p := tracked_run hr ⟨by simp, by simp, by simp⟩
  rw [← fair_run_iff hr ⟨by simp, by simp, by simp⟩]
  exact ⟨fun h => ⟨h.alive, h.own, h.kept⟩, fun h => ⟨h.alive, ht.once, h.own, h.kept⟩⟩

/-- Two calls wait, and the peer answers the first with this frame. -/
def twoCalls (raw : Bytes) : List PeerAction :=
  [.allocate, .register 1, .allocate, .register 2, .receive (raw ++ [etx]), .handle .returns]

/-- The built-ins on a stream whose one frame decodes to this object. -/
def decodingTo (raw : Bytes) (msg : Fields) : Builtins where
  loads b := if b = raw then .ok (.dict msg) else .error .valueError
  str
    | .str s => some s
    | _ => none
  intOfText _ := none

def resultFrame : Bytes :=
  [123, 34, 105, 100, 34, 58, 32, 49, 44, 32, 34, 114, 101, 115, 117, 108, 116, 34, 58, 32, 116,
    114, 117, 101, 125]

def resultFields : Fields :=
  [(.str "id".toList, .int 1), (.str "result".toList, .bool true)]

theorem reader_faithful_iff_result :
    ∃ p, run (peerStep (decodingTo resultFrame resultFields)) (twoCalls resultFrame) {} = some p ∧
      Faithful (decodingTo resultFrame resultFields) p :=
  ⟨_, rfl, (@reader_faithful_iff _ (twoCalls resultFrame) _ rfl).mpr rfl⟩

def nullCodeFrame : Bytes :=
  [123, 34, 105, 100, 34, 58, 32, 49, 44, 32, 34, 101, 114, 114, 111, 114, 34, 58, 32, 123, 34,
    99, 111, 100, 101, 34, 58, 32, 110, 117, 108, 108, 125, 125]

def nullCodeFields : Fields :=
  [(.str "id".toList, .int 1), (.str "error".toList, .dict [(.str "code".toList, .none)])]

/-- An error code of null ends the reader: call 1 is off the table and never resolved,
and call 2 fails with the connection. -/
theorem null_code_ends_reader :
    ∃ p, run (peerStep (decodingTo nullCodeFrame nullCodeFields)) (twoCalls nullCodeFrame) {} =
        some p ∧
      p.reader = .raised ∧ p.popped = [(1, nullCodeFields)] ∧ p.answered = [] ∧ p.lost = [2] ∧
      ¬Faithful (decodingTo nullCodeFrame nullCodeFields) p :=
  ⟨_, rfl, rfl, rfl, rfl, rfl, fun h => h.alive rfl⟩

end McuUpdater.Agent
