import Mathlib.Algebra.Group.Nat.Defs
import Mathlib.Data.List.Nodup
import Mathlib.Data.List.Range
import McuUpdater.Lib.Transition

/-! `api/moonraker.ts`: the panel's client of Moonraker. A step is one turn of the browser's event
loop; the handlers of notifications and of state changes do not call the client back. -/
namespace McuUpdater.Ui.Moonraker
open Transition
variable {V E P : Type}

inductive ConnectionState
  | connecting
  | open_
  | closed
  deriving DecidableEq

/-- `readyState`; a socket is `closed` once its `close` event was delivered. -/
inductive Ready
  | connecting
  | open_
  | closing
  | closed
  deriving DecidableEq

/-- `RpcError`: one of the client's own, or what a reply carries. -/
inductive RpcError (E : Type)
  | notConnected
  | timeout (method : String)
  | reported (e : E)
  deriving DecidableEq

inductive Outcome (V E : Type)
  | resolved (result : Option V)
  | rejected (error : RpcError E)
  deriving DecidableEq

/-- What `JSON.parse` makes of a message; an `id` that is no number of a call is none. -/
inductive Incoming (V E P : Type)
  | unparsable
  | object (id : Option Nat) (result : Option V) (error : Option E) (method : Option String)
      (params : Option P)

structure Timer where
  handle : Nat
  delay : Nat
  deriving DecidableEq

structure Client (V E P : Type) where
  /-- every socket that was made, by its number -/
  sockets : List Ready := []
  ws : Option Nat := none
  nextId : Nat := 1
  /-- the calls in flight, with their methods -/
  pending : List (Nat × String) := []
  /-- the timers of calls that are armed -/
  timers : List Nat := []
  reconnectAttempt : Nat := 0
  /-- the timers of reconnects that are armed -/
  reconnects : List Timer := []
  /-- the handle that is kept -/
  reconnectTimer : Option Nat := none
  timersMade : Nat := 0
  closedByUser : Bool := true
  state : ConnectionState := .closed
  /-- what was sent: the socket, the id and the method -/
  sent : List (Nat × Nat × String) := []
  received : List (Nat × Incoming V E P) := []
  settled : List (Nat × Outcome V E) := []
  notified : List (String × Option P) := []

namespace Client

/-- Whether its `close` event is still to come. -/
def live (c : Client V E P) (socket : Nat) : Bool :=
  (c.sockets[socket]?).any (· ≠ .closed)

def setReady (c : Client V E P) (socket : Nat) (ready : Ready) : Client V E P :=
  { c with sockets := c.sockets.set socket ready }

/-- `reject` or `resolve` of a call in flight, its timer cleared. -/
def settle (c : Client V E P) (id : Nat) (outcome : Outcome V E) : Client V E P :=
  { c with
    pending := c.pending.filter (·.1 ≠ id)
    timers := c.timers.filter (· ≠ id)
    settled := c.settled ++ [(id, outcome)] }

/-- `rejectAllPending` -/
def rejectAllPending (c : Client V E P) (error : RpcError E) : Client V E P :=
  { c with
    pending := []
    timers := c.timers.filter (· ∉ c.pending.map Prod.fst)
    settled := c.settled ++ c.pending.map fun call => (call.1, .rejected error) }

/-- `scheduleReconnect` -/
def scheduleReconnect (c : Client V E P) : Client V E P :=
  { c with
    reconnects := c.reconnects ++ [⟨c.timersMade, min (1000 * 2 ^ c.reconnectAttempt) 15000⟩]
    reconnectTimer := some c.timersMade
    timersMade := c.timersMade + 1
    reconnectAttempt := c.reconnectAttempt + 1 }

/-- `open`, where the factory makes a socket or throws. -/
def openSocket (c : Client V E P) (made : Bool) : Client V E P :=
  if made then
    { c with sockets := c.sockets ++ [.connecting], ws := some c.sockets.length, state := .connecting }
  else
    let c := { c with state := .closed }
    if c.closedByUser then c else c.scheduleReconnect

def connect (c : Client V E P) (made : Bool) : Client V E P :=
  openSocket { c with closedByUser := false } made

/-- `this.ws?.close()`, whose event comes later. -/
def closeSocket (c : Client V E P) : Client V E P :=
  match c.ws with
  | none => c
  | some socket =>
    if c.sockets[socket]? = some .connecting ∨ c.sockets[socket]? = some .open_ then
      c.setReady socket .closing
    else c

def close (c : Client V E P) : Client V E P :=
  let c := { c with closedByUser := true }
  let c := match c.reconnectTimer with
    | none => c
    | some handle =>
      { c with reconnects := c.reconnects.filter (·.handle ≠ handle), reconnectTimer := none }
  rejectAllPending { c.closeSocket with ws := none, state := .closed } .notConnected

/-- `call`; a promise that is rejected at once takes no number. Its `params` are JSON, so that
`JSON.stringify` throws on none of them. -/
def call (c : Client V E P) (method : String) : Client V E P :=
  match c.ws with
  | none => c
  | some socket =>
    if c.sockets[socket]? = some .open_ then
      { c with
        nextId := c.nextId + 1
        pending := c.pending ++ [(c.nextId, method)]
        timers := c.timers ++ [c.nextId]
        sent := c.sent ++ [(socket, c.nextId, method)] }
    else c

/-- The listener of a socket's `close` event. -/
def closeEvent (c : Client V E P) (socket : Nat) : Client V E P :=
  let down := ({ c.setReady socket .closed with state := .closed }).rejectAllPending .notConnected
  if c.closedByUser then down else down.scheduleReconnect

def reply (result : Option V) : Option E → Outcome V E
  | some e => .rejected (.reported e)
  | none => .resolved result

/-- `handleMessage` -/
def handleMessage (c : Client V E P) : Incoming V E P → Client V E P
  | .unparsable => c
  | .object id result error method params =>
    match id.filter (· ∈ c.pending.map Prod.fst) with
    | some id => c.settle id (reply result error)
    | none =>
      match method with
      | some method => { c with notified := c.notified ++ [(method, params)] }
      | none => c

end Client

inductive Action (V E P : Type)
  | connect (made : Bool)
  | close
  | call (method : String)
  /-- the `open` event of a socket -/
  | opened (socket : Nat)
  /-- a socket goes down, its event to come -/
  | dropped (socket : Nat)
  /-- the `close` event of a socket -/
  | closed (socket : Nat)
  | message (socket : Nat) (msg : Incoming V E P)
  | callTimer (id : Nat)
  | reconnectTimer (handle : Nat) (made : Bool)

def step (c : Client V E P) : Action V E P → Option (Client V E P)
  | .connect made => some (c.connect made)
  | .close => some c.close
  | .call method => some (c.call method)
  | .opened socket =>
    if c.sockets[socket]? = some .connecting then
      some { c.setReady socket .open_ with reconnectAttempt := 0, state := .open_ }
    else none
  | .dropped socket =>
    if c.sockets[socket]? = some .connecting ∨ c.sockets[socket]? = some .open_ then
      some (c.setReady socket .closing)
    else none
  | .closed socket =>
    if c.live socket then some (c.closeEvent socket) else none
  | .message socket msg =>
    if c.sockets[socket]? = some .open_ ∨ c.sockets[socket]? = some .closing then
      some { c.handleMessage msg with received := c.received ++ [(socket, msg)] }
    else none
  | .callTimer id =>
    if id ∈ c.timers then
      match c.pending.find? (·.1 = id) with
      | some call => some (c.settle id (.rejected (.timeout call.2)))
      -- `reject` once more, which a settled promise ignores
      | none => some { c with timers := c.timers.filter (· ≠ id) }
    else none
  | .reconnectTimer handle made =>
    if c.reconnects.any (·.handle = handle) then
      some (({ c with reconnects := c.reconnects.filter (·.handle ≠ handle) }).openSocket made)
    else none

/-! ## Every run -/

def Incoming.Settles (msg : Incoming V E P) (id : Nat) (outcome : Outcome V E) : Prop :=
  ∃ result error method params, msg = .object (some id) result error method params ∧
    outcome = Client.reply result error

/-- The step that settles a call so: its own reply, its own timer, or a connection that closes. -/
def Action.Settles (c : Client V E P) (id : Nat) (outcome : Outcome V E) : Action V E P → Prop
  | .close | .closed _ => outcome = .rejected .notConnected
  | .message _ msg => msg.Settles id outcome
  | .callTimer k => k = id ∧ ∃ method, (id, method) ∈ c.pending ∧
      outcome = .rejected (.timeout method)
  | _ => False

/-- What an outcome rests on. -/
def Client.Rests (c : Client V E P) (id : Nat) : Outcome V E → Prop
  | .rejected .notConnected => True
  | .rejected (.timeout method) => ∃ socket, (socket, id, method) ∈ c.sent
  | outcome => ∃ socket msg, (socket, msg) ∈ c.received ∧ msg.Settles id outcome

/-- Each call that was sent is in flight, with its timer armed, or was settled once, by its own
reply, its own timer or a connection that closed. -/
structure Sound (c : Client V E P) : Prop where
  armed : c.timers = c.pending.map Prod.fst
  numbered : c.sent.map (·.2.1) = List.range' 1 (c.nextId - 1)
  once : (c.pending.map Prod.fst ++ c.settled.map Prod.fst).Perm (List.range' 1 (c.nextId - 1))
  inFlight : ∀ call ∈ c.pending, ∃ socket, (socket, call.1, call.2) ∈ c.sent
  rests : ∀ id outcome, (id, outcome) ∈ c.settled → c.Rests id outcome
  positive : 0 < c.nextId
  delays : ∀ t ∈ c.reconnects, 1000 ≤ t.delay ∧ t.delay ≤ 15000

section Facts
variable {c d : Client V E P} {id socket : Nat} {outcome : Outcome V E} {error : RpcError E}

/-- `d` has the calls of `c`. -/
structure SameCalls (c d : Client V E P) : Prop where
  nextId : d.nextId = c.nextId
  pending : d.pending = c.pending
  timers : d.timers = c.timers
  sent : d.sent = c.sent
  received : d.received = c.received
  settled : d.settled = c.settled

theorem Rests.mono (h : c.Rests id outcome) (hsent : ∀ x ∈ c.sent, x ∈ d.sent)
    (hreceived : ∀ x ∈ c.received, x ∈ d.received) : d.Rests id outcome := by
  cases outcome with
  | resolved result =>
    obtain ⟨socket, msg, hin, hmsg⟩ := h
    exact ⟨socket, msg, hreceived _ hin, hmsg⟩
  | rejected error =>
    cases error with
    | notConnected => trivial
    | timeout method =>
      obtain ⟨socket, h⟩ := h
      exact ⟨socket, hsent _ h⟩
    | reported e =>
      obtain ⟨socket, msg, hin, hmsg⟩ := h
      exact ⟨socket, msg, hreceived _ hin, hmsg⟩

theorem Sound.congr (h : Sound c) (hsame : SameCalls c d)
    (hdelays : ∀ t ∈ d.reconnects, 1000 ≤ t.delay ∧ t.delay ≤ 15000) : Sound d := by
  refine ⟨?_, ?_, ?_, ?_, ?_, ?_, hdelays⟩
  · rw [hsame.timers, hsame.pending, h.armed]
  · rw [hsame.sent, hsame.nextId, h.numbered]
  · rw [hsame.pending, hsame.settled, hsame.nextId]
    exact h.once
  · rw [hsame.pending, hsame.sent]
    exact h.inFlight
  · intro id outcome hin
    rw [hsame.settled] at hin
    exact Rests.mono (h.rests id outcome hin) (by simp [hsame.sent]) (by simp [hsame.received])
  · rw [hsame.nextId]
    exact h.positive

theorem Sound.nodup_pending (h : Sound c) : (c.pending.map Prod.fst).Nodup := by
  have hnodup : (List.range' 1 (c.nextId - 1)).Nodup := List.nodup_range'
  exact (List.nodup_append.mp (h.once.nodup_iff.mpr hnodup)).1

theorem Sound.settle (h : Sound c) (hin : id ∈ c.pending.map Prod.fst)
    (hrests : c.Rests id outcome) : Sound (c.settle id outcome) := by
  have hmoved : ((c.pending.filter (·.1 ≠ id)).map Prod.fst ++ [id]).Perm
      (c.pending.map Prod.fst) := by
    have hfilter : (c.pending.filter (·.1 ≠ id)).map Prod.fst =
        (c.pending.map Prod.fst).erase id := by
      rw [h.nodup_pending.erase_eq_filter, List.filter_map]
      congr 1
      exact List.filter_congr fun call _ => by simp [bne, Bool.beq_eq_decide_eq]
    rw [hfilter]
    exact (List.perm_append_singleton _ _).trans (List.perm_cons_erase hin).symm
  refine ⟨?_, h.numbered, ?_, ?_, ?_, h.positive, h.delays⟩
  · change c.timers.filter (· ≠ id) = (c.pending.filter (·.1 ≠ id)).map Prod.fst
    rw [h.armed, List.filter_map]
    rfl
  · change ((c.pending.filter (·.1 ≠ id)).map Prod.fst ++
      (c.settled ++ [(id, outcome)]).map Prod.fst).Perm _
    rw [List.map_append, List.map_singleton]
    refine List.Perm.trans ?_ h.once
    refine List.Perm.trans ?_ (hmoved.append_right _)
    rw [List.append_assoc]
    exact List.Perm.append_left _ List.perm_append_comm
  · intro call hcall
    exact h.inFlight call (List.mem_of_mem_filter hcall)
  · intro k o hko
    rcases List.mem_append.mp hko with hko | hko
    · exact h.rests k o hko
    · obtain ⟨rfl, rfl⟩ := Prod.mk.inj (List.mem_singleton.mp hko)
      exact hrests

theorem Sound.rejectAllPending (h : Sound c) : Sound (c.rejectAllPending .notConnected) := by
  refine ⟨?_, h.numbered, ?_, by simp [Client.rejectAllPending], ?_, h.positive, h.delays⟩
  · change c.timers.filter (· ∉ c.pending.map Prod.fst) = []
    rw [h.armed, List.filter_eq_nil_iff]
    simp
  · change (([] : List (Nat × String)).map Prod.fst ++ (c.settled ++ c.pending.map fun (call : Nat × String) =>
      (call.1, Outcome.rejected .notConnected)).map Prod.fst).Perm _
    rw [List.map_nil, List.nil_append, List.map_append, List.map_map]
    exact List.perm_append_comm.trans h.once
  · intro k o hko
    rcases List.mem_append.mp hko with hko | hko
    · exact h.rests k o hko
    · obtain ⟨call, -, heq⟩ := List.mem_map.mp hko
      obtain ⟨rfl, rfl⟩ := Prod.mk.inj heq
      trivial

theorem sound_call (h : Sound c) (method : String) : Sound (c.call method) := by
  unfold Client.call
  split
  · exact h
  split
  case isFalse => exact h
  case isTrue =>
    rename_i socket _ _
    have hrange : List.range' 1 (c.nextId + 1 - 1) = List.range' 1 (c.nextId - 1) ++ [c.nextId] := by
      have hpos := h.positive
      rw [show c.nextId + 1 - 1 = (c.nextId - 1) + 1 by omega, List.range'_concat]
      congr 2
      omega
    refine ⟨?_, ?_, ?_, ?_, ?_, Nat.succ_pos _, h.delays⟩
    · simp [h.armed]
    · simp only [List.map_append, List.map_singleton, hrange, h.numbered]
    · simp only [List.map_append, List.map_singleton, hrange]
      rw [List.append_assoc]
      refine (List.Perm.append_left _ List.perm_append_comm).trans ?_
      rw [← List.append_assoc]
      exact h.once.append_right _
    · intro call hcall
      rcases List.mem_append.mp hcall with hcall | hcall
      · obtain ⟨socket, hsent⟩ := h.inFlight call hcall
        exact ⟨socket, List.mem_append_left _ hsent⟩
      · obtain rfl := List.mem_singleton.mp hcall
        exact ⟨socket, by simp⟩
    · intro k o hko
      exact Rests.mono (h.rests k o hko) (fun x hx => List.mem_append_left _ hx) fun _ hx => hx

theorem sound_scheduleReconnect (h : Sound c) : Sound c.scheduleReconnect := by
  refine h.congr ⟨rfl, rfl, rfl, rfl, rfl, rfl⟩ fun t ht => ?_
  rcases List.mem_append.mp ht with ht | ht
  · exact h.delays t ht
  · obtain rfl := List.mem_singleton.mp ht
    have hpow : 1 ≤ 2 ^ c.reconnectAttempt := Nat.one_le_two_pow
    dsimp only
    omega

theorem sound_openSocket (h : Sound c) (made : Bool) : Sound (c.openSocket made) := by
  have hclosed : Sound { c with state := .closed } :=
    h.congr ⟨rfl, rfl, rfl, rfl, rfl, rfl⟩ h.delays
  unfold Client.openSocket
  split
  · exact h.congr ⟨rfl, rfl, rfl, rfl, rfl, rfl⟩ h.delays
  · dsimp only
    split
    · exact hclosed
    · exact sound_scheduleReconnect hclosed

theorem sound_close (h : Sound c) : Sound c.close := by
  unfold Client.close
  refine Sound.rejectAllPending (h.congr ?_ fun t ht => ?_) <;> unfold Client.closeSocket at *
  · split <;> dsimp only <;> split <;> (try split) <;> exact ⟨rfl, rfl, rfl, rfl, rfl, rfl⟩
  · refine h.delays t ?_
    revert ht
    split <;> dsimp only <;> split <;> (try split) <;>
      first
      | exact id
      | exact List.mem_of_mem_filter

theorem handleMessage_cases (c : Client V E P) (msg : Incoming V E P) :
    (∃ id result error method params, msg = .object (some id) result error method params ∧
      id ∈ c.pending.map Prod.fst ∧
      c.handleMessage msg = c.settle id (Client.reply result error)) ∨
    ∃ notified, c.handleMessage msg = { c with notified } := by
  cases msg with
  | unparsable => exact Or.inr ⟨c.notified, rfl⟩
  | object id result error method params =>
    unfold Client.handleMessage
    dsimp only
    cases hk : id.filter (· ∈ c.pending.map Prod.fst) with
    | some k =>
      obtain ⟨rfl, hin⟩ := Option.filter_eq_some_iff.mp hk
      exact Or.inl ⟨k, result, error, method, params, rfl, of_decide_eq_true hin, rfl⟩
    | none =>
      cases method with
      | none => exact Or.inr ⟨c.notified, rfl⟩
      | some method => exact Or.inr ⟨_, rfl⟩

theorem sound_message (h : Sound c) (socket : Nat) (msg : Incoming V E P) :
    Sound { c.handleMessage msg with received := c.received ++ [(socket, msg)] } := by
  have hmore : Sound { c with received := c.received ++ [(socket, msg)] } :=
    ⟨h.armed, h.numbered, h.once, h.inFlight, fun k o hko =>
      Rests.mono (h.rests k o hko) (fun _ hx => hx) fun x hx => List.mem_append_left _ hx,
      h.positive, h.delays⟩
  rcases handleMessage_cases c msg with ⟨k, result, error, method, params, rfl, hin, heq⟩ |
    ⟨notified, heq⟩
  · rw [heq]
    refine Sound.settle hmore hin ?_
    cases error with
    | none => exact ⟨socket, _, by simp, result, none, method, params, rfl, rfl⟩
    | some e => exact ⟨socket, _, by simp, result, some e, method, params, rfl, rfl⟩
  · rw [heq]
    exact hmore.congr ⟨rfl, rfl, rfl, rfl, rfl, rfl⟩ hmore.delays

theorem sound_callTimer (h : Sound c) (hid : id ∈ c.timers) : ∃ call ∈ c.pending, call.1 = id ∧
    c.pending.find? (·.1 = id) = some call ∧
    Sound (c.settle id (.rejected (.timeout call.2))) := by
  rw [h.armed] at hid
  obtain ⟨call, hcall, rfl⟩ := List.mem_map.mp hid
  cases hfind : c.pending.find? (·.1 = call.1) with
  | none =>
    have hnone := List.find?_eq_none.mp hfind call hcall
    simp at hnone
  | some found =>
    have hmem := List.mem_of_find?_eq_some hfind
    have hsame : found.1 = call.1 := by simpa using List.find?_some hfind
    obtain ⟨socket, hsent⟩ := h.inFlight found hmem
    exact ⟨found, hmem, hsame, rfl, Sound.settle h hid ⟨socket, hsame ▸ hsent⟩⟩

theorem sound_step {a : Action V E P} (h : Sound c) (hstep : step c a = some d) : Sound d := by
  cases a with
  | connect made =>
    cases hstep
    have hopening : Sound { c with closedByUser := false } :=
      h.congr ⟨rfl, rfl, rfl, rfl, rfl, rfl⟩ h.delays
    exact sound_openSocket hopening made
  | close =>
    cases hstep
    exact sound_close h
  | call method =>
    cases hstep
    exact sound_call h method
  | opened socket =>
    rw [step] at hstep
    split at hstep <;> cases hstep
    exact h.congr ⟨rfl, rfl, rfl, rfl, rfl, rfl⟩ h.delays
  | dropped socket =>
    rw [step] at hstep
    split at hstep <;> cases hstep
    exact h.congr ⟨rfl, rfl, rfl, rfl, rfl, rfl⟩ h.delays
  | closed socket =>
    rw [step] at hstep
    split at hstep
    case isFalse => cases hstep
    case isTrue =>
      have hrejected : Sound (({ c.setReady socket .closed with
          state := .closed }).rejectAllPending .notConnected) :=
        Sound.rejectAllPending (h.congr ⟨rfl, rfl, rfl, rfl, rfl, rfl⟩ h.delays)
      cases hstep
      unfold Client.closeEvent
      dsimp only
      split
      · exact hrejected
      · exact sound_scheduleReconnect hrejected
  | message socket msg =>
    rw [step] at hstep
    split at hstep <;> cases hstep
    exact sound_message h socket msg
  | callTimer id =>
    rw [step] at hstep
    split at hstep
    case isFalse => cases hstep
    case isTrue hid =>
      obtain ⟨call, -, -, hfind, hsound⟩ := sound_callTimer h hid
      rw [hfind] at hstep
      cases hstep
      exact hsound
  | reconnectTimer handle made =>
    rw [step] at hstep
    split at hstep <;> cases hstep
    have hfired : Sound { c with reconnects := c.reconnects.filter (·.handle ≠ handle) } :=
      h.congr ⟨rfl, rfl, rfl, rfl, rfl, rfl⟩ fun t ht => h.delays t (List.mem_of_mem_filter ht)
    exact sound_openSocket hfired made

theorem settled_openSocket (c : Client V E P) (made : Bool) :
    (c.openSocket made).settled = c.settled := by
  unfold Client.openSocket
  split
  · rfl
  · dsimp only
    split <;> rfl

theorem settled_call (c : Client V E P) (method : String) :
    (c.call method).settled = c.settled := by
  unfold Client.call
  split
  · rfl
  · split <;> rfl

theorem settled_close (c : Client V E P) : c.close.settled = c.settled ++
    c.pending.map fun call => (call.1, .rejected .notConnected) := by
  unfold Client.close Client.closeSocket
  dsimp only
  split <;> split <;> (try split) <;> rfl

theorem settled_step {a : Action V E P} (hstep : step c a = some d) :
    ∃ new, d.settled = c.settled ++ new ∧
      ∀ x ∈ new, x.1 ∈ c.pending.map Prod.fst ∧ a.Settles c x.1 x.2 := by
  have hrejected : ∀ x ∈ c.pending.map fun call : Nat × String =>
      (call.1, (.rejected .notConnected : Outcome V E)),
      x.1 ∈ c.pending.map Prod.fst ∧ x.2 = .rejected .notConnected := by
    intro x hx
    obtain ⟨call, hcall, rfl⟩ := List.mem_map.mp hx
    exact ⟨List.mem_map_of_mem hcall, rfl⟩
  have hnone : d.settled = c.settled → ∃ new, d.settled = c.settled ++ new ∧
      ∀ x ∈ new, x.1 ∈ c.pending.map Prod.fst ∧ a.Settles c x.1 x.2 := fun h =>
    ⟨[], by rw [h, List.append_nil], by simp⟩
  cases a with
  | connect made =>
    cases hstep
    exact hnone (settled_openSocket _ made)
  | close =>
    cases hstep
    exact ⟨_, settled_close c, hrejected⟩
  | call method =>
    cases hstep
    exact hnone (settled_call c method)
  | opened socket =>
    rw [step] at hstep
    split at hstep <;> cases hstep
    exact hnone rfl
  | dropped socket =>
    rw [step] at hstep
    split at hstep <;> cases hstep
    exact hnone rfl
  | closed socket =>
    rw [step] at hstep
    split at hstep <;> cases hstep
    refine ⟨_, ?_, hrejected⟩
    unfold Client.closeEvent
    dsimp only
    split <;> rfl
  | message socket msg =>
    rw [step] at hstep
    split at hstep <;> cases hstep
    rcases handleMessage_cases c msg with ⟨k, result, error, method, params, rfl, hin, heq⟩ |
      ⟨notified, heq⟩
    · refine ⟨[(k, Client.reply result error)], by rw [heq]; rfl, fun x hx => ?_⟩
      obtain rfl := List.mem_singleton.mp hx
      exact ⟨hin, result, error, method, params, rfl, rfl⟩
    · exact hnone (by rw [heq])
  | callTimer id =>
    rw [step] at hstep
    split at hstep
    case isFalse => cases hstep
    cases hfind : c.pending.find? (·.1 = id) with
    | none =>
      rw [hfind] at hstep
      cases hstep
      exact hnone rfl
    | some call =>
      rw [hfind] at hstep
      cases hstep
      have hcall := List.mem_of_find?_eq_some hfind
      have hid : call.1 = id := by simpa using List.find?_some hfind
      refine ⟨[(id, .rejected (.timeout call.2))], rfl, fun x hx => ?_⟩
      obtain rfl := List.mem_singleton.mp hx
      exact ⟨hid ▸ List.mem_map_of_mem hcall, rfl, call.2, hid ▸ hcall, rfl⟩
  | reconnectTimer handle made =>
    rw [step] at hstep
    split at hstep <;> cases hstep
    exact hnone (settled_openSocket _ made)

theorem sound_new : Sound ({} : Client V E P) :=
  ⟨rfl, rfl, List.Perm.refl _, by simp, by simp, Nat.one_pos, by simp⟩

theorem settled_by_timer (h : Sound c) {call : Nat × String} (hcall : call ∈ c.pending) :
    ∃ d, step c (.callTimer call.1) = some d ∧
      (call.1, Outcome.rejected (.timeout call.2)) ∈ d.settled := by
  have hid : call.1 ∈ c.timers := by
    rw [h.armed]
    exact List.mem_map_of_mem hcall
  obtain ⟨found, hmem, hsame, hfind, -⟩ := sound_callTimer h hid
  have heq : found = call := List.inj_on_of_nodup_map h.nodup_pending hmem hcall hsame
  refine ⟨c.settle call.1 (.rejected (.timeout call.2)), ?_, by simp [Client.settle]⟩
  rw [step, if_pos hid, hfind, heq]

end Facts

/-- In every run each call is settled once at most, by its own reply or timer or by a connection
that closed, and one still in flight has its timer armed. -/
theorem calls_settled_once {c : Client V E P} (h : Reach step anyStep ({} = ·) c) :
    Sound c ∧
      (∀ a d, step c a = some d → ∃ new, d.settled = c.settled ++ new ∧
        ∀ x ∈ new, x.1 ∈ c.pending.map Prod.fst ∧ a.Settles c x.1 x.2) ∧
      ∀ call ∈ c.pending, ∃ d, step c (.callTimer call.1) = some d ∧
        (call.1, Outcome.rejected (.timeout call.2)) ∈ d.settled := by
  have hsound : Sound c := h.invariant (fun _ hc => hc ▸ sound_new) fun _ _ _ hc _ hstep =>
    sound_step hc hstep
  exact ⟨hsound, fun a d hstep => settled_step hstep, fun call hcall =>
    settled_by_timer hsound hcall⟩

/-- Two calls; the second one's reply comes first, and the first one's never. -/
def crossedReplies : List (Action Nat Nat Nat) :=
  [.connect true, .opened 0, .call "fw.ping", .call "fw.status",
    .message 0 (.object (some 2) (some 7) none none none), .callTimer 1,
    .message 0 (.object (some 1) (some 8) none none none)]

theorem calls_settled_once_crossed : ∃ c, run step crossedReplies {} = some c ∧ Sound c ∧
    c.settled = [(2, .resolved (some 7)), (1, .rejected (.timeout "fw.ping"))] := by
  have hrun : ∃ c, run step crossedReplies {} = some c ∧
      c.settled = [(2, .resolved (some 7)), (1, .rejected (.timeout "fw.ping"))] :=
    ⟨_, rfl, by decide⟩
  obtain ⟨c, hrun, hsettled⟩ := hrun
  have hreach : Reach step anyStep ({} = ·) c := (Reach.start rfl).extend (fun _ _ _ => trivial) hrun
  exact ⟨c, hrun, (calls_settled_once hreach).1, hsettled⟩

/-! ## Runs that connect when nothing is left of an earlier connection -/

/-- Every `close` event was delivered, and no reconnect is to come. -/
def Idle (c : Client V E P) : Prop := (∀ socket, c.live socket = false) ∧ c.reconnects = []

def connectsIdle (c : Client V E P) : Action V E P → Prop
  | .connect _ => Idle c
  | _ => True

/-- What a client is up to. -/
inductive Phase (c : Client V E P) : Prop
  | off (user : c.closedByUser = true) (unarmed : c.reconnects = []) (ws : c.ws = none)
      (state : c.state = .closed)
      (leaving : ∀ (socket : Nat) ready, c.sockets[socket]? = some ready →
        ready = .closing ∨ ready = .closed)
  | up (socket : Nat) (user : c.closedByUser = false) (unarmed : c.reconnects = [])
      (ws : c.ws = some socket) (live : c.live socket = true)
      (only : ∀ other, c.live other = true → other = socket)
      (state : (c.state = .connecting ∧ c.sockets[socket]? ≠ some .open_) ∨
        (c.state = .open_ ∧ c.sockets[socket]? ≠ some .connecting))
  | waiting (timer : Timer) (user : c.closedByUser = false) (armed : c.reconnects = [timer])
      (kept : c.reconnectTimer = some timer.handle) (state : c.state = .closed)
      (down : ∀ socket, c.live socket = false)

/-- A call's own client gave it up, or a reply came over the socket that it was sent on. -/
def Client.Own (c : Client V E P) (id : Nat) (outcome : Outcome V E) : Prop :=
  outcome = .rejected .notConnected ∨ (∃ method, outcome = .rejected (.timeout method)) ∨
    ∃ socket method msg, (socket, id, method) ∈ c.sent ∧ (socket, msg) ∈ c.received ∧
      msg.Settles id outcome

/-- The client has one connection, waits for one, or has none; calls are in flight on it alone. -/
structure OneConnection (c : Client V E P) : Prop where
  phase : Phase c
  inFlight : ∀ call ∈ c.pending, ∃ socket, c.ws = some socket ∧ c.live socket = true ∧
    (socket, call.1, call.2) ∈ c.sent
  own : ∀ id outcome, (id, outcome) ∈ c.settled → c.Own id outcome

section Phases
variable {c d : Client V E P} {socket other : Nat} {ready : Ready}

theorem live_iff : c.live socket = true ↔ ∃ ready, c.sockets[socket]? = some ready ∧
    ready ≠ .closed := by
  simp [Client.live, Option.any_eq_true]

theorem sockets_setReady (h : c.sockets[socket]?.isSome) :
    (c.setReady socket ready).sockets[other]? =
      if other = socket then some ready else c.sockets[other]? := by
  have hlt : socket < c.sockets.length := by simpa using h
  rw [Client.setReady, List.getElem?_set]
  by_cases he : socket = other
  · simp [he, he ▸ hlt]
  · rw [if_neg he, if_neg (Ne.symm he)]

theorem live_setReady (h : c.sockets[socket]?.isSome) :
    (c.setReady socket ready).live other = true ↔
      if other = socket then ready ≠ .closed else c.live other = true := by
  rw [live_iff, sockets_setReady h]
  split
  · simp
  · rw [live_iff]

/-- `d` has the connection of `c`. -/
structure SameLink (c d : Client V E P) : Prop where
  sockets : d.sockets = c.sockets
  ws : d.ws = c.ws
  reconnects : d.reconnects = c.reconnects
  reconnectTimer : d.reconnectTimer = c.reconnectTimer
  closedByUser : d.closedByUser = c.closedByUser
  state : d.state = c.state

theorem SameLink.live (h : SameLink c d) : d.live socket = c.live socket := by
  rw [Client.live, Client.live, h.sockets]

theorem Phase.congr (h : Phase c) (hsame : SameLink c d) : Phase d := by
  cases h with
  | off user unarmed ws state leaving =>
    refine .off ?_ ?_ ?_ ?_ ?_
    · rw [hsame.closedByUser, user]
    · rw [hsame.reconnects, unarmed]
    · rw [hsame.ws, ws]
    · rw [hsame.state, state]
    · rw [hsame.sockets]
      exact leaving
  | up socket user unarmed ws live only state =>
    refine .up socket ?_ ?_ ?_ ?_ ?_ ?_
    · rw [hsame.closedByUser, user]
    · rw [hsame.reconnects, unarmed]
    · rw [hsame.ws, ws]
    · rw [hsame.live, live]
    · intro other hlive
      exact only other (hsame.live ▸ hlive)
    · rw [hsame.state, hsame.sockets]
      exact state
  | waiting timer user armed kept state down =>
    refine .waiting timer ?_ ?_ ?_ ?_ ?_
    · rw [hsame.closedByUser, user]
    · rw [hsame.reconnects, armed]
    · rw [hsame.reconnectTimer, kept]
    · rw [hsame.state, state]
    · intro socket
      rw [hsame.live, down]

theorem phase_openSocket (huser : c.closedByUser = false) (hidle : Idle c) (made : Bool) :
    Phase (c.openSocket made) := by
  obtain ⟨hdown, hunarmed⟩ := hidle
  cases made with
  | false =>
    have heq : c.openSocket false = ({ c with state := .closed }).scheduleReconnect := by
      simp [Client.openSocket, huser]
    rw [heq]
    refine .waiting ⟨c.timersMade, min (1000 * 2 ^ c.reconnectAttempt) 15000⟩ huser ?_ rfl rfl hdown
    change c.reconnects ++ _ = _
    rw [hunarmed]
    rfl
  | true =>
    have hlast : (c.sockets ++ [Ready.connecting])[c.sockets.length]? = some .connecting := by simp
    refine .up c.sockets.length huser hunarmed rfl ?_ ?_ ?_
    · exact live_iff.mpr ⟨_, hlast, by decide⟩
    · intro other hlive
      obtain ⟨ready, hother, hready⟩ := live_iff.mp hlive
      by_contra hne
      have hbefore : (c.sockets ++ [Ready.connecting])[other]? = some ready := hother
      have hlt : other < c.sockets.length := by
        have := (List.getElem?_eq_some_iff.mp hbefore).1
        rw [List.length_append, List.length_singleton] at this
        omega
      rw [List.getElem?_append_left hlt] at hbefore
      exact absurd (live_iff.mpr ⟨ready, hbefore, hready⟩) (by simp [hdown other])
    · refine Or.inl ⟨rfl, ?_⟩
      change (c.sockets ++ [Ready.connecting])[c.sockets.length]? ≠ _
      rw [hlast]
      decide

theorem close_fields (c : Client V E P) : c.close.closedByUser = true ∧
    c.close.sockets = c.closeSocket.sockets ∧
    c.close.reconnects = match c.reconnectTimer with
      | none => c.reconnects
      | some handle => c.reconnects.filter (·.handle ≠ handle) := by
  unfold Client.close Client.closeSocket Client.rejectAllPending
  cases c.reconnectTimer <;> cases c.ws <;> dsimp only <;> (try split) <;>
    exact ⟨rfl, rfl, rfl⟩

theorem close_calls (c : Client V E P) : c.close.pending = [] ∧ c.close.sent = c.sent ∧
    c.close.received = c.received ∧ c.close.settled = c.settled ++ c.pending.map fun call =>
      (call.1, .rejected .notConnected) := by
  unfold Client.close Client.closeSocket Client.rejectAllPending
  cases c.reconnectTimer <;> cases c.ws <;> dsimp only <;> (try split) <;>
    exact ⟨rfl, rfl, rfl, rfl⟩

theorem closed_of_not_live (h : c.live socket = false) (hready : c.sockets[socket]? = some ready) :
    ready = .closed := by
  by_contra hne
  exact absurd (live_iff.mpr ⟨ready, hready, hne⟩) (by simp [h])

theorem leaving_closeSocket (h : Phase c) (hready : c.closeSocket.sockets[other]? = some ready) :
    ready = .closing ∨ ready = .closed := by
  cases h with
  | off user unarmed ws state leaving =>
    rw [Client.closeSocket, ws] at hready
    exact leaving other ready hready
  | waiting timer user armed kept state down =>
    unfold Client.closeSocket at hready
    split at hready
    · exact Or.inr (closed_of_not_live (down other) hready)
    · rename_i socket _
      rw [if_neg] at hready
      · exact Or.inr (closed_of_not_live (down other) hready)
      · rintro (hs | hs) <;> exact absurd (closed_of_not_live (down socket) hs) (by decide)
  | up socket user unarmed ws live only state =>
    rw [Client.closeSocket, ws] at hready
    have hothers : ∀ r, other ≠ socket → c.sockets[other]? = some r → r = .closed := by
      intro r hne hr
      refine closed_of_not_live ?_ hr
      rw [← Bool.not_eq_true]
      exact fun hlive => hne (only other hlive)
    obtain ⟨r, hr, hne⟩ := live_iff.mp live
    dsimp only at hready
    split at hready
    · rw [sockets_setReady (by simp [hr])] at hready
      split at hready
      · exact Or.inl (Option.some.inj hready).symm
      · exact Or.inr (hothers ready ‹_› hready)
    · rename_i hgoing
      by_cases he : other = socket
      · rw [he, hr] at hready
        obtain rfl := Option.some.inj hready
        cases r with
        | connecting => exact absurd (Or.inl hr) hgoing
        | open_ => exact absurd (Or.inr hr) hgoing
        | closing => exact Or.inl rfl
        | closed => exact absurd rfl hne
      · exact Or.inr (hothers ready he hready)

theorem phase_close (h : Phase c) : Phase c.close := by
  obtain ⟨huser, hsockets, hreconnects⟩ := close_fields c
  refine .off huser ?_ rfl rfl fun socket ready hready => ?_
  · rw [hreconnects]
    cases h with
    | off user unarmed =>
      rw [unarmed]
      split <;> rfl
    | up socket user unarmed =>
      rw [unarmed]
      split <;> rfl
    | waiting timer user armed kept => simp [armed, kept]
  · rw [hsockets] at hready
    exact leaving_closeSocket h hready

theorem phase_opened (h : Phase c) (hready : c.sockets[socket]? = some .connecting) :
    Phase { c.setReady socket .open_ with reconnectAttempt := 0, state := .open_ } := by
  have hlive : c.live socket = true := live_iff.mpr ⟨_, hready, by decide⟩
  have hsome : c.sockets[socket]?.isSome := by simp [hready]
  cases h with
  | off user unarmed ws state leaving =>
    rcases leaving socket _ hready with he | he <;> cases he
  | waiting timer user armed kept state down => simp [down socket] at hlive
  | up current user unarmed ws live only state =>
    obtain rfl := only socket hlive
    refine .up socket user unarmed ws ?_ (fun other hother => ?_) (Or.inr ⟨rfl, ?_⟩)
    · exact (live_setReady hsome).mpr (by simp)
    · by_contra hne
      have hlive' : (c.setReady socket .open_).live other = true := hother
      rw [live_setReady hsome, if_neg hne] at hlive'
      exact hne (only other hlive')
    · change (c.setReady socket .open_).sockets[socket]? ≠ _
      rw [sockets_setReady hsome, if_pos rfl]
      decide

theorem phase_dropped (h : Phase c) (hready : c.sockets[socket]? = some .connecting ∨
    c.sockets[socket]? = some .open_) : Phase (c.setReady socket .closing) := by
  have hlive : c.live socket = true := by
    rcases hready with hready | hready <;> exact live_iff.mpr ⟨_, hready, by decide⟩
  have hsome : c.sockets[socket]?.isSome := by rcases hready with hready | hready <;> simp [hready]
  cases h with
  | off user unarmed ws state leaving =>
    rcases hready with hready | hready <;> rcases leaving socket _ hready with he | he <;> cases he
  | waiting timer user armed kept state down => simp [down socket] at hlive
  | up current user unarmed ws live only state =>
    obtain rfl := only socket hlive
    have hself : (c.setReady socket .closing).sockets[socket]? = some .closing := by
      rw [sockets_setReady hsome, if_pos rfl]
    refine .up socket user unarmed ws ?_ (fun other hother => ?_) ?_
    · exact (live_setReady hsome).mpr (by simp)
    · by_contra hne
      have hlive' : (c.setReady socket .closing).live other = true := hother
      rw [live_setReady hsome, if_neg hne] at hlive'
      exact hne (only other hlive')
    · refine state.imp (fun h => ⟨h.1, ?_⟩) fun h => ⟨h.1, ?_⟩ <;> rw [hself] <;> decide

/-- After the `close` event of a socket that was not let go of, the client waits for another. -/
theorem phase_closed (h : Phase c) (hlive : c.live socket = true) :
    Phase (c.closeEvent socket) := by
  have hsome : c.sockets[socket]?.isSome := by
    obtain ⟨ready, hready, -⟩ := live_iff.mp hlive
    simp [hready]
  cases h with
  | off user unarmed ws state leaving =>
    rw [Client.closeEvent]
    dsimp only
    rw [if_pos user]
    refine .off user unarmed ws rfl fun other ready hready => ?_
    change (c.setReady socket .closed).sockets[other]? = some ready at hready
    rw [sockets_setReady hsome] at hready
    split at hready
    · exact Or.inr (Option.some.inj hready).symm
    · exact leaving other ready hready
  | waiting timer user armed kept state down => simp [down socket] at hlive
  | up current user unarmed ws live only state =>
    obtain rfl := only socket hlive
    rw [Client.closeEvent]
    dsimp only
    rw [if_neg (by simp [user])]
    refine .waiting ⟨c.timersMade, min (1000 * 2 ^ c.reconnectAttempt) 15000⟩ user ?_ rfl rfl
      fun other => ?_
    · change c.reconnects ++ _ = _
      rw [unarmed]
      rfl
    · change (c.setReady socket .closed).live other = false
      rw [← Bool.not_eq_true, live_setReady hsome]
      split
      · simp
      · exact fun hother => absurd (only other hother) ‹_›

/-! ## What is in flight, phase by phase -/

variable {id : Nat} {outcome : Outcome V E} {a : Action V E P}

theorem Own.mono (h : c.Own id outcome) (hsent : ∀ x ∈ c.sent, x ∈ d.sent)
    (hreceived : ∀ x ∈ c.received, x ∈ d.received) : d.Own id outcome := by
  rcases h with h | h | ⟨socket, method, msg, hs, hr, hmsg⟩
  · exact Or.inl h
  · exact Or.inr (Or.inl h)
  · exact Or.inr (Or.inr ⟨socket, method, msg, hsent _ hs, hreceived _ hr, hmsg⟩)

theorem OneConnection.of_sameCalls (h : OneConnection c) (hsame : SameCalls c d)
    (hphase : Phase d) (hinFlight : ∀ socket, c.ws = some socket → c.live socket = true →
      d.ws = some socket ∧ d.live socket = true) : OneConnection d := by
  refine ⟨hphase, fun call hcall => ?_, fun id outcome hin => ?_⟩
  · rw [hsame.pending] at hcall
    obtain ⟨socket, hws, hlive, hsent⟩ := h.inFlight call hcall
    exact ⟨socket, (hinFlight socket hws hlive).1, (hinFlight socket hws hlive).2,
      hsame.sent ▸ hsent⟩
  · rw [hsame.settled] at hin
    exact Own.mono (h.own id outcome hin) (by simp [hsame.sent]) (by simp [hsame.received])

theorem sameCalls_openSocket (c : Client V E P) (made : Bool) : SameCalls c (c.openSocket made) := by
  unfold Client.openSocket
  split
  · exact ⟨rfl, rfl, rfl, rfl, rfl, rfl⟩
  · dsimp only
    split <;> exact ⟨rfl, rfl, rfl, rfl, rfl, rfl⟩

theorem OneConnection.of_rejected (h : OneConnection c) (hphase : Phase d)
    (hpending : d.pending = []) (hsent : d.sent = c.sent) (hreceived : d.received = c.received)
    (hsettled : d.settled = c.settled ++ c.pending.map fun call =>
      (call.1, .rejected .notConnected)) : OneConnection d := by
  refine ⟨hphase, by simp [hpending], fun id outcome hin => ?_⟩
  rw [hsettled] at hin
  rcases List.mem_append.mp hin with hin | hin
  · exact Own.mono (h.own id outcome hin) (by simp [hsent]) (by simp [hreceived])
  · obtain ⟨call, -, he⟩ := List.mem_map.mp hin
    exact Or.inl (Prod.mk.inj he).2.symm

theorem OneConnection.settle (h : OneConnection c) (howns : c.Own id outcome) :
    OneConnection (c.settle id outcome) := by
  refine ⟨h.phase.congr ⟨rfl, rfl, rfl, rfl, rfl, rfl⟩, fun call hcall =>
    h.inFlight call (List.mem_of_mem_filter hcall), fun k o hko => ?_⟩
  rcases List.mem_append.mp hko with hko | hko
  · exact h.own k o hko
  · obtain ⟨rfl, rfl⟩ := Prod.mk.inj (List.mem_singleton.mp hko)
    exact howns

theorem oneConnection_call (h : OneConnection c) (method : String) :
    OneConnection (c.call method) := by
  unfold Client.call
  split
  · exact h
  split
  case isFalse => exact h
  case isTrue =>
    rename_i socket hws hopen
    refine ⟨h.phase.congr ⟨rfl, rfl, rfl, rfl, rfl, rfl⟩, fun call hcall => ?_, fun k o hko =>
      Own.mono (h.own k o hko) (fun x hx => List.mem_append_left _ hx) fun _ hx => hx⟩
    rcases List.mem_append.mp hcall with hcall | hcall
    · obtain ⟨socket, hws, hlive, hsent⟩ := h.inFlight call hcall
      exact ⟨socket, hws, hlive, List.mem_append_left _ hsent⟩
    · obtain rfl := List.mem_singleton.mp hcall
      exact ⟨socket, hws, live_iff.mpr ⟨_, hopen, by decide⟩, by simp⟩

theorem oneConnection_message (h : OneConnection c) (msg : Incoming V E P)
    (hlive : c.live socket = true) :
    OneConnection { c.handleMessage msg with received := c.received ++ [(socket, msg)] } := by
  have hmore : OneConnection { c with received := c.received ++ [(socket, msg)] } :=
    ⟨h.phase.congr ⟨rfl, rfl, rfl, rfl, rfl, rfl⟩, h.inFlight, fun k o hko =>
      Own.mono (h.own k o hko) (fun _ hx => hx) fun x hx => List.mem_append_left _ hx⟩
  rcases handleMessage_cases c msg with ⟨k, result, error, method, params, rfl, hin, heq⟩ |
    ⟨notified, heq⟩
  · rw [heq]
    refine OneConnection.settle hmore (Or.inr (Or.inr ?_))
    obtain ⟨call, hcall, rfl⟩ := List.mem_map.mp hin
    obtain ⟨current, hws, hcurrent, hsent⟩ := h.inFlight call hcall
    -- the socket that the call was sent on is the only one that can carry a message
    have hsame : socket = current := by
      cases h.phase with
      | off user unarmed ws => simp [ws] at hws
      | up s user unarmed ws live only => rw [only socket hlive, only current hcurrent]
      | waiting timer user armed kept state down => simp [down socket] at hlive
    exact ⟨current, call.2, _, hsent, by simp [hsame],
      ⟨result, error, method, params, rfl, rfl⟩⟩
  · rw [heq]
    exact hmore.of_sameCalls ⟨rfl, rfl, rfl, rfl, rfl, rfl⟩
      (hmore.phase.congr ⟨rfl, rfl, rfl, rfl, rfl, rfl⟩) fun _ hws hlive => ⟨hws, hlive⟩

theorem oneConnection_step (h : OneConnection c) (hguard : connectsIdle c a)
    (hstep : step c a = some d) : OneConnection d := by
  cases a with
  | connect made =>
    cases hstep
    have hopening : SameCalls c (c.connect made) := by
      have hsame := sameCalls_openSocket { c with closedByUser := false } made
      exact ⟨hsame.nextId, hsame.pending, hsame.timers, hsame.sent, hsame.received, hsame.settled⟩
    have hphase : Phase (c.connect made) :=
      @phase_openSocket V E P { c with closedByUser := false } rfl hguard made
    exact h.of_sameCalls hopening hphase fun socket _ hlive =>
      absurd hlive (by simp [hguard.1 socket])
  | close =>
    cases hstep
    obtain ⟨hpending, hsent, hreceived, hsettled⟩ := close_calls c
    exact h.of_rejected (phase_close h.phase) hpending hsent hreceived hsettled
  | call method =>
    cases hstep
    exact oneConnection_call h method
  | opened socket =>
    rw [step] at hstep
    split at hstep <;> cases hstep
    rename_i hready
    refine h.of_sameCalls ⟨rfl, rfl, rfl, rfl, rfl, rfl⟩ (phase_opened h.phase hready)
      fun other hws hlive => ⟨hws, ?_⟩
    change (c.setReady socket .open_).live other = true
    rw [live_setReady (by simp [hready])]
    split
    · decide
    · exact hlive
  | dropped socket =>
    rw [step] at hstep
    split at hstep <;> cases hstep
    rename_i hready
    refine h.of_sameCalls ⟨rfl, rfl, rfl, rfl, rfl, rfl⟩ (phase_dropped h.phase hready)
      fun other hws hlive => ⟨hws, ?_⟩
    rw [live_setReady (by rcases hready with hready | hready <;> simp [hready])]
    split
    · decide
    · exact hlive
  | closed socket =>
    rw [step] at hstep
    split at hstep <;> cases hstep
    rename_i hlive
    refine h.of_rejected (phase_closed h.phase hlive) ?_ ?_ ?_ ?_ <;> unfold Client.closeEvent <;>
      dsimp only <;> split <;> rfl
  | message socket msg =>
    rw [step] at hstep
    split at hstep <;> cases hstep
    rename_i hready
    refine oneConnection_message h msg ?_
    rcases hready with hready | hready <;> exact live_iff.mpr ⟨_, hready, by decide⟩
  | callTimer id =>
    rw [step] at hstep
    split at hstep
    case isFalse => cases hstep
    case isTrue =>
      split at hstep <;> cases hstep
      · exact h.settle (Or.inr (Or.inl ⟨_, rfl⟩))
      · exact ⟨h.phase.congr ⟨rfl, rfl, rfl, rfl, rfl, rfl⟩, h.inFlight, h.own⟩
  | reconnectTimer handle made =>
    rw [step] at hstep
    split at hstep <;> cases hstep
    rename_i harmed
    have hsame := sameCalls_openSocket
      { c with reconnects := c.reconnects.filter (·.handle ≠ handle) } made
    cases h.phase with
    | off user unarmed => simp [unarmed] at harmed
    | up current user unarmed => simp [unarmed] at harmed
    | waiting timer user armed kept state down =>
      have hfired : c.reconnects.filter (·.handle ≠ handle) = [] := by
        simp only [armed, List.any_cons, List.any_nil, Bool.or_false, decide_eq_true_eq] at harmed
        simp [armed, harmed]
      have hphase := @phase_openSocket V E P
        { c with reconnects := c.reconnects.filter (·.handle ≠ handle) } user ⟨down, hfired⟩ made
      exact h.of_sameCalls ⟨hsame.nextId, hsame.pending, hsame.timers, hsame.sent, hsame.received,
        hsame.settled⟩ hphase fun socket _ hlive => absurd hlive (by simp [down socket])

theorem oneConnection_new : OneConnection ({} : Client V E P) :=
  ⟨.off rfl rfl rfl rfl (by simp), by simp, by simp⟩

end Phases

/-- A client that is only connected when nothing is left of an earlier connection has one at a
time, comes back by itself until it is closed, and takes a reply for the call it was sent for. -/
theorem one_connection {c : Client V E P} (h : Reach step connectsIdle ({} = ·) c) :
    OneConnection c :=
  h.invariant (fun _ hc => hc ▸ oneConnection_new) fun _ _ _ hc hguard hstep =>
    oneConnection_step hc hguard hstep

def droppedOnce : List (Action Nat Nat Nat) :=
  [.connect true, .opened 0, .call "fw.status", .dropped 0, .closed 0, .reconnectTimer 0 false,
    .reconnectTimer 1 true, .opened 1, .call "fw.ping",
    .message 1 (.object (some 2) (some 7) none none none), .close]

theorem one_connection_dropped : ∃ c, run step droppedOnce {} = some c ∧ OneConnection c ∧
    c.settled = [(1, .rejected .notConnected), (2, .resolved (some 7))] := by
  have hrun : ∃ c, checkedRun step (fun c a => match a with
      | .connect _ => c.sockets.all (· = .closed) && c.reconnects.isEmpty
      | _ => true) droppedOnce {} = some c ∧ run step droppedOnce {} = some c ∧
      c.settled = [(1, .rejected .notConnected), (2, .resolved (some 7))] :=
    ⟨_, rfl, rfl, by decide⟩
  obtain ⟨c, hchecked, hrun, hsettled⟩ := hrun
  have hreach : Reach step connectsIdle ({} = ·) c := by
    refine (Reach.start rfl).extend_checked (fun c a ha => ?_) hchecked
    cases a with
    | connect made =>
      simp only [Bool.and_eq_true, List.all_eq_true, decide_eq_true_eq, List.isEmpty_iff] at ha
      refine ⟨fun socket => ?_, ha.2⟩
      rw [← Bool.not_eq_true, live_iff]
      rintro ⟨ready, hready, hne⟩
      exact hne (ha.1 ready (List.mem_of_getElem? hready))
    | _ => trivial
  exact ⟨c, hrun, one_connection hreach, hsettled⟩

end McuUpdater.Ui.Moonraker
