import Mathlib.Data.Char
import Mathlib.Data.List.Lex
import Mathlib.Data.List.Sort
import McuUpdater.Lib.PyText
import McuUpdater.Lib.Transition

/-! `agent/service.py`: the agent makes one connection to Moonraker after another. `run_forever` is
one thread; a connection can drop at any time, and `stop` may be called from others. -/
namespace McuUpdater.Connection
open PyText Transition

/-- `BACKOFF`, in seconds. -/
def backoff : List Nat := [1, 2, 4, 8, 16, 30]

def backoffAt (attempt : Nat) : Nat := backoff.getD (min attempt (backoff.length - 1)) 0

/-- What `_handshake` calls. -/
inductive Call
  | identify
  | register (method : Str)
  deriving DecidableEq

inductive Helper
  | watcher
  | batcher
  | state
  deriving DecidableEq

/-- A connection that was made. -/
structure Peer where
  /-- what `available_methods` had when it was identified -/
  available : List Str := []
  methods : List Str := []
  /-- what `_handshake` sent on it, and what of that was answered -/
  sent : List Call := []
  answered : List Call := []
  dropped : Bool := false
  closed : Bool := false
  /-- made although `stop` had been called -/
  late : Bool
  /-- how often a `stop` had looked for a connection when this one became the agent's -/
  looks : Nat := 0
  deriving DecidableEq

def Peer.handshake (r : Peer) : List Call := .identify :: r.methods.map .register

/-- Where `run_forever` is. -/
inductive At
  | top
  | connecting
  | connected (p : Nat)
  /-- the calls left, and whether the first of them waits for its answer -/
  | handshake (p : Nat) (left : List Call) (waiting : Bool)
  | failing (p : Nat)
  | starting (p : Nat) (left : List Helper)
  | serving (p : Nat)
  | closing (p : Nat) (ok : Bool)
  | returned (ok : Bool)
  | delaying
  | ending
  | ended
  deriving DecidableEq

/-- Where a call of `stop` is. -/
inductive StopAt
  | stopping (left : List Helper)
  | closing (p : Nat)
  | done
  deriving DecidableEq

structure Agent where
  pc : At := .top
  peers : List Peer := []
  /-- `_peer` -/
  peer : Option Nat := none
  stop : Bool := false
  stops : List StopAt := []
  looks : Nat := 0
  running : Helper → Bool := fun _ => false
  attempt : Nat := 0
  /-- how each attempt ended, and the wait after it -/
  pauses : List (Bool × Nat) := []

/-- The connection `run_forever` has made and not closed. -/
def At.holds : At → Option Nat
  | .connected p | .handshake p _ _ | .failing p | .starting p _ | .serving p | .closing p _ => some p
  | _ => none

/-- and whether it is the agent's -/
def At.given : At → Bool
  | .handshake _ _ _ | .failing _ | .starting _ _ | .serving _ => true
  | _ => false

namespace Agent
variable (s : Agent)

def isOpen (p : Nat) : Bool := (s.peers[p]?).any (!·.closed)

def alive (p : Nat) : Bool := (s.peers[p]?).any fun r => !r.closed && !r.dropped

def modifyPeer (p : Nat) (f : Peer → Peer) : Agent := { s with peers := s.peers.modify p f }

def answered (available : List Str) (p : Nat) : List Call → Agent
  | .identify :: _ =>
    let methods := available.insertionSort (· ≤ ·)
    { s.modifyPeer p fun r =>
        { r with answered := r.answered ++ [.identify], available, methods } with
      pc := .handshake p (methods.map .register) false }
  | call :: left =>
    { s.modifyPeer p fun r => { r with answered := r.answered ++ [call] } with
      pc := .handshake p left false }
  | [] => s

/-- The next step of `run_forever`, where it waits for nothing. -/
def go : Option Agent :=
  match s.pc with
  | .top => some { s with pc := if s.stop then .ending else .connecting }
  | .connected p =>
    some { s.modifyPeer p ({ · with looks := s.looks }) with
      peer := some p, pc := .handshake p [.identify] false }
  | .handshake p [] _ => some { s with pc := .starting p [.watcher, .batcher, .state] }
  | .failing p => some { s with peer := none, pc := .closing p false }
  | .starting p (helper :: left) =>
    some { s with running := Function.update s.running helper true, pc := .starting p left }
  | .starting p [] => some { s with pc := .serving p }
  | .serving p => if s.alive p then none else some { s with peer := none, pc := .closing p true }
  | .closing p ok => some { s.modifyPeer p ({ · with closed := true }) with pc := .returned ok }
  | .returned ok =>
    if s.stop then some { s with pc := .ending }
    else
      let attempt := if ok then 0 else s.attempt
      some { s with
        attempt := attempt + 1, pauses := s.pauses ++ [(ok, backoffAt attempt)], pc := .delaying }
  | .delaying => some { s with pc := .top }
  | .ending => some { s with running := Function.update s.running .watcher false, pc := .ended }
  | _ => none

/-- The next step of a call of `stop`. -/
def stopNext (i : Nat) : Option Agent :=
  match s.stops[i]? with
  | some (.stopping (helper :: left)) =>
    some { s with
      running := Function.update s.running helper false, stops := s.stops.set i (.stopping left) }
  | some (.stopping []) =>
    some { s with looks := s.looks + 1, stops := s.stops.set i (s.peer.elim .done .closing) }
  | some (.closing p) =>
    some { s.modifyPeer p ({ · with closed := true }) with stops := s.stops.set i .done }
  | _ => none

end Agent

inductive Action
  | go
  /-- `peer.connect()` returns, or raises -/
  | connect (ok : Bool)
  /-- the handshake writes its next call; a write that fails raises -/
  | send (ok : Bool)
  /-- its answer comes, with the methods available then, which are the keys of a dict -/
  | answer (available : List Str)
  /-- or an error, or none in time -/
  | refuse
  /-- the reader ends -/
  | drop (p : Nat)
  | stop
  | stopNext (i : Nat)

def step (s : Agent) : Action → Option Agent
  | .go => s.go
  | .connect ok =>
    if s.pc = .connecting then
      if ok then
        some { s with peers := s.peers ++ [{ late := s.stop }], pc := .connected s.peers.length }
      else some { s with pc := .returned false }
    else none
  | .send ok =>
    match s.pc with
    | .handshake p (call :: left) false =>
      if ok ∧ s.isOpen p then
        some { s.modifyPeer p fun r => { r with sent := r.sent ++ [call] } with
          pc := .handshake p (call :: left) true }
      else some { s with pc := .failing p }
    | _ => none
  | .answer available =>
    match s.pc with
    | .handshake p (call :: left) true =>
      if s.alive p ∧ available.Nodup then some (s.answered available p (call :: left)) else none
    | _ => none
  | .refuse =>
    match s.pc with
    | .handshake p (_ :: _) true => some { s with pc := .failing p }
    | _ => none
  | .drop p => some (s.modifyPeer p ({ · with dropped := true }))
  | .stop =>
    some { s with stop := true, stops := s.stops ++ [.stopping [.watcher, .batcher, .state]] }
  | .stopNext i => s.stopNext i

/-! ## Every run -/

/-- How many attempts ago the last one that came to a session was, or the first of all. -/
def sinceSession (oks : List Bool) : Nat := min (oks.rtakeWhile (!·)).length (oks.length - 1)

/-- Each method that was available is registered once, in order. -/
def Peer.Listed (r : Peer) : Prop :=
  r.methods.Perm r.available ∧ r.methods.Pairwise (· ≤ ·) ∧ r.methods.Nodup

structure Orderly (s : Agent) : Prop where
  /-- one connection is open at a time, and no other is the agent's -/
  single : ∀ p q, s.isOpen p = true → s.isOpen q = true → p = q
  own : ∀ p q, s.peer = some p → s.isOpen q = true → q = p
  /-- the methods of a connection are those that are available as it is identified -/
  listed : ∀ r ∈ s.peers, r.Listed
  asked : ∀ p left available t, s.pc = .handshake p (.identify :: left) true →
    step s (.answer available) = some t → ∃ r, t.peers[p]? = some r ∧ r.available = available
  /-- a connection that is served was identified, and all of them registered on it -/
  registered : ∀ p, s.pc = .serving p → s.peer = some p ∧ ∃ r, s.peers[p]? = some r ∧
    r.sent = r.handshake ∧ r.answered = r.handshake
  begun : ∀ r ∈ s.peers, r.answered <+: r.sent ∧ r.sent <+: r.handshake
  /-- once a stop is asked for, one more connection is made at most, and it is the last -/
  last : ∀ r ∈ s.peers.dropLast, r.late = false
  /-- and one that a `stop` found is closed, or about to be -/
  halted : ∀ p r, s.peer = some p → s.peers[p]? = some r → r.closed = false → r.looks < s.looks →
    .closing p ∈ s.stops
  paced : ∀ n, n < s.pauses.length → (s.pauses[n]?).map Prod.snd =
    some (backoffAt (sinceSession ((s.pauses.take (n + 1)).map Prod.fst)))
  /-- everything runs while a connection is served, and nothing looks at the bus at the end -/
  helped : s.stop = false → (∃ p, s.pc = .serving p) → ∀ helper, s.running helper = true
  quiet : s.pc = .ended → s.running .watcher = false

section Steps
variable {s t : Agent} {a : Action}

/-- Everything a step can do. -/
inductive Moved (s : Agent) : Agent → Prop
  | stopTop (h : s.pc = .top) (hstop : s.stop = true) : Moved s { s with pc := .ending }
  | attempt (h : s.pc = .top) (hstop : s.stop = false) : Moved s { s with pc := .connecting }
  | made (h : s.pc = .connecting) : Moved s
      { s with peers := s.peers ++ [{ late := s.stop }], pc := .connected s.peers.length }
  | notMade (h : s.pc = .connecting) : Moved s { s with pc := .returned false }
  | given (p : Nat) (h : s.pc = .connected p) : Moved s
      { s.modifyPeer p ({ · with looks := s.looks }) with
        peer := some p, pc := .handshake p [.identify] false }
  | sent (p : Nat) (call : Call) (left : List Call) (h : s.pc = .handshake p (call :: left) false) :
      Moved s { s.modifyPeer p fun r => { r with sent := r.sent ++ [call] } with
        pc := .handshake p (call :: left) true }
  | fail (p : Nat) (left : List Call) (waiting : Bool) (h : s.pc = .handshake p left waiting) :
      Moved s { s with pc := .failing p }
  | identified (p : Nat) (left : List Call) (available : List Str) (hnodup : available.Nodup)
      (h : s.pc = .handshake p (.identify :: left) true) : Moved s
      { s.modifyPeer p fun r =>
          { r with
            answered := r.answered ++ [.identify], available
            methods := available.insertionSort (· ≤ ·) } with
        pc := .handshake p ((available.insertionSort (· ≤ ·)).map .register) false }
  | registered (p : Nat) (method : Str) (left : List Call)
      (h : s.pc = .handshake p (.register method :: left) true) : Moved s
      { s.modifyPeer p fun r => { r with answered := r.answered ++ [.register method] } with
        pc := .handshake p left false }
  | shaken (p : Nat) (waiting : Bool) (h : s.pc = .handshake p [] waiting) :
      Moved s { s with pc := .starting p [.watcher, .batcher, .state] }
  | cleared (p : Nat) (ok : Bool) (h : s.pc = .failing p ∨ s.pc = .serving p) :
      Moved s { s with peer := none, pc := .closing p ok }
  | started (p : Nat) (helper : Helper) (left : List Helper) (h : s.pc = .starting p (helper :: left)) :
      Moved s { s with running := Function.update s.running helper true, pc := .starting p left }
  | serve (p : Nat) (h : s.pc = .starting p []) : Moved s { s with pc := .serving p }
  | closed (p : Nat) (ok : Bool) (h : s.pc = .closing p ok) :
      Moved s { s.modifyPeer p ({ · with closed := true }) with pc := .returned ok }
  | giveUp (ok : Bool) (h : s.pc = .returned ok) (hstop : s.stop = true) :
      Moved s { s with pc := .ending }
  | pause (ok : Bool) (h : s.pc = .returned ok) (hstop : s.stop = false) : Moved s
      { s with
        attempt := (if ok then 0 else s.attempt) + 1
        pauses := s.pauses ++ [(ok, backoffAt (if ok then 0 else s.attempt))], pc := .delaying }
  | resume (h : s.pc = .delaying) : Moved s { s with pc := .top }
  | finish (h : s.pc = .ending) :
      Moved s { s with running := Function.update s.running .watcher false, pc := .ended }
  | dropped (p : Nat) : Moved s (s.modifyPeer p ({ · with dropped := true }))
  | stopped : Moved s
      { s with stop := true, stops := s.stops ++ [.stopping [.watcher, .batcher, .state]] }
  | halt (i : Nat) (helper : Helper) (left : List Helper)
      (h : s.stops[i]? = some (.stopping (helper :: left))) : Moved s
      { s with
        running := Function.update s.running helper false, stops := s.stops.set i (.stopping left) }
  | looked (i : Nat) (h : s.stops[i]? = some (.stopping [])) : Moved s
      { s with looks := s.looks + 1, stops := s.stops.set i (s.peer.elim .done .closing) }
  | shut (i p : Nat) (h : s.stops[i]? = some (.closing p)) : Moved s
      { s.modifyPeer p ({ · with closed := true }) with stops := s.stops.set i .done }

theorem moved_of_go (hs : s.go = some t) : Moved s t := by
  unfold Agent.go at hs
  split at hs
  case h_1 h =>
    obtain rfl := Option.some.inj hs
    split_ifs with hstop
    · exact .stopTop h hstop
    · exact .attempt h (by simpa using hstop)
  case h_2 p h =>
    obtain rfl := Option.some.inj hs
    exact .given p h
  case h_3 p waiting h =>
    obtain rfl := Option.some.inj hs
    exact .shaken p waiting h
  case h_4 p h =>
    obtain rfl := Option.some.inj hs
    exact .cleared p false (.inl h)
  case h_5 p helper left h =>
    obtain rfl := Option.some.inj hs
    exact .started p helper left h
  case h_6 p h =>
    obtain rfl := Option.some.inj hs
    exact .serve p h
  case h_7 p h =>
    split_ifs at hs
    obtain rfl := Option.some.inj hs
    exact .cleared p true (.inr h)
  case h_8 p ok h =>
    obtain rfl := Option.some.inj hs
    exact .closed p ok h
  case h_9 ok h =>
    by_cases hstop : s.stop = true
    · rw [if_pos hstop] at hs
      obtain rfl := Option.some.inj hs
      exact .giveUp ok h hstop
    · rw [if_neg hstop] at hs
      obtain rfl := Option.some.inj hs
      exact .pause ok h (by simpa using hstop)
  case h_10 h =>
    obtain rfl := Option.some.inj hs
    exact .resume h
  case h_11 h =>
    obtain rfl := Option.some.inj hs
    exact .finish h
  case h_12 => cases hs

theorem moved_of_stopNext {i : Nat} (hs : s.stopNext i = some t) : Moved s t := by
  unfold Agent.stopNext at hs
  split at hs
  case h_1 helper left h =>
    obtain rfl := Option.some.inj hs
    exact .halt i helper left h
  case h_2 h =>
    obtain rfl := Option.some.inj hs
    exact .looked i h
  case h_3 p h =>
    obtain rfl := Option.some.inj hs
    exact .shut i p h
  case h_4 => cases hs

theorem moved_of_step (hs : step s a = some t) : Moved s t := by
  cases a with
  | go => exact moved_of_go hs
  | connect ok =>
    simp only [step] at hs
    split_ifs at hs with h hok
    · obtain rfl := Option.some.inj hs
      exact .made h
    · obtain rfl := Option.some.inj hs
      exact .notMade h
  | send ok =>
    simp only [step] at hs
    split at hs
    · next p call left h =>
      split_ifs at hs
      · obtain rfl := Option.some.inj hs
        exact .sent p call left h
      · obtain rfl := Option.some.inj hs
        exact .fail p _ _ h
    · cases hs
  | answer methods =>
    simp only [step] at hs
    split at hs
    · next p call left h =>
      split_ifs at hs with halive
      obtain rfl := Option.some.inj hs
      cases call with
      | identify => exact .identified p left _ halive.2 h
      | register method => exact .registered p method left h
    · cases hs
  | refuse =>
    simp only [step] at hs
    split at hs
    · next p _ left h =>
      obtain rfl := Option.some.inj hs
      exact .fail p _ _ h
    · cases hs
  | drop p =>
    obtain rfl := Option.some.inj hs
    exact .dropped p
  | stop =>
    obtain rfl := Option.some.inj hs
    exact .stopped
  | stopNext i => exact moved_of_stopNext hs

/-! The connection at hand -/

structure Held (s : Agent) : Prop where
  held : ∀ q, s.isOpen q = true → s.pc.holds = some q
  owned : s.peer = if s.pc.given then s.pc.holds else none
  newest : ∀ p, s.pc.holds = some p → s.peers.length = p + 1

theorem isOpen_modifyPeer {f : Peer → Peer} (hf : ∀ r, (f r).closed = r.closed) (p q : Nat) :
    (s.modifyPeer p f).isOpen q = s.isOpen q := by
  rw [Agent.isOpen, Agent.modifyPeer, List.getElem?_modify, Agent.isOpen]
  cases s.peers[q]? with
  | none => rfl
  | some r => by_cases hp : p = q <;> simp [hp, hf]

theorem isOpen_close {p q : Nat}
    (h : (s.modifyPeer p ({ · with closed := true })).isOpen q = true) : s.isOpen q = true ∧ p ≠ q := by
  rw [Agent.isOpen, Agent.modifyPeer, List.getElem?_modify] at h
  rw [Agent.isOpen]
  cases hr : s.peers[q]? with
  | none => simp [hr] at h
  | some r =>
    by_cases hp : p = q
    · simp [hr, hp] at h
    · exact ⟨by simpa [hr, hp] using h, hp⟩

theorem Held.same (h : Held s) (hopen : ∀ q, t.isOpen q = true → s.isOpen q = true)
    (hlen : t.peers.length = s.peers.length) (hpeer : t.peer = s.peer)
    (hholds : t.pc.holds = s.pc.holds) (hgiven : t.pc.given = s.pc.given) : Held t := by
  refine ⟨fun q hq => hholds.trans (h.held q (hopen q hq)), ?_, fun p hp => ?_⟩
  · rw [hpeer, hholds, hgiven]
    exact h.owned
  · rw [hlen]
    exact h.newest p (hholds ▸ hp)

theorem Held.modify (h : Held s) {f : Peer → Peer} (hf : ∀ r, (f r).closed = r.closed) {p : Nat} {pc : At}
    (hholds : pc.holds = s.pc.holds) (hgiven : pc.given = s.pc.given) :
    Held { s.modifyPeer p f with pc } :=
  h.same (fun q hq => (isOpen_modifyPeer hf p q).symm.trans hq) (List.length_modify ..) rfl hholds hgiven

theorem held_moved (hm : Moved s t) (h : Held s) : Held t := by
  have hsame := fun q (hq : s.isOpen q = true) => hq
  cases hm with
  | made hpc =>
    refine ⟨fun q hq => ?_, ?_, fun p hp => ?_⟩
    · rw [Agent.isOpen, List.getElem?_append] at hq
      split_ifs at hq with hlt
      · exact absurd (h.held q hq) (by simp [hpc, At.holds])
      · have hlast : q - s.peers.length = 0 := by
          by_contra hne
          rw [List.getElem?_eq_none (by rw [List.length_singleton]; omega)] at hq
          cases hq
        rw [At.holds, show q = s.peers.length by omega]
    · simpa [hpc, At.given] using h.owned
    · obtain rfl := Option.some.inj hp
      exact List.length_append
  | given p hpc =>
    refine ⟨fun q hq => ?_, rfl, fun q hq => ?_⟩
    · have hheld := h.held q ((isOpen_modifyPeer (by simp) p q).symm.trans hq)
      rwa [hpc] at hheld
    · exact (List.length_modify ..).trans (h.newest q (by rw [hpc]; exact hq))
  | cleared p ok hpc =>
    have hholds : s.pc.holds = some p := by
      rcases hpc with hpc | hpc <;> rw [hpc] <;> rfl
    exact ⟨fun q hq => hholds.symm.trans (h.held q hq), rfl, fun q hq => h.newest q (hholds.trans hq)⟩
  | closed p ok hpc =>
    refine ⟨fun q hq => ?_, ?_, by simp [At.holds]⟩
    · obtain ⟨hq, hne⟩ := isOpen_close hq
      have hheld := h.held q hq
      rw [hpc] at hheld
      exact absurd (Option.some.inj hheld) hne
    · exact h.owned.trans (by rw [hpc]; rfl)
  | sent p call left hpc => exact h.modify (by simp) (by rw [hpc]; rfl) (by rw [hpc]; rfl)
  | identified p left available hnodup hpc => exact h.modify (by simp) (by rw [hpc]; rfl) (by rw [hpc]; rfl)
  | registered p method left hpc => exact h.modify (by simp) (by rw [hpc]; rfl) (by rw [hpc]; rfl)
  | dropped p =>
    have hpc : (s.modifyPeer p ({ · with dropped := true })).pc.holds = s.pc.holds := rfl
    exact h.modify (by simp) hpc rfl
  | shut i p => exact h.same (fun q hq => (isOpen_close hq).1) (List.length_modify ..) rfl rfl rfl
  | stopTop hpc | attempt hpc | notMade hpc | fail p left waiting hpc | shaken p waiting hpc
  | started p helper left hpc | serve p hpc | giveUp ok hpc | pause ok hpc | resume hpc | finish hpc =>
    exact h.same hsame rfl rfl (by rw [hpc]; rfl) (by rw [hpc]; rfl)
  | stopped | halt i helper left | looked i => exact h.same hsame rfl rfl rfl rfl

/-! What was said on it -/

/-- What was sent and answered on the connection at hand. -/
def At.Talk (r : Peer) : At → Prop
  | .connected _ => r.sent = [] ∧ r.answered = [] ∧ r.methods = []
  | .handshake _ left waiting =>
    r.answered ++ left = r.handshake ∧ r.sent = r.answered ++ if waiting then left.take 1 else []
  | .starting _ _ | .serving _ => r.sent = r.handshake ∧ r.answered = r.handshake
  | _ => True

def Peer.Begun (r : Peer) : Prop :=
  r.Listed ∧ r.answered <+: r.sent ∧ r.sent <+: r.handshake

structure Told (s : Agent) : Prop where
  begun : ∀ (q : Nat) (r : Peer), s.peers[q]? = some r → r.Begun
  talk : ∀ p r, s.pc.holds = some p → s.peers[p]? = some r → s.pc.Talk r

/-- The same was said on both. -/
structure Alike (r r' : Peer) : Prop where
  available : r'.available = r.available
  methods : r'.methods = r.methods
  sent : r'.sent = r.sent
  answered : r'.answered = r.answered

theorem Alike.begun {r r' : Peer} (h : Alike r r') (hr : r.Begun) : r'.Begun := by
  rw [Peer.Begun, Peer.Listed, Peer.handshake, h.available, h.methods, h.sent, h.answered]
  exact hr

theorem Alike.talk {r r' : Peer} (h : Alike r r') {pc : At} (hr : pc.Talk r) : pc.Talk r' := by
  have hsame : pc.Talk r' = pc.Talk r := by
    cases pc <;> simp only [At.Talk, Peer.handshake, h.methods, h.sent, h.answered]
  exact hsame ▸ hr

theorem getElem?_modifyPeer {f : Peer → Peer} {p q : Nat} {r : Peer}
    (h : (s.modifyPeer p f).peers[q]? = some r) :
    ∃ r₀, s.peers[q]? = some r₀ ∧ (p = q ∧ r = f r₀ ∨ p ≠ q ∧ r = r₀) := by
  rw [Agent.modifyPeer, List.getElem?_modify] at h
  obtain ⟨r₀, hr₀, rfl⟩ := Option.map_eq_some_iff.mp h
  refine ⟨r₀, hr₀, ?_⟩
  by_cases hp : p = q
  · exact .inl ⟨hp, by simp [hp]⟩
  · exact .inr ⟨hp, by simp [hp]⟩

theorem Told.place (h : Told s) {p : Nat} (hpeers : t.peers = s.peers) (hholds : s.pc.holds = some p)
    (hholds' : t.pc.holds = some p) (htalk : ∀ r, s.pc.Talk r → t.pc.Talk r) : Told t := by
  refine ⟨fun q r hr => h.begun q r (hpeers ▸ hr), fun q r hq hr => ?_⟩
  exact htalk r (h.talk q r (hholds.trans (hholds'.symm.trans hq)) (hpeers ▸ hr))

theorem Told.modify (h : Told s) {f : Peer → Peer} {p : Nat} (hpeers : t.peers = (s.modifyPeer p f).peers)
    (hholds : t.pc.holds = some p) (hf : ∀ r, s.peers[p]? = some r → (f r).Begun ∧ t.pc.Talk (f r)) :
    Told t := by
  refine ⟨fun q r hr => ?_, fun q r hq hr => ?_⟩ <;> rw [hpeers] at hr
  · obtain ⟨r₀, hr₀, ⟨rfl, rfl⟩ | ⟨-, rfl⟩⟩ := getElem?_modifyPeer hr
    · exact (hf r₀ hr₀).1
    · exact h.begun q r hr₀
  · obtain rfl := Option.some.inj (hholds.symm.trans hq)
    obtain ⟨r₀, hr₀, ⟨-, rfl⟩ | ⟨hne, -⟩⟩ := getElem?_modifyPeer hr
    · exact (hf r₀ hr₀).2
    · exact absurd rfl hne

theorem Told.alike (h : Told s) {f : Peer → Peer} {p : Nat} (hpeers : t.peers = (s.modifyPeer p f).peers)
    (hpc : t.pc = s.pc ∨ t.pc.holds = none) (hf : ∀ r, Alike r (f r)) : Told t := by
  refine ⟨fun q r hr => ?_, fun q r hq hr => ?_⟩ <;> rw [hpeers] at hr <;>
    obtain ⟨r₀, hr₀, hr⟩ := getElem?_modifyPeer hr
  · rcases hr with ⟨rfl, rfl⟩ | ⟨-, rfl⟩
    · exact (hf r₀).begun (h.begun p r₀ hr₀)
    · exact h.begun q r hr₀
  · rcases hpc with hpc | hpc
    · rw [hpc] at hq ⊢
      rcases hr with ⟨rfl, rfl⟩ | ⟨-, rfl⟩
      · exact (hf r₀).talk (h.talk p r₀ hq hr₀)
      · exact h.talk q r hq hr₀
    · rw [hpc] at hq
      cases hq

theorem answered_eq_nil {r : Peer} {left : List Call}
    (h : r.answered ++ .identify :: left = r.handshake) : r.answered = [] := by
  rw [Peer.handshake] at h
  cases hr : r.answered with
  | nil => rfl
  | cons call rest =>
    rw [hr, List.cons_append] at h
    have hmem : Call.identify ∈ r.methods.map Call.register := by
      rw [← (List.cons.inj h).2]
      simp
    simp at hmem

theorem getElem?_concat_cases {r new : Peer} {rs : List Peer} {q : Nat}
    (h : (rs ++ [new])[q]? = some r) : rs[q]? = some r ∨ q = rs.length ∧ r = new := by
  rw [List.getElem?_append] at h
  split_ifs at h with hlt
  · exact .inl h
  · obtain ⟨hq, hr⟩ := List.getElem?_eq_some_iff.mp h
    rw [List.length_singleton] at hq
    exact .inr ⟨by omega, by simpa using hr.symm⟩

theorem told_moved (hm : Moved s t) (h : Told s) : Told t := by
  cases hm with
  | made hpc =>
    refine ⟨fun q r hr => ?_, fun p r hp hr => ?_⟩
    · rcases getElem?_concat_cases hr with hr | ⟨-, rfl⟩
      · exact h.begun q r hr
      · exact ⟨⟨List.Perm.refl _, List.Pairwise.nil, List.nodup_nil⟩, List.prefix_rfl,
          List.nil_prefix⟩
    · obtain rfl := Option.some.inj hp
      rcases getElem?_concat_cases hr with hr | ⟨-, rfl⟩
      · simp at hr
      · exact ⟨rfl, rfl, rfl⟩
  | given p hpc =>
    refine h.modify rfl rfl fun r hr => ?_
    have htalk := h.talk p r (by rw [hpc]; rfl) hr
    rw [hpc] at htalk
    obtain ⟨hsent, hanswered, hmethods⟩ := htalk
    refine ⟨Alike.begun ⟨rfl, rfl, rfl, rfl⟩ (h.begun p r hr), ?_⟩
    simp [At.Talk, Peer.handshake, hsent, hanswered, hmethods]
  | sent p call left hpc =>
    refine h.modify rfl rfl fun r hr => ?_
    have htalk := h.talk p r (by rw [hpc]; rfl) hr
    rw [hpc] at htalk
    obtain ⟨hwhole, hsent⟩ := htalk
    have hsent' : r.sent = r.answered := by simpa using hsent
    refine ⟨⟨(h.begun p r hr).1, ?_, ?_⟩, hwhole, ?_⟩
    · simp [hsent']
    · exact ⟨left, by simpa [hsent', Peer.handshake] using hwhole⟩
    · simp [hsent']
  | identified p left available hnodup hpc =>
    refine h.modify rfl rfl fun r hr => ?_
    have htalk := h.talk p r (by rw [hpc]; rfl) hr
    rw [hpc] at htalk
    obtain ⟨hwhole, hsent⟩ := htalk
    have hnil := answered_eq_nil hwhole
    have hsent' : r.sent = [.identify] := by simpa [hnil] using hsent
    have hperm := List.perm_insertionSort (· ≤ ·) available
    refine ⟨⟨⟨hperm, List.pairwise_insertionSort _ _, hperm.nodup_iff.mpr hnodup⟩, ?_⟩, ?_⟩
    · simp [Peer.handshake, hnil, hsent']
    · simp [At.Talk, Peer.handshake, hnil, hsent']
  | registered p method left hpc =>
    refine h.modify rfl rfl fun r hr => ?_
    have htalk := h.talk p r (by rw [hpc]; rfl) hr
    have hbegun := h.begun p r hr
    rw [hpc] at htalk
    obtain ⟨hwhole, hsent⟩ := htalk
    have hsent' : r.sent = r.answered ++ [.register method] := by simpa using hsent
    refine ⟨⟨hbegun.1, by simp [hsent'], hbegun.2.2⟩, ?_, by simp [hsent']⟩
    simpa [Peer.handshake] using hwhole
  | shaken p waiting hpc =>
    refine h.place rfl (by rw [hpc]; rfl) rfl fun r htalk => ?_
    rw [hpc] at htalk
    obtain ⟨hwhole, hsent⟩ := htalk
    have hanswered : r.answered = r.handshake := by simpa using hwhole
    refine ⟨?_, hanswered⟩
    rw [← hanswered, hsent]
    simp
  | started p helper left hpc | serve p hpc =>
    refine h.place rfl (by rw [hpc]; rfl) rfl fun r htalk => ?_
    rw [hpc] at htalk
    exact htalk
  | closed p ok hpc => exact h.alike rfl (.inr rfl) fun r => ⟨rfl, rfl, rfl, rfl⟩
  | dropped p => exact h.alike rfl (.inl rfl) fun r => ⟨rfl, rfl, rfl, rfl⟩
  | shut i p => exact h.alike rfl (.inl rfl) fun r => ⟨rfl, rfl, rfl, rfl⟩
  | stopTop hpc | attempt hpc | notMade hpc | giveUp ok hpc | pause ok hpc | resume hpc | finish hpc =>
    exact ⟨h.begun, fun p r hp => by cases hp⟩
  | fail p left waiting hpc | cleared p ok hpc => exact ⟨h.begun, fun p r hp hr => trivial⟩
  | stopped | halt i helper left | looked i => exact ⟨h.begun, h.talk⟩

/-! Stopping -/

structure Halting (s : Agent) : Prop where
  late : ∀ (q : Nat) (r : Peer), s.peers[q]? = some r → r.late = true →
    s.stop = true ∧ s.pc ≠ .connecting ∧ s.peers.length = q + 1
  halted : ∀ p r, s.peer = some p → s.peers[p]? = some r → r.closed = false → r.looks < s.looks →
    .closing p ∈ s.stops

theorem mem_set_of_ne {l : List StopAt} {i : Nat} {x y z : StopAt} (hx : x ∈ l) (hy : l[i]? = some y)
    (hne : y ≠ x) : x ∈ l.set i z := by
  obtain ⟨j, hj⟩ := List.mem_iff_getElem?.mp hx
  refine List.mem_iff_getElem?.mpr ⟨j, ?_⟩
  have hij : i ≠ j := by
    rintro rfl
    exact hne (Option.some.inj (hy.symm.trans hj))
  rw [List.getElem?_set_ne hij, hj]

theorem Halting.same (h : Halting s) (hpeers : t.peers = s.peers) (hstop : t.stop = s.stop)
    (hpc : s.stop = true → s.pc ≠ .connecting → t.pc ≠ .connecting) (hpeer : t.peer = none ∨ t.peer = s.peer)
    (hlooks : t.looks = s.looks) (hstops : ∀ p, .closing p ∈ s.stops → .closing p ∈ t.stops) :
    Halting t := by
  refine ⟨fun q r hr hlate => ?_, fun p r hp hr hopen hlt => ?_⟩
  · rw [hpeers] at hr ⊢
    have hold := h.late q r hr hlate
    exact ⟨hstop.trans hold.1, hpc hold.1 hold.2.1, hold.2.2⟩
  · rcases hpeer with hpeer | hpeer
    · rw [hpeer] at hp
      cases hp
    · exact hstops p (h.halted p r (hpeer ▸ hp) (hpeers ▸ hr) hopen (hlooks ▸ hlt))

theorem Halting.modify (h : Halting s) {f : Peer → Peer} {p : Nat}
    (hf : ∀ r, (f r).late = r.late ∧ (f r).looks = r.looks ∧ (r.closed = true → (f r).closed = true))
    (hpeers : t.peers = (s.modifyPeer p f).peers) (hstop : t.stop = s.stop)
    (hpc : s.stop = true → s.pc ≠ .connecting → t.pc ≠ .connecting) (hpeer : t.peer = s.peer) (hlooks : t.looks = s.looks)
    (hstops : t.stops = s.stops) : Halting t := by
  refine ⟨fun q r hr hlate => ?_, fun q r hq hr hopen hlt => ?_⟩
  · rw [hpeers] at hr ⊢
    have hlen : (s.modifyPeer p f).peers.length = s.peers.length := List.length_modify ..
    obtain ⟨r₀, hr₀, ⟨-, rfl⟩ | ⟨-, rfl⟩⟩ := getElem?_modifyPeer hr
    · have hold := h.late q r₀ hr₀ ((hf r₀).1 ▸ hlate)
      exact ⟨hstop.trans hold.1, hpc hold.1 hold.2.1, hlen.trans hold.2.2⟩
    · have hold := h.late q r hr₀ hlate
      exact ⟨hstop.trans hold.1, hpc hold.1 hold.2.1, hlen.trans hold.2.2⟩
  · rw [hpeers] at hr
    rw [hstops]
    rw [hlooks] at hlt
    obtain ⟨r₀, hr₀, ⟨-, rfl⟩ | ⟨-, rfl⟩⟩ := getElem?_modifyPeer hr
    · refine h.halted q r₀ (hpeer ▸ hq) hr₀ ?_ ((hf r₀).2.1 ▸ hlt)
      by_contra hclosed
      simp [(hf r₀).2.2 (by simpa using hclosed)] at hopen
    · exact h.halted q r (hpeer ▸ hq) hr₀ hopen hlt

theorem halting_moved (hm : Moved s t) (hheld : Held s) (h : Halting s) : Halting t := by
  cases hm with
  | made hpc =>
    have hnone : s.peer = none := by rw [hheld.owned, hpc]; rfl
    refine ⟨fun q r hr hlate => ?_, fun p r hp => by rw [show _ = none from hnone] at hp; cases hp⟩
    rcases getElem?_concat_cases hr with hr | ⟨rfl, rfl⟩
    · exact absurd hpc (h.late q r hr hlate).2.1
    · exact ⟨hlate, by simp, List.length_append⟩
  | given p hpc =>
    refine ⟨fun q r hr hlate => ?_, fun q r hq hr hopen hlt => ?_⟩
    · obtain ⟨r₀, hr₀, ⟨-, rfl⟩ | ⟨-, rfl⟩⟩ := getElem?_modifyPeer hr
      · have hold := h.late q r₀ hr₀ hlate
        exact ⟨hold.1, by simp, (List.length_modify ..).trans hold.2.2⟩
      · have hold := h.late q r hr₀ hlate
        exact ⟨hold.1, by simp, (List.length_modify ..).trans hold.2.2⟩
    · obtain rfl := Option.some.inj hq
      obtain ⟨r₀, -, ⟨-, rfl⟩ | ⟨hne, -⟩⟩ := getElem?_modifyPeer hr
      · exact absurd hlt (Nat.lt_irrefl _)
      · exact absurd rfl hne
  | attempt hpc hstop =>
    exact h.same rfl rfl (fun hon => by simp [hstop] at hon) (.inr rfl) rfl fun _ => id
  | cleared p ok hpc => exact h.same rfl rfl (by simp) (.inl rfl) rfl fun _ => id
  | sent p call left hpc | identified p left available hnodup hpc | registered p method left hpc
  | closed p ok hpc => exact h.modify (by simp) rfl rfl (by simp) rfl rfl rfl
  | dropped p => exact h.modify (by simp) rfl rfl (fun _ hne => hne) rfl rfl rfl
  | stopped =>
    refine ⟨fun q r hr hlate => ⟨rfl, (h.late q r hr hlate).2⟩, fun p r hp hr hopen hlt => ?_⟩
    exact List.mem_append_left _ (h.halted p r hp hr hopen hlt)
  | halt i helper left hi =>
    exact h.same rfl rfl (fun _ hne => hne) (.inr rfl) rfl fun p hp => mem_set_of_ne hp hi (by simp)
  | looked i hi =>
    refine ⟨h.late, fun p r hp hr hopen hlt => ?_⟩
    have hlen : i < s.stops.length := (List.getElem?_eq_some_iff.mp hi).1
    rw [show s.peer.elim StopAt.done .closing = .closing p by rw [show s.peer = some p from hp]; rfl]
    exact List.mem_set hlen _
  | shut i p hi =>
    refine ⟨fun q r hr hlate => ?_, fun q r hq hr hopen hlt => ?_⟩ <;>
      obtain ⟨r₀, hr₀, ⟨rfl, rfl⟩ | ⟨hne, rfl⟩⟩ := getElem?_modifyPeer hr
    · have hold := h.late p r₀ hr₀ hlate
      exact ⟨hold.1, hold.2.1, (List.length_modify ..).trans hold.2.2⟩
    · have hold := h.late q r hr₀ hlate
      exact ⟨hold.1, hold.2.1, (List.length_modify ..).trans hold.2.2⟩
    · simp at hopen
    · exact mem_set_of_ne (h.halted q r hq hr₀ hopen hlt) hi (by simpa using hne)
  | stopTop hpc | notMade hpc | fail p left waiting hpc | shaken p waiting hpc
  | started p helper left hpc | serve p hpc | giveUp ok hpc | pause ok hpc | resume hpc | finish hpc =>
    exact h.same rfl rfl (by simp) (.inr rfl) rfl fun _ => id

/-! The waits, and what runs beside -/

structure Paced (s : Agent) : Prop where
  attempt : s.attempt = if s.pauses = [] then 0 else sinceSession (s.pauses.map Prod.fst) + 1
  paced : ∀ n, n < s.pauses.length → (s.pauses[n]?).map Prod.snd =
    some (backoffAt (sinceSession ((s.pauses.take (n + 1)).map Prod.fst)))

theorem sinceSession_concat (oks : List Bool) (ok : Bool) : sinceSession (oks ++ [ok]) =
    if ok then 0 else if oks = [] then 0 else sinceSession oks + 1 := by
  cases ok with
  | true => simp [sinceSession, List.rtakeWhile]
  | false =>
    cases oks with
    | nil => simp [sinceSession]
    | cons b oks =>
      have hmore : ((b :: oks) ++ [false]).rtakeWhile (!·) = (b :: oks).rtakeWhile (!·) ++ [false] := by
        rw [List.rtakeWhile_concat_pos _ _ _ (by rfl)]
      rw [sinceSession, hmore, sinceSession]
      simp only [List.length_append, List.length_cons, List.length_nil]
      simp

theorem Paced.same (h : Paced s) (hattempt : t.attempt = s.attempt) (hpauses : t.pauses = s.pauses) :
    Paced t :=
  ⟨by rw [hattempt, hpauses, h.attempt], by rw [hpauses]; exact h.paced⟩

theorem paced_moved (hm : Moved s t) (h : Paced s) : Paced t := by
  cases hm with
  | pause ok hpc =>
    have hwait : ∀ delay, sinceSession ((s.pauses ++ [(ok, delay)]).map Prod.fst) =
        if ok then 0 else s.attempt := fun delay => by
      rw [List.map_append, List.map_singleton, sinceSession_concat, h.attempt]
      simp
    generalize (if ok then 0 else s.attempt) = wait at hwait ⊢
    refine ⟨by simp only [hwait, List.append_ne_nil_of_right_ne_nil _ (List.cons_ne_nil _ _), if_false],
      fun n hn => ?_⟩
    dsimp only at hn ⊢
    rw [List.length_append, List.length_singleton] at hn
    by_cases hlast : n < s.pauses.length
    · rw [List.getElem?_append_left hlast, List.take_append_of_le_length (by omega)]
      exact h.paced n hlast
    · obtain rfl : n = s.pauses.length := by omega
      rw [List.take_of_length_le (by simp), hwait]
      simp
  | _ => exact h.same rfl rfl

structure Helped (s : Agent) : Prop where
  asked : s.stops ≠ [] → s.stop = true
  starting : s.stop = false → ∀ p left, s.pc = .starting p left → ∀ helper, helper ∉ left →
    s.running helper = true
  serving : s.stop = false → ∀ p, s.pc = .serving p → ∀ helper, s.running helper = true
  quiet : s.pc = .ended → s.running .watcher = false

theorem Helped.same (h : Helped s) (hstop : t.stop = s.stop) (hstops : t.stops = [] ↔ s.stops = [])
    (hrunning : t.running = s.running) (hpc : t.pc = s.pc ∨
      (∀ p left, t.pc ≠ .starting p left) ∧ (∀ p, t.pc ≠ .serving p) ∧ t.pc ≠ .ended) : Helped t := by
  have hasked : t.stops ≠ [] → t.stop = true := fun hne => hstop ▸ h.asked (hstops.not.mp hne)
  rcases hpc with hpc | ⟨hstarting, hserving, hended⟩
  · refine ⟨hasked, ?_, ?_, ?_⟩ <;> rw [hpc, hrunning]
    · exact hstop ▸ h.starting
    · exact hstop ▸ h.serving
    · exact h.quiet
  · exact ⟨hasked, fun _ p left hpc => absurd hpc (hstarting p left), fun _ p hpc =>
      absurd hpc (hserving p), fun hpc => absurd hpc hended⟩

theorem helped_moved (hm : Moved s t) (h : Helped s) : Helped t := by
  cases hm with
  | shaken p waiting hpc =>
    refine ⟨h.asked, fun _ q left hq helper hnot => ?_, fun _ q hq => by simp at hq, fun hq => by simp at hq⟩
    obtain ⟨-, rfl⟩ := At.starting.inj hq
    cases helper <;> simp at hnot
  | started p helper left hpc =>
    refine ⟨h.asked, fun hstop q rest hq other hnot => ?_, fun _ q hq => by simp at hq,
      fun hq => by simp at hq⟩
    obtain ⟨-, rfl⟩ := At.starting.inj hq
    by_cases hother : other = helper
    · simp [hother]
    · dsimp only
      rw [Function.update_of_ne hother]
      exact h.starting hstop p _ hpc other (by simp [hother, hnot])
  | serve p hpc =>
    exact ⟨h.asked, fun _ q left hq => by simp at hq,
      fun hstop q _ helper => h.starting hstop p [] hpc helper (by simp), fun hq => by simp at hq⟩
  | finish hpc =>
    exact ⟨h.asked, fun _ q left hq => by simp at hq, fun _ q hq => by simp at hq, fun _ => by simp⟩
  | stopped => exact ⟨fun _ => rfl, fun hstop => by simp at hstop, fun hstop => by simp at hstop, h.quiet⟩
  | halt i helper left hi =>
    have hon : s.stop = true := h.asked fun hnil => by simp [hnil] at hi
    refine ⟨fun _ => hon, fun hstop => absurd hon (by simpa using hstop),
      fun hstop => absurd hon (by simpa using hstop), fun hq => ?_⟩
    by_cases hwatcher : helper = .watcher
    · simp [hwatcher]
    · dsimp only
      rw [Function.update_of_ne (Ne.symm hwatcher)]
      exact h.quiet hq
  | looked i hi => exact h.same rfl (by simp) rfl (.inl rfl)
  | shut i p hi => exact h.same rfl (by simp) rfl (.inl rfl)
  | dropped p => exact h.same rfl Iff.rfl rfl (.inl rfl)
  | _ => exact h.same rfl Iff.rfl rfl (.inr (by simp))

structure Kept (s : Agent) : Prop where
  held : Held s
  told : Told s
  halting : Halting s
  paced : Paced s
  helped : Helped s

theorem kept_moved (hm : Moved s t) (h : Kept s) : Kept t :=
  ⟨held_moved hm h.held, told_moved hm h.told, halting_moved hm h.held h.halting,
    paced_moved hm h.paced, helped_moved hm h.helped⟩

theorem kept_start : Kept {} :=
  ⟨⟨by simp [Agent.isOpen], rfl, by simp [At.holds]⟩, ⟨by simp, by simp⟩, ⟨by simp, by simp⟩,
    ⟨rfl, by simp⟩, ⟨by simp, by simp, by simp, by simp⟩⟩

theorem Kept.orderly (h : Kept s) : Orderly s := by
  have hgiven : ∀ p, s.peer = some p → s.pc.holds = some p := fun p hp => by
    have howned := h.held.owned
    rw [hp] at howned
    split_ifs at howned
    exact howned.symm
  have hbegun : ∀ r ∈ s.peers, r.Begun := fun r hr => by
    obtain ⟨q, hq⟩ := List.mem_iff_getElem?.mp hr
    exact h.told.begun q r hq
  refine ⟨fun p q hp hq => Option.some.inj ((h.held.held p hp).symm.trans (h.held.held q hq)),
    fun p q hp hq => Option.some.inj ((h.held.held q hq).symm.trans (hgiven p hp)),
    fun r hr => (hbegun r hr).1, fun p left available t hpc hstep => ?_, fun p hpc => ?_,
    fun r hr => (hbegun r hr).2, fun r hr => ?_, h.halting.halted, h.paced.paced,
    fun hstop ⟨p, hpc⟩ => h.helped.serving hstop p hpc, h.helped.quiet⟩
  · have hlen := h.held.newest p (by rw [hpc]; rfl)
    simp only [step, hpc] at hstep
    split_ifs at hstep
    obtain rfl := Option.some.inj hstep
    have hr : s.peers[p]? = some s.peers[p] := List.getElem?_eq_getElem (by omega)
    simp only [Agent.answered, Agent.modifyPeer, List.getElem?_modify_eq, hr, Option.map_eq_map,
      Option.map_some]
    exact ⟨_, rfl, rfl⟩
  · have hholds : s.pc.holds = some p := by rw [hpc]; rfl
    have hlen := h.held.newest p hholds
    have hr : s.peers[p]? = some s.peers[p] := List.getElem?_eq_getElem (by omega)
    have htalk := h.told.talk p _ hholds hr
    rw [hpc] at htalk
    exact ⟨by rw [h.held.owned, hpc]; rfl, _, hr, htalk⟩
  · obtain ⟨q, hq⟩ := List.mem_iff_getElem?.mp hr
    rw [List.getElem?_dropLast] at hq
    split_ifs at hq with hlt
    by_contra hlate
    have hlast := (h.halting.late q r hq (by simpa using hlate)).2.2
    omega

end Steps

/-- In every order of attempts, drops and stops. -/
theorem connections_orderly {s : Agent} (h : Reach step anyStep ({} = ·) s) : Orderly s := by
  have hkept : Kept s := h.invariant (fun _ hs => hs ▸ kept_start) fun _ _ _ hs _ hstep =>
    kept_moved (moved_of_step hstep) hs
  exact hkept.orderly

/-- A connection that fails, a session that drops, and a stop while the next one is being made, which
it does not find. -/
def stoppedTooSoon : List Action :=
  [.go, .connect false, .go, .go, .go, .connect true, .go, .send true, .answer ["fw.ping".toList],
    .send true, .answer [], .go, .go, .go, .go, .go, .drop 0, .go, .go, .go, .go, .go, .stop,
    .connect true, .stopNext 0, .stopNext 0, .stopNext 0, .stopNext 0, .go]

theorem connections_orderly_stopped : ∃ s, run step stoppedTooSoon {} = some s ∧ Orderly s ∧
    s.pauses = [(false, 1), (true, 1)] ∧ s.stops = [.done] ∧
    s.peers.map (fun r => (r.late, r.closed)) = [(false, true), (true, false)] := by
  have hrun : ∃ s, run step stoppedTooSoon {} = some s ∧ s.pauses = [(false, 1), (true, 1)] ∧
      s.stops = [.done] ∧ s.peers.map (fun r => (r.late, r.closed)) = [(false, true), (true, false)] :=
    ⟨_, rfl, by decide⟩
  obtain ⟨s, hrun, hend⟩ := hrun
  have hreach : Reach step anyStep ({} = ·) s := (Reach.start rfl).extend (fun _ _ _ => trivial) hrun
  exact ⟨s, hrun, connections_orderly hreach, hend⟩

end McuUpdater.Connection
