import McuUpdater.Lib.Transition
import McuUpdater.Lib.PyText

/-! The agent's threads that write a board's identity or track one: `fw.identity.provision`,
`fw.identity.clear` and `fw.serial.add` (`tracking.py`), and on the watcher's thread
`adopt_paired` and after it `auto_provision`. A registry edit is one step under its lock. -/
namespace McuUpdater.Agent.Identity
open PyText Transition

/-- `identity_state` -/
inductive IdentityState
  | unprovisioned
  | provisioned
  deriving DecidableEq

/-- `TrackVerdict`, with its remedy; one that no provisioner can cure is `refused`. -/
inductive TrackVerdict
  | ok
  | provision
  | refused
  deriving DecidableEq

structure Helpers where
  /-- `identity_state` of each provisioner -/
  provisioners : List (Str → Option IdentityState)
  /-- `is_trackable` of a type's helper, `ok` where it has none -/
  judge : Str → Str → TrackVerdict
  /-- `is_trackable` of each family with `auto_provision` -/
  autoJudges : List (Str → TrackVerdict)
  dfuSerialFor : Str → Option Str

structure Board where
  serial : Str
  isMcu : Bool
  deriving DecidableEq

/-- A declared type; `kconfig` is whether the registry holds it itself. -/
structure DeclaredType where
  name : Str
  kconfig : Bool
  serials : List Str
  deriving DecidableEq

abbrev Registry := List DeclaredType

/-- `find_declared_types_for_serial` -/
def findTypes (reg : Registry) (serial : Str) : List Str :=
  (reg.filter (serial ∈ ·.serials)).map (·.name)

/-- `all_serials`, and `names` -/
def allSerials (reg : Registry) : List Str := (reg.filter (·.kconfig)).flatMap (·.serials)
def names (reg : Registry) : List Str := (reg.filter (·.kconfig)).map (·.name)

/-- `_elsewhere_error` -/
def elsewhere (reg : Registry) (serial name : Str) : List Str :=
  (findTypes reg serial).filter (· ≠ name)

/-- `add_declared_serial`; the names of a registry differ. -/
def addSerial (reg : Registry) (name serial : Str) : Registry :=
  reg.map fun t =>
    if t.name = name ∧ serial ∉ t.serials then { t with serials := t.serials ++ [serial] } else t

inductive CallKind
  | change (want : IdentityState)
  | add (name : Str) (mayProvision : Bool)

/-- How far a call has come; it holds the identity lock all the time. -/
inductive CallPhase
  | started
  /-- nothing that can refuse the write did -/
  | checked
  | locked
  /-- the serial to track -/
  | ready (serial : Str)

structure Call where
  kind : CallKind
  serial : Str
  phase : CallPhase := .started
  /-- the serials retired since it began: no field of the source -/
  retired : List Str := []

inductive Watcher
  | idle
  /-- `adopt_paired`, with the names and the boards it read, and those still to come -/
  | adopting (known : List Str) (untracked left : List Str) (retired : List Str)
  /-- `auto_provision`, with the serials still to come -/
  | provisioning (left : List Str)
  | locked (serial : Str) (left : List Str)

inductive Holder
  | call (r : Nat)
  | watcher
  /-- a build or a flash -/
  | other
  deriving DecidableEq

structure World where
  bus : List Board
  registry : Registry
  /-- the types of the pairings within their TTL -/
  pairings : Str → Option Str
  identityLock : Option Nat
  operationLock : Option Holder
  calls : Nat → Option Call
  watcher : Watcher

/-- What a provisioner did: it refused before the write, wrote and then failed, or wrote and
saw the board come back. -/
inductive Outcome
  | refused
  | lost (new : Str)
  | done (new : Str)

def Outcome.new : Outcome → Option Str
  | .refused => none
  | .lost new | .done new => some new

inductive Step
  | begin (r : Nat) (kind : CallKind) (serial : Str)
  | check (r : Nat)
  | lock (r : Nat)
  | write (r : Nat) (outcome : Outcome)
  | record (r : Nat)
  /-- the call raises for another reason -/
  | fail (r : Nat)
  /-- `_on_bus_change`, to what `adopt_paired` reads -/
  | poll
  | adopt
  /-- this board's edit raises -/
  | skip
  /-- `auto_provision` on the watcher's sweep -/
  | adopted (devices : List Str) (mayProvision : Bool)
  | lockAuto
  | writeAuto (outcome : Outcome)
  | hotplug (bus : List Board)
  | pair (key name : Str)
  | otherLock
  | otherUnlock

section Model
variable (h : Helpers) (w : World)

def Watcher.outdate (serial : Str) : Watcher → Watcher
  | .adopting known untracked left retired => .adopting known untracked left (serial :: retired)
  | watcher => watcher

def World.retire (serial new : Str) : World :=
  { w with
    bus := w.bus.map fun b => if b.serial = serial then { b with serial := new } else b
    calls := fun r => (w.calls r).map fun c => { c with retired := serial :: c.retired }
    watcher := w.watcher.outdate serial }

/-- A provisioner writes to the one board that has the serial, and gives it another one. -/
def World.written (serial : Str) (outcome : Outcome) : Option World :=
  match outcome.new with
  | none => some w
  | some new =>
    if (w.bus.filter (·.serial = serial)).length = 1 ∧ new ≠ serial then some (w.retire serial new)
    else none

def World.leave (r : Nat) : World :=
  { w with
    identityLock := none
    operationLock := if w.operationLock = some (.call r) then none else w.operationLock
    calls := Function.update w.calls r none }

def World.enter (r : Nat) (c : Call) (phase : CallPhase) : World :=
  { w with calls := Function.update w.calls r (some { c with phase }) }

/-- `_identity_claimant` -/
def claimed (serial : Str) (want : IdentityState) : Bool :=
  (h.provisioners.filter (· serial = some want)).length = 1

/-- What a call checks before it writes or tracks anything; none where it is refused. -/
def checks (c : Call) : Option CallPhase :=
  match c.kind with
  | .change want =>
    if claimed h c.serial want ∧ findTypes w.registry c.serial = [] then some .checked else none
  | .add name mayProvision =>
    if (w.bus.find? (·.serial = c.serial)).any (!·.isMcu) then none
    else
      match h.judge name c.serial with
      | .ok => some (.ready c.serial)
      | .provision =>
        if mayProvision ∧ elsewhere w.registry c.serial name = [] then some .checked else none
      | .refused => none

/-- `candidate_keys` -/
def candidateKeys (serial : Str) : List Str :=
  match h.dfuSerialFor serial with
  | some key => [key, serial]
  | none => [serial]

/-- The key and the type a board is adopted by. -/
def pairedType (untracked : List Str) (serial : Str) : Option (Str × Str) :=
  (candidateKeys h serial).findSome? fun key =>
    if (untracked.flatMap (candidateKeys h)).count key = 1 then
      (w.pairings key).map fun name => (key, name)
    else none

/-- `find_untracked` -/
def World.untracked : List Str :=
  (w.bus.filter fun b => b.isMcu ∧ b.serial ∉ allSerials w.registry).map (·.serial)

/-- The serials `auto_provision` attempts, each where it is first asked for. -/
def attempts (devices : List Str) (mayProvision : Bool) : List Str :=
  if mayProvision then
    (h.autoJudges.flatMap fun judge => devices.filter (judge · = .provision)).eraseDups
  else []

def World.step : Step → Option World
  | .begin r kind serial =>
    match w.calls r, w.identityLock with
    | none, none =>
      some { w with identityLock := some r, calls := Function.update w.calls r (some { kind, serial }) }
    -- refused as busy
    | none, some _ => some w
    | some _, _ => none
  | .check r =>
    match w.calls r with
    | some c =>
      match c.phase with
      | .started =>
        match checks h w c with
        | some phase => some (w.enter r c phase)
        | none => some (w.leave r)
      | _ => none
    | none => none
  | .lock r =>
    match w.calls r with
    | some c =>
      match c.phase, w.operationLock with
      | .checked, none => some { w.enter r c .locked with operationLock := some (.call r) }
      | .checked, some _ => some (w.leave r)
      | _, _ => none
    | none => none
  | .write r outcome =>
    match w.calls r with
    | some c =>
      match c.phase, w.written c.serial outcome with
      | .locked, some w' =>
        match c.kind, outcome with
        | .add _ _, .done new =>
          some { w'.enter r { c with retired := c.serial :: c.retired } (.ready new) with
            operationLock := none }
        | _, _ => some (w'.leave r)
      | _, _ => none
    | none => none
  | .record r =>
    match w.calls r with
    | some c =>
      match c.phase, c.kind with
      | .ready serial, .add name _ =>
        if elsewhere w.registry serial name = [] then
          some { w.leave r with registry := addSerial w.registry name serial }
        else some (w.leave r)
      | _, _ => none
    | none => none
  | .fail r =>
    match w.calls r with
    | some _ => some (w.leave r)
    | none => none
  | .poll =>
    match w.watcher with
    | .idle => some { w with watcher := .adopting (names w.registry) w.untracked w.untracked [] }
    | _ => none
  | .adopt =>
    match w.watcher with
    | .adopting known untracked (serial :: left) retired =>
      let w' := { w with watcher := .adopting known untracked left retired }
      match pairedType h w untracked serial with
      | some (key, name) =>
        if name ∈ known ∧ name ∈ names w.registry ∧ serial ∉ allSerials
            (w.registry.filter (·.name = name)) then
          some { w' with
            registry := addSerial w.registry name serial
            pairings := Function.update w.pairings key none }
        else some w'
      | none => some w'
    | _ => none
  | .skip =>
    match w.watcher with
    | .adopting known untracked (_ :: left) retired =>
      some { w with watcher := .adopting known untracked left retired }
    | _ => none
  | .adopted devices mayProvision =>
    match w.watcher with
    | .adopting _ _ [] _ => some { w with watcher := .provisioning (attempts h devices mayProvision) }
    | _ => none
  | .lockAuto =>
    match w.watcher, w.operationLock with
    | .provisioning [], _ => some { w with watcher := .idle }
    | .provisioning (serial :: left), none =>
      some { w with watcher := .locked serial left, operationLock := some .watcher }
    | .provisioning (_ :: left), some _ => some { w with watcher := .provisioning left }
    | _, _ => none
  | .writeAuto outcome =>
    match w.watcher with
    | .locked serial left =>
      (w.written serial outcome).map fun w' =>
        { w' with watcher := .provisioning left, operationLock := none }
    | _ => none
  | .hotplug bus => some { w with bus }
  | .pair key name => some { w with pairings := Function.update w.pairings key (some name) }
  | .otherLock =>
    if w.operationLock = none then some { w with operationLock := some .other } else none
  | .otherUnlock =>
    if w.operationLock = some .other then some { w with operationLock := none } else none

def AtRest (w : World) : Prop :=
  (∀ r, w.calls r = none) ∧ w.identityLock = none ∧ w.watcher = .idle

def Tracked (reg : Registry) (serial : Str) : Prop := ∃ t ∈ reg, serial ∈ t.serials

/-- The serial this step takes from its board. -/
def World.writes : Step → Option Str
  | .write r outcome => if outcome.new.isSome then (w.calls r).map (·.serial) else none
  | .writeAuto outcome =>
    match w.watcher with
    | .locked serial _ => if outcome.new.isSome then some serial else none
    | _ => none
  | _ => none

/-- The serials retired since the operation of this step began. -/
def World.retiredSince : Step → List Str
  | .record r => ((w.calls r).map (·.retired)).getD []
  | .adopt =>
    match w.watcher with
    | .adopting _ _ _ retired => retired
    | _ => []
  | _ => []

/-- An identity write and tracking do not cross in this step. -/
structure Uncrossed (step : Step) (w' : World) : Prop where
  write : ∀ serial, w.writes step = some serial → ¬Tracked w.registry serial
  track : ∀ serial ∈ w.retiredSince step, Tracked w'.registry serial → Tracked w.registry serial

def Watcher.Adopting : Watcher → Prop
  | .adopting _ _ _ _ => True
  | _ => False

/-- No identity is written while boards are adopted, and none is adopted while a call holds
the identity lock; a serial add writes to no board its own type tracks, and `auto_provision`
to none that is tracked or while such a call is running. -/
def Apart (w : World) : Step → Prop
  | .write r outcome => outcome.new.isSome → ¬w.watcher.Adopting ∧ ∀ c name mayProvision,
      w.calls r = some c → c.kind = .add name mayProvision →
        ∀ t ∈ w.registry, t.name = name → c.serial ∉ t.serials
  | .writeAuto outcome => outcome.new.isSome → w.identityLock = none ∧
      ∀ serial left, w.watcher = .locked serial left → ¬Tracked w.registry serial
  | .adopt => w.identityLock = none
  | _ => True

/-- What a call knows at each phase. -/
def CallKept (reg : Registry) (c : Call) : Prop :=
  match c.phase with
  | .started => c.retired = []
  | .checked | .locked =>
    c.retired = [] ∧
      match c.kind with
      | .change _ => ¬Tracked reg c.serial
      | .add name _ => ∀ t ∈ reg, c.serial ∈ t.serials → t.name = name
  | .ready serial => serial ∉ c.retired

def WatcherKept : Watcher → Prop
  | .adopting _ _ _ retired => retired = []
  | _ => True

structure Kept (w : World) : Prop where
  lock : ∀ r c, w.calls r = some c → w.identityLock = some r
  calls : ∀ r c, w.calls r = some c → CallKept w.registry c
  watcher : WatcherKept w.watcher

end Model

section Facts
variable {h : Helpers} {w w' : World} {step : Step} {r : Nat} {c : Call}

@[simp] theorem retire_calls (serial new : Str) : (w.retire serial new).calls r =
    (w.calls r).map fun c => { c with retired := serial :: c.retired } := rfl

@[simp] theorem retire_watcher (serial new : Str) :
    (w.retire serial new).watcher = w.watcher.outdate serial := rfl

@[simp] theorem retire_registry (serial new : Str) :
    (w.retire serial new).registry = w.registry := rfl

@[simp] theorem leave_calls (r' : Nat) :
    (w.leave r).calls r' = Function.update w.calls r none r' := rfl

@[simp] theorem enter_calls (phase : CallPhase) (r' : Nat) :
    (w.enter r c phase).calls r' = Function.update w.calls r (some { c with phase }) r' := rfl

theorem mem_findTypes {reg : Registry} {serial name : Str} :
    name ∈ findTypes reg serial ↔ ∃ t ∈ reg, serial ∈ t.serials ∧ t.name = name := by
  simp [findTypes, and_assoc]

theorem findTypes_eq_nil {reg : Registry} {serial : Str} :
    findTypes reg serial = [] ↔ ¬Tracked reg serial := by
  simp [findTypes, Tracked, List.filter_eq_nil_iff]

theorem elsewhere_eq_nil {reg : Registry} {serial name : Str} :
    elsewhere reg serial name = [] ↔ ∀ t ∈ reg, serial ∈ t.serials → t.name = name := by
  simp only [elsewhere, List.filter_eq_nil_iff, mem_findTypes]
  constructor
  · intro h t ht hs
    simpa using h t.name ⟨t, ht, hs, rfl⟩
  · rintro h _ ⟨t, ht, hs, rfl⟩
    simpa using h t ht hs

theorem tracked_addSerial {reg : Registry} {name serial other : Str}
    (h : Tracked (addSerial reg name serial) other) : Tracked reg other ∨ other = serial := by
  obtain ⟨t', ht', hother⟩ := h
  obtain ⟨t, ht, rfl⟩ := List.mem_map.mp ht'
  split_ifs at hother with hadd
  · rcases List.mem_append.mp hother with hother | hother
    · exact .inl ⟨t, ht, hother⟩
    · exact .inr (List.mem_singleton.mp hother)
  · exact .inl ⟨t, ht, hother⟩

theorem checks_kept {phase : CallPhase} (hc : c.retired = [])
    (hcheck : checks h w c = some phase) : CallKept w.registry { c with phase } := by
  unfold checks at hcheck
  split at hcheck
  case h_1 want hkind =>
    split_ifs at hcheck with hok
    cases hcheck
    refine ⟨hc, ?_⟩
    simp only [hkind]
    exact findTypes_eq_nil.mp hok.2
  case h_2 name may hkind =>
    by_cases hmcu : (w.bus.find? (·.serial = c.serial)).any (!·.isMcu) = true
    · rw [if_pos hmcu] at hcheck
      cases hcheck
    rw [if_neg hmcu] at hcheck
    split at hcheck
    · cases hcheck
      simp [CallKept, hc]
    · split_ifs at hcheck with hok
      cases hcheck
      refine ⟨hc, ?_⟩
      simp only [hkind]
      exact elsewhere_eq_nil.mp hok.2
    · cases hcheck

theorem kept_of_no_calls (hcalls : ∀ r, w.calls r = none) (hwatcher : WatcherKept w.watcher) :
    Kept w where
  lock r c hc := by
    rw [hcalls r] at hc
    cases hc
  calls r c hc := by
    rw [hcalls r] at hc
    cases hc
  watcher := hwatcher

theorem kept_of_only (hlock : w.identityLock = some r) (hc : w.calls r = some c)
    (hothers : ∀ r', r' ≠ r → w.calls r' = none) (hcall : CallKept w.registry c)
    (hwatcher : WatcherKept w.watcher) : Kept w where
  lock r' d hd := by
    by_cases hr : r' = r
    · rw [hr]
      exact hlock
    · rw [hothers r' hr] at hd
      cases hd
  calls r' d hd := by
    by_cases hr : r' = r
    · subst hr
      obtain rfl : c = d := Option.some.inj (hc.symm.trans hd)
      exact hcall
    · rw [hothers r' hr] at hd
      cases hd
  watcher := hwatcher

theorem Kept.only (hk : Kept w) (hc : w.calls r = some c) {r' : Nat} (hr : r' ≠ r) :
    w.calls r' = none := by
  cases hc' : w.calls r' with
  | none => rfl
  | some c' =>
    have hlock := (hk.lock r' c' hc').symm.trans (hk.lock r c hc)
    exact absurd (Option.some.inj hlock) hr

theorem Kept.no_calls (hk : Kept w) (hlock : w.identityLock = none) (r : Nat) :
    w.calls r = none := by
  cases hc : w.calls r with
  | none => rfl
  | some c =>
    have := hk.lock r c hc
    rw [hlock] at this
    cases this

theorem Kept.left (hk : Kept w) (hc : w.calls r = some c) (r' : Nat) :
    Function.update w.calls r none r' = none := by
  by_cases hr : r' = r
  · rw [hr, Function.update_self]
  · rw [Function.update_of_ne hr]
    exact hk.only hc hr

theorem kept_start (hw : AtRest w) : Kept w :=
  kept_of_no_calls hw.1 (by rw [hw.2.2]; trivial)

theorem Kept.enter (hk : Kept w) (hc : w.calls r = some c) {c' : Call} {phase : CallPhase}
    (holder : Option Holder) (hphase : CallKept w.registry { c' with phase }) :
    Kept { w.enter r c' phase with operationLock := holder } :=
  kept_of_only (c := { c' with phase }) (hk.lock r c hc) (Function.update_self ..)
    (fun _ hr => (Function.update_of_ne hr ..).trans (hk.only hc hr)) hphase hk.watcher

theorem outdate_of_not_adopting {serial : Str} (hno : ¬w.watcher.Adopting) :
    w.watcher.outdate serial = w.watcher := by
  cases hw : w.watcher with
  | adopting known untracked left retired =>
    rw [hw] at hno
    exact absurd trivial hno
  | _ => rfl

theorem written_cases {serial : Str} {outcome : Outcome} {w₁ : World}
    (hw : w.written serial outcome = some w₁) :
    (outcome.new = none ∧ w₁ = w) ∨
      ∃ new, outcome.new = some new ∧ new ≠ serial ∧ w₁ = w.retire serial new := by
  unfold World.written at hw
  split at hw
  case h_1 hnew =>
    cases hw
    exact .inl ⟨hnew, rfl⟩
  case h_2 new hnew =>
    split_ifs at hw with hone
    cases hw
    exact .inr ⟨new, hnew, hone.2, rfl⟩

theorem write_cases {outcome : Outcome} (hs : w.step h (.write r outcome) = some w') :
    ∃ c w₁, w.calls r = some c ∧ c.phase = .locked ∧ w.written c.serial outcome = some w₁ ∧
      (w' = w₁.leave r ∨ ∃ new, outcome = .done new ∧
        w' = { w₁.enter r { c with retired := c.serial :: c.retired } (.ready new) with
          operationLock := none }) := by
  unfold World.step at hs
  dsimp only at hs
  split at hs
  case h_2 => cases hs
  case h_1 c hc =>
    split at hs
    case h_2 => cases hs
    case h_1 w₁ hphase hwritten =>
      refine ⟨c, w₁, hc, hphase, hwritten, ?_⟩
      split at hs
      case h_1 new hkind =>
        cases hs
        exact .inr ⟨new, rfl, rfl⟩
      case h_2 =>
        cases hs
        exact .inl rfl

theorem kept_write {outcome : Outcome} (hk : Kept w) (hapart : Apart w (.write r outcome))
    (hs : w.step h (.write r outcome) = some w') : Kept w' := by
  obtain ⟨c, w₁, hc, hphase, hwritten, hafter⟩ := write_cases hs
  have hkept := hk.calls r c hc
  simp only [CallKept, hphase] at hkept
  rcases written_cases hwritten with ⟨hnew, rfl⟩ | ⟨new, hnew, hne, rfl⟩
  · rcases hafter with rfl | ⟨new, rfl, -⟩
    · exact kept_of_no_calls (hk.left hc) hk.watcher
    · cases hnew
  · obtain ⟨hno, -⟩ := hapart (by rw [hnew]; rfl)
    have hwatcher : WatcherKept (w.retire c.serial new).watcher := by
      rw [retire_watcher, outdate_of_not_adopting hno]
      exact hk.watcher
    have hothers : ∀ r', r' ≠ r → (w.retire c.serial new).calls r' = none := fun r' hr => by
      rw [retire_calls, hk.only hc hr, Option.map_none]
    rcases hafter with rfl | ⟨_, rfl, rfl⟩
    · refine kept_of_no_calls (fun r' => ?_) hwatcher
      by_cases hr : r' = r
      · rw [leave_calls, hr, Function.update_self]
      · rw [leave_calls, Function.update_of_ne hr]
        exact hothers r' hr
    · cases hnew
      refine kept_of_only (hk.lock r c hc) (Function.update_self ..)
        (fun r' hr => (Function.update_of_ne hr ..).trans (hothers r' hr)) ?_ hwatcher
      simp [CallKept, hkept.1, hne]

theorem Kept.leave (hk : Kept w) (hc : w.calls r = some c) (reg : Registry) :
    Kept { w.leave r with registry := reg } :=
  kept_of_no_calls (hk.left hc) hk.watcher

theorem kept_check (hk : Kept w) (hs : w.step h (.check r) = some w') : Kept w' := by
  unfold World.step at hs
  dsimp only at hs
  split at hs
  case h_2 => cases hs
  case h_1 c hc =>
    split at hs
    case h_2 => cases hs
    case h_1 hphase =>
      have hkept := hk.calls r c hc
      simp only [CallKept, hphase] at hkept
      split at hs
      case h_1 phase hcheck =>
        cases hs
        exact hk.enter hc w.operationLock (checks_kept hkept hcheck)
      case h_2 =>
        cases hs
        exact hk.leave hc w.registry

theorem kept_lock (hk : Kept w) (hs : w.step h (.lock r) = some w') : Kept w' := by
  unfold World.step at hs
  dsimp only at hs
  split at hs
  case h_2 => cases hs
  case h_1 c hc =>
    split at hs
    case h_1 hphase _ =>
      cases hs
      have hkept := hk.calls r c hc
      simp only [CallKept, hphase] at hkept
      exact hk.enter hc _ hkept
    case h_2 =>
      cases hs
      exact hk.leave hc w.registry
    case h_3 => cases hs

theorem record_cases (hs : w.step h (.record r) = some w') :
    ∃ c serial, w.calls r = some c ∧ c.phase = .ready serial ∧
      (w' = w.leave r ∨ ∃ name, w' = { w.leave r with registry := addSerial w.registry name serial }) := by
  unfold World.step at hs
  dsimp only at hs
  split at hs
  case h_2 => cases hs
  case h_1 c hc =>
    split at hs
    case h_2 => cases hs
    case h_1 serial name _ hphase hkind =>
      refine ⟨c, serial, hc, hphase, ?_⟩
      split_ifs at hs
      · cases hs
        exact .inr ⟨name, rfl⟩
      · cases hs
        exact .inl rfl

theorem adopt_cases (hs : w.step h .adopt = some w') :
    ∃ known untracked serial left retired,
      w.watcher = .adopting known untracked (serial :: left) retired ∧
        w'.watcher = .adopting known untracked left retired ∧ w'.calls = w.calls := by
  unfold World.step at hs
  dsimp only at hs
  split at hs
  case h_2 => cases hs
  case h_1 known untracked serial left retired hw =>
    refine ⟨known, untracked, serial, left, retired, hw, ?_⟩
    split at hs
    · split_ifs at hs
      · cases hs
        exact ⟨rfl, rfl⟩
      · cases hs
        exact ⟨rfl, rfl⟩
    · cases hs
      exact ⟨rfl, rfl⟩

theorem writeAuto_cases {outcome : Outcome} (hs : w.step h (.writeAuto outcome) = some w') :
    ∃ serial left w₁, w.watcher = .locked serial left ∧ w.written serial outcome = some w₁ ∧
      w' = { w₁ with watcher := .provisioning left, operationLock := none } := by
  unfold World.step at hs
  dsimp only at hs
  split at hs
  case h_2 => cases hs
  case h_1 serial left hw =>
    obtain ⟨w₁, hwritten, rfl⟩ := Option.map_eq_some_iff.mp hs
    exact ⟨serial, left, w₁, hw, hwritten, rfl⟩

theorem kept_writeAuto {outcome : Outcome} (hk : Kept w) (hapart : Apart w (.writeAuto outcome))
    (hs : w.step h (.writeAuto outcome) = some w') : Kept w' := by
  obtain ⟨serial, left, w₁, hw, hwritten, rfl⟩ := writeAuto_cases hs
  rcases written_cases hwritten with ⟨-, rfl⟩ | ⟨new, hnew, -, rfl⟩
  · exact ⟨hk.lock, hk.calls, trivial⟩
  · obtain ⟨hlock, -⟩ := hapart (by rw [hnew]; rfl)
    refine kept_of_no_calls (fun r => ?_) trivial
    rw [retire_calls, hk.no_calls hlock r, Option.map_none]

theorem kept_step (hk : Kept w) (hapart : Apart w step) (hs : w.step h step = some w') :
    Kept w' := by
  cases step with
  | begin r kind serial =>
    unfold World.step at hs
    dsimp only at hs
    split at hs
    case h_1 hnone hlock =>
      cases hs
      exact kept_of_only (c := { kind, serial }) rfl (Function.update_self ..)
        (fun r' hr => (Function.update_of_ne hr ..).trans (hk.no_calls hlock r')) rfl hk.watcher
    case h_2 =>
      cases hs
      exact hk
    case h_3 => cases hs
  | check r => exact kept_check hk hs
  | lock r => exact kept_lock hk hs
  | write r outcome => exact kept_write hk hapart hs
  | record r =>
    obtain ⟨c, serial, hc, -, rfl | ⟨name, rfl⟩⟩ := record_cases hs
    · exact hk.leave hc w.registry
    · exact hk.leave hc _
  | fail r =>
    unfold World.step at hs
    dsimp only at hs
    split at hs
    case h_1 c hc =>
      cases hs
      exact hk.leave hc w.registry
    case h_2 => cases hs
  | poll =>
    unfold World.step at hs
    dsimp only at hs
    split at hs
    · cases hs
      exact ⟨hk.lock, hk.calls, rfl⟩
    · cases hs
  | adopt =>
    obtain ⟨_, _, _, _, _, hw, hw', hcalls⟩ := adopt_cases hs
    have hkept := hk.watcher
    rw [hw] at hkept
    refine kept_of_no_calls (fun r => ?_) (by rw [hw']; exact hkept)
    rw [hcalls]
    exact hk.no_calls hapart r
  | skip =>
    unfold World.step at hs
    dsimp only at hs
    split at hs
    case h_1 hw =>
      cases hs
      have hkept := hk.watcher
      rw [hw] at hkept
      exact ⟨hk.lock, hk.calls, hkept⟩
    case h_2 => cases hs
  | adopted devices mayProvision =>
    unfold World.step at hs
    dsimp only at hs
    split at hs
    · cases hs
      exact ⟨hk.lock, hk.calls, trivial⟩
    · cases hs
  | lockAuto =>
    unfold World.step at hs
    dsimp only at hs
    split at hs
    · cases hs
      exact ⟨hk.lock, hk.calls, trivial⟩
    · cases hs
      exact ⟨hk.lock, hk.calls, trivial⟩
    · cases hs
      exact ⟨hk.lock, hk.calls, trivial⟩
    · cases hs
  | writeAuto outcome => exact kept_writeAuto hk hapart hs
  | hotplug bus =>
    cases hs
    exact ⟨hk.lock, hk.calls, hk.watcher⟩
  | pair key name =>
    cases hs
    exact ⟨hk.lock, hk.calls, hk.watcher⟩
  | otherLock =>
    unfold World.step at hs
    dsimp only at hs
    split_ifs at hs
    cases hs
    exact ⟨hk.lock, hk.calls, hk.watcher⟩
  | otherUnlock =>
    unfold World.step at hs
    dsimp only at hs
    split_ifs at hs
    cases hs
    exact ⟨hk.lock, hk.calls, hk.watcher⟩

/-- In a run whose steps are all apart no identity write retires a tracked serial, and no
operation tracks one that was retired while it was running. -/
theorem uncrossed_apart (hw : Reach (World.step h) Apart AtRest w) (hapart : Apart w step)
    (hs : w.step h step = some w') : Uncrossed w step w' := by
  have hk : Kept w := hw.invariant (fun _ => kept_start) fun _ _ _ => kept_step
  constructor
  · intro serial hwrites
    cases step with
    | write r outcome =>
      obtain ⟨c, w₁, hc, hphase, -, -⟩ := write_cases hs
      rw [World.writes, hc] at hwrites
      split_ifs at hwrites with hnew
      cases hwrites
      have hkept := hk.calls r c hc
      simp only [CallKept, hphase] at hkept
      obtain ⟨-, hown⟩ := hapart hnew
      rintro ⟨t, ht, hserial⟩
      cases hkind : c.kind with
      | change want =>
        rw [hkind] at hkept
        exact hkept.2 ⟨t, ht, hserial⟩
      | add name mayProvision =>
        rw [hkind] at hkept
        exact hown c name mayProvision hc hkind t ht (hkept.2 t ht hserial) hserial
    | writeAuto outcome =>
      obtain ⟨serial', left, w₁, hlocked, -, -⟩ := writeAuto_cases hs
      unfold World.writes at hwrites
      rw [hlocked] at hwrites
      dsimp only at hwrites
      split_ifs at hwrites with hnew
      cases hwrites
      exact (hapart hnew).2 _ left hlocked
    | _ => cases hwrites
  · intro serial hretired htracked
    cases step with
    | record r =>
      obtain ⟨c, ready, hc, hphase, rfl | ⟨name, rfl⟩⟩ := record_cases hs
      · exact htracked
      · have hkept := hk.calls r c hc
        simp only [CallKept, hphase] at hkept
        rcases tracked_addSerial htracked with hbefore | rfl
        · exact hbefore
        · rw [World.retiredSince, hc] at hretired
          exact absurd hretired hkept
    | adopt =>
      obtain ⟨_, _, _, _, retired, hadopting, -, -⟩ := adopt_cases hs
      have hkept := hk.watcher
      unfold World.retiredSince at hretired
      rw [hadopting] at hkept hretired
      obtain rfl : retired = [] := hkept
      cases hretired
    | _ => cases hretired

end Facts

def freshSerial : Str := "RR-UNPROVISIONED-0123456789ABCDEF".toList
def durableSerial : Str := "RR-01J8ZQ4M6K7N8P9QRSTVWXYZ01".toList

/-- One helper that provisions, for a family that does so unasked; the type `board` is of a
family without a helper. -/
def oneHelper : Helpers where
  provisioners := [fun serial =>
    if serial = freshSerial then some .unprovisioned
    else if serial = durableSerial then some .provisioned else none]
  judge _ _ := .ok
  autoJudges := [fun serial => if serial = freshSerial then .provision else .ok]
  dfuSerialFor _ := none

def onBus : World where
  bus := [⟨freshSerial, true⟩]
  registry := [⟨"board".toList, true, []⟩]
  pairings _ := none
  identityLock := none
  operationLock := none
  calls _ := none
  watcher := .idle

theorem atRest_onBus : AtRest onBus := ⟨fun _ => rfl, rfl, rfl⟩

/-- `fw.identity.provision`, to its write. -/
def provisionCall : List Step :=
  [.begin 0 (.change .unprovisioned) freshSerial, .check 0, .lock 0]

theorem provisionCall_apart : ∀ a ∈ provisionCall, ∀ w, Apart w a := by
  intro a ha w
  simp only [provisionCall, List.mem_cons, List.not_mem_nil, or_false] at ha
  rcases ha with rfl | rfl | rfl <;> trivial

theorem uncrossed_apart_provision :
    ∃ w w', run (World.step oneHelper) provisionCall onBus = some w ∧
      w.step oneHelper (.write 0 (.done durableSerial)) = some w' ∧
      Uncrossed w (.write 0 (.done durableSerial)) w' := by
  refine ⟨_, _, rfl, rfl, uncrossed_apart (h := oneHelper)
    ((Reach.start atRest_onBus).extend provisionCall_apart rfl) ?_ rfl⟩
  rintro -
  refine ⟨id, fun c name mayProvision hc hkind => ?_⟩
  cases hc
  cases hkind

/-- While the board is being added under `board`, the watcher provisions it. -/
def addDuringSweep : List Step :=
  [.begin 0 (.add "board".toList true) freshSerial, .check 0, .poll, .adopt,
    .adopted [freshSerial] true, .lockAuto, .writeAuto (.done durableSerial)]

/-- The serial that the board no longer has is tracked. -/
theorem retired_serial_tracked :
    ∃ w w', Reach (World.step oneHelper) anyStep AtRest w ∧
      w.step oneHelper (.record 0) = some w' ∧ ¬Uncrossed w (.record 0) w' ∧
      w'.bus.map (·.serial) = [durableSerial] ∧ Tracked w'.registry freshSerial := by
  refine ⟨_, _, (Reach.start atRest_onBus).extend (l := addDuringSweep) (fun _ _ _ => trivial) rfl,
    rfl, ?_, rfl, ⟨_, List.mem_singleton_self _, ?_⟩⟩
  · intro hcrossed
    obtain ⟨t, ht, hserial⟩ := hcrossed.track freshSerial (by decide)
      ⟨_, List.mem_singleton_self _, by decide⟩
    obtain rfl := List.mem_singleton.mp ht
    cases hserial
  · decide

end McuUpdater.Agent.Identity
