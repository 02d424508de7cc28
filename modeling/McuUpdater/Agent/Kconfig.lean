import McuUpdater.Lib.Transition
import McuUpdater.Profiles.Answers

/-! `agent/methods/build.py` and `providers/kconfig.py`: the open configurations, and the
requests that work on them. One step is what one lock is held for. -/
namespace McuUpdater.Agent
open PyText Transition

structure Target where
  mcuType : Str
  fw : Str
  deriving DecidableEq

/-- The families' trees: `φ` is the text of a `.config`, `κ` a parsed tree. -/
structure Trees (φ κ : Type) where
  /-- `_parse`, with whether `seed_defaults` set anything when there is no `.config` -/
  parse : Target → Option φ → κ × Bool
  /-- `write_config` -/
  write : Target → κ → φ

structure KconfigSession (φ κ : Type) where
  target : Target
  kconf : κ
  dirty : Bool
  touched : Nat
  /-- what it was parsed from, or last wrote itself: no field of the source -/
  base : Option φ

/-- What is asked of a session. A refused `set` may leave the tree changed, and is not dirty
for it; a save fails where the operation lock is held or the file cannot be written. -/
inductive SessionCall (κ : Type)
  | set (edit : κ → κ) (accepted : Bool)
  | save (written : Bool)
  | reset

inductive Request (κ : Type)
  | opening (target : Target)
  | holding (id : Nat) (call : SessionCall κ)

/-- The agent's sessions: all that were ever made, and those the store still has, in the
order they were put there. -/
structure Sessions (φ κ : Type) where
  made : Nat → Option (KconfigSession φ κ)
  stored : List Nat
  next : Nat
  disk : Target → Option φ
  requests : Nat → Option (Request κ)

/-- `TTL` -/
def sessionTtl : Nat := 30 * 60

/-- `MAX` -/
def sessionMax : Nat := 4

section Model
variable {φ κ : Type} (k : Trees φ κ)

def parsed (target : Target) (now : Nat) (saved : Option φ) : KconfigSession φ κ :=
  let (kconf, seeded) := k.parse target saved
  { target, kconf, dirty := saved.isNone && seeded, touched := now, base := saved }

/-- `_reap` -/
def Sessions.reap (s : Sessions φ κ) (now : Nat) : Sessions φ κ :=
  { s with stored := s.stored.filter fun id =>
      match s.made id with
      | some session => now - session.touched ≤ sessionTtl
      | none => true }

/-- The order of eviction: clean ones first, and the longest idle of them. -/
def evictedBefore (a b : KconfigSession φ κ) : Bool :=
  (!a.dirty && b.dirty) || (a.dirty = b.dirty && a.touched < b.touched)

def Sessions.evictee (s : Sessions φ κ) : List Nat → Option Nat
  | [] => none
  | id :: ids =>
    match s.evictee ids with
    | none => some id
    | some other =>
      match s.made other, s.made id with
      | some a, some b => some (if evictedBefore a b then other else id)
      | _, _ => some id

def Sessions.room (s : Sessions φ κ) : List Nat :=
  if sessionMax ≤ s.stored.length then s.stored.filter (some · ≠ s.evictee s.stored) else s.stored

/-- `SessionStore.open` -/
def Sessions.openStore (s : Sessions φ κ) (now : Nat) (target : Target) : Sessions φ κ :=
  let s := s.reap now
  { s with
    made := Function.update s.made s.next (some (parsed k target now (s.disk target)))
    stored := s.room ++ [s.next]
    next := s.next + 1 }

/-- `dirty_for` -/
def Sessions.dirtyFor (s : Sessions φ κ) (target : Target) : Option Nat :=
  s.stored.find? fun id =>
    match s.made id with
    | some session => session.target = target && session.dirty
    | none => false

/-- `set_value`, `save` and `reset`, with the files after it. -/
def SessionCall.apply (call : SessionCall κ) (now : Nat) (session : KconfigSession φ κ)
    (disk : Target → Option φ) : KconfigSession φ κ × (Target → Option φ) :=
  match call with
  | .set edit accepted =>
    ({ session with
        kconf := edit session.kconf
        dirty := accepted || session.dirty
        touched := if accepted then now else session.touched }, disk)
  | .save false => (session, disk)
  | .save true =>
    let text := k.write session.target session.kconf
    ({ session with dirty := false, touched := now, base := some text },
      Function.update disk session.target (some text))
  | .reset => (parsed k session.target now (disk session.target), disk)

inductive SessionStep (κ : Type)
  /-- `kconfig_open` without force, to its check for other sessions -/
  | openCheck (r : Nat) (target : Target)
  | openStore (r now : Nat)
  /-- `_session` -/
  | get (r id : Nat) (call : SessionCall κ) (now : Nat)
  | finish (r now : Nat)
  | close (id : Nat)

def Sessions.step (s : Sessions φ κ) : SessionStep κ → Option (Sessions φ κ)
  | .openCheck r target =>
    match s.requests r, s.dirtyFor target with
    | some _, _ => none
    | none, some _ => some s
    | none, none => some { s with requests := Function.update s.requests r (some (.opening target)) }
  | .openStore r now =>
    match s.requests r with
    | some (.opening target) =>
      some { s.openStore k now target with requests := Function.update s.requests r none }
    | _ => none
  | .get r id call now =>
    match s.requests r with
    | some _ => none
    | none =>
      let s := s.reap now
      if id ∈ s.stored then
        some { s with requests := Function.update s.requests r (some (.holding id call)) }
      else some s
  | .finish r now =>
    match s.requests r with
    | some (.holding id call) =>
      match s.made id with
      | some session =>
        let (session', disk) := call.apply k now session s.disk
        some { s with
          made := Function.update s.made id (some session')
          disk
          requests := Function.update s.requests r none }
      | none => none
    | _ => none
  | .close id => some { s with stored := s.stored.filter (· ≠ id) }

def NoSessions (s : Sessions φ κ) : Prop :=
  (∀ id, s.made id = none) ∧ s.stored = [] ∧ ∀ r, s.requests r = none

/-- A session that the store has, or that a request still holds. -/
def Sessions.InUse (s : Sessions φ κ) (id : Nat) : Prop :=
  id ∈ s.stored ∨ ∃ r call, s.requests r = some (.holding id call)

/-- This step writes the session's `.config`. -/
def Sessions.Saves (s : Sessions φ κ) (step : SessionStep κ) (id : Nat)
    (session : KconfigSession φ κ) : Prop :=
  ∃ r now, step = .finish r now ∧ s.requests r = some (.holding id (.save true)) ∧
    s.made id = some session

/-- What a session overwrites is what it was parsed from or last wrote itself. -/
def SavesOwn (s : Sessions φ κ) (step : SessionStep κ) : Prop :=
  ∀ id session, s.Saves step id session → s.disk session.target = session.base

/-- A session saves only while no other one for the same type and family is in use. -/
def SavesAlone (s : Sessions φ κ) (step : SessionStep κ) : Prop :=
  ∀ id session, s.Saves step id session → ∀ other session', other ≠ id → s.InUse other →
    s.made other = some session' → session'.target ≠ session.target

/-- Each session in use knows the `.config` on disk. -/
structure Current (s : Sessions φ κ) : Prop where
  made : ∀ id, s.InUse id → id < s.next
  current : ∀ id session, s.InUse id → s.made id = some session →
    s.disk session.target = session.base

end Model

section Facts
variable {φ κ : Type} {k : Trees φ κ} {s t : Sessions φ κ}

theorem current_start (h : NoSessions s) : Current s := by
  obtain ⟨-, hstored, hrequests⟩ := h
  have hnone : ∀ id, ¬s.InUse id := by
    rintro id (h | ⟨r, call, h⟩)
    · simp [hstored] at h
    · simp [hrequests] at h
  exact ⟨fun id h => absurd h (hnone id), fun id _ h => absurd h (hnone id)⟩

theorem Current.frame (h : Current s) (hmade : t.made = s.made) (hdisk : t.disk = s.disk)
    (hnext : t.next = s.next) (huse : ∀ id, t.InUse id → s.InUse id) : Current t where
  made id hid := hnext ▸ h.made id (huse id hid)
  current id session hid hsession := by
    rw [hdisk]
    exact h.current id session (huse id hid) (hmade ▸ hsession)

theorem mem_reap {id now : Nat} (h : id ∈ (s.reap now).stored) : id ∈ s.stored :=
  (List.mem_filter.mp h).1

theorem mem_room {id : Nat} (h : id ∈ s.room) : id ∈ s.stored := by
  unfold Sessions.room at h
  split_ifs at h
  · exact (List.mem_filter.mp h).1
  · exact h

theorem holding_of_update {r r' id : Nat} {call : SessionCall κ} {q : Option (Request κ)}
    (h : Function.update s.requests r q r' = some (.holding id call))
    (hq : ∀ id call, q ≠ some (.holding id call)) :
    s.requests r' = some (.holding id call) := by
  by_cases hr : r' = r
  · subst hr
    rw [Function.update_self] at h
    exact absurd h (hq _ _)
  · rwa [Function.update_of_ne hr] at h

theorem Current.openStore (h : Current s) (r now : Nat) (target : Target) :
    Current { s.openStore k now target with requests := Function.update s.requests r none } := by
  have huse : ∀ id, Sessions.InUse { s.openStore k now target with
      requests := Function.update s.requests r none } id → s.InUse id ∨ id = s.next := by
    rintro id (hid | ⟨r', call, hid⟩)
    · rcases List.mem_append.mp hid with hid | hid
      · exact .inl (.inl (mem_reap (mem_room hid)))
      · exact .inr (List.mem_singleton.mp hid)
    · exact .inl (.inr ⟨r', call, holding_of_update hid fun _ _ => nofun⟩)
  refine ⟨fun id hid => ?_, fun id session hid hsession => ?_⟩
  · rcases huse id hid with hid | rfl
    · exact (h.made id hid).trans (Nat.lt_succ_self _)
    · exact Nat.lt_succ_self _
  · have hmade : Function.update s.made s.next (some (parsed k target now (s.disk target))) id =
        some session := hsession
    rcases huse id hid with hid | rfl
    · rw [Function.update_of_ne (h.made id hid).ne] at hmade
      exact h.current id session hid hmade
    · rw [Function.update_self] at hmade
      cases hmade
      rfl

theorem apply_base (call : SessionCall κ) (now : Nat) (session : KconfigSession φ κ)
    (disk : Target → Option φ) (hbase : disk session.target = session.base) :
    (call.apply k now session disk).1.target = session.target ∧
      (call.apply k now session disk).2 session.target = (call.apply k now session disk).1.base ∧
      ∀ target, target ≠ session.target → (call.apply k now session disk).2 target = disk target := by
  cases call with
  | set edit accepted => exact ⟨rfl, hbase, fun _ _ => rfl⟩
  | save written =>
    cases written with
    | false => exact ⟨rfl, hbase, fun _ _ => rfl⟩
    | true => exact ⟨rfl, Function.update_self .., fun target h => Function.update_of_ne h ..⟩
  | reset => exact ⟨rfl, rfl, fun _ _ => rfl⟩

theorem apply_disk (call : SessionCall κ) (now : Nat) (session : KconfigSession φ κ)
    (disk : Target → Option φ) (hcall : call ≠ .save true) :
    (call.apply k now session disk).2 = disk := by
  cases call with
  | set edit accepted => rfl
  | save written =>
    cases written with
    | false => rfl
    | true => exact absurd rfl hcall
  | reset => rfl

theorem Current.finish (h : Current s) {r id now : Nat} {call : SessionCall κ}
    {session : KconfigSession φ κ} (halone : SavesAlone s (.finish r now))
    (hr : s.requests r = some (.holding id call)) (hsession : s.made id = some session) :
    Current { s with
      made := Function.update s.made id (some (call.apply k now session s.disk).1)
      disk := (call.apply k now session s.disk).2
      requests := Function.update s.requests r none } := by
  have hbase := h.current id session (.inr ⟨r, call, hr⟩) hsession
  obtain ⟨htarget, hown, hothers⟩ := apply_base (k := k) call now session s.disk hbase
  have huse : ∀ other, Sessions.InUse { s with
      made := Function.update s.made id (some (call.apply k now session s.disk).1)
      disk := (call.apply k now session s.disk).2
      requests := Function.update s.requests r none } other → s.InUse other := fun other hother =>
    hother.imp_right fun ⟨r', call, hother⟩ => ⟨r', call, holding_of_update hother fun _ _ => nofun⟩
  refine ⟨fun other hother => h.made other (huse other hother), fun other session' hother hafter => ?_⟩
  have hmade : Function.update s.made id (some (call.apply k now session s.disk).1) other =
    some session' := hafter
  clear hafter
  by_cases hid : other = id
  · subst hid
    rw [Function.update_self] at hmade
    cases hmade
    rw [htarget]
    exact hown
  · rw [Function.update_of_ne hid] at hmade
    have hcurrent := h.current other session' (huse other hother) hmade
    by_cases hcall : call = .save true
    · subst hcall
      have hne := halone id session ⟨r, now, rfl, hr, hsession⟩ other session' hid
        (huse other hother) hmade
      exact (hothers _ hne).trans hcurrent
    · have hdisk := apply_disk (k := k) call now session s.disk hcall
      dsimp only
      rw [hdisk]
      exact hcurrent

theorem current_step {step : SessionStep κ} (h : Current s) (halone : SavesAlone s step)
    (hs : s.step k step = some t) : Current t := by
  cases step with
  | openCheck r target =>
    unfold Sessions.step at hs
    dsimp only at hs
    split at hs
    · cases hs
    · cases hs
      exact h
    · cases hs
      exact h.frame rfl rfl rfl fun id hid =>
        hid.imp_right fun ⟨r', call, hid⟩ => ⟨r', call, holding_of_update hid fun _ _ => nofun⟩
  | openStore r now =>
    unfold Sessions.step at hs
    dsimp only at hs
    split at hs
    · cases hs
      exact h.openStore r now _
    · cases hs
  | get r id call now =>
    unfold Sessions.step at hs
    dsimp only at hs
    split at hs
    · cases hs
    · split_ifs at hs with hid
      · cases hs
        refine h.frame rfl rfl rfl ?_
        rintro other (hother | ⟨r', call', hother⟩)
        · exact .inl (mem_reap hother)
        · by_cases hr : r' = r
          · subst hr
            dsimp only at hother
            rw [Function.update_self] at hother
            cases hother
            exact .inl (mem_reap hid)
          · dsimp only at hother
            rw [Function.update_of_ne hr] at hother
            exact .inr ⟨r', call', hother⟩
      · cases hs
        exact h.frame rfl rfl rfl fun other hother => hother.imp_left mem_reap
  | finish r now =>
    unfold Sessions.step at hs
    dsimp only at hs
    split at hs
    case h_2 => cases hs
    case h_1 id call hr =>
      split at hs
      case h_2 => cases hs
      case h_1 session hsession =>
        cases hs
        exact h.finish halone hr hsession
  | close id =>
    cases hs
    exact h.frame rfl rfl rfl fun id hid => hid.imp_left fun h => (List.mem_filter.mp h).1

/-- In a run where each session saves only while it is alone with its type and family, no
save overwrites what another session wrote. -/
theorem saves_own_alone (h : Reach (Sessions.step k) SavesAlone NoSessions s)
    (step : SessionStep κ) : SavesOwn s step := by
  have hcurrent : Current s := h.invariant (fun _ => current_start) fun _ _ _ => current_step
  rintro id session ⟨r, now, -, hr, hmade⟩
  exact hcurrent.current id session (.inr ⟨r, _, hr⟩) hmade

end Facts

/-- Trees with one boolean, and a type whose saved answer leaves it on. -/
def boolTrees : Trees Profiles.File Bool where
  parse _ saved := (Profiles.oneBool.load (saved.getD []), false)
  write _ kconf := Profiles.oneBool.writeConfig kconf

def board : Target := ⟨"board".toList, "klipper".toList⟩

def onDisk : Sessions Profiles.File Bool where
  made _ := none
  stored := []
  next := 1
  disk _ := some ["CONFIG_A=y".toList]
  requests _ := none

theorem noSessions_onDisk : NoSessions onDisk := ⟨fun _ => rfl, rfl, fun _ => rfl⟩

/-- Two sessions of the type are open at once, both clean, and one of them is closed. -/
def twoOpened : List (SessionStep Bool) :=
  [.openCheck 0 board, .openStore 0 0, .openCheck 0 board, .openStore 0 0, .close 1,
    .get 0 2 (.set (fun _ => false) true) 0]

/-- A third session is opened beside the second, which is closed without another save. -/
def thirdOpened : List (SessionStep Bool) :=
  [.openCheck 0 board, .openStore 0 0, .close 2, .get 0 3 (.save true) 0]

theorem savesAlone_of_noSave {φ κ : Type} {s : Sessions φ κ} {step : SessionStep κ}
    (h : ∀ r now, step = .finish r now → ∀ id, s.requests r ≠ some (.holding id (.save true))) :
    SavesAlone s step :=
  fun id _ ⟨r, now, hstep, hr, _⟩ => absurd hr (h r now hstep id)

theorem opened_alone : ∀ l ∈ [twoOpened, thirdOpened, [.get 0 2 (.save true) 0]], ∀ a ∈ l,
    ∀ s : Sessions Profiles.File Bool, SavesAlone s a := by
  intro l hl a ha s
  refine savesAlone_of_noSave ?_
  rintro r now rfl
  simp only [List.mem_cons, List.not_mem_nil, or_false] at hl
  rcases hl with rfl | rfl | rfl
  · simp [twoOpened] at ha
  · simp [thirdOpened] at ha
  · simp at ha

/-- The second session saves an answer while it is alone, and the third, opened then, overwrites
what it saved and nothing else. -/
theorem saves_own_alone_board :
    ∃ s, run (Sessions.step boolTrees)
        (twoOpened ++ .finish 0 0 :: .get 0 2 (.save true) 0 :: .finish 0 0 :: thirdOpened) onDisk =
          some s ∧
      s.disk board = some [Profiles.offLine] ∧
      (∃ session, s.Saves (.finish 0 0) 3 session ∧ session.target = board) ∧
      SavesOwn s (.finish 0 0) := by
  have hstart : Reach (Sessions.step boolTrees) SavesAlone NoSessions onDisk :=
    .start noSessions_onDisk
  have hopened := hstart.extend (l := twoOpened) (opened_alone _ (by simp)) rfl
  have hset := hopened.next (a := .finish 0 0) (savesAlone_of_noSave (by
    rintro r now ⟨⟩ id h
    cases h)) rfl
  have hgot := hset.extend (l := [.get 0 2 (.save true) 0]) (opened_alone _ (by simp)) rfl
  have hsaved := hgot.next (a := .finish 0 0) (by
    rintro id session ⟨r, now, ⟨⟩, hr, -⟩ other session' hne (hother | ⟨r', call, hother⟩) -
    · cases hr
      exact absurd (List.mem_singleton.mp hother) hne
    · cases hr
      by_cases hr' : r' = 0
      · subst hr'
        cases hother
        exact absurd rfl hne
      · simp [Sessions.openStore, Sessions.reap, Function.update_of_ne hr', onDisk] at hother) rfl
  exact ⟨_, rfl, rfl, ⟨_, ⟨0, 0, rfl, rfl, rfl⟩, rfl⟩,
    saves_own_alone (hsaved.extend (l := thirdOpened) (opened_alone _ (by simp)) rfl) _⟩

/-- Two clients open the type one after the other, then each sets an answer and saves. -/
def twoClients : List (SessionStep Bool) :=
  [.openCheck 0 board, .openStore 0 0, .openCheck 0 board, .openStore 0 0,
    .get 0 1 (.set (fun _ => false) true) 0, .finish 0 0, .get 0 1 (.save true) 0, .finish 0 0,
    .get 0 2 (.set (fun _ => true) true) 0, .finish 0 0, .get 0 2 (.save true) 0]

/-- The second client's save overwrites what the first one saved. -/
theorem second_save_discards :
    ∃ s, Reach (Sessions.step boolTrees) anyStep NoSessions s ∧ ¬SavesOwn s (.finish 0 0) := by
  refine ⟨_, (Reach.start noSessions_onDisk).extend (l := twoClients) (fun _ _ _ => trivial) rfl,
    fun h => ?_⟩
  have hown := h 2 _ ⟨0, 0, rfl, rfl, rfl⟩
  exact absurd hown (by decide)

end McuUpdater.Agent
