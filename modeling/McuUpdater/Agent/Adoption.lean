import McuUpdater.Lib.Dict
import McuUpdater.Discovery.Dfu
import McuUpdater.Agent.Identity

/-! `flashers/pairings.py`, and `adopt_paired` of `flash.py`: boards that turn up after their
bootloader was installed. The registry, the bus, the clock and the job that records a pairing go
their own ways meanwhile. -/
namespace McuUpdater.Agent.Adoption
open PyText Transition Dict Discovery
open Identity (Board Registry allSerials names addSerial Tracked)

/-- An entry of the store, under its key. `type` is a text that is not empty, and `time` a
number, where they are. -/
structure Pairing where
  key : Str
  type : Option Str
  time : Option Int
  /-- which recording it is; no field of the source -/
  id : Nat

abbrev Store := List Pairing

def entry (data : Store) (key : Str) : Option Pairing := data.find? (·.key = key)

def pop (data : Store) (key : Str) : Store := data.filter (·.key ≠ key)

/-- `type_for`, with the entry it is of -/
def typeFor (ttl now : Int) (data : Store) (key : Str) : Option (Pairing × Str) := do
  let p ← entry data key
  let time ← p.time
  if now - time > ttl then none else p.type.map (p, ·)

/-- What `prune` keeps. -/
def prune (ttl now : Int) (data : Store) : Store :=
  data.filter fun p => p.time.any fun time => now - time ≤ ttl

/-- `candidate_keys` -/
def candidateKeys (serial : Str) : List Str :=
  match dfuSerialFor serial with
  | some derived => [derived, serial]
  | none => [serial]

/-- What a run of `adopt_paired` read: the serials and names of the registry, and the bus. -/
structure Sweep where
  serials : List Str
  names : List Str
  bus : List Board

def Sweep.attached (s : Sweep) : List Str := (s.bus.filter (·.isMcu)).map (·.serial)

/-- `find_untracked` -/
def Sweep.untracked (s : Sweep) : List Str := s.attached.filter (· ∉ s.serials)

/-- `seen` -/
def Sweep.seen (s : Sweep) (key : Str) : Nat := (s.untracked.flatMap candidateKeys).count key

/-- The key a board is adopted by, and the type. -/
def Sweep.paired (s : Sweep) (ttl now : Int) (data : Store) (serial : Str) :
    Option (Pairing × Str) :=
  (candidateKeys serial).findSome? fun key =>
    if s.seen key = 1 then typeFor ttl now data key else none

/-- A board that is to be adopted, with the store and the time of the lookup. -/
structure Chosen where
  serial : Str
  name : Str
  pairing : Pairing
  data : Store
  now : Int

inductive Phase
  | idle
  | loaded (serials names : List Str)
  /-- with the boards still to come -/
  | scanning (s : Sweep) (left : List Str)
  | chosen (s : Sweep) (c : Chosen) (left : List Str)
  /-- the registry is written, the pairing is still to be forgotten -/
  | edited (s : Sweep) (key : Str) (left : List Str)
  | forgetting (s : Sweep) (key : Str) (data : Store) (left : List Str)
  | pruning (data : Store) (now : Int)

/-- A `record` that has read the store. -/
structure Recording where
  key : Str
  name : Str
  data : Store

/-- An adoption, with the registry before it and the boards attached; no field of the source. -/
structure Adopted where
  chosen : Chosen
  registry : Registry
  attached : List Str

structure World where
  now : Int
  registry : Registry
  bus : List Board
  store : Store
  nextId : Nat
  recording : Option Recording := none
  phase : Phase := .idle
  adoptions : List Adopted := []

inductive Step
  /-- `adopt_paired` begins and loads the registry -/
  | poll
  | scan
  | look
  | edit
  /-- the registry edit raises -/
  | skip
  | forgetRead
  | forgetWrite
  | pruneRead
  | pruneWrite
  /-- `adopt_paired` raises, or its process dies -/
  | fail
  | recordRead (key name : Str)
  | recordWrite
  | recordFail
  | registry (registry : Registry)
  | hotplug (bus : List Board)
  | clock (now : Int)

section Model
variable (ttl : Int)

def step (w : World) : Step → Option World
  | .poll =>
    match w.phase with
    | .idle =>
      if w.store = [] then some w
      else some { w with phase := .loaded (allSerials w.registry) (names w.registry) }
    | _ => none
  | .scan =>
    match w.phase with
    | .loaded serials names =>
      let s : Sweep := { serials, names, bus := w.bus }
      some { w with phase := .scanning s s.untracked }
    | _ => none
  | .look =>
    match w.phase with
    | .scanning s (serial :: left) =>
      match s.paired ttl w.now w.store serial with
      | some (pairing, name) =>
        if name ∈ s.names then
          let c : Chosen := { serial, name, pairing, data := w.store, now := w.now }
          some { w with phase := .chosen s c left }
        else some { w with phase := .scanning s left }
      | none => some { w with phase := .scanning s left }
    | _ => none
  | .edit =>
    match w.phase with
    | .chosen s c left =>
      if c.name ∈ names w.registry ∧
          c.serial ∉ allSerials (w.registry.filter (·.name = c.name)) then
        some { w with
          registry := addSerial w.registry c.name c.serial
          phase := .edited s c.pairing.key left
          adoptions := { chosen := c, registry := w.registry, attached := s.attached } ::
            w.adoptions }
      else some { w with phase := .scanning s left }
    | _ => none
  | .skip =>
    match w.phase with
    | .chosen s _ left => some { w with phase := .scanning s left }
    | _ => none
  | .forgetRead =>
    match w.phase with
    | .edited s key left =>
      match entry w.store key with
      | some _ => some { w with phase := .forgetting s key w.store left }
      | none => some { w with phase := .scanning s left }
    | _ => none
  | .forgetWrite =>
    match w.phase with
    | .forgetting s key data left =>
      some { w with store := pop data key, phase := .scanning s left }
    | _ => none
  | .pruneRead =>
    match w.phase with
    | .scanning _ [] => some { w with phase := .pruning w.store w.now }
    | _ => none
  | .pruneWrite =>
    match w.phase with
    | .pruning data now =>
      if (prune ttl now data).length ≠ data.length then
        some { w with store := prune ttl now data, phase := .idle }
      else some { w with phase := .idle }
    | _ => none
  | .fail => some { w with phase := .idle }
  | .recordRead key name =>
    match w.recording with
    | none => if key = [] then some w else some { w with recording := some ⟨key, name, w.store⟩ }
    | some _ => none
  | .recordWrite =>
    match w.recording with
    | some r =>
      let p : Pairing :=
        { key := r.key, type := if r.name = [] then none else some r.name
          time := some w.now, id := w.nextId }
      some { w with store := dictPut Pairing.key r.data p, nextId := w.nextId + 1, recording := none }
    | none => none
  | .recordFail => some { w with recording := none }
  | .registry registry => some { w with registry }
  | .hotplug bus => some { w with bus }
  | .clock now => some { w with now }

/-- The boards a sweep found untracked, and has not come to. -/
def Phase.pending : Phase → List Str
  | .scanning _ left | .edited _ _ left | .forgetting _ _ _ left => left
  | .chosen _ c left => c.serial :: left
  | _ => []

/-- The key of a pairing that has acted, and is not forgotten yet. -/
def Phase.acted : Phase → Option Str
  | .edited _ key _ | .forgetting _ key _ _ => some key
  | _ => none

/-- A `record` of another key read the store with this pairing in it, and has yet to write. -/
def Straddled (w : World) (key : Str) : Prop :=
  ∃ r, w.recording = some r ∧ r.key ≠ key ∧ ∃ p ∈ r.data, p.key = key

/-- As a sweep lists the boards, each attached one that is tracked at all was tracked by a type
of the registry's own as it was loaded, and none of these shares a key with an untracked one;
nobody else tracks a board that the sweep is yet to come to; and a pairing that has acted is
forgotten, with no `record` under way that brings it back. -/
def Careful (w : World) : Step → Prop
  | .scan => ∀ serials names, w.phase = .loaded serials names →
    let s : Sweep := { serials, names, bus := w.bus }
    (∀ serial ∈ s.attached, Tracked w.registry serial → serial ∈ serials) ∧
      ∀ a ∈ s.attached, a ∈ serials → ∀ b ∈ s.untracked, ∀ key ∈ candidateKeys a,
        key ∉ candidateKeys b
  | .registry registry => ∀ serial ∈ w.phase.pending, ¬ Tracked registry serial
  | .forgetRead => ∀ key, w.phase.acted = some key → entry w.store key = none → ¬ Straddled w key
  | .forgetWrite => ∀ key, w.phase.acted = some key → ¬ Straddled w key
  | .fail => w.phase.acted = none
  | _ => True

/-- What an adoption is made on. -/
structure Good (a : Adopted) : Prop where
  untracked : ¬ Tracked a.registry a.chosen.serial
  listed : a.chosen.name ∈ names a.registry
  keyed : a.chosen.pairing.key ∈ candidateKeys a.chosen.serial
  recorded : entry a.chosen.data a.chosen.pairing.key = some a.chosen.pairing
  mapped : a.chosen.pairing.type = some a.chosen.name
  alive : ∃ time, a.chosen.pairing.time = some time ∧ a.chosen.now - time ≤ ttl
  unique : (a.attached.filter (a.chosen.pairing.key ∈ candidateKeys ·)).length = 1

def acts (w : World) : List (Str × Nat) :=
  w.adoptions.map fun a => (a.chosen.pairing.key, a.chosen.pairing.id)

/-- Nothing has begun, and each pairing of the store is a recording of its own. -/
structure Initial (w : World) : Prop where
  phase : w.phase = .idle
  recording : w.recording = none
  adoptions : w.adoptions = []
  ids : ∀ p ∈ w.store, p.id < w.nextId

end Model

/-! What every careful run keeps. -/

section Invariant

/-- No pairing of the data has acted, but for these keys. -/
def Unspent (nextId : Nat) (acts : List (Str × Nat)) (except : Str → Prop) (data : Store) : Prop :=
  ∀ p ∈ data, p.id < nextId ∧ (¬ except p.key → (p.key, p.id) ∉ acts)

/-- A sweep that has `left` still to come. -/
structure SweepInv (registry : Registry) (s : Sweep) (left : List Str) : Prop where
  rest : left <:+ s.untracked
  clear : ∀ serial ∈ left, Tracked registry serial → ∀ key ∈ candidateKeys serial, s.seen key ≠ 1
  apart : ∀ a ∈ s.attached, a ∈ s.serials → ∀ b ∈ s.untracked, ∀ key ∈ candidateKeys a,
    key ∉ candidateKeys b

structure ChosenInv (ttl : Int) (nextId : Nat) (acts : List (Str × Nat)) (s : Sweep) (c : Chosen) :
    Prop where
  keyed : c.pairing.key ∈ candidateKeys c.serial
  seen : s.seen c.pairing.key = 1
  recorded : typeFor ttl c.now c.data c.pairing.key = some (c.pairing, c.name)
  old : c.pairing.id < nextId
  unspent : (c.pairing.key, c.pairing.id) ∉ acts

def PhaseInv (ttl : Int) (registry : Registry) (nextId : Nat) (acts : List (Str × Nat)) :
    Phase → Prop
  | .idle | .loaded _ _ => True
  | .scanning s left | .edited s _ left => SweepInv registry s left
  | .chosen s c left => SweepInv registry s (c.serial :: left) ∧ ChosenInv ttl nextId acts s c
  | .forgetting s key data left => SweepInv registry s left ∧ Unspent nextId acts (key = ·) data
  | .pruning data _ => Unspent nextId acts (fun _ => False) data

structure Inv (ttl : Int) (w : World) : Prop where
  good : ∀ a ∈ w.adoptions, Good ttl a
  once : (acts w).Nodup
  old : ∀ i ∈ acts w, i.2 < w.nextId
  store : Unspent w.nextId (acts w) (w.phase.acted = some ·) w.store
  recording : ∀ r, w.recording = some r →
    Unspent w.nextId (acts w) (fun key => w.phase.acted = some key ∨ r.key = key) r.data
  phase : PhaseInv ttl w.registry w.nextId (acts w) w.phase

variable {ttl : Int} {w w' : World} {s : Sweep} {left : List Str} {data : Store} {key : Str}
  {registry : Registry} {nextId : Nat} {spent : List (Str × Nat)} {except except' : Str → Prop}

theorem entry_spec {p : Pairing} (h : entry data key = some p) : p ∈ data ∧ p.key = key :=
  ⟨List.mem_of_find?_eq_some h, by simpa using List.find?_some h⟩

theorem typeFor_spec {now : Int} {p : Pairing} {name : Str}
    (h : typeFor ttl now data key = some (p, name)) :
    entry data key = some p ∧ p.type = some name ∧ ∃ time, p.time = some time ∧ now - time ≤ ttl := by
  unfold typeFor at h
  obtain ⟨q, hq, h⟩ := Option.bind_eq_some_iff.mp h
  obtain ⟨time, htime, h⟩ := Option.bind_eq_some_iff.mp h
  split_ifs at h with hlate
  obtain ⟨type, htype, heq⟩ := Option.map_eq_some_iff.mp h
  obtain ⟨rfl, rfl⟩ : q = p ∧ type = name := by simpa using heq
  exact ⟨hq, htype, time, htime, by omega⟩

theorem paired_spec {now : Int} {serial : Str} {p : Pairing} {name : Str}
    (h : s.paired ttl now data serial = some (p, name)) :
    p.key ∈ candidateKeys serial ∧ s.seen p.key = 1 ∧ p ∈ data ∧
      typeFor ttl now data p.key = some (p, name) := by
  obtain ⟨key, hkey, h⟩ := List.exists_of_findSome?_eq_some h
  split_ifs at h with hseen
  obtain ⟨hmem, rfl⟩ := entry_spec (typeFor_spec h).1
  exact ⟨hkey, hseen, hmem, h⟩

/-! Boards that yield a key. -/

theorem length_filter_le_count (l : List Str) (key : Str) :
    (l.filter (key ∈ candidateKeys ·)).length ≤ (l.flatMap candidateKeys).count key := by
  induction l with
  | nil => simp
  | cons serial l ih =>
    rw [List.flatMap_cons, List.count_append, List.filter_cons]
    split_ifs with hmem
    · have hpos : 1 ≤ (candidateKeys serial).count key :=
        List.count_pos_iff.mpr (by simpa using hmem)
      rw [List.length_cons]
      omega
    · omega

/-- The one untracked board that yields a key is the one attached board that does, where no
tracked one shares a key with an untracked one. -/
theorem SweepInv.unique {serial : Str} (h : SweepInv registry s left) (hmem : serial ∈ s.untracked)
    (hkey : key ∈ candidateKeys serial) (hseen : s.seen key = 1) :
    (s.attached.filter (key ∈ candidateKeys ·)).length = 1 := by
  have hsame : s.attached.filter (key ∈ candidateKeys ·) =
      s.untracked.filter (key ∈ candidateKeys ·) := by
    rw [Sweep.untracked, List.filter_filter]
    refine List.filter_congr fun a ha => ?_
    by_cases hin : key ∈ candidateKeys a
    · have hnot : a ∉ s.serials := fun hold => h.apart a ha hold serial hmem key hin hkey
      simp [hin, hnot]
    · simp [hin]
  have hle := length_filter_le_count s.untracked key
  rw [Sweep.seen] at hseen
  have hpos : 0 < (s.untracked.filter (key ∈ candidateKeys ·)).length :=
    List.length_pos_of_mem (List.mem_filter.mpr ⟨hmem, by simpa using hkey⟩)
  rw [hsame]
  omega

/-- A board that is listed twice yields no key once. -/
theorem seen_ne_one_of_twice {serial : Str} (h : (serial :: left) <:+ s.untracked)
    (hmem : serial ∈ left) (hkey : key ∈ candidateKeys serial) : s.seen key ≠ 1 := by
  have hle := length_filter_le_count s.untracked key
  obtain ⟨before, heq⟩ := h
  have htwo : 2 ≤ (s.untracked.filter (key ∈ candidateKeys ·)).length := by
    have hpos : 0 < (left.filter (key ∈ candidateKeys ·)).length :=
      List.length_pos_of_mem (List.mem_filter.mpr ⟨hmem, by simpa using hkey⟩)
    rw [← heq, List.filter_append, List.filter_cons_of_pos (by simpa using hkey),
      List.length_append, List.length_cons]
    omega
  rw [Sweep.seen]
  omega

theorem SweepInv.tail {serial : Str} (h : SweepInv registry s (serial :: left)) :
    SweepInv registry s left where
  rest := (List.suffix_cons serial left).trans h.rest
  clear other hother := h.clear other (List.mem_cons_of_mem _ hother)
  apart := h.apart

theorem Unspent.mono (h : Unspent nextId spent except data)
    (himp : ∀ key, except key → except' key) : Unspent nextId spent except' data :=
  fun p hp => ⟨(h p hp).1, fun hno => (h p hp).2 fun hyes => hno (himp p.key hyes)⟩

theorem Unspent.sub {data' : Store} (h : Unspent nextId spent except data)
    (hsub : ∀ p ∈ data', p ∈ data) : Unspent nextId spent except data' :=
  fun p hp => h p (hsub p hp)

theorem Unspent.spend {i : Str × Nat} (h : Unspent nextId spent except data)
    (himp : ∀ key, except key → except' key) (hkey : except' i.1) :
    Unspent nextId (i :: spent) except' data := by
  refine fun p hp => ⟨(h p hp).1, fun hno hmem => ?_⟩
  rcases List.mem_cons.mp hmem with heq | hmem
  · exact hno (by simpa [← heq] using hkey)
  · exact (h p hp).2 (fun hyes => hno (himp p.key hyes)) hmem

theorem Unspent.later (h : Unspent nextId spent except data) :
    Unspent (nextId + 1) spent except data :=
  fun p hp => ⟨Nat.lt_succ_of_lt (h p hp).1, (h p hp).2⟩

theorem PhaseInv.later {phase : Phase} (h : PhaseInv ttl registry nextId spent phase) :
    PhaseInv ttl registry (nextId + 1) spent phase := by
  cases phase with
  | chosen s c left =>
    obtain ⟨hsweep, hkeyed, hseen, hrecorded, hold, hunspent⟩ := h
    exact ⟨hsweep, hkeyed, hseen, hrecorded, Nat.lt_succ_of_lt hold, hunspent⟩
  | forgetting s key data left => exact ⟨h.1, h.2.later⟩
  | pruning data now =>
    have hdata : Unspent nextId spent (fun _ => False) data := h
    exact hdata.later
  | _ => exact h

theorem Inv.to {phase : Phase} (h : Inv ttl w) (hacted : phase.acted = w.phase.acted)
    (hphase : PhaseInv ttl w.registry w.nextId (acts w) phase) : Inv ttl { w with phase } := by
  refine ⟨h.good, h.once, h.old, ?_, fun r hr => ?_, hphase⟩
  · change Unspent w.nextId (acts w) (phase.acted = some ·) w.store
    rw [hacted]
    exact h.store
  · change Unspent w.nextId (acts w) (fun key => phase.acted = some key ∨ r.key = key) r.data
    rw [hacted]
    exact h.recording r hr

theorem Inv.start (h : Initial w) : Inv ttl w where
  good := by simp [h.adoptions]
  once := by simp [acts, h.adoptions]
  old := by simp [acts, h.adoptions]
  store p hp := ⟨h.ids p hp, by simp [acts, h.adoptions]⟩
  recording := by simp [h.recording]
  phase := by simp [h.phase, PhaseInv]

theorem Inv.scan (h : Inv ttl w) (hc : Careful w .scan) (hs : step ttl w .scan = some w') :
    Inv ttl w' := by
  simp only [step] at hs
  split at hs
  · rename_i serials names hphase
    cases hs
    obtain ⟨hlisted, hapart⟩ := hc serials names hphase
    refine h.to (by rw [hphase]; rfl) ⟨List.suffix_refl _, fun serial hmem htracked => ?_, hapart⟩
    obtain ⟨hmem, hnot⟩ := List.mem_filter.mp hmem
    exact absurd (hlisted serial hmem htracked) (by simpa using hnot)
  · cases hs

theorem Inv.look (h : Inv ttl w) (hs : step ttl w .look = some w') : Inv ttl w' := by
  simp only [step] at hs
  split at hs
  · rename_i s serial left hphase
    have hsweep : SweepInv w.registry s (serial :: left) := by
      have hinv := h.phase
      rwa [hphase] at hinv
    have hacted : w.phase.acted = none := by rw [hphase]; rfl
    split at hs
    · rename_i pairing name hpaired
      obtain ⟨hkeyed, hseen, hmem, hrecorded⟩ := paired_spec hpaired
      split_ifs at hs
      · cases hs
        obtain ⟨hold, hunspent⟩ := h.store pairing hmem
        exact h.to hacted.symm
          ⟨hsweep, hkeyed, hseen, hrecorded, hold, hunspent (by rw [hacted]; nofun)⟩
      · cases hs
        exact h.to hacted.symm hsweep.tail
    · cases hs
      exact h.to hacted.symm hsweep.tail
  · cases hs

theorem Inv.edit (h : Inv ttl w) (hs : step ttl w .edit = some w') : Inv ttl w' := by
  simp only [step] at hs
  split at hs
  · rename_i s c left hphase
    obtain ⟨hsweep, hchosen⟩ : SweepInv w.registry s (c.serial :: left) ∧
        ChosenInv ttl w.nextId (acts w) s c := by
      have hinv := h.phase
      rwa [hphase] at hinv
    have hacted : w.phase.acted = none := by rw [hphase]; rfl
    split_ifs at hs with hadds
    · cases hs
      have huntracked : ¬ Tracked w.registry c.serial := fun htracked =>
        hsweep.clear c.serial List.mem_cons_self htracked _ hchosen.keyed hchosen.seen
      have hmem : c.serial ∈ s.untracked := hsweep.rest.subset List.mem_cons_self
      refine ⟨?good, ?once, ?old, ?store, ?recording, ?phase⟩
      case good =>
        intro a ha
        rcases List.mem_cons.mp ha with rfl | ha
        · obtain ⟨hentry, htype, halive⟩ := typeFor_spec hchosen.recorded
          exact ⟨huntracked, hadds.1, hchosen.keyed, hentry, htype, halive,
            hsweep.unique hmem hchosen.keyed hchosen.seen⟩
        · exact h.good a ha
      case once => exact List.nodup_cons.mpr ⟨hchosen.unspent, h.once⟩
      case old =>
        intro i hi
        rcases List.mem_cons.mp hi with rfl | hi
        · exact hchosen.old
        · exact h.old i hi
      case store => exact h.store.spend (fun key hkey => by simp [hacted] at hkey) rfl
      case recording =>
        exact fun r hr => (h.recording r hr).spend
          (fun key hkey => hkey.imp (fun hkey => by simp [hacted] at hkey) id) (.inl rfl)
      case phase =>
        refine ⟨hsweep.tail.rest, fun serial hleft htracked key hkey => ?_, hsweep.apart⟩
        rcases Identity.tracked_addSerial htracked with htracked | rfl
        · exact hsweep.tail.clear serial hleft htracked key hkey
        · exact seen_ne_one_of_twice hsweep.rest hleft hkey
    · cases hs
      exact h.to hacted.symm hsweep.tail
  · cases hs

/-- The pairing that has acted is gone from the store, and from what a `record` has read. -/
theorem Inv.forgotten {store : Store} (h : Inv ttl w) (hacted : w.phase.acted = some key)
    (hsweep : SweepInv w.registry s left) (hno : ¬ Straddled w key)
    (hstore : Unspent w.nextId (acts w) (key = ·) store) (hgone : ∀ p ∈ store, p.key ≠ key) :
    Inv ttl { w with store, phase := .scanning s left } := by
  refine ⟨h.good, h.once, h.old, fun p hp => ?_, fun r hr p hp => ?_, hsweep⟩
  · exact ⟨(hstore p hp).1, fun _ => (hstore p hp).2 fun heq => hgone p hp heq.symm⟩
  · obtain ⟨hold, hunspent⟩ := h.recording r hr p hp
    refine ⟨hold, fun hother => hunspent ?_⟩
    rintro (heq | heq)
    · obtain rfl : key = p.key := Option.some.inj (hacted.symm.trans heq)
      exact hno ⟨r, hr, fun hkey => hother (.inr hkey), p, hp, rfl⟩
    · exact hother (.inr heq)

theorem Inv.forgetRead (h : Inv ttl w) (hc : Careful w .forgetRead)
    (hs : step ttl w .forgetRead = some w') : Inv ttl w' := by
  simp only [step] at hs
  split at hs
  · rename_i s key left hphase
    have hsweep : SweepInv w.registry s left := by
      have hinv := h.phase
      rwa [hphase] at hinv
    have hacted : w.phase.acted = some key := by rw [hphase]; rfl
    have hstore : Unspent w.nextId (acts w) (key = ·) w.store :=
      h.store.mono fun k hk => Option.some.inj (hacted.symm.trans hk)
    split at hs
    · cases hs
      exact h.to hacted.symm ⟨hsweep, hstore⟩
    · rename_i hnone
      cases hs
      refine h.forgotten hacted hsweep (hc key hacted hnone) hstore fun p hp heq => ?_
      exact List.find?_eq_none.mp hnone p hp (by simpa using heq)
  · cases hs

theorem Inv.forgetWrite (h : Inv ttl w) (hc : Careful w .forgetWrite)
    (hs : step ttl w .forgetWrite = some w') : Inv ttl w' := by
  simp only [step] at hs
  split at hs
  · rename_i s key data left hphase
    cases hs
    obtain ⟨hsweep, hdata⟩ : SweepInv w.registry s left ∧
        Unspent w.nextId (acts w) (key = ·) data := by
      have hinv := h.phase
      rwa [hphase] at hinv
    have hacted : w.phase.acted = some key := by rw [hphase]; rfl
    exact h.forgotten hacted hsweep (hc key hacted) (hdata.sub fun p hp => List.mem_of_mem_filter hp)
      fun p hp => by simpa using List.of_mem_filter hp
  · cases hs

theorem Inv.recordWrite (h : Inv ttl w) (hs : step ttl w .recordWrite = some w') : Inv ttl w' := by
  simp only [step] at hs
  split at hs
  · rename_i r hr
    cases hs
    have hfresh (k : Str) : (k, w.nextId) ∉ acts w := fun hmem => (h.old _ hmem).ne rfl
    refine ⟨h.good, h.once, fun i hi => Nat.lt_succ_of_lt (h.old i hi), fun p hp => ?_,
      fun _ hnone => ?_, h.phase.later⟩
    · rcases mem_dictPut_ne hp with rfl | ⟨hp, hne⟩
      · exact ⟨Nat.lt_succ_self _, fun _ => hfresh _⟩
      obtain ⟨hold, hunspent⟩ := h.recording r hr p hp
      exact ⟨Nat.lt_succ_of_lt hold, fun hno => hunspent fun hyes => hyes.elim hno (hne ·.symm)⟩
    · cases hnone
  · cases hs

/-- The registry is edited by others. -/
theorem Inv.edited (h : Inv ttl w) (hc : ∀ serial ∈ w.phase.pending, ¬ Tracked registry serial) :
    Inv ttl { w with registry } := by
  have hclear {s : Sweep} {left : List Str} (hsweep : SweepInv w.registry s left)
      (hc : ∀ serial ∈ left, ¬ Tracked registry serial) : SweepInv registry s left :=
    ⟨hsweep.rest, fun serial hleft htracked => absurd htracked (hc serial hleft), hsweep.apart⟩
  refine ⟨h.good, h.once, h.old, h.store, h.recording, ?_⟩
  have hphase := h.phase
  change PhaseInv ttl registry w.nextId (acts w) w.phase
  cases hw : w.phase with
  | scanning s left =>
    rw [hw] at hphase hc
    exact hclear hphase hc
  | edited s key left =>
    rw [hw] at hphase hc
    exact hclear hphase hc
  | chosen s c left =>
    rw [hw] at hphase hc
    exact ⟨hclear hphase.1 hc, hphase.2⟩
  | forgetting s key data left =>
    rw [hw] at hphase hc
    exact ⟨hclear hphase.1 hc, hphase.2⟩
  | pruning data now =>
    rw [hw] at hphase
    exact hphase
  | _ => trivial

theorem Inv.pruneWrite (h : Inv ttl w) (hs : step ttl w .pruneWrite = some w') : Inv ttl w' := by
  simp only [step] at hs
  split at hs
  · rename_i data now hphase
    have hdata : Unspent w.nextId (acts w) (fun _ => False) data := by
      have hinv := h.phase
      rwa [hphase] at hinv
    have hacted : w.phase.acted = none := by rw [hphase]; rfl
    have hidle : Inv ttl { w with phase := Phase.idle } := h.to hacted.symm trivial
    split_ifs at hs
    · cases hs
      refine ⟨h.good, h.once, h.old, ?_, hidle.recording, trivial⟩
      exact (hdata.mono fun _ => False.elim).sub fun p hp => List.mem_of_mem_filter hp
    · cases hs
      exact hidle
  · cases hs

theorem Inv.step {a : Step} (h : Inv ttl w) (hc : Careful w a) (hs : step ttl w a = some w') :
    Inv ttl w' := by
  cases a with
  | poll =>
    simp only [Adoption.step] at hs
    split at hs
    · rename_i hphase
      split_ifs at hs
      · exact Option.some.inj hs ▸ h
      · cases hs
        exact h.to (by rw [hphase]; rfl) trivial
    · cases hs
  | scan => exact h.scan hc hs
  | look => exact h.look hs
  | edit => exact h.edit hs
  | skip =>
    simp only [Adoption.step] at hs
    split at hs
    · rename_i s c left hphase
      cases hs
      have hinv := h.phase
      rw [hphase] at hinv
      exact h.to (by rw [hphase]; rfl) hinv.1.tail
    · cases hs
  | forgetRead => exact h.forgetRead hc hs
  | forgetWrite => exact h.forgetWrite hc hs
  | pruneRead =>
    simp only [Adoption.step] at hs
    split at hs
    · rename_i s hphase
      cases hs
      have hstore := h.store
      rw [hphase] at hstore
      have hdata : Unspent w.nextId (acts w) (fun _ => False) w.store := hstore.mono nofun
      exact h.to (by rw [hphase]; rfl) hdata
    · cases hs
  | pruneWrite => exact h.pruneWrite hs
  | fail =>
    cases hs
    exact h.to hc.symm trivial
  | recordRead key name =>
    simp only [Adoption.step] at hs
    split at hs
    · split_ifs at hs
      · exact Option.some.inj hs ▸ h
      · cases hs
        refine ⟨h.good, h.once, h.old, h.store, ?_, h.phase⟩
        rintro r ⟨⟩
        exact h.store.mono fun _ => .inl
    · cases hs
  | recordWrite => exact h.recordWrite hs
  | recordFail =>
    cases hs
    exact ⟨h.good, h.once, h.old, h.store, nofun, h.phase⟩
  | registry registry =>
    cases hs
    exact h.edited hc
  | hotplug bus =>
    cases hs
    exact ⟨h.good, h.once, h.old, h.store, h.recording, h.phase⟩
  | clock now =>
    cases hs
    exact ⟨h.good, h.once, h.old, h.store, h.recording, h.phase⟩

/-- Only paired boards are adopted, and by each pairing one at most. -/
theorem adopts_paired_once (h : Reach (Adoption.step ttl) Careful Initial w) :
    (∀ a ∈ w.adoptions, Good ttl a) ∧ (acts w).Nodup := by
  have hinv : Inv ttl w :=
    h.invariant (fun _ => Inv.start) fun _ _ _ hinv hc hs => hinv.step hc hs
  exact ⟨hinv.good, hinv.once⟩

end Invariant

/-- A pairing of a board that is attached, ten seconds later. -/
def late (registry : Registry) : World where
  now := 10
  registry := registry
  bus := [⟨"E0C9125B".toList, true⟩]
  store := [⟨"E0C9125B".toList, some "pico".toList, some 0, 0⟩]
  nextId := 1

theorem late_initial (registry : Registry) : Initial (late registry) :=
  ⟨rfl, rfl, rfl, by simp [late]⟩

def adopting : List Step :=
  [.poll, .scan, .look, .edit, .forgetRead, .forgetWrite, .pruneRead, .pruneWrite]

theorem adopts_paired_once_late : ∃ w,
    run (step 86400) adopting (late [⟨"pico".toList, true, []⟩]) = some w ∧
      w.adoptions.length = 1 ∧ (∀ a ∈ w.adoptions, Good 86400 a) ∧ (acts w).Nodup := by
  have hstart : Reach (step 86400) Careful Initial (late [⟨"pico".toList, true, []⟩]) :=
    .start (late_initial _)
  have hlisted := ((hstart.next (a := Step.poll) trivial rfl).next (a := Step.scan) (by
    rintro _ _ ⟨⟩
    constructor <;> simp [Sweep.attached, late, Tracked, allSerials]) rfl)
  have hedited := (hlisted.next (a := Step.look) trivial rfl).next (a := Step.edit) trivial rfl
  have hforgotten := (hedited.next (a := Step.forgetRead) (by
    rintro _ ⟨⟩ hnone
    cases hnone) rfl).next (a := Step.forgetWrite) (by
      rintro _ ⟨⟩ ⟨_, hr, -⟩
      cases hr) rfl
  exact ⟨_, rfl, rfl, adopts_paired_once
    ((hforgotten.next (a := Step.pruneRead) trivial rfl).next (a := Step.pruneWrite) trivial rfl)⟩

/-- A board that a type of another builder tracks is adopted by a pairing of its key. -/
theorem foreign_board_adopted : ∃ w,
    run (step 86400) adopting (late [⟨"pico".toList, true, []⟩,
      ⟨"roadrunner".toList, false, ["E0C9125B".toList]⟩]) = some w ∧
      ¬ ∀ a ∈ w.adoptions, Good 86400 a := by
  refine ⟨_, rfl, fun h => (h _ List.mem_cons_self).untracked ?_⟩
  exact ⟨_, List.mem_cons_of_mem _ List.mem_cons_self, List.mem_cons_self⟩

end McuUpdater.Agent.Adoption
