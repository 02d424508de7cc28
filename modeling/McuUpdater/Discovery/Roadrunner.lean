import McuUpdater.Discovery.Bootsel
import McuUpdater.Lib.Except

/-! `discovery/roadrunner.py`: the Roadrunners on the bus, and the wait for one that was sent to
BOOTSEL to leave its socket. -/
namespace McuUpdater.Roadrunner
open PyText ExceptList
open Kconfig (basename)
open Bootsel (sorted joinPath)

/-- What discovery reads of a device in sysfs. -/
structure UsbDevice where
  name : Str
  product : Option Str
  manufacturer : Option Str
  deriving DecidableEq

structure RoadrunnerDevice where
  serial : Str
  port : Str
  topology : UsbDevice

/-- What `os.listdir` of the by-id directory gives, or why it raises. -/
inductive Listing
  | names (names : List Str)
  /-- the last serial device has left, and the directory with it -/
  | absent
  | unreadable
  deriving DecidableEq

/-- One look at the bus. -/
structure BusView where
  serialById : Str
  listing : Listing
  /-- `usb.collect`, or that its root cannot be read -/
  inventory : Option (List UsbDevice)
  realpath : Str → Str
  /-- `usb.device_for_tty` -/
  deviceForTty : List UsbDevice → Str → Option UsbDevice

/-- A character of `[A-Z0-9-]`. -/
def isSerialChar (c : Char) : Bool := c.isUpper || c.isDigit || c = '-'

/-- The group of `_ENTRY_RE` in this name. -/
def entrySerial (name : Str) : Option Str :=
  (after "usb-Vylyne_Roadrunner_".toList name).bind fun s =>
    let serial := s.take (s.length - "-if00".toList.length)
    (after "RR-".toList serial).bind fun rest =>
      if "-if00".toList.isSuffixOf s && rest ≠ [] && rest.all isSerialChar then some serial else none

def UsbDevice.isRoadrunner (d : UsbDevice) : Bool :=
  d.manufacturer = some "Vylyne".toList && d.product = some "Roadrunner".toList

structure Candidate where
  serial : Str
  port : Str
  topology : UsbDevice
  deriving DecidableEq

def BusView.portOf (view : BusView) (name : Str) : Str :=
  view.realpath (joinPath view.serialById name)

/-- Why a look at the bus raises `OSError`. -/
inductive OSError
  | listing
  | inventory
  | unconfirmed (name : Str)
  deriving DecidableEq

def BusView.topologyOf (view : BusView) (inventory : List UsbDevice) (name : Str) :
    Option UsbDevice := view.deviceForTty inventory (basename (view.portOf name))

/-- The candidate of one entry, if it is one's. -/
def entryCandidate (strict : Bool) (view : BusView) (inventory : List UsbDevice) (name : Str) :
    Except OSError (List Candidate) :=
  match entrySerial name with
  | none => .ok []
  | some serial =>
    match (view.topologyOf inventory name).filter UsbDevice.isRoadrunner with
    | some topology => .ok [⟨serial, view.portOf name, topology⟩]
    | none => if strict then .error (.unconfirmed name) else .ok []

/-- `_entry_candidates` -/
def entryCandidates (strict : Bool) (view : BusView) : Except OSError (List Candidate) :=
  match view.listing, view.inventory with
  | .absent, _ | .unreadable, _ => if strict then .error .listing else .ok []
  | .names names, some inventory =>
    ((sorted names).mapM (entryCandidate strict view inventory)).map List.flatten
  | .names names, none =>
    if strict then .error .inventory
    else ((sorted names).mapM (entryCandidate strict view [])).map List.flatten

structure RoadrunnerError where
  code : Str
  message : Str
  serial : Str
  deriving DecidableEq

def timeoutError (unknown : Bool) (device : RoadrunnerDevice) : RoadrunnerError where
  code := "reenumerate_timeout".toList
  message :=
    (if unknown then "Could not confirm that the Roadrunner CDC device disappeared"
      else "Roadrunner CDC device did not disappear after the BOOTSEL request").toList
  serial := device.serial

/-- One look of the wait, and whether the deadline has passed after it. -/
structure Look where
  view : BusView
  late : Bool

/-- No candidate that was found is on the old topology. -/
def cleared (device : RoadrunnerDevice) (candidates : List Candidate) : Bool :=
  !candidates.any fun c => c.topology.name = device.topology.name

/-- `_await_disappearance`; with no look left it still waits. -/
def awaitDisappearance (device : RoadrunnerDevice) :
    List Look → Option (Except RoadrunnerError UsbDevice)
  | [] => none
  | look :: looks =>
    let late (unknown : Bool) :=
      if look.late then some (.error (timeoutError unknown device))
      else awaitDisappearance device looks
    match entryCandidates true look.view with
    | .error _ => late true
    | .ok candidates => if cleared device candidates then some (.ok device.topology) else late false

/-! ## What a look shows -/

/-- Every entry of a Roadrunner is confirmed to be on another topology. -/
def Cleared (device : RoadrunnerDevice) (view : BusView) : Prop :=
  ∃ names inventory, view.listing = .names names ∧ view.inventory = some inventory ∧
    ∀ name ∈ names, (entrySerial name).isSome → ∃ topology,
      view.topologyOf inventory name = some topology ∧ topology.isRoadrunner = true ∧
      topology.name ≠ device.topology.name

/-- A Roadrunner's entry is listed, and it is on this topology. -/
def Listed (device : RoadrunnerDevice) (view : BusView) : Prop :=
  ∃ names inventory name topology, view.listing = .names names ∧
    view.inventory = some inventory ∧ name ∈ names ∧ (entrySerial name).isSome ∧
    view.topologyOf inventory name = some topology ∧ topology.name = device.topology.name

/-- The look shows that no Roadrunner occupies the topology: there is no serial device at all, or
every Roadrunner is elsewhere. -/
def ShowsGone (device : RoadrunnerDevice) (view : BusView) : Prop :=
  view.listing = .absent ∨ Cleared device view

/-- The looks up to the first that is late. -/
def inTime : List Look → List Look
  | [] => []
  | look :: looks => if look.late then [look] else look :: inTime looks

section Facts
variable {device : RoadrunnerDevice} {view : BusView} {look : Look} {looks : List Look} {name : Str}
  {inventory : List UsbDevice} {found : List Candidate}

theorem entryCandidate_ok : entryCandidate true view inventory name = .ok found ↔
    (entrySerial name = none ∧ found = []) ∨ ∃ serial topology, entrySerial name = some serial ∧
      view.topologyOf inventory name = some topology ∧ topology.isRoadrunner = true ∧
      found = [⟨serial, view.portOf name, topology⟩] := by
  rw [entryCandidate]
  cases entrySerial name with
  | none =>
    constructor
    · intro h
      exact .inl ⟨rfl, (Except.ok.inj h).symm⟩
    · intro h
      rcases h with hnone | ⟨serial, topology, hserial, -⟩
      · rw [hnone.2]
      · cases hserial
  | some serial =>
    cases htopology : (view.topologyOf inventory name).filter UsbDevice.isRoadrunner with
    | none =>
      have hno := Option.filter_eq_none_iff.mp htopology
      refine iff_of_false (by simp) ?_
      intro hor
      rcases hor with hnone | hsome
      · cases hnone.1
      · obtain ⟨_, topology, -, hof, hroad, -⟩ := hsome
        exact hno topology hof hroad
    | some topology =>
      obtain ⟨hof, hroad⟩ := Option.filter_eq_some_iff.mp htopology
      constructor
      · intro h
        exact .inr ⟨serial, topology, rfl, hof, hroad, (Except.ok.inj h).symm⟩
      · intro h
        rcases h with hnone | ⟨serial', topology', hserial, hof', -, hfound⟩
        · cases hnone.1
        · obtain rfl : topology = topology' := Option.some.inj (hof.symm.trans hof')
          rw [hfound, Option.some.inj hserial]

/-- Where a strict look does not raise, no candidate is on the topology exactly when every entry of
a Roadrunner is confirmed elsewhere. -/
theorem cleared_iff : (∃ candidates, entryCandidates true view = .ok candidates ∧
    cleared device candidates = true) ↔ Cleared device view := by
  have hcleared : ∀ candidates, cleared device candidates = true ↔
      ∀ c ∈ candidates, c.topology.name ≠ device.topology.name := by
    intro candidates
    simp [cleared]
  constructor
  · intro h
    obtain ⟨candidates, hok, hclear⟩ := h
    rw [hcleared] at hclear
    unfold entryCandidates at hok
    split at hok
    case h_1 | h_2 | h_4 => cases hok
    case h_3 names inventory hlisting hinventory =>
      obtain ⟨founds, hmap, rfl⟩ := map_ok hok
      refine ⟨names, inventory, hlisting, hinventory, fun name hname hserial => ?_⟩
      have hsorted : name ∈ sorted names := List.mem_mergeSort.mpr hname
      obtain ⟨found, hfound⟩ := ok_of_mapM hmap hsorted
      rcases entryCandidate_ok.mp hfound with hnone | hsome
      · rw [hnone.1] at hserial
        cases hserial
      · obtain ⟨serial, topology, -, hof, hroad, rfl⟩ := hsome
        refine ⟨topology, hof, hroad, hclear ⟨serial, view.portOf name, topology⟩ ?_⟩
        exact List.mem_flatten.mpr ⟨_, (mem_mapM hmap _).mpr ⟨name, hsorted, hfound⟩, by simp⟩
  · intro h
    obtain ⟨names, inventory, hlisting, hinventory, hall⟩ := h
    have hone : ∀ name ∈ sorted names, ∃ found, entryCandidate true view inventory name = .ok found ∧
        ∀ c ∈ found, c.topology.name ≠ device.topology.name := by
      intro name hname
      cases hserial : entrySerial name with
      | none => exact ⟨[], entryCandidate_ok.mpr (.inl ⟨hserial, rfl⟩), by simp⟩
      | some serial =>
        obtain ⟨topology, hof, hroad, hne⟩ :=
          hall name (List.mem_mergeSort.mp hname) (by rw [hserial]; rfl)
        exact ⟨_, entryCandidate_ok.mpr (.inr ⟨serial, topology, hserial, hof, hroad, rfl⟩),
          by simpa using hne⟩
    obtain ⟨founds, hmap⟩ := exists_mapM_ok fun name hname =>
      (hone name hname).imp fun _ hfound => hfound.1
    refine ⟨founds.flatten, ?_, (hcleared _).mpr fun c hc => ?_⟩
    · rw [entryCandidates, hlisting, hinventory]
      change Except.map List.flatten ((sorted names).mapM (entryCandidate true view inventory)) = _
      rw [hmap]
      rfl
    · obtain ⟨found, hfound, hc⟩ := List.mem_flatten.mp hc
      obtain ⟨name, hname, hok⟩ := (mem_mapM hmap _).mp hfound
      obtain ⟨found', hok', hne⟩ := hone name hname
      obtain rfl : found = found' := Except.ok.inj (hok.symm.trans hok')
      exact hne c hc

theorem not_listed (h : Cleared device view) : ¬Listed device view := by
  intro hlisted
  obtain ⟨names, inventory, hlisting, hinventory, hall⟩ := h
  obtain ⟨names', inventory', name, topology, hlisting', hinventory', hname, hserial, hof, hsame⟩ :=
    hlisted
  obtain rfl : names = names' := Listing.names.inj (hlisting.symm.trans hlisting')
  obtain rfl : inventory = inventory' := Option.some.inj (hinventory.symm.trans hinventory')
  obtain ⟨topology', hof', -, hne⟩ := hall name hname hserial
  obtain rfl : topology = topology' := Option.some.inj (hof.symm.trans hof')
  exact hne hsame

theorem awaitDisappearance_cons (device : RoadrunnerDevice) (look : Look) (looks : List Look) :
    (Cleared device look.view ∧
      awaitDisappearance device (look :: looks) = some (.ok device.topology)) ∨
    (¬Cleared device look.view ∧ ((look.late = true ∧
      ∃ e, awaitDisappearance device (look :: looks) = some (.error e)) ∨
      (look.late = false ∧
        awaitDisappearance device (look :: looks) = awaitDisappearance device looks))) := by
  rw [← cleared_iff, awaitDisappearance]
  cases hok : entryCandidates true look.view with
  | error e => cases look.late <;> simp
  | ok candidates =>
    cases hclear : cleared device candidates with
    | true => simp [hclear]
    | false => cases look.late <;> simp [hclear]

theorem awaitDisappearance_ok {topology : UsbDevice} :
    awaitDisappearance device looks = some (.ok topology) ↔ topology = device.topology ∧
      ∃ look ∈ inTime looks, Cleared device look.view := by
  induction looks with
  | nil => simp [awaitDisappearance, inTime]
  | cons look looks ih =>
    have hin : ∀ late : Bool, look ∈ if late then [look] else look :: inTime looks := by
      intro late
      cases late <;> simp
    rw [inTime]
    rcases awaitDisappearance_cons device look looks with hclear | ⟨hnot, hlate | hearly⟩
    · rw [hclear.2, Option.some.injEq, Except.ok.injEq, eq_comm]
      exact (and_iff_left ⟨look, hin look.late, hclear.1⟩).symm
    · obtain ⟨hlate, e, he⟩ := hlate
      rw [he, hlate]
      simpa using fun _ => hnot
    · rw [hearly.2, hearly.1, ih]
      simp [hnot]

theorem awaitDisappearance_append {before : List Look} (h : awaitDisappearance device before = none)
    (rest : List Look) :
    awaitDisappearance device (before ++ rest) = awaitDisappearance device rest := by
  induction before with
  | nil => rfl
  | cons look before ih =>
    rcases awaitDisappearance_cons device look before with hclear | ⟨hnot, hlate | hearly⟩
    · rw [hclear.2] at h
      cases h
    · obtain ⟨-, e, he⟩ := hlate
      rw [he] at h
      cases h
    · rw [hearly.2] at h
      rcases awaitDisappearance_cons device look (before ++ rest) with hclear | ⟨-, hlate | hnext⟩
      · exact absurd hclear.1 hnot
      · rw [hearly.1] at hlate
        cases hlate.1
      · rw [List.cons_append, hnext.2, ih h]

theorem not_listed_of_ok {before : List Look} (hwaits : awaitDisappearance device before = none)
    {topology : UsbDevice}
    (hok : awaitDisappearance device (before ++ [look]) = some (.ok topology)) :
    ¬Listed device look.view := by
  rw [awaitDisappearance_append hwaits] at hok
  obtain ⟨-, last, hlast, hclear⟩ := awaitDisappearance_ok.mp hok
  have hone : inTime [look] = [look] := by
    rw [inTime]
    cases look.late <;> rfl
  rw [hone, List.mem_singleton] at hlast
  exact not_listed (hlast ▸ hclear)

end Facts

/-- The wait succeeds exactly if one of its looks shows that the topology is free, and never at one
that still lists a Roadrunner there. -/
def HandoffDetected (device : RoadrunnerDevice) (looks : List Look) : Prop :=
  ((∃ topology, awaitDisappearance device looks = some (.ok topology)) ↔
    ∃ look ∈ inTime looks, ShowsGone device look.view) ∧
  ∀ before look after topology, looks = before ++ look :: after →
    awaitDisappearance device before = none →
    awaitDisappearance device (before ++ [look]) = some (.ok topology) → ¬Listed device look.view

/-- `HandoffDetected` fails only where a look finds no by-id directory and none the topology
cleared. -/
theorem handoff_detected_iff (device : RoadrunnerDevice) (looks : List Look) :
    HandoffDetected device looks ↔ (∀ look ∈ inTime looks, look.view.listing ≠ .absent) ∨
      ∃ look ∈ inTime looks, Cleared device look.view := by
  have hok : (∃ topology, awaitDisappearance device looks = some (.ok topology)) ↔
      ∃ look ∈ inTime looks, Cleared device look.view := by
    constructor
    · intro h
      obtain ⟨topology, h⟩ := h
      exact (awaitDisappearance_ok.mp h).2
    · intro h
      exact ⟨device.topology, awaitDisappearance_ok.mpr ⟨rfl, h⟩⟩
  rw [HandoffDetected, hok]
  constructor
  · intro h
    by_cases hclear : ∃ look ∈ inTime looks, Cleared device look.view
    · exact .inr hclear
    · exact .inl fun look hlook habsent => hclear (h.1.mpr ⟨look, hlook, .inl habsent⟩)
  · intro h
    refine ⟨⟨fun hclear => ?_, fun hgone => ?_⟩, fun before look after topology _ hwaits hend =>
      not_listed_of_ok hwaits hend⟩
    · obtain ⟨look, hlook, hclear⟩ := hclear
      exact ⟨look, hlook, .inr hclear⟩
    · rcases h with hnone | hclear
      · obtain ⟨look, hlook, hgone⟩ := hgone
        exact ⟨look, hlook, hgone.resolve_left (hnone look hlook)⟩
      · exact hclear

def onlyBoard : RoadrunnerDevice where
  serial := "RR-0123456789ABCDEFGHJKMNPQRS".toList
  port := "/dev/ttyACM0".toList
  topology := ⟨"1-1.3".toList, some "Roadrunner".toList, some "Vylyne".toList⟩

/-- The board leaves, and the by-id directory with it. -/
def leaves : List Look :=
  let view (listing : Listing) : BusView :=
    ⟨"/dev/serial/by-id".toList, listing, some [onlyBoard.topology], fun _ => onlyBoard.port,
      fun _ _ => some onlyBoard.topology⟩
  [⟨view (.names ["usb-Vylyne_Roadrunner_RR-0123456789ABCDEFGHJKMNPQRS-if00".toList]), false⟩,
    ⟨view .absent, false⟩, ⟨view .absent, true⟩]

theorem only_board_times_out :
    (∃ look ∈ inTime leaves, ShowsGone onlyBoard look.view) ∧
      awaitDisappearance onlyBoard leaves = some (.error (timeoutError true onlyBoard)) ∧
      ¬HandoffDetected onlyBoard leaves := by
  have hgone : ∃ look ∈ inTime leaves, ShowsGone onlyBoard look.view :=
    ⟨_, List.mem_cons_of_mem _ List.mem_cons_self, .inl rfl⟩
  have htimeout : awaitDisappearance onlyBoard leaves =
      some (.error (timeoutError true onlyBoard)) := by decide +kernel
  refine ⟨hgone, htimeout, fun h => ?_⟩
  obtain ⟨topology, hok⟩ := h.1.mpr hgone
  rw [htimeout] at hok
  cases hok

end McuUpdater.Roadrunner
