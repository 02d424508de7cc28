import McuUpdater.Discovery.Byid
import McuUpdater.Registry.Types

/-! `inventory.py`: the declared identities joined with one sweep of the bus. -/
namespace McuUpdater.Inventory
open PyText Discovery Registry

inductive Kind
  | serial
  | canbusUuid
  deriving DecidableEq

def stateUnknown : Str := "unknown".toList

/-- The by-id scan, and the CAN answers keyed by lowercased uuid. -/
structure Sweep (β : Type) where
  byid : List BusDevice := []
  canbus : Str → Option β

structure Row (β : Type) where
  type : Str
  builder : Str
  kind : Kind
  id : Str
  present : Bool
  state : Str
  path : Option Str
  device : Option BusDevice
  canbus : Option β

section Model
variable (lower : Str → Str) {β : Type} (sweep : Sweep β)

def theSighting (serial : Str) (byid : List BusDevice) : Option BusDevice :=
  theOne (byid.filter (·.serial = serial))

def serialRow (entry : TypeEntry) (serial : Str) : Row β :=
  let seen := theSighting serial sweep.byid
  { type := entry.name, builder := entry.builder, kind := .serial, id := serial
    present := seen.isSome
    state := (seen.map (·.state lower)).getD stateOffline
    path := seen.map (·.path), device := seen, canbus := none }

def canbusRow (entry : TypeEntry) (uuid : Str) : Row β :=
  let cross := sweep.canbus (lower uuid)
  { type := entry.name, builder := entry.builder, kind := .canbusUuid, id := uuid
    present := cross.isSome, state := stateUnknown, path := none, device := none, canbus := cross }

/-- `build` -/
def build (entries : List TypeEntry) : List (Row β) :=
  entries.flatMap fun entry =>
    entry.serials.map (serialRow lower sweep entry) ++
      entry.canbusUuids.map (canbusRow lower sweep entry)

/-- `index(rows).get(key)`: of two rows with one key the later one is kept. -/
def rowFor (rows : List (Row β)) (type : Str) (kind : Kind) (id : Str) : Option (Row β) :=
  rows.reverse.find? fun row => row.type = type && row.kind = kind && row.id = id

end Model

variable {lower : Str → Str} {β : Type} {sweep : Sweep β} {entries : List TypeEntry} {row : Row β}

theorem mem_build : row ∈ build lower sweep entries ↔ ∃ entry ∈ entries,
    (∃ serial ∈ entry.serials, serialRow lower sweep entry serial = row) ∨
      ∃ uuid ∈ entry.canbusUuids, canbusRow lower sweep entry uuid = row := by
  simp [build, List.mem_flatMap]

theorem rowFor_serial {name serial : Str} (h : ∃ entry ∈ entries, entry.name = name ∧
    serial ∈ entry.serials) : ∃ row, rowFor (build lower sweep entries) name .serial serial = some row ∧
      row.state = ((theSighting serial sweep.byid).map (·.state lower)).getD stateOffline ∧
      row.path = (theSighting serial sweep.byid).map (·.path) := by
  obtain ⟨entry, hentry, rfl, hserial⟩ := h
  have hrow : serialRow lower sweep entry serial ∈ (build lower sweep entries).reverse :=
    List.mem_reverse.mpr (mem_build.mpr ⟨entry, hentry, .inl ⟨serial, hserial, rfl⟩⟩)
  obtain ⟨row, hfind⟩ := Option.isSome_iff_exists.mp
    (List.find?_isSome.mpr ⟨_, hrow, by simp [serialRow]⟩ :
      (rowFor (build lower sweep entries) entry.name .serial serial).isSome)
  have hkey := List.find?_some hfind
  simp only [Bool.and_eq_true, decide_eq_true_eq] at hkey
  obtain ⟨_, -, h⟩ := mem_build.mp (List.mem_reverse.mp (List.mem_of_find?_eq_some hfind))
  rcases h with ⟨other, -, he⟩ | ⟨uuid, -, he⟩
  · have hid : other = serial := by
      rw [← hkey.2, ← he]
      rfl
    refine ⟨row, hfind, ?_⟩
    rw [← he, hid]
    exact ⟨rfl, rfl⟩
  · have hkind := hkey.1.2
    rw [← he] at hkind
    exact nomatch hkind

end McuUpdater.Inventory
