import McuUpdater.Lib.Dict
import McuUpdater.Lib.PyValue

/-! `discovery/knomi_serial/` and `helpers/knomi_serial.py`: which device is on which port, as the
devices say it when they are listened to, or as the watcher's map remembers it. -/
namespace McuUpdater.KnomiSerial
open PyText PyValue Dict

structure WatcherDevice where
  deviceId : Str
  port : Str
  present : Bool
  answered : Bool
  deriving DecidableEq

abbrev Devices := List (Str × WatcherDevice)

section Model
-- `str.lower`, and `str` of a value
variable (lower : Str → Str) (text : PyVal → Str)

def itemDevice (present : Str → Bool) (answered : Bool) (item : PyVal × PyVal) :
    Option (Str × WatcherDevice) :=
  match item.2 with
  | .dict _ =>
    let port := (item.2.item "port").getD .none
    if !item.1.truthy || !port.truthy then none
    else
      let id := lower (text item.1)
      some (id, ⟨id, text port, present (text port), answered⟩)
  | _ => none

/-- The loop over the items; of two with one id the later is kept. -/
def itemDevices (present : Str → Bool) (answered : Bool) (items : List (PyVal × PyVal)) : Devices :=
  (items.filterMap (itemDevice lower text present answered)).foldl (dictPut Prod.fst) []

/-- `_parse_discovered`, marked by the helper as answered; `none` is a payload that is not JSON. -/
def heardDevices : Option PyVal → Devices
  | some (.dict items) => itemDevices lower text (fun _ => true) true items
  | _ => []

/-- `DEVICE_MAP_VERSION` -/
def deviceMapVersion : Int := 1

/-- `read_device_map`; `none` is a map that cannot be read. -/
def readDeviceMap (onDisk : Str → Bool) (file : Option PyVal) : Devices :=
  match file with
  | some data =>
    if (data.item "version").any (·.eqInt deviceMapVersion) then
      match data.item "devices" with
      | some (.dict items) => itemDevices lower text onDisk false items
      | _ => []
    else []
  | none => []

/-- What a listen pass comes to, and the watcher's map. -/
structure Sources where
  /-- what `discover` parses, `none` where it raises -/
  heard : Option (Option PyVal)
  map : Option PyVal
  onDisk : Str → Bool

/-- `KnomiSerialHelper.identify` with `ask=True` -/
def askDevices (s : Sources) : Devices :=
  match s.heard with
  | some payload => heardDevices lower text payload
  | none => (readDeviceMap lower text s.onDisk s.map).filter fun d => d.2.present

end Model

section Facts
variable {lower : Str → Str} {text : PyVal → Str} {present : Str → Bool} {answered : Bool}
  {items : List (PyVal × PyVal)} {id : Str} {d : WatcherDevice} {s : Sources}

theorem mem_itemDevices (h : (id, d) ∈ itemDevices lower text present answered items) :
    ∃ key entry port, (key, entry) ∈ items ∧ entry.item "port" = some port ∧ port.truthy = true ∧
      id = lower (text key) ∧ d = ⟨id, text port, present (text port), answered⟩ := by
  have hmem := (mem_foldl_dictPut h).resolve_right List.not_mem_nil
  obtain ⟨⟨key, entry⟩, hitem, hdevice⟩ := List.mem_filterMap.mp hmem
  unfold itemDevice at hdevice
  dsimp only at hdevice
  split at hdevice
  case h_2 => cases hdevice
  case h_1 fields =>
    split_ifs at hdevice with hblank
    cases hdevice
    simp only [Bool.or_eq_true, Bool.not_eq_true', not_or, Bool.not_eq_false] at hblank
    cases hport : (PyVal.dict fields).item "port" with
    | none =>
      rw [hport] at hblank
      exact absurd hblank.2 (by decide)
    | some port =>
      rw [hport] at hblank
      exact ⟨key, _, port, hitem, hport, hblank.2, rfl, rfl⟩

theorem heard_of_answered (h : (id, d) ∈ askDevices lower text s) (ha : d.answered = true) :
    ∃ items key entry port, s.heard = some (some (.dict items)) ∧ (key, entry) ∈ items ∧
      entry.item "port" = some port ∧ id = lower (text key) ∧ d.port = text port := by
  unfold askDevices at h
  split at h
  case h_1 payload hheard =>
    unfold heardDevices at h
    split at h
    case h_1 items =>
      obtain ⟨key, entry, port, hitem, hport, -, hid, rfl⟩ := mem_itemDevices h
      exact ⟨items, key, entry, port, hheard, hitem, hport, hid, rfl⟩
    case h_2 => cases h
  case h_2 =>
    unfold readDeviceMap at h
    have hmem := (List.mem_filter.mp h).1
    split at hmem
    · split_ifs at hmem
      · split at hmem
        · obtain ⟨_, _, _, -, -, -, -, rfl⟩ := mem_itemDevices hmem
          cases ha
        · cases hmem
      · cases hmem
    · cases hmem

/-- A device that did not answer is from the map, of a listen pass that could not run. -/
theorem remembered_of_not_answered (h : (id, d) ∈ askDevices lower text s)
    (ha : d.answered = false) : s.heard = none ∧ d.present = true ∧
      (id, d) ∈ readDeviceMap lower text s.onDisk s.map := by
  unfold askDevices at h
  split at h
  case h_1 payload hheard =>
    unfold heardDevices at h
    split at h
    · obtain ⟨_, _, _, -, -, -, -, rfl⟩ := mem_itemDevices h
      cases ha
    · cases h
  case h_2 hnone =>
    obtain ⟨hmem, hpresent⟩ := List.mem_filter.mp h
    exact ⟨hnone, hpresent, hmem⟩

end Facts

end McuUpdater.KnomiSerial
