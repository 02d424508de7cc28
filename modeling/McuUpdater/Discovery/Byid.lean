import McuUpdater.Lib.PyText

/-! `discovery/byid.py` and `discovery/spec.py`: devices on the by-id bus, and the state a
firmware name stands for. -/
namespace McuUpdater.Discovery
open PyText

structure BusDevice where
  fw : Str
  chipset : Str
  serial : Str
  path : Str
  deriving DecidableEq

/-- `KATAPULT_NAMES` -/
def katapultNames : List Str := ["katapult".toList, "canboot".toList]

/-- `KLIPPER_NAMES` -/
def klipperNames : List Str := ["klipper".toList]

def stateKlipper : Str := "klipper".toList
def stateKatapult : Str := "katapult".toList
def stateOffline : Str := "offline".toList

/-- `matches[0] if len(matches) == 1 else None` -/
def theOne {α : Type*} : List α → Option α
  | [a] => some a
  | _ => none

theorem theOne_eq_some {α : Type*} {l : List α} {a : α} : theOne l = some a ↔ l = [a] := by
  match l with
  | [] => simp [theOne]
  | [b] => simp [theOne]
  | b :: c :: l => simp [theOne]

section Model
-- `str.lower`
variable (lower : Str → Str)

/-- `state_for_firmware` -/
def stateForFirmware (fw : Str) : Str :=
  if lower fw ∈ katapultNames then stateKatapult else stateKlipper

/-- A name that is neither of Klipper's nor of Katapult's is a state of its own. -/
def BusDevice.state (dev : BusDevice) : Str :=
  if lower dev.fw ∈ klipperNames then stateKlipper
  else if lower dev.fw ∈ katapultNames then stateKatapult
  else lower dev.fw

/-- The names `find_device` takes for a wanted firmware. -/
def wantedNames (fw : Str) : List Str :=
  if lower fw ∈ katapultNames then katapultNames
  else if lower fw ∈ klipperNames then klipperNames
  else [lower fw]

/-- `find_device`, over what `scan` saw. -/
def findDevice (chipset serial : Str) (fw : Option Str) (byid : List BusDevice) : Option BusDevice :=
  theOne <| byid.filter fun dev => dev.serial = serial && (chipset = [] || dev.chipset = chipset) &&
    (fw.all fun fw => decide (lower dev.fw ∈ wantedNames lower fw))

/-- `device_state` -/
def deviceState (chipset serial : Str) (byid : List BusDevice) : Str × Option Str :=
  match findDevice lower chipset serial none byid with
  | none => (stateOffline, none)
  | some dev => (dev.state lower, some dev.path)

end Model

end McuUpdater.Discovery
