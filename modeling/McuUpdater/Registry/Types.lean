import McuUpdater.Lib.PyText

/-! `config.py` and `typelist.py`: the records of the type registry. -/
namespace McuUpdater.Registry
open PyText

structure MakefilePatch where
  file : Str
  line : Str
  deriving DecidableEq

def MakefilePatch.isValid (p : MakefilePatch) : Bool := !p.file.isEmpty && !p.line.isEmpty

structure FwConfig where
  extraArgs : Str := []
  makefilePatches : List MakefilePatch := []
  extraRepos : List Str := []
  deriving DecidableEq

/-- `fws` in the order the families were first asked for. -/
structure McuType where
  name : Str
  chipset : Str := []
  serials : List Str := []
  canbusUuids : List Str := []
  fws : List (Str × FwConfig) := []
  firmwares : List Str := ["klipper".toList]
  profile : Str := []
  stopServices : Option (List Str) := none
  deriving DecidableEq

/-- `_is_bootloader`, over the declared families. -/
def isBootloader (families : Str → Option Bool) (fw : Str) : Bool :=
  (families fw).getD (fw = "katapult".toList)

/-- The family a board runs. -/
def McuType.application (families : Str → Option Bool) (mcu : McuType) : Str :=
  match mcu.firmwares.find? (!isBootloader families ·) with
  | some fw => fw
  | none => mcu.firmwares.head?.getD "klipper".toList

/-- A declared type of any builder, as `typelist.read` gives it. -/
structure TypeEntry where
  name : Str
  firmwares : List Str
  chipset : Str
  serials : List Str
  canbusUuids : List Str
  stopServices : Option (List Str)
  /-- one for each declared firmware, empty where the family is not declared -/
  builders : List Str
  deriving DecidableEq

def TypeEntry.builder (e : TypeEntry) : Str := e.builders.head?.getD []

end McuUpdater.Registry
