import McuUpdater.Registry.Settings

/-! `agent/methods/registry.py`, `tracking.py` and the edits of `adopt_paired` and the profile
methods: every way the file of the registry is changed, a call that raises leaving it alone. -/
namespace McuUpdater.Agent.RegistryApi
open PyText Dict CfgDoc Registry Typelist Config

/-- `_require_str` -/
def requireStr (key value : Str) : Except Error Str :=
  if strip value = [] then .error (.invalidParams key) else .ok (strip value)

/-- `_require_family`, over the declared families -/
def requireFamily (known : List Str) (value : Str) : Except Error Str :=
  if strip value = [] then .ok klipper
  else if strip value ∈ known then .ok (strip value)
  else .error (.unknownFirmware (strip value))

/-- `_parse_extra_repos` -/
def parseExtraRepos (value : List Str) : List Str := (value.map strip).filter (· ≠ [])

/-- `_parse_makefile_patches`, of the file and the line each entry gives -/
def parseMakefilePatches (value : List (Str × Str)) : Except Error (List MakefilePatch) :=
  value.mapM fun (file, line) =>
    let patch : MakefilePatch := ⟨strip file, strip line⟩
    if patch.isValid then .ok patch else .error (.invalidParams "makefile_patches".toList)

/-- `mcu.fw(fw)` assigned into -/
def updateFw (fw : Str) (f : FwConfig → FwConfig) (mcu : McuType) : McuType :=
  { mcu with fws := dictPut Prod.fst mcu.fws (fw, f ((mcu.fws.lookup fw).getD {})) }

/-- What a call says about one family, where it says anything. -/
structure FwArgs where
  extraArgs : Option Str := none
  extraRepos : Option (List Str) := none
  makefilePatches : Option (List (Str × Str)) := none

structure TypeAddArgs where
  name : Str
  chipset : Str
  firmware : Str := []
  katapultInstalled : Option Bool := none
  klipper : FwArgs := {}
  katapult : FwArgs := {}
  /-- the agent's call never overwrites, `add-mcu-type` always does -/
  overwrite : Bool := false

def setSlot (fw : Str) (repos : Option (List Str)) (patches : Option (List MakefilePatch))
    (mcu : McuType) : McuType :=
  let mcu := match repos with
    | some repos => updateFw fw (fun cfg => { cfg with extraRepos := repos }) mcu
    | none => mcu
  match patches with
  | some patches => updateFw fw (fun cfg => { cfg with makefilePatches := patches }) mcu
  | none => mcu

/-- `type_add` -/
def typeAdd (text : Str) (args : TypeAddArgs) : Except Error Str := do
  let name ← requireStr "name".toList args.name
  let chipset ← requireStr "chipset".toList args.chipset
  let application ← requireFamily ((loadFromDoc (.ofText text)).map (·.name)) args.firmware
  let klipperPatches ← args.klipper.makefilePatches.mapM parseMakefilePatches
  let katapultPatches ← args.katapult.makefilePatches.mapM parseMakefilePatches
  mutate text fun reg => do
    let reg ← reg.addType
      { name, chipset
        klipperArgs := strip (args.klipper.extraArgs.getD [])
        katapultArgs := strip (args.katapult.extraArgs.getD [])
        katapultInstalled := args.katapultInstalled.getD true
        application, overwrite := args.overwrite }
    .ok (reg.modify name fun mcu =>
      setSlot Config.katapult (args.katapult.extraRepos.map parseExtraRepos) katapultPatches
        (setSlot Config.klipper (args.klipper.extraRepos.map parseExtraRepos) klipperPatches mcu))

structure TypeUpdateArgs where
  name : Str
  chipset : Option Str := none
  firmware : Option Str := none
  fws : List (Str × FwArgs) := []
  katapultInstalled : Option Bool := none

/-- `fw_order` -/
def fwOrder (mcu : McuType) : List Str :=
  mcu.firmwares.filter (· ∈ mcu.fws.map Prod.fst) ++
    (mcu.fws.map Prod.fst).filter (· ∉ mcu.firmwares)

/-- `bootloader` -/
def bootloader (families : Str → Option Bool) (mcu : McuType) : Option Str :=
  mcu.firmwares.find? (isBootloader families)

/-- `families`, as `_is_bootloader` asks it -/
def familyFlags (families : List FirmwareFamily) (fw : Str) : Option Bool :=
  (families.find? (·.name = fw)).map (·.bootloader)

/-- The keys of one family in the loop of `type_update`. -/
def updateFamily (args : TypeUpdateArgs) (mcu : McuType) (fw : Str) : Except Error McuType := do
  let given := (args.fws.lookup fw).getD {}
  let mcu := match given.extraArgs with
    | some text => updateFw fw (fun cfg => { cfg with extraArgs := strip text }) mcu
    | none => mcu
  let patches ← given.makefilePatches.mapM parseMakefilePatches
  .ok (setSlot fw (given.extraRepos.map parseExtraRepos) patches mcu)

/-! The body of `type_update`, key by key. -/

def updateChipset (args : TypeUpdateArgs) (mcu : McuType) : Except Error McuType :=
  match args.chipset with
  | some chipset => do
    let chipset ← requireStr "chipset".toList chipset
    .ok { mcu with chipset }
  | none => .ok mcu

def updateFirmware (families : List FirmwareFamily) (args : TypeUpdateArgs) (mcu : McuType) :
    Except Error McuType :=
  match args.firmware with
  | some value => do
    let application ← requireFamily (families.map (·.name)) value
    if application = mcu.application (familyFlags families) then .ok mcu
    else .ok { mcu with firmwares := application :: (bootloader (familyFlags families) mcu).toList }
  | none => .ok mcu

def updateInstalled (args : TypeUpdateArgs) (mcu : McuType) : McuType :=
  match args.katapultInstalled with
  | some installed =>
    let others := mcu.firmwares.filter (· ≠ Config.katapult)
    { mcu with firmwares := others ++ if installed then [Config.katapult] else [] }
  | none => mcu

def updateType (families : List FirmwareFamily) (args : TypeUpdateArgs) (mcu : McuType) :
    Except Error McuType := do
  let mcu ← updateChipset args mcu
  let mcu ← updateFirmware families args mcu
  let mcu ← (fwOrder mcu).foldlM (updateFamily args) mcu
  .ok (updateInstalled args mcu)

/-- `type_update` -/
def typeUpdate (text : Str) (args : TypeUpdateArgs) : Except Error Str := do
  let name ← requireStr "name".toList args.name
  mutate text fun reg => do
    let mcu ← reg.get name
    let mcu ← updateType (loadFromDoc (.ofText text)) args mcu
    .ok (reg.modify name fun _ => mcu)

/-- `type_remove`; `remove_type` of the command line is a forced one. -/
def typeRemove (text name : Str) (force : Bool) : Except Error Str := do
  let name ← requireStr "name".toList name
  mutate text fun reg => do
    let serials ← reg.declaredSerials name
    if serials ≠ [] ∧ !force then .error (.typeHasSerials name serials)
    reg.removeDeclaredType name

/-- `_record`: `add_serial` once the serial is found trackable. -/
def serialAdd (text name serial : Str) : Except Error Str :=
  mutate text fun reg => do
    let _ ← reg.getDeclaredChipset name
    let elsewhere := (reg.findDeclaredTypesForSerial serial).filter (· ≠ name)
    if elsewhere ≠ [] then .error (.serialTrackedElsewhere serial name elsewhere)
    reg.addDeclaredSerial name serial

/-- `remove_serial` -/
def serialRemove (text name serial : Str) : Except Error Str :=
  mutate text fun reg => do
    let _ ← reg.getDeclaredChipset name
    reg.removeDeclaredSerial name serial

/-- `canbus_add` -/
def canbusAdd (text name uuid : Str) : Except Error Str := do
  let name ← requireStr "name".toList name
  let uuid ← requireStr "uuid".toList uuid
  mutate text fun reg => do
    let _ ← reg.getDeclaredChipset name
    let elsewhere := (reg.findDeclaredTypesForUuid uuid).filter (· ≠ name)
    if elsewhere ≠ [] then .error (.uuidTrackedElsewhere uuid name elsewhere)
    reg.addDeclaredCanbusUuid name uuid

/-- `canbus_remove` -/
def canbusRemove (text name uuid : Str) : Except Error Str := do
  let name ← requireStr "name".toList name
  let uuid ← requireStr "uuid".toList uuid
  mutate text fun reg => do
    let _ ← reg.getDeclaredChipset name
    reg.removeDeclaredCanbusUuid name uuid

/-- `adopt_paired` for one board on the bus: `find_untracked` passes over those that a kconfig
type has, and leaves the file alone. -/
def adopt (text mcuType serial : Str) : Except Error Str := do
  let reg ← load text
  if serial ∈ reg.allSerials then .ok text
  else
    mutate text fun reg => do
      let _ ← reg.get mcuType
      .ok (reg.addSerial mcuType serial)

/-- The edit of `profile_apply` and `profile_forget`. -/
def setProfile (text name profile : Str) : Except Error Str :=
  mutate text fun reg => do
    let _ ← reg.get name
    .ok (reg.modify name fun mcu => { mcu with profile })

end McuUpdater.Agent.RegistryApi
