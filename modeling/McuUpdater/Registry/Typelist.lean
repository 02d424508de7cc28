import Mathlib.Data.Char
import Mathlib.Data.List.Lex
import McuUpdater.Registry.CfgValues
import McuUpdater.Registry.Types
import McuUpdater.Lib.Dict
import McuUpdater.Lib.Except

/-! `sections.py`, `firmware.load_from_doc` and `typelist.py`: what a document declares, and
what is refused of it. -/
namespace McuUpdater.Typelist
open PyText Dict CfgDoc Registry

def typeWord : Str := "type".toList
def firmwareWord : Str := "firmware".toList

/-! ## `sections.py` -/

structure TypeSection where
  name : Str
  section_ : Str
  deriving DecidableEq

/-- What follows the word a section name starts with, when anything does. -/
def declaredName (start name : Str) : Option Str :=
  let rest := strip (name.drop start.length)
  if rest = [] then none else some rest

/-- `sections.read` -/
def readSections (doc : CfgDocument) : List TypeSection :=
  (doc.sectionNames typeWord).filterMap fun name =>
    (declaredName typeWord name).map fun declared => ⟨declared, name⟩

/-- `section_for` -/
def sectionFor (doc : CfgDocument) (name : Str) : Str :=
  match (readSections doc).find? (·.name = name) with
  | some declared => declared.section_
  | none => typeWord ++ ' ' :: name

/-! ## `firmware.py` -/

def kconfigMake : Str := "kconfig_make".toList
def builders : List Str := ["cmake".toList, kconfigMake, "platformio".toList]
def flashersKnown : List Str :=
  ["bootsel".toList, "dfu_util".toList, "flashtool".toList, "platformio".toList]
def provisioningHelpers : List Str := ["roadrunner".toList]

structure FirmwareFamily where
  name : Str
  builder : Str
  helper : Str
  flashers : List Str
  bootloader : Bool
  autoProvision : Bool
  deriving DecidableEq

/-- `parse_bool`; only ASCII letters can spell one of the words. -/
def parseBool (raw : Option Str) (default : Bool) : Option Bool :=
  match raw with
  | none => some default
  | some raw =>
    let value := (strip raw).map Char.toLower
    if value ∈ ["true".toList, "yes".toList, "on".toList, "1".toList] then some true
    else if value ∈ ["false".toList, "no".toList, "off".toList, "0".toList] then some false
    else none

/-- `load_from_doc`; `bool(None)` is false. -/
def loadFromDoc (doc : CfgDocument) : List FirmwareFamily :=
  ((doc.sectionNames firmwareWord).filterMap fun sec =>
    (declaredName firmwareWord sec).map fun name =>
      let builder := strip ((doc.get sec "builder".toList).getD [])
      { name
        builder := if builder = [] then kconfigMake else builder
        helper := strip ((doc.get sec "helper".toList).getD [])
        flashers := (doc.getCsv sec "flashers".toList).getD []
        bootloader := (parseBool (doc.get sec "bootloader".toList) (name = "katapult".toList)).getD false
        autoProvision := (parseBool (doc.get sec "auto_provision".toList) false).getD false }).foldl
    (dictPut FirmwareFamily.name) []

/-- `names_of` -/
def namesOf (families : List FirmwareFamily) : List Str :=
  (families.map (·.name)).mergeSort fun a b => decide (a ≤ b)

/-! ## `typelist.py` -/

structure Entry extends TypeEntry where
  section_ : Str
  deriving DecidableEq

def builderOf (families : List FirmwareFamily) (fw : Str) : Str :=
  ((families.find? (·.name = fw)).map (·.builder)).getD []

/-- `read`: it never raises. -/
def read (doc : CfgDocument) (families : List FirmwareFamily) : List Entry :=
  (readSections doc).map fun declared =>
    let firmwares := (doc.getCsv declared.section_ "firmware".toList).getD []
    { name := declared.name
      section_ := declared.section_
      firmwares
      chipset := strip ((doc.get declared.section_ "chipset".toList).getD [])
      serials := doc.getList declared.section_ "serials".toList
      canbusUuids := doc.getList declared.section_ "canbus_uuids".toList
      stopServices := doc.getCsv declared.section_ "stop_services".toList
      builders := firmwares.map (builderOf families) }

inductive ConfigCorrupt
  | duplicateSections (names : List Str)
  | unknownBuilders (families : List Str)
  | noFlashers (families : List Str)
  | unknownFlashers (families : List Str)
  | cannotProvision (families : List Str)
  | renamedKey (type key : Str)
  | removedKey (type key : Str)
  | noFirmware (type : Str)
  | mixedBuilders (type : Str)
  | missing (misses : List (Str × Str))
  | badPatch (type raw : Str)
  | undeclaredFamily (type fw : Str)
  deriving DecidableEq

/-- `RENAMED_KEYS`, the old spellings, and `REMOVED_KEYS`. -/
def renamedKeys : List Str := ["env".toList, "profile".toList, "device_map".toList]
def removedKeys : List Str := ["klipper_section".toList]

/-- `refuse_renamed_keys` -/
def refuseRenamedKeys (doc : CfgDocument) (entry : Entry) : Except ConfigCorrupt Unit :=
  let has := fun key => (doc.get entry.section_ key).isSome
  match renamedKeys.find? has with
  | some key => .error (.renamedKey entry.name key)
  | none =>
    match removedKeys.find? has with
    | some key => .error (.removedKey entry.name key)
    | none => .ok ()

/-- `_refuse_family_keys` -/
def refuseFamilyKeys (families : List FirmwareFamily) : Except ConfigCorrupt Unit :=
  let noFlashers := families.filter (·.flashers = [])
  let unknown := families.filter fun family => family.flashers.any (· ∉ flashersKnown)
  let cannot := families.filter fun family =>
    family.autoProvision && family.helper ∉ provisioningHelpers
  if noFlashers ≠ [] then .error (.noFlashers (noFlashers.map (·.name)))
  else if unknown ≠ [] then .error (.unknownFlashers (unknown.map (·.name)))
  else if cannot ≠ [] then .error (.cannotProvision (cannot.map (·.name)))
  else .ok ()

/-- What the loop of `validate` refuses of one type. -/
def refuseEntry (doc : CfgDocument) (entry : Entry) : Except ConfigCorrupt Unit := do
  refuseRenamedKeys doc entry
  if entry.firmwares = [] then .error (.noFirmware entry.name)
  else if 1 < ((entry.builders.filter (· ≠ [])).eraseDups).length then
    .error (.mixedBuilders entry.name)
  else .ok ()

/-- `validate` -/
def validate (doc : CfgDocument) (entries : List Entry) (families : List FirmwareFamily) :
    Except ConfigCorrupt Unit := do
  let unknown := families.filter (·.builder ∉ builders)
  if unknown ≠ [] then .error (.unknownBuilders (unknown.map (·.name)))
  refuseFamilyKeys families
  entries.forM (refuseEntry doc)
  let known := families.map (·.name)
  let misses := entries.flatMap fun entry =>
    ((entry.firmwares.filter (· ∉ known)).eraseDups).map (entry.name, ·)
  if misses ≠ [] then .error (.missing misses) else .ok ()

/-- `read_doc` on the text of the file; no file reads as an empty one. -/
def readDoc (text : Str) : Except ConfigCorrupt CfgDocument :=
  let doc := CfgDocument.ofText text
  if doc.NoDuplicates then .ok doc
  else .error (.duplicateSections ((doc.sections.map nameOf).filter fun n =>
    1 < (doc.sections.map nameOf).count n).eraseDups)

end McuUpdater.Typelist
