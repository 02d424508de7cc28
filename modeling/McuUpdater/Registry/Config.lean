import McuUpdater.Registry.Typelist

/-! `config.py`: the registry, loaded from the document, edited and written back to it. -/
namespace McuUpdater.Config
open PyText Dict CfgDoc Registry Typelist

def separator : Str := "->".toList

/-- `MakefilePatch.parse` -/
def parsePatch (raw : Str) : Option MakefilePatch :=
  match partition separator raw with
  | none => none
  | some (target, line) =>
    let patch : MakefilePatch := ⟨strip target, strip line⟩
    if patch.isValid then some patch else none

/-- `MakefilePatch.render` -/
def renderPatch (p : MakefilePatch) : Str := p.file ++ ' ' :: (separator ++ ' ' :: p.line)

def extraArgsKey (fw : Str) : Str := fw ++ "_extra_args".toList
def patchesKey (fw : Str) : Str := fw ++ "_makefile_patches".toList
def extraReposKey (fw : Str) : Str := fw ++ "_extra_repos".toList

inductive Error
  | corrupt (c : ConfigCorrupt)
  | unknownType (name : Str)
  | duplicateType (name : Str)
  | invalidTypeName (name : Str)
  | serialTrackedElsewhere (serial requested : Str) (elsewhere : List Str)
  | uuidTrackedElsewhere (uuid requested : Str) (elsewhere : List Str)
  | typeHasSerials (type : Str) (serials : List Str)
  | invalidParams (key : Str)
  | unknownFirmware (fw : Str)
  deriving DecidableEq

structure Registry where
  types : List McuType
  doc : CfgDocument
  deriving DecidableEq

/-- `mcu.fw(fw)` with the options one declared family has. -/
def loadFw (doc : CfgDocument) (entry : Entry) (fws : List (Str × FwConfig)) (fw : Str) :
    Except Error (List (Str × FwConfig)) := do
  let cfg := (fws.lookup fw).getD {}
  let patches ← (doc.getList entry.section_ (patchesKey fw)).mapM fun raw =>
    match parsePatch raw with
    | some patch => .ok patch
    | none => .error (.corrupt (.badPatch entry.name raw))
  .ok (dictPut Prod.fst fws (fw,
    { extraArgs := strip ((doc.get entry.section_ (extraArgsKey fw)).getD [])
      makefilePatches := cfg.makefilePatches ++ patches
      extraRepos := doc.getList entry.section_ (extraReposKey fw) }))

def loadType (doc : CfgDocument) (entry : Entry) : Except Error McuType := do
  let fws ← entry.firmwares.foldlM (loadFw doc entry) []
  .ok { name := entry.name, chipset := entry.chipset, serials := entry.serials
        canbusUuids := entry.canbusUuids, fws, firmwares := entry.firmwares
        profile := strip ((doc.get entry.section_ "kconfig_make_profile".toList).getD [])
        stopServices := doc.getCsv entry.section_ "stop_services".toList }

def isKconfig (entry : Entry) : Bool := entry.builder = kconfigMake

/-- `_from_doc`: the types of other builders stay in the document alone. -/
def fromDoc (doc : CfgDocument) : Except Error Registry := do
  let families := loadFromDoc doc
  let entries := read doc families
  (validate doc entries families).mapError .corrupt
  let types ← (entries.filter isKconfig).mapM (loadType doc)
  .ok ⟨types.foldl (dictPut McuType.name) [], doc⟩

/-- The registry as `mutate` reads it under its lock. -/
def load (text : Str) : Except Error Registry := do
  let doc ← (readDoc text).mapError .corrupt
  fromDoc doc

def commaSpace : Str := ", ".toList

/-- The options `_save` writes for one type in turn, and those it removes. -/
def writes (fwNames : List Str) (mcu : McuType) : List (Str × Option Value) :=
  [("chipset".toList, some (.text mcu.chipset)),
    ("serials".toList, some (.list mcu.serials)),
    ("canbus_uuids".toList, if mcu.canbusUuids = [] then none else some (.list mcu.canbusUuids)),
    ("firmware".toList, some (.text (joinWith commaSpace mcu.firmwares))),
    ("kconfig_make_profile".toList,
      if strip mcu.profile = [] then none else some (.text (strip mcu.profile))),
    ("stop_services".toList, mcu.stopServices.map fun units => .text (joinWith commaSpace units)),
    ("katapult_installed".toList, none)] ++
  (mcu.fws.map Prod.fst ++ fwNames).eraseDups.flatMap fun fw =>
    -- a family the type holds no slot for has its options removed
    let cfg := (mcu.fws.lookup fw).getD {}
    let args := strip cfg.extraArgs
    let valid := cfg.makefilePatches.filter (·.isValid)
    [(extraArgsKey fw, if args = [] then none else some (.text args)),
      (patchesKey fw, if valid = [] then none else some (.list (valid.map renderPatch))),
      (extraReposKey fw, if cfg.extraRepos = [] then none else some (.list cfg.extraRepos))]

/-- `doc.set` or `doc.remove_option` -/
def writeOption (section_ : Str) (doc : CfgDocument) (write : Str × Option Value) : CfgDocument :=
  match write.2 with
  | some value => doc.set section_ write.1 value
  | none => doc.removeOption section_ write.1

def saveType (fwNames : List Str) (doc : CfgDocument) (mcu : McuType) : CfgDocument :=
  (writes fwNames mcu).foldl (writeOption (sectionFor doc mcu.name)) doc

namespace Registry
variable (reg : Registry) (name : Str)

/-- The document `_save` writes, before it is checked. -/
def saved : CfgDocument :=
  reg.types.foldl (saveType (namesOf (loadFromDoc reg.doc))) reg.doc

/-- `_save`: the text the file is replaced by. -/
def save : Except Error Str := do
  let families := loadFromDoc reg.doc
  (validate reg.saved (read reg.saved families) families).mapError .corrupt
  .ok reg.saved.render

/-! ## Lookups -/

/-- `self.types[name]` -/
def get? : Option McuType := reg.types.find? (·.name = name)

/-- `get` -/
def get : Except Error McuType :=
  match reg.get? name with
  | some mcu => .ok mcu
  | none => .error (.unknownType name)

/-- `declared_type_names`, in file order -/
def declaredTypeNames : List Str := (readSections reg.doc).map (·.name)

/-- `_declared_section` -/
def declaredSection : Except Error Str :=
  match (readSections reg.doc).find? (·.name = name) with
  | some declared => .ok declared.section_
  | none => .error (.unknownType name)

/-- `get_declared_chipset` -/
def getDeclaredChipset : Except Error Str :=
  match reg.get? name with
  | some mcu => .ok mcu.chipset
  | none => do
    let sec ← reg.declaredSection name
    .ok (strip ((reg.doc.get sec "chipset".toList).getD []))

/-- `all_serials` -/
def allSerials : List Str := reg.types.flatMap (·.serials)

/-- `find_declared_types_for_serial` -/
def findDeclaredTypesForSerial (serial : Str) : List Str :=
  ((readSections reg.doc).filter fun declared =>
    serial ∈ reg.doc.getList declared.section_ "serials".toList).map (·.name)

/-- `find_declared_types_for_uuid` -/
def findDeclaredTypesForUuid (uuid : Str) : List Str :=
  ((readSections reg.doc).filter fun declared =>
    uuid ∈ reg.doc.getList declared.section_ "canbus_uuids".toList).map (·.name)

/-- `declared_serials` -/
def declaredSerials : Except Error (List Str) :=
  match reg.get? name with
  | some mcu => .ok mcu.serials
  | none => do
    let sec ← reg.declaredSection name
    .ok (reg.doc.getList sec "serials".toList)

/-! ## Edits -/

/-- `self.types[name]` changed in place. -/
def modify (f : McuType → McuType) : Registry :=
  { reg with types := reg.types.map fun mcu => if mcu.name = name then f mcu else mcu }

/-- `add_serial` and `add_canbus_uuid`, `remove_serial` and `remove_canbus_uuid`, of a type
held in memory. -/
def addSerial (serial : Str) : Registry :=
  reg.modify name fun mcu =>
    if serial ∈ mcu.serials then mcu else { mcu with serials := mcu.serials ++ [serial] }

def addCanbusUuid (uuid : Str) : Registry :=
  reg.modify name fun mcu =>
    if uuid ∈ mcu.canbusUuids then mcu else { mcu with canbusUuids := mcu.canbusUuids ++ [uuid] }

def removeSerial (serial : Str) : Registry :=
  reg.modify name fun mcu => { mcu with serials := mcu.serials.erase serial }

def removeCanbusUuid (uuid : Str) : Registry :=
  reg.modify name fun mcu => { mcu with canbusUuids := mcu.canbusUuids.erase uuid }

/-- `add_declared_serial` -/
def addDeclaredSerial (serial : Str) : Except Error Registry :=
  if (reg.get? name).isSome then .ok (reg.addSerial name serial)
  else do
    let sec ← reg.declaredSection name
    let serials := reg.doc.getList sec "serials".toList
    if serial ∈ serials then .ok reg
    else .ok { reg with doc := reg.doc.set sec "serials".toList (.list (serials ++ [serial])) }

/-- `remove_declared_serial` -/
def removeDeclaredSerial (serial : Str) : Except Error Registry :=
  if (reg.get? name).isSome then .ok (reg.removeSerial name serial)
  else do
    let sec ← reg.declaredSection name
    let serials := reg.doc.getList sec "serials".toList
    if serial ∉ serials then .ok reg
    else .ok { reg with doc := reg.doc.set sec "serials".toList (.list (serials.filter (· ≠ serial))) }

/-- `add_declared_canbus_uuid` -/
def addDeclaredCanbusUuid (uuid : Str) : Except Error Registry :=
  if (reg.get? name).isSome then .ok (reg.addCanbusUuid name uuid)
  else do
    let sec ← reg.declaredSection name
    let uuids := reg.doc.getList sec "canbus_uuids".toList
    if uuid ∈ uuids then .ok reg
    else .ok { reg with doc := reg.doc.set sec "canbus_uuids".toList (.list (uuids ++ [uuid])) }

/-- `remove_declared_canbus_uuid` -/
def removeDeclaredCanbusUuid (uuid : Str) : Except Error Registry :=
  if (reg.get? name).isSome then .ok (reg.removeCanbusUuid name uuid)
  else do
    let sec ← reg.declaredSection name
    let uuids := reg.doc.getList sec "canbus_uuids".toList
    if uuid ∉ uuids then .ok reg
    else
      let remaining := uuids.filter (· ≠ uuid)
      .ok { reg with doc :=
        if remaining = [] then reg.doc.removeOption sec "canbus_uuids".toList
        else reg.doc.set sec "canbus_uuids".toList (.list remaining) }

/-- `remove_declared_type`, and `_drop_section` -/
def removeDeclaredType : Except Error Registry := do
  let _ ← reg.declaredSerials name
  .ok { types := reg.types.filter (·.name ≠ name)
        doc := match reg.declaredSection name with
          | .ok sec => reg.doc.removeSection sec
          | .error _ => reg.doc }

end Registry

/-- `TYPE_NAME_RE` -/
def isNameChar (c : Char) : Bool :=
  c.isAlphanum || c = '.' || c = '_' || c = '-'

/-- `validate_type_name` -/
def validateTypeName (name : Str) : Except Error Unit :=
  if strip name = [] ∨ strip name ≠ name ∨ 64 < name.length ∨ name = ".".toList ∨
      name = "..".toList ∨ ¬ name.all isNameChar then
    .error (.invalidTypeName name)
  else .ok ()

structure NewType where
  name : Str
  chipset : Str
  klipperArgs : Str
  katapultArgs : Str
  katapultInstalled : Bool
  application : Str
  overwrite : Bool

def klipper : Str := "klipper".toList
def katapult : Str := "katapult".toList

/-- `add_type` -/
def Registry.addType (reg : Registry) (new : NewType) : Except Error Registry := do
  validateTypeName new.name
  if (reg.get? new.name).isNone ∧ new.name ∈ reg.declaredTypeNames then
    .error (.duplicateType new.name)
  if (reg.get? new.name).isSome ∧ !new.overwrite then .error (.duplicateType new.name)
  let firmwares := [new.application] ++
    if new.katapultInstalled ∧ new.application ≠ katapult then [katapult] else []
  match firmwares.find? (· ∉ (loadFromDoc reg.doc).map (·.name)) with
  | some fw => .error (.corrupt (.undeclaredFamily new.name fw))
  | none => .ok ()
  let mcu : McuType :=
    { name := new.name, chipset := new.chipset, firmwares
      fws := [(katapult, { extraArgs := new.katapultArgs }), (klipper, { extraArgs := new.klipperArgs })] }
  .ok { reg with types := dictPut McuType.name reg.types mcu }

/-- `mutate`: nothing is written when the body or the check before the write raises. -/
def mutate (text : Str) (body : Registry → Except Error Registry) : Except Error Str := do
  let reg ← load text
  let reg ← body reg
  reg.save

end McuUpdater.Config
