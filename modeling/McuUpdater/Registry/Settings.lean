import McuUpdater.Registry.Config

/-! `settings.py`: the `[updater]` section of the file the registry is in. -/
namespace McuUpdater.Updater
open PyText CfgDoc Typelist

def updater : Str := "updater".toList

structure Settings where
  makeJobs : Int := 0
  cleanBeforeBuild : Bool := true
  reseedOnBuild : Bool := true
  stopServices : Option (List Str) := none
  serviceBackend : Str := "moonraker".toList
  dryRun : Bool := false
  enableFlashing : Bool := false
  allowFlashWhilePrinting : Bool := false
  logRingSize : Int := 2000
  platformioBin : Str := []
  flashtoolPath : Str := []
  uiAccentColor : Str := []
  ignoredSerials : List Str := []
  ignoredCanbusUuids : List Str := []
  deriving DecidableEq

inductive ConfigError
  | repeatedSection
  | badValue (key : Str)
  | badBackend
  deriving DecidableEq

section Loading
-- `int(text)`
variable (int : Str → Option Int)

def asBool (key raw : Str) (set : Bool → Settings) : Except ConfigError Settings :=
  match parseBool (some raw) false with
  | some value => .ok (set value)
  | none => .error (.badValue key)

def asInt (key raw : Str) (set : Int → Settings) : Except ConfigError Settings :=
  match int (strip raw) with
  | some value => .ok (set value)
  | none => .error (.badValue key)

/-- One key of the section; unknown ones are ignored, and `service` is read at the end. -/
def assign (doc : CfgDocument) (s : Settings) (key : Str) : Except ConfigError Settings :=
  let name := key.map fun c => if c = '-' then '_' else c
  let raw := (doc.get updater key).getD []
  let list := (doc.getCsv updater key).getD []
  if name = "make_jobs".toList then asInt int key raw fun v => { s with makeJobs := v }
  else if name = "clean_before_build".toList then
    asBool key raw fun v => { s with cleanBeforeBuild := v }
  else if name = "reseed_on_build".toList then asBool key raw fun v => { s with reseedOnBuild := v }
  else if name = "stop_services".toList then .ok { s with stopServices := some list }
  else if name = "service_backend".toList then .ok { s with serviceBackend := strip raw }
  else if name = "dry_run".toList then asBool key raw fun v => { s with dryRun := v }
  else if name = "enable_flashing".toList then asBool key raw fun v => { s with enableFlashing := v }
  else if name = "allow_flash_while_printing".toList then
    asBool key raw fun v => { s with allowFlashWhilePrinting := v }
  else if name = "log_ring_size".toList then asInt int key raw fun v => { s with logRingSize := v }
  else if name = "platformio_bin".toList then .ok { s with platformioBin := strip raw }
  else if name = "flashtool_path".toList then .ok { s with flashtoolPath := strip raw }
  else if name = "ui_accent_color".toList then
    .ok { s with uiAccentColor := if strip raw = [] then [] else '#' :: strip raw }
  else if name = "ignored_serials".toList then .ok { s with ignoredSerials := list }
  else if name = "ignored_canbus_uuids".toList then .ok { s with ignoredCanbusUuids := list }
  else .ok s

/-- `doc.options(section)` -/
def options (doc : CfgDocument) (name : Str) : List Str :=
  ((doc.section? name).elim [] fun sec => (items sec.body).filterMap keyOf).eraseDups

/-- `_settings_from_doc` -/
def settingsFromDoc (doc : CfgDocument) : Except ConfigError Settings := do
  if 1 < doc.names.count updater then .error .repeatedSection
  let keys := options doc updater
  let s ← keys.foldlM (assign int doc) {}
  let named := keys.any fun key => key.map (fun c => if c = '-' then '_' else c) = "stop_services".toList
  let legacy := strip ((doc.get updater "service".toList).getD [])
  let s := if !named ∧ legacy ≠ [] then { s with stopServices := some [legacy] } else s
  if s.serviceBackend ∈ ["moonraker".toList, "systemd".toList, "null".toList] then .ok s
  else .error .badBackend

end Loading

def boolText (b : Bool) : Str := if b then "true".toList else "false".toList

/-- The options `_write_settings` writes in turn, and those it removes. -/
def settingsWrites (s : Settings) : List (Str × Option Value) :=
  [("make_jobs".toList, some (.text (toString s.makeJobs).toList)),
    ("clean_before_build".toList, some (.text (boolText s.cleanBeforeBuild))),
    ("reseed_on_build".toList, some (.text (boolText s.reseedOnBuild))),
    ("service_backend".toList, some (.text s.serviceBackend)),
    ("dry_run".toList, some (.text (boolText s.dryRun))),
    ("enable_flashing".toList, some (.text (boolText s.enableFlashing))),
    ("allow_flash_while_printing".toList, some (.text (boolText s.allowFlashWhilePrinting))),
    ("log_ring_size".toList, some (.text (toString s.logRingSize).toList)),
    ("platformio_bin".toList, some (.text s.platformioBin)),
    ("flashtool_path".toList, some (.text s.flashtoolPath)),
    ("ui_accent_color".toList, some (.text (s.uiAccentColor.dropWhile (· = '#')))),
    ("ignored_serials".toList, some (.list s.ignoredSerials)),
    ("ignored_canbus_uuids".toList, some (.list s.ignoredCanbusUuids)),
    ("stop_services".toList, s.stopServices.map fun units =>
      .text (joinWith Config.commaSpace units)),
    ("service".toList, none)]

/-- `settings.mutate`: nothing is written when the body raises or changes nothing. -/
def settingsMutate (int : Str → Option Int) (text : Str)
    (body : Settings → Except ConfigError Settings) : Except ConfigError Str := do
  let doc := CfgDocument.ofText text
  let before ← settingsFromDoc int doc
  let current ← body before
  if current = before then .ok text
  else .ok ((settingsWrites current).foldl (Config.writeOption updater) doc).render

end McuUpdater.Updater
