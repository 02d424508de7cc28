import McuUpdater.Discovery.ByidScan
import McuUpdater.Flashers.PlatformIo
import McuUpdater.Flashers.Scan

/-! `add_mcu_start` of `agent/methods/flash.py`: a bare board of a type is found, given its first
image and waited for. What the request and the job read is given, each at its own time; the
sentences of the errors and of the log are left out. -/
namespace McuUpdater.AddMcu
open PyText Discovery Flashers Registry Typelist Dict Usb
open Kconfig (basename)
open Bootsel (bootselScan)
open Flashers.PlatformIo (PortTarget PortWrite prepared writePort)

structure Args where
  name : Str
  dfuSerial : Option Str := none
  pick : Option Str := none
  force : Bool := false

/-- A PlatformIO device that a section of printer.cfg configures. -/
structure Configured where
  resolvedPath : Option Str
  section_ : Str
  id : Option Str
  label : Str

/-- `print_state` and `idle_state` -/
structure Activity where
  printState : Option Str
  idleState : Option Str

/-- `assert_printer_idle`, over the setting that allows flashing while printing. -/
def isIdle (force allowed : Bool) (activity : Option Activity) : Bool :=
  force || allowed ||
    match activity with
    | none => true
    | some activity => activity.printState ≠ some "printing".toList &&
      activity.printState ≠ some "paused".toList && activity.idleState ≠ some "Printing".toList

/-- No print and no command was seen, unless that is no matter or could not be asked. -/
def Unbusy (force allowed : Bool) (activity : Option Activity) : Prop :=
  force = true ∨ allowed = true ∨ ∀ seen, activity = some seen →
    seen.printState ≠ some "printing".toList ∧ seen.printState ≠ some "paused".toList ∧
    seen.idleState ≠ some "Printing".toList

theorem isIdle_iff {force allowed : Bool} {activity : Option Activity} :
    isIdle force allowed activity = true ↔ Unbusy force allowed activity := by
  unfold isIdle Unbusy
  rw [Bool.or_eq_true, Bool.or_eq_true, or_assoc]
  cases activity with
  | none => exact iff_of_true (Or.inr (Or.inr rfl)) (Or.inr (Or.inr fun _ h => nomatch h))
  | some seen =>
    simp only [Bool.and_eq_true, decide_eq_true_eq, and_assoc, Option.some.injEq, forall_eq']

structure Host where
  enableFlashing : Bool
  allowFlashWhilePrinting : Bool
  entries : List TypeEntry
  families : List FirmwareFamily
  /-- `providers.staged` -/
  staged : Str → Str → Staged
  /-- whether a family's helper can ask a board for BOOTSEL -/
  requester : FirmwareFamily → Bool
  scan : ScanHost
  /-- `platformio_devices`, by type; empty where it raises -/
  configured : List (Str × List Configured)
  /-- the images and the build record, for `refuse_unbootable_first_image` -/
  images : FirstCall
  bus : List BusDevice
  /-- `_printer_activity`, `none` where it raises -/
  activity : Option Activity

inductive AddError
  | disabled
  | unknownType
  | unsupported (reason : Option String)
  | noScanner
  | unknownFlasher (e : UnknownFlasher)
  | noArtifact
  | otherFlasher (resolved : Tool)
  | unbootable (e : FirstError)
  | notFound
  | notReady (reason : Option ScanReason)
  | noDevice
  | noFlasher
  | printing

structure Job where
  entry : TypeEntry
  family : FirmwareFamily
  tool : Tool
  state : Str
  artifact : Artifact
  found : Option Found
  before : List Str

namespace Job
variable (job : Job)

def port : Option Str := job.found.bind fun f => blankToNone f.port
def dfuSerial : Option Str := job.found.bind fun f => blankToNone f.serial
def bootselId : Option Str := job.found.bind fun f => blankToNone f.id

/-- `pairing_key` -/
def pairingKey : Option Str := job.bootselId.or job.dfuSerial

end Job

/-! ## The request -/

section Request
variable (isWord isDecimal : Char → Bool) (lower : Str → Str) (host : Host) (args : Args)

def entryNamed (name : Str) : Option TypeEntry := host.entries.reverse.find? (·.name = name)

def placed (type : Str) (d : Configured) : Option ((Str × Str) × TrackedBoard) :=
  (blankToNone d.resolvedPath).map fun path => ((path, d.section_),
    { type, serial := d.id.getD [], path, label := d.label
      chipset := ((entryNamed host type).map (·.chipset)).getD [] })

def configuredBoards (type : Str) : List TrackedBoard :=
  let listed := host.configured.filter (·.1 = type) ++ host.configured.filter (·.1 ≠ type)
  ((listed.flatMap fun (name, devices) => devices.filterMap (placed host name)).foldl
    (setDefault Prod.fst) []).map Prod.snd

/-- `_tracked_boards` -/
def trackedBoards (portsFor : Option Str) : List TrackedBoard :=
  (host.entries.flatMap fun e => e.serials.map fun serial =>
    { type := e.name, serial, chipset := e.chipset }) ++
    portsFor.toList.flatMap (configuredBoards host)

/-- `first_writer` -/
def isFirstWriter (tool : Tool) : Bool := tool = .platformio

/-- `_scan` -/
def scanFor (tool : Tool) : Option CandidateScan :=
  scanCandidates isWord isDecimal lower host.scan
    (trackedBoards host (if isFirstWriter tool then some args.name else none)) (some args.name) tool

def choose (scan : CandidateScan) : Except AddError (Option Found) :=
  match args.dfuSerial with
  | some serial =>
    match scan.devices.find? (·.serial = some serial) with
    | none => .error .notFound
    | some f => .ok (some f)
  | none =>
    match args.pick with
    | some wanted =>
      match scan.devices.filter fun f => scan.picks && f.interface.getD [] = wanted with
      | [f] => .ok (some f)
      | _ => .error .notFound
    | none => if scan.ready then .ok scan.chosen else .error (.notReady scan.reason)

def printerIdle : Bool := isIdle args.force host.allowFlashWhilePrinting host.activity

/-- The refusals of `_add_by_write` -/
def checkWrite (job : Job) : Except AddError Unit :=
  match job.found with
  | none => .error .noDevice
  | some f =>
    match resolve job.family { bare job.entry job.family.name stateEspRom with
        id := f.tty, chipset := [], kind := .port } (host.requester job.family)
        (host.staged args.name job.family.name) with
    | .error e => .error (.unknownFlasher e)
    | .ok none => .error .noFlasher
    | .ok (some _) => if printerIdle host args then .ok () else .error .printing

/-- What the request still refuses once the board is chosen. -/
def checkJob (job : Job) : Except AddError Unit :=
  if isFirstWriter job.tool then checkWrite host args job else .ok ()

/-- An application has to start where the board boots. -/
def checkImage (family : FirmwareFamily) (artifact : Artifact) : Except AddError Unit :=
  if family.bootloader then .ok ()
  else (refuseUnbootableFirstImage host.images artifact).mapError .unbootable

/-- `add_mcu_start`, once the type's flasher and family are known. -/
def startWith (entry : TypeEntry) (family : FirmwareFamily) (tool : Tool) (state : Str) :
    Except AddError Job := do
  let picked ← (resolve family (bare entry family.name state) false
    (host.staged args.name family.name)).mapError .unknownFlasher
  match picked, scanFor isWord isDecimal lower host args tool with
  | _, none => .error .noScanner
  | none, _ => .error .noArtifact
  | some (resolved, artifact), some scan =>
    if resolved ≠ tool then .error (.otherFlasher resolved)
    else
      checkImage host family artifact
      let found ← choose args scan
      let job : Job :=
        { entry, family, tool, state, artifact, found, before := host.bus.map (·.serial) }
      checkJob host args job
      return job

/-- `add_mcu_start`, up to the job it submits. -/
def addMcuStart : Except AddError Job :=
  if !host.enableFlashing then .error .disabled
  else
    match entryNamed host args.name with
    | none => .error .unknownType
    | some entry =>
      let choice := firstInstall entry host.families
      match choice.flasher.bind toolOf, familyNamed host.families choice.fw with
      | some tool, some family => startWith isWord isDecimal lower host args entry family tool choice.state
      | _, _ => .error (.unsupported choice.reason)

end Request

/-! ## The job -/

structure Later where
  install : FirstCall
  entries : List TypeEntry
  looks : List NewLook

/-- What the job reports: the boards that appeared, by whether they are tracked. -/
structure Report where
  candidates : List BusDevice
  alreadyTracked : List BusDevice

structure AddRun where
  flash : FirstFlash
  pairing : Option (Str × Str)
  /-- `none` where the write failed, or it still waits -/
  report : Option Report

section Run
variable (isWord isDecimal : Char → Bool) (lower : Str → Str) (job : Job) (later : Later)

/-- The call of `flash_initial_bootloader`. -/
def Job.firstCall : FirstCall :=
  { later.install with
    fw := job.family.name
    chipset := job.entry.chipset
    state := job.state
    fwBin := if job.artifact.kind = kindBin then some job.artifact.path else none
    uf2Bin := if job.artifact.kind = kindUf2 then some job.artifact.path else none
    katapultConfig := if job.family.bootloader then later.install.katapultConfig else none
    targetSerial := job.dfuSerial }

/-- The job of `add_mcu_start`, where no first writer has the type. -/
def Job.run : AddRun :=
  let flash := flashInitialBootloader isWord isDecimal (job.firstCall later)
  match flash.result with
  | some (.ok ()) =>
    let tracked := later.entries.flatMap (·.serials)
    { flash
      pairing := job.pairingKey.map (·, job.entry.name)
      report := (waitForNewDevice lower job.before job.port later.looks).map fun appeared =>
        { candidates := appeared.filter (·.serial ∉ tracked)
          alreadyTracked := appeared.filter (·.serial ∈ tracked) } }
  | _ => { flash, pairing := none, report := none }

/-- The job of `_add_by_write`, over whether the family's helper identifies its devices. -/
def Job.runByWrite (calls : PlatformIo.Calls) (identifier : Bool) : PortWrite :=
  let target : PortTarget :=
    { type := job.entry.name
      port := job.found.map (·.tty)
      deviceId := []
      firstInstall := true
      identifier }
  writePort calls (prepared calls [target]) target

end Run

/-! ## What an accepted request has been through -/

section Request
variable (isWord isDecimal : Char → Bool) (lower : Str → Str) (host : Host) (args : Args)

/-- Which device a request means. -/
inductive Meant (scan : CandidateScan) : Option Found → Prop
  | bySerial {serial : Str} {f : Found} (given : args.dfuSerial = some serial)
      (listed : f ∈ scan.devices) (named : f.serial = some serial) : Meant scan (some f)
  | byInterface {wanted : Str} {f : Found} (given : args.pick = some wanted) (picks : scan.picks = true)
      (only : scan.devices.filter (·.interface.getD [] = wanted) = [f]) : Meant scan (some f)
  | byScan (serial : args.dfuSerial = none) (pick : args.pick = none) (ready : scan.ready = true) :
      Meant scan scan.chosen

structure Accepted (job : Job) : Prop where
  enabled : host.enableFlashing = true
  declared : job.entry ∈ host.entries ∧ job.entry.name = args.name
  family : familyNamed host.families job.family.name = some job.family
  resolved : resolve job.family (bare job.entry job.family.name job.state) false
    (host.staged args.name job.family.name) = .ok (some (job.tool, job.artifact))
  bootable : job.family.bootloader = false →
    refuseUnbootableFirstImage host.images job.artifact = .ok ()
  chosen : ∃ scan, scanFor isWord isDecimal lower host args job.tool = some scan ∧
    Meant args scan job.found
  before : job.before = host.bus.map (·.serial)
  write : isFirstWriter job.tool = true → checkWrite host args job = .ok ()

def Later.lines (later : Later) : List DfuLine :=
  dfuLines isWord isDecimal (later.install.listing.getD [])

/-- What comes of a request that was accepted, whenever its job is run. -/
structure SetUp (job : Job) : Prop where
  accepted : Accepted isWord isDecimal lower host args job
  /-- of the boards in DFU mode one is written, with the serial that was scanned; on the same
  listing it is the one on the port that is waited on -/
  dfu : ∀ later, ∀ sel ∈ (job.run isWord isDecimal lower later).flash.dfu, job.tool = .dfuUtil ∧
    (Alike (later.lines isWord isDecimal) → ∃ board ∈ later.lines isWord isDecimal, sel.Takes board ∧
      (∀ l ∈ later.lines isWord isDecimal, sel.Takes l → l.key = board.key) ∧
      (∀ serial, job.dfuSerial = some serial → board.serial = some serial) ∧
      (later.install.listing = host.scan.listing → job.port = blankToNone board.path))
  /-- the only volume is written; while the mounts are what they were it is that of the board that
  was scanned, whose id and port are kept -/
  bootsel : ∀ later mount landed,
    .copy mount landed ∈ (job.run isWord isDecimal lower later).flash.bootsel → job.tool = .bootsel ∧
      bootselScan later.install.view = [mount] ∧
      (later.install.view = host.scan.view → ∀ f, job.found = some f →
        f.node ∈ host.scan.present ∧ f.id = bootselIdFor f.node ∧
        f.port = (host.scan.sys.deviceForBlock f.node).map (·.name) ∧
        (host.scan.present = [f.node] ∨
          (MountTable.mountSources host.scan.sys.realpath host.scan.mountinfo).lookup
            (host.scan.sys.realpath mount) = some (host.scan.sys.realpath f.node)))
  /-- a serial port is written after a check of the printer, and where it was not picked nothing
  configured is on it -/
  port : job.tool = .platformio →
    Unbusy args.force host.allowFlashWhilePrinting host.activity ∧ ∃ p ∈ host.scan.sys.serialPorts,
    (∀ calls identifier, (job.runByWrite calls identifier).written = [] ∨
      (job.runByWrite calls identifier).written = [calls.realpath p.path]) ∧
    (args.pick = none → (∀ listed ∈ host.configured, listed.1 ≠ []) →
      ∀ listed ∈ host.configured, ∀ d ∈ listed.2, ∀ path, d.resolvedPath = some path → path ≠ [] →
        basename (host.scan.sys.realpath path) ≠ p.tty)
  /-- what is paired is what was written, and has an id -/
  paired : job.tool ≠ .platformio → ∀ later key type, (job.run isWord isDecimal lower later).pairing = some (key, type) ↔
    (job.run isWord isDecimal lower later).flash.result = some (.ok ()) ∧
      job.pairingKey = some key ∧ type = args.name
  /-- a board is reported that was not there before and appeared on the port, where that is known -/
  reported : job.tool ≠ .platformio → ∀ later report, (job.run isWord isDecimal lower later).report = some report →
    (job.run isWord isDecimal lower later).flash.result = some (.ok ()) ∧
      (∀ dev ∈ report.candidates ++ report.alreadyTracked, dev.serial ∉ host.bus.map (·.serial) ∧
        dev.isMcu lower = true ∧ ∃ look ∈ later.looks, dev ∈ look.view.scan ∧
          ∀ port, job.port = some port → look.view.portOf dev = some port) ∧
      (∀ dev ∈ report.candidates, ∀ entry ∈ later.entries, dev.serial ∉ entry.serials) ∧
      ∀ dev ∈ report.alreadyTracked, ∃ entry ∈ later.entries, dev.serial ∈ entry.serials
  /-- none is reported when the deadline has passed and no look has shown one -/
  missed : job.tool ≠ .platformio → ∀ later report, (job.run isWord isDecimal lower later).report = some report →
    report.candidates = [] → report.alreadyTracked = [] → ∃ before look after,
      later.looks = before ++ look :: after ∧ look.late = true ∧
      ∀ l ∈ before ++ [look], ∀ dev ∈ l.view.scan, dev.isMcu lower = true →
        dev.serial ∉ host.bus.map (·.serial) →
        ∃ port, job.port = some port ∧ l.view.portOf dev ≠ some port

end Request

section Facts
variable {isWord isDecimal : Char → Bool} {lower : Str → Str} {host : Host} {args : Args} {job : Job}
  {scan : CandidateScan} {found : Option Found} {f : Found} {later : Later}

theorem meant_of_choose (h : choose args scan = .ok found) : Meant args scan found := by
  unfold choose at h
  split at h
  · rename_i serial hserial
    split at h
    · cases h
    · rename_i f hf
      cases h
      exact .bySerial hserial (List.mem_of_find?_eq_some hf) (by simpa using List.find?_some hf)
  · rename_i hserial
    split at h
    · rename_i wanted hpick
      split at h
      · rename_i f hf
        cases h
        cases hpicks : scan.picks with
        | false => simp [hpicks] at hf
        | true => exact .byInterface hpick hpicks (by simpa [hpicks] using hf)
      · cases h
    · rename_i hpick
      split_ifs at h with hready
      cases h
      exact .byScan hserial hpick hready

theorem mem_of_meant (h : Meant args scan found) (hf : found = some f) : f ∈ scan.devices := by
  cases h with
  | bySerial _ listed _ => exact Option.some.inj hf ▸ listed
  | byInterface _ _ only =>
    obtain rfl := Option.some.inj hf
    exact List.mem_of_mem_filter (only ▸ List.mem_singleton_self _)
  | byScan => exact (chosen_mem hf).2

theorem addMcuStart_ok (h : addMcuStart isWord isDecimal lower host args = .ok job) :
    Accepted isWord isDecimal lower host args job := by
  unfold addMcuStart at h
  split at h
  · cases h
  rename_i henabled
  split at h
  · cases h
  rename_i entry hentry
  dsimp only at h
  split at h
  case h_2 => cases h
  rename_i tool family _ hfamily
  have hname : family.name = (firstInstall entry host.families).fw := by
    simpa using List.find?_some hfamily
  rw [← hname] at hfamily
  obtain ⟨picked, hpicked, h⟩ := ExceptList.bind_ok h
  dsimp only at h
  split at h
  · cases h
  · cases h
  rename_i resolved artifact scan hscan
  split at h
  · cases h
  rename_i hsame
  obtain rfl : resolved = tool := not_not.mp hsame
  obtain ⟨_, hboot, h⟩ := ExceptList.bind_ok h
  obtain ⟨found, hfound, h⟩ := ExceptList.bind_ok h
  obtain ⟨_, hwrite, h⟩ := ExceptList.bind_ok h
  cases h
  refine ⟨by simpa using henabled, ⟨?_, ?_⟩, hfamily, Uf2.mapError_ok hpicked, fun happ => ?_,
    ⟨scan, hscan, meant_of_choose hfound⟩, rfl, fun hfirst => ?_⟩
  · exact List.mem_reverse.mp (List.mem_of_find?_eq_some hentry)
  · simpa using List.find?_some hentry
  · rw [checkImage, happ] at hboot
    exact Uf2.mapError_ok hboot
  · rwa [checkJob, if_pos hfirst] at hwrite

theorem Accepted.image (h : Accepted isWord isDecimal lower host args job) :
    job.tool ≠ .flashtool ∧ job.artifact.kind ∈ job.tool.accepts ∧
      job.artifact ∈ (host.staged args.name job.family.name).artifacts := by
  obtain ⟨hsupports, hfirst⟩ := resolveAmong_some h.resolved
  obtain ⟨hmem, hkind⟩ := mem_of_firstOf hfirst
  refine ⟨fun htool => ?_, hkind, hmem⟩
  rw [htool] at hsupports
  simp [Tool.supports, bare] at hsupports

theorem Accepted.of_bin (h : Accepted isWord isDecimal lower host args job)
    (hkind : job.artifact.kind = kindBin) : job.tool = .dfuUtil := by
  obtain ⟨htool, haccepts, -⟩ := h.image
  rw [hkind] at haccepts
  revert htool haccepts
  cases job.tool <;> decide

theorem Accepted.of_uf2 (h : Accepted isWord isDecimal lower host args job)
    (hkind : job.artifact.kind = kindUf2) : job.tool = .bootsel := by
  obtain ⟨-, haccepts, -⟩ := h.image
  rw [hkind] at haccepts
  revert haccepts
  cases job.tool <;> decide

theorem Accepted.dfu (h : Accepted isWord isDecimal lower host args job) (htool : job.tool = .dfuUtil) :
    ∃ f, job.found = some f ∧ ∃ l ∈ byDevice (dfuLines isWord isDecimal (host.scan.listing.getD [])),
      f.serial = l.serial ∧ f.port = blankToNone l.path := by
  obtain ⟨scan, hscan, hmeant⟩ := h.chosen
  rw [htool] at hscan
  obtain rfl := Option.some.inj hscan
  suffices hfound : ∃ f, job.found = some f by
    obtain ⟨f, hf⟩ := hfound
    exact ⟨f, hf, mem_dfuScan (mem_of_meant hmeant hf)⟩
  generalize hjob : job.found = found at hmeant
  cases hmeant with
  | bySerial => exact ⟨_, rfl⟩
  | byInterface => exact ⟨_, rfl⟩
  | byScan _ _ ready => exact dfu_ready ready

theorem Accepted.bootsel (h : Accepted isWord isDecimal lower host args job) (htool : job.tool = .bootsel) :
    ∃ tracked, (bootselCandidates host.scan tracked).ready = true ∧
      job.found = (bootselCandidates host.scan tracked).chosen := by
  obtain ⟨scan, hscan, hmeant⟩ := h.chosen
  rw [htool] at hscan
  obtain rfl := Option.some.inj hscan
  generalize hjob : job.found = found at hmeant
  cases hmeant with
  | bySerial _ listed named =>
    rw [bootselCandidates_devices] at listed
    rw [(mem_bootselFound listed).2.1] at named
    cases named
  | byInterface _ picks _ =>
    rw [bootselCandidates_picks] at picks
    cases picks
  | byScan _ _ ready => exact ⟨_, ready, rfl⟩

theorem Accepted.platformio (h : Accepted isWord isDecimal lower host args job)
    (htool : job.tool = .platformio) : ∃ p ∈ host.scan.sys.serialPorts,
      job.found = some (portCandidate host.scan (trackedBoards host (some args.name)) p) ∧
      (args.pick = none →
        (portCandidate host.scan (trackedBoards host (some args.name)) p).trackedBy = none) := by
  obtain ⟨scan, hscan, hmeant⟩ := h.chosen
  rw [htool] at hscan
  obtain rfl := Option.some.inj hscan
  generalize hjob : job.found = found at hmeant ⊢
  cases hmeant with
  | bySerial _ listed named =>
    obtain ⟨p, -, rfl⟩ := mem_portScan listed
    cases named
  | byInterface given _ only =>
    obtain ⟨p, hp, rfl⟩ := mem_portScan (List.mem_of_mem_filter (only ▸ List.mem_singleton_self _))
    exact ⟨p, hp, rfl, fun hnone => by simp [hnone] at given⟩
  | byScan _ _ ready =>
    obtain ⟨p, hp, -, -, -, hchosen, hfree, -⟩ := port_ready ready
    exact ⟨p, hp, hchosen, fun _ => hfree⟩

theorem Accepted.idle (h : Accepted isWord isDecimal lower host args job)
    (htool : job.tool = .platformio) :
    Unbusy args.force host.allowFlashWhilePrinting host.activity := by
  have hwrite := h.write (by rw [htool]; rfl)
  obtain ⟨p, -, hfound, -⟩ := h.platformio htool
  rw [checkWrite, hfound] at hwrite
  dsimp only at hwrite
  split at hwrite
  · cases hwrite
  · cases hwrite
  · split_ifs at hwrite with hidle
    exact isIdle_iff.mp hidle

theorem configured_on {type name : Str} {devices : List Configured} {d : Configured} {path : Str}
    (hnames : ∀ listed ∈ host.configured, listed.1 ≠ []) (hlisted : (name, devices) ∈ host.configured)
    (hd : d ∈ devices) (hpath : d.resolvedPath = some path) (hne : path ≠ []) :
    ∃ b ∈ configuredBoards host type, b.path = path ∧ b.type ≠ [] := by
  have hboard : ∀ e, (∃ listed ∈ host.configured, e ∈ listed.2.filterMap (placed host listed.1)) →
      e.2.path = e.1.1 ∧ e.2.type ≠ [] := by
    rintro e ⟨listed, hmem, he⟩
    obtain ⟨d, -, hplaced⟩ := List.mem_filterMap.mp he
    obtain ⟨path, -, rfl⟩ := Option.map_eq_some_iff.mp hplaced
    exact ⟨rfl, hnames listed hmem⟩
  have hmem : ∀ listed, listed ∈ host.configured.filter (·.1 = type) ++
      host.configured.filter (·.1 ≠ type) ↔ listed ∈ host.configured := by
    intro listed
    by_cases h : listed.1 = type <;> simp [h]
  obtain ⟨e, he, hkey⟩ : ∃ e ∈ devices.filterMap (placed host name), e.1 = (path, d.section_) := by
    have hblank := blankToNone_eq_some.mpr ⟨hpath, hne⟩
    exact ⟨_, List.mem_filterMap.mpr ⟨d, hd, Option.map_eq_some_iff.mpr ⟨path, hblank, rfl⟩⟩, rfl⟩
  have hall : e ∈ (host.configured.filter (·.1 = type) ++ host.configured.filter (·.1 ≠ type)).flatMap
      fun (name, devices) => devices.filterMap (placed host name) :=
    List.mem_flatMap.mpr ⟨(name, devices), (hmem _).mpr hlisted, he⟩
  -- a section of another type may have the port first
  have hput : e.1 ∈ (List.foldl (setDefault Prod.fst) [] _).map Prod.fst :=
    map_foldl_setDefault.mpr (Or.inr (List.mem_map_of_mem hall))
  obtain ⟨first, hfirst, hsame⟩ := List.mem_map.mp hput
  obtain ⟨listed, hlisted', hin⟩ := List.mem_flatMap.mp
    ((mem_foldl_setDefault hfirst).resolve_right List.not_mem_nil)
  obtain ⟨hat, htype⟩ := hboard first ⟨listed, (hmem _).mp hlisted', hin⟩
  exact ⟨first.2, List.mem_map_of_mem hfirst, by rw [hat, hsame, hkey], htype⟩

theorem unconfigured {p : SerialPort}
    (hfree : (portCandidate host.scan (trackedBoards host (some args.name)) p).trackedBy = none)
    (hnames : ∀ listed ∈ host.configured, listed.1 ≠ []) {listed : Str × List Configured}
    (hlisted : listed ∈ host.configured) {d : Configured} (hd : d ∈ listed.2) {path : Str}
    (hpath : d.resolvedPath = some path) (hne : path ≠ []) :
    basename (host.scan.sys.realpath path) ≠ p.tty := by
  intro hon
  obtain ⟨b, hb, rfl, htype⟩ := @configured_on host args.name _ _ _ _ hnames hlisted hd hpath hne
  refine htype (free_of_untracked hfree b (List.mem_filter.mpr ⟨?_, ?_⟩))
  · exact List.mem_append_right _ (by simpa using hb)
  · simp [hne, hon]

/-! ## The write -/

theorem run_flash (isWord isDecimal : Char → Bool) (lower : Str → Str) (job : Job) (later : Later) :
    (job.run isWord isDecimal lower later).flash =
      flashInitialBootloader isWord isDecimal (job.firstCall later) := by
  unfold Job.run
  dsimp only
  split <;> rfl

theorem blankToNone_idem (s : Option Str) : blankToNone (blankToNone s) = blankToNone s := by
  simp [blankToNone, Option.filter_filter]

theorem targetSerial_firstCall (job : Job) (later : Later) (artifact : Artifact) :
    ((job.firstCall later).dfuCall artifact).targetSerial = job.dfuSerial := by
  have hblank : blankToNone job.dfuSerial = job.dfuSerial := by
    unfold Job.dfuSerial
    cases job.found with
    | none => rfl
    | some f => exact blankToNone_idem f.serial
  show blankToNone (some (job.dfuSerial.getD [])) = job.dfuSerial
  cases hserial : job.dfuSerial with
  | none => rfl
  | some serial => rwa [hserial] at hblank

theorem eq_of_chosen {devices : List DfuLine} {target : Option Str} {d l : DfuLine}
    (h : chooseDevice devices target = .ok d) (hl : l ∈ devices)
    (hserial : ∀ serial, target = some serial → l.serial = some serial) : l = d := by
  cases target with
  | none =>
    rw [chooseDevice_alone h] at hl
    exact List.mem_singleton.mp hl
  | some serial =>
    have hmem : l ∈ devices.filter (·.serial = some serial) :=
      List.mem_filter.mpr ⟨hl, by simpa using hserial serial rfl⟩
    rw [chooseDevice_named h] at hmem
    exact List.mem_singleton.mp hmem

theorem Accepted.port_of_chosen (h : Accepted isWord isDecimal lower host args job)
    (htool : job.tool = .dfuUtil) {d : DfuLine}
    (hchoose : chooseDevice (byDevice (dfuLines isWord isDecimal (host.scan.listing.getD [])))
      job.dfuSerial = .ok d) : job.port = blankToNone d.path := by
  obtain ⟨f, hfound, l, hl, hserial, hport⟩ := h.dfu htool
  have hsame : l = d := eq_of_chosen hchoose hl fun serial hs => by
    rw [Job.dfuSerial, hfound] at hs
    rw [← hserial]
    exact (blankToNone_eq_some.mp hs).1
  rw [Job.port, hfound]
  show blankToNone f.port = _
  rw [hport, blankToNone_idem, hsame]

theorem Accepted.written_dfu (h : Accepted isWord isDecimal lower host args job) {sel : Selector}
    (hsel : sel ∈ (job.run isWord isDecimal lower later).flash.dfu) : job.tool = .dfuUtil ∧
      ∃ d, sel = dfuSelector d ∧
        chooseDevice (byDevice (later.lines isWord isDecimal)) job.dfuSerial = .ok d := by
  rw [run_flash] at hsel
  rcases flashInitialBootloader_cases isWord isDecimal (job.firstCall later) with ⟨e, heq⟩ |
    ⟨family, artifact, -, ⟨heq, hgiven, -⟩ | ⟨out, heq, -⟩⟩
  · rw [heq] at hsel
    cases hsel
  · have hkind : job.artifact.kind = kindBin := by
      by_contra hother
      simp [Job.firstCall, hother] at hgiven
    refine ⟨h.of_bin hkind, ?_⟩
    rw [heq] at hsel
    rcases flashDfuStm32_cases isWord isDecimal ((job.firstCall later).dfuCall artifact) with
      ⟨hwrites, -⟩ | ⟨-, d, hchoose, hflash⟩
    · simp [FirstCall.writeDfu, hwrites] at hsel
    · rw [targetSerial_firstCall] at hchoose
      exact ⟨d, by simpa [FirstCall.writeDfu, hflash] using hsel, hchoose⟩
  · rw [heq] at hsel
    cases hsel

theorem Accepted.written_bootsel (h : Accepted isWord isDecimal lower host args job) {mount : Str}
    {landed : Option (List UInt8)}
    (hcopy : .copy mount landed ∈ (job.run isWord isDecimal lower later).flash.bootsel) :
    job.tool = .bootsel ∧ bootselScan later.install.view = [mount] := by
  rw [run_flash] at hcopy
  rcases flashInitialBootloader_cases isWord isDecimal (job.firstCall later) with ⟨e, heq⟩ |
    ⟨family, artifact, -, ⟨heq, -⟩ | ⟨out, heq, hout⟩⟩
  · rw [heq] at hcopy
    cases hcopy
  · rw [heq] at hcopy
    cases hcopy
  · have hkind : job.artifact.kind = kindUf2 := by
      by_contra hother
      cases hout with
      | extended _ given => simp [Job.firstCall, hother] at given
      | asBuilt _ given => simp [Job.firstCall, hother] at given
    refine ⟨h.of_uf2 hkind, ?_⟩
    rw [heq] at hcopy
    rcases writeBootsel_cases (job.firstCall later) out with ⟨hnone, -⟩ | ⟨-, m, l, hone, hscan, -⟩
    · simp [hnone] at hcopy
    · obtain rfl : mount = m := by
        rw [hone] at hcopy
        simp at hcopy
        exact hcopy.1
      exact hscan

theorem Accepted.volume (h : Accepted isWord isDecimal lower host args job) (htool : job.tool = .bootsel)
    {mount : Str} (hscan : bootselScan host.scan.view = [mount]) (hf : job.found = some f) :
    f.node ∈ host.scan.present ∧ f.id = bootselIdFor f.node ∧
      f.port = (host.scan.sys.deviceForBlock f.node).map (·.name) ∧
      (host.scan.present = [f.node] ∨
        (MountTable.mountSources host.scan.sys.realpath host.scan.mountinfo).lookup
          (host.scan.sys.realpath mount) = some (host.scan.sys.realpath f.node)) := by
  obtain ⟨tracked, hready, hfound⟩ := h.bootsel htool
  rw [hf] at hfound
  have hmem := (chosen_mem hfound.symm).2
  rw [bootselCandidates_devices] at hmem
  obtain ⟨hnode, -, hid, hport, hmount⟩ := mem_bootselFound hmem
  refine ⟨hnode, hid, hport, ?_⟩
  obtain ⟨m, hm, hwhich⟩ := bootsel_ready hready
  obtain rfl : mount = m := by simpa [hscan] using hm
  refine (hwhich f hfound.symm).imp id fun hon => ?_
  rw [hon] at hmount
  exact (mounted_on hmount.symm).2

theorem written_port (hf : job.found = some f) (calls : PlatformIo.Calls) (identifier : Bool) :
    (job.runByWrite calls identifier).written = [] ∨
      (job.runByWrite calls identifier).written = [calls.realpath f.tty] := by
  unfold Job.runByWrite
  rw [hf]
  dsimp only
  rcases PlatformIo.writePort_cases calls _ _ with ⟨e, -, heq⟩ | ⟨choice, hchoice, hwritten, -⟩
  · exact Or.inl (by rw [heq])
  · obtain rfl := Except.ok.inj hchoice
    rw [hwritten]
    rcases PlatformIo.upload_cases calls job.entry.name (some f.tty) with ⟨hnone, -⟩ | ⟨p, hp, -, hone, -⟩
    · exact Or.inl hnone
    · obtain rfl := Option.some.inj hp
      exact Or.inr hone

/-! ## The wait -/

theorem run_cases (isWord isDecimal : Char → Bool) (lower : Str → Str) (job : Job) (later : Later) :
    ((job.run isWord isDecimal lower later).flash.result = some (.ok ()) ∧
      (job.run isWord isDecimal lower later).pairing = job.pairingKey.map (·, job.entry.name) ∧
      (job.run isWord isDecimal lower later).report =
        (waitForNewDevice lower job.before job.port later.looks).map fun appeared =>
          { candidates := appeared.filter (·.serial ∉ later.entries.flatMap (·.serials))
            alreadyTracked := appeared.filter (·.serial ∈ later.entries.flatMap (·.serials)) }) ∨
    ((job.run isWord isDecimal lower later).flash.result ≠ some (.ok ()) ∧
      (job.run isWord isDecimal lower later).pairing = none ∧
      (job.run isWord isDecimal lower later).report = none) := by
  unfold Job.run
  dsimp only
  split
  · rename_i hok
    exact Or.inl ⟨hok, rfl, rfl⟩
  · rename_i hfailed
    exact Or.inr ⟨hfailed, rfl, rfl⟩

theorem run_report {report : Report} (h : (job.run isWord isDecimal lower later).report = some report) :
    (job.run isWord isDecimal lower later).flash.result = some (.ok ()) ∧ ∃ appeared,
      waitForNewDevice lower job.before job.port later.looks = some appeared ∧
      report.candidates = appeared.filter (·.serial ∉ later.entries.flatMap (·.serials)) ∧
      report.alreadyTracked = appeared.filter (·.serial ∈ later.entries.flatMap (·.serials)) := by
  rcases run_cases isWord isDecimal lower job later with ⟨hok, -, heq⟩ | ⟨-, -, heq⟩
  · rw [heq] at h
    obtain ⟨appeared, hwait, rfl⟩ := Option.map_eq_some_iff.mp h
    exact ⟨hok, appeared, hwait, rfl, rfl⟩
  · rw [heq] at h
    cases h

theorem port_ne_nil {port : Str} (h : job.port = some port) : port ≠ [] := by
  obtain ⟨f, -, hf⟩ := Option.bind_eq_some_iff.mp h
  exact (blankToNone_eq_some.mp hf).2

theorem elsewhere_of_unseen {known : List Str} {v : ByidView} {dev : BusDevice}
    (h : findUntracked lower known job.port v = []) (hdev : dev ∈ v.scan)
    (hmcu : dev.isMcu lower = true) (hnew : dev.serial ∉ known) :
    ∃ port, job.port = some port ∧ v.portOf dev ≠ some port := by
  by_contra hnone
  push Not at hnone
  refine List.not_mem_nil (a := dev) (h ▸ List.mem_filter.mpr ⟨hdev, ?_⟩)
  cases hport : job.port with
  | none => simp [hmcu, hnew]
  | some port => simp [hmcu, hnew, Option.filter_some, port_ne_nil hport, hnone port hport]

end Facts

def noImages : FirstCall where
  families := []
  fw := []
  chipset := []
  state := []
  fwBin := none
  uf2Bin := none
  katapultConfig := none
  targetSerial := none
  dryRun := false
  files _ := none
  appAddress := none
  intBase16 _ := none
  stages := false
  fwBinExists := true
  listing := none
  run _ := .raises
  uf2Exists := false
  present := []
  view := ⟨[], fun _ => [], fun _ => false⟩
  copy _ := ⟨⟨[], true, true, fun _ => false, [], false, false⟩, true, ⟨none, none, none⟩, []⟩

/-- A type with Katapult and Klipper, while two of its boards are in DFU mode. -/
def twoInDfu : Host where
  enableFlashing := true
  allowFlashWhilePrinting := false
  entries := [{ name := "head".toList, firmwares := ["katapult".toList, "klipper".toList]
                chipset := "stm32g0b1xx".toList, serials := [], canbusUuids := []
                stopServices := none, builders := [] }]
  families := [
    ⟨"katapult".toList, "kconfig".toList, [], ["dfu_util".toList], true, false⟩,
    ⟨"klipper".toList, "kconfig".toList, [], ["flashtool".toList], false, false⟩]
  staged _ _ := ⟨[{ kind := kindBin, path := "/k.bin".toList }]⟩
  requester _ := false
  scan := {
    listing := secondBoard.listing
    present := []
    view := noImages.view
    mountinfo := none
    sys := ⟨[], none, [], [], id⟩
    hwids := fun _ => none }
  configured := []
  images := noImages
  bus := []
  activity := none

end McuUpdater.AddMcu
