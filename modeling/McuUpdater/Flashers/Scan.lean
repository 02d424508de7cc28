import McuUpdater.Discovery.Dfu
import McuUpdater.Discovery.MountTable
import McuUpdater.Discovery.Usb
import McuUpdater.Flashers.FirstImage

/-! `scan_candidates` of the three flashers that set a new board up, and `CandidateScan` of
`flashers/spec.py`: what a scan lists, and which of it a write would go to. The sentences that
explain a scan are left out. -/
namespace McuUpdater.Flashers
open PyText Discovery Usb
open Kconfig (basename)
open Bootsel (bootselScan BootselView sorted)

structure TrackedBoard where
  type : Str
  serial : Str
  chipset : Str
  path : Str := []
  label : Str := []
  deriving DecidableEq

/-- What a scan lists. -/
structure Found where
  /-- a device in DFU mode -/
  serial : Option Str := none
  /-- a board in BOOTSEL -/
  id : Option Str := none
  node : Str := []
  mount : Option Str := none
  /-- a serial port -/
  tty : Str := []
  interface : Option Str := none
  label : Option Str := none
  port : Option Str := none
  trackedBy : Option Str := none
  knownSerial : Option Str := none
  deriving DecidableEq

inductive ScanReason
  | noTool
  | permissionDenied
  | none_
  | ambiguous
  | notMounted
  | noType
  | unfiltered
  | allTracked
  deriving DecidableEq

structure CandidateScan where
  ready : Bool
  reason : Option ScanReason
  devices : List Found
  /-- a ready scan has something to warn of -/
  warns : Bool := false
  target : Option Nat := none
  /-- a device can be named by its interface -/
  picks : Bool := false
  deriving DecidableEq

namespace CandidateScan

def refuse (reason : ScanReason) (devices : List Found) : CandidateScan :=
  { ready := false, reason := some reason, devices }

/-- `CandidateScan.chosen` -/
def chosen (scan : CandidateScan) : Option Found :=
  if scan.ready then
    match scan.target with
    | some i => scan.devices[i]?
    | none => theOne scan.devices
  else none

/-- `CandidateScan.port` -/
def port (scan : CandidateScan) : Option Str := scan.chosen.bind fun d => blankToNone d.port

end CandidateScan

/-- `name_tracked`, for one device. -/
def nameTracked (owners : List (Str × TrackedBoard)) (key : Found → Option Str) (d : Found) : Found :=
  match owners.filter (·.1 = (key d).getD []) with
  | [(_, board)] => { d with trackedBy := some board.type, knownSerial := some board.serial }
  | _ => { d with trackedBy := none, knownSerial := none }

/-- What the three scans read. -/
structure ScanHost where
  /-- what `dfu-util -l` printed, `none` where it could not be run -/
  listing : Option Str
  /-- `bootsel_devices` -/
  present : List Str
  view : BootselView
  mountinfo : Option Str
  sys : SysView
  /-- the USB ids of a type's board, `none` in it where they cannot be read, `none` where it is
  no PlatformIO type -/
  hwids : Str → Option (Option (List (Str × Str)))

section Model
variable (isWord isDecimal : Char → Bool) (lower : Str → Str) (host : ScanHost)
  (tracked : List TrackedBoard)

/-- `DfuUtil.scan_candidates` -/
def dfuScan : CandidateScan :=
  match dfuDevices isWord isDecimal host.listing with
  | .error .toolMissing => .refuse .noTool []
  | .error .permission => .refuse .permissionDenied []
  | .ok devices =>
    let owners := tracked.filterMap fun b => (blankToNone (dfuSerialFor b.serial)).map (·, b)
    let found := devices.map fun d =>
      { nameTracked owners Found.serial { serial := d.serial } with port := blankToNone d.path }
    match found with
    | [] => .refuse .none_ found
    | [_] => { ready := true, reason := none, devices := found }
    | _ => .refuse .ambiguous found

/-- `usb-RPI_RP2_([0-9A-Fa-f]+)-` -/
def bootselIdAt (s : Str) : Option Str := do
  let s ← after "usb-RPI_RP2_".toList s
  let id := s.takeWhile fun c => (hexValue c).isSome
  if id = [] then none
  else
    let _ ← after ['-'] (s.drop id.length)
    return id

/-- `bootsel_id_for` -/
def bootselIdFor (node : Str) : Option Str := search bootselIdAt node

def mountedFrom (sources : List (Str × Str)) (mounts : List Str) : List (Str × Str) :=
  (mounts.filterMap fun m => (sources.lookup (host.sys.realpath m)).map (·, m)).foldl
    (Dict.dictPut Prod.fst) []

def bootselFound (mounts : List Str) : List Found :=
  let owners := (tracked.filter fun b => "rp2040".toList.isPrefixOf b.chipset).map fun b => (b.serial, b)
  let mounted := mountedFrom host (MountTable.mountSources host.sys.realpath host.mountinfo) mounts
  host.present.map fun node =>
    { nameTracked owners Found.id
        { id := bootselIdFor node, node, port := (host.sys.deviceForBlock node).map (·.name) } with
      mount := mounted.lookup (host.sys.realpath node) }

/-- `Bootsel.scan_candidates` -/
def bootselCandidates : CandidateScan :=
  let mounts := bootselScan host.view
  let found := bootselFound host tracked mounts
  if host.present = [] then .refuse .none_ found
  else
    match mounts with
    | [] => .refuse .notMounted found
    | [mount] =>
      if host.present.length = 1 then { ready := true, reason := none, devices := found }
      else { ready := true, reason := none, devices := found, warns := true
             target := found.findIdx? (·.mount = some mount) }
    | _ => .refuse .ambiguous found

/-- `SerialPort.vid_pid` -/
def vidPid (p : SerialPort) : Str × Str :=
  (lower (p.device.vendorId.getD []), lower (p.device.productId.getD []))

def portOwners (p : SerialPort) : List TrackedBoard :=
  tracked.filter fun b => b.path ≠ [] && basename (host.sys.realpath b.path) = p.tty

/-- `_candidate` -/
def portCandidate (p : SerialPort) : Found :=
  let owners := portOwners host tracked p
  let owner := theOne owners
  { tty := p.path
    port := some p.device.name
    interface := some p.interface
    trackedBy := blankToNone (some (joinWith ", ".toList (sorted (owners.map (·.type)).eraseDups)))
    knownSerial := blankToNone (owner.map (·.serial))
    label := blankToNone (owner.map (·.label)) }

/-- The ports that a device of the type could be on. -/
def portsFor (hwids : Option (List (Str × Str))) : List SerialPort :=
  host.sys.serialPorts.filter fun p =>
    (hwids.all fun ids => decide (vidPid lower p ∈ ids)) &&
      (tracked.filter fun b => b.serial ≠ [] && b.path = []).all
        fun b => decide (b.serial ≠ p.device.serial.getD [])

/-- `PlatformIO.scan_candidates` -/
def portScan (type : Option Str) : CandidateScan :=
  match type.bind host.hwids with
  | none => { CandidateScan.refuse .noType [] with picks := true }
  | some hwids =>
    let found := (portsFor lower host tracked hwids).map (portCandidate host tracked)
    if found = [] then { CandidateScan.refuse .none_ found with picks := true }
    else if hwids = none then { CandidateScan.refuse .unfiltered found with picks := true }
    else
      match (found.zipIdx.filter fun d => d.1.trackedBy = none).map Prod.snd with
      | [] => { CandidateScan.refuse .allTracked found with picks := true }
      | [i] => { ready := true, reason := none, devices := found, target := some i, picks := true }
      | _ => { CandidateScan.refuse .ambiguous found with picks := true }

/-- The `scan_candidates` of a flasher, about a type, where it has one. -/
def scanCandidates (type : Option Str) : Tool → Option CandidateScan
  | .flashtool => none
  | .platformio => some (portScan lower host tracked type)
  | .dfuUtil => some (dfuScan isWord isDecimal host tracked)
  | .bootsel => some (bootselCandidates host tracked)

end Model

section Facts
variable {isWord isDecimal : Char → Bool} {lower : Str → Str} {host : ScanHost}
  {tracked : List TrackedBoard} {scan : CandidateScan} {d f g : Found} {type : Option Str}
  {mounts : List Str} {mount : Str}

theorem chosen_mem (h : scan.chosen = some d) : scan.ready = true ∧ d ∈ scan.devices := by
  rw [CandidateScan.chosen] at h
  split at h
  · rename_i hready
    split at h
    · exact ⟨hready, List.mem_of_getElem? h⟩
    · rw [theOne_eq_some.mp h]
      exact ⟨hready, List.mem_singleton_self d⟩
  · cases h

theorem nameTracked_eq (owners : List (Str × TrackedBoard)) (key : Found → Option Str) (d : Found) :
    ∃ type serial, nameTracked owners key d = { d with trackedBy := type, knownSerial := serial } := by
  unfold nameTracked
  split
  · exact ⟨_, _, rfl⟩
  · exact ⟨_, _, rfl⟩

theorem mem_dfuScan (h : f ∈ (dfuScan isWord isDecimal host tracked).devices) :
    ∃ l ∈ byDevice (dfuLines isWord isDecimal (host.listing.getD [])),
      f.serial = l.serial ∧ f.port = blankToNone l.path := by
  unfold dfuScan at h
  cases hdevices : dfuDevices isWord isDecimal host.listing with
  | error e => cases e <;> simp [hdevices, CandidateScan.refuse] at h
  | ok devices =>
    obtain rfl := dfuDevices_ok hdevices
    rw [hdevices] at h
    dsimp only at h
    have hmem : ∀ found : List Found, f ∈ (match found with
        | [] => CandidateScan.refuse .none_ found
        | [_] => { ready := true, reason := none, devices := found }
        | _ => .refuse .ambiguous found).devices → f ∈ found := by
      intro found hf
      split at hf <;> exact hf
    obtain ⟨l, hl, rfl⟩ := List.mem_map.mp (hmem _ h)
    obtain ⟨type, serial, heq⟩ := nameTracked_eq
      (tracked.filterMap fun b => (blankToNone (dfuSerialFor b.serial)).map (·, b)) Found.serial
      { serial := l.serial }
    exact ⟨l, hl, by rw [heq], rfl⟩

theorem dfu_ready (h : (dfuScan isWord isDecimal host tracked).ready = true) :
    ∃ f, (dfuScan isWord isDecimal host tracked).chosen = some f := by
  unfold dfuScan at h ⊢
  cases hdevices : dfuDevices isWord isDecimal host.listing with
  | error e => cases e <;> simp [hdevices, CandidateScan.refuse] at h
  | ok devices =>
    rw [hdevices] at h
    dsimp only at h ⊢
    generalize devices.map _ = found at h ⊢
    split at h
    · cases h
    · exact ⟨_, rfl⟩
    · cases h

theorem bootselCandidates_picks : (bootselCandidates host tracked).picks = false := by
  unfold bootselCandidates
  dsimp only
  split
  · rfl
  · split
    · rfl
    · split <;> rfl
    · rfl

theorem bootselCandidates_devices : (bootselCandidates host tracked).devices =
    bootselFound host tracked (bootselScan host.view) := by
  unfold bootselCandidates
  dsimp only
  split
  · rfl
  · split
    · rfl
    · split <;> rfl
    · rfl

theorem length_bootselFound : (bootselFound host tracked mounts).length = host.present.length :=
  List.length_map _

theorem mem_bootselFound (h : f ∈ bootselFound host tracked mounts) : f.node ∈ host.present ∧
    f.serial = none ∧ f.id = bootselIdFor f.node ∧
    f.port = (host.sys.deviceForBlock f.node).map (·.name) ∧
    f.mount = (mountedFrom host (MountTable.mountSources host.sys.realpath host.mountinfo) mounts).lookup
      (host.sys.realpath f.node) := by
  obtain ⟨node, hnode, rfl⟩ := List.mem_map.mp h
  obtain ⟨type, serial, heq⟩ := nameTracked_eq
    ((tracked.filter fun b => "rp2040".toList.isPrefixOf b.chipset).map fun b => (b.serial, b))
    Found.id { id := bootselIdFor node, node, port := (host.sys.deviceForBlock node).map (·.name) }
  rw [heq]
  exact ⟨hnode, rfl, rfl, rfl, rfl⟩

theorem mounted_on {node : Str}
    (h : (mountedFrom host (MountTable.mountSources host.sys.realpath host.mountinfo) mounts).lookup
      (host.sys.realpath node) = some mount) :
    mount ∈ mounts ∧ (MountTable.mountSources host.sys.realpath host.mountinfo).lookup
      (host.sys.realpath mount) = some (host.sys.realpath node) := by
  rw [mountedFrom, Dict.lookup_foldl_dictPut, List.lookup_nil, Option.or_none] at h
  obtain ⟨⟨source, m⟩, hlast, rfl⟩ := Option.map_eq_some_iff.mp h
  obtain ⟨hmem, hsource⟩ := List.mem_filter.mp (List.mem_of_getLast? hlast)
  obtain ⟨m', hm', hpair⟩ := List.mem_filterMap.mp hmem
  obtain ⟨found, hfound, hpair⟩ := Option.map_eq_some_iff.mp hpair
  obtain ⟨rfl, rfl⟩ := Prod.mk.inj hpair
  rw [hfound]
  exact ⟨hm', congrArg some (by simpa using hsource)⟩

theorem bootselCandidates_ready (h : (bootselCandidates host tracked).ready = true) :
    ∃ mount, bootselScan host.view = [mount] ∧
      ((∃ node, host.present = [node]) ∨ host.present.length ≠ 1 ∧
        (bootselCandidates host tracked).chosen =
          match (bootselFound host tracked [mount]).findIdx? (·.mount = some mount) with
          | some i => (bootselFound host tracked [mount])[i]?
          | none => theOne (bootselFound host tracked [mount])) := by
  unfold bootselCandidates at h ⊢
  dsimp only at h ⊢
  split at h
  · cases h
  rename_i hpresent
  rw [if_neg hpresent]
  split at h
  · cases h
  · rename_i mount hscan
    rw [hscan]
    refine ⟨mount, rfl, ?_⟩
    split_ifs with hone
    · exact Or.inl (List.length_eq_one_iff.mp hone)
    · exact Or.inr ⟨hone, rfl⟩
  · cases h

/-- A ready scan for BOOTSEL is of the one volume that is mounted, on the board that is there or
on the one that the mount table names. -/
theorem bootsel_ready (h : (bootselCandidates host tracked).ready = true) :
    ∃ mount, bootselScan host.view = [mount] ∧ ∀ f, (bootselCandidates host tracked).chosen = some f →
      host.present = [f.node] ∨ f.mount = some mount := by
  obtain ⟨mount, hscan, halone | ⟨hmany, hchosen⟩⟩ := bootselCandidates_ready h
  all_goals
    refine ⟨mount, hscan, fun f hf => ?_⟩
    have hfound := (chosen_mem hf).2
    rw [bootselCandidates_devices, hscan] at hfound
  · obtain ⟨node, hnodes⟩ := halone
    have hnode := (mem_bootselFound hfound).1
    rw [hnodes, List.mem_singleton] at hnode
    exact Or.inl (hnode ▸ hnodes)
  · rw [hchosen] at hf
    split at hf
    · rename_i i hi
      obtain ⟨hlt, hmount, -⟩ := List.findIdx?_eq_some_iff_getElem.mp hi
      rw [List.getElem?_eq_getElem hlt] at hf
      rw [Option.some.inj hf] at hmount
      exact Or.inr (by simpa using hmount)
    · rw [theOne_eq_some] at hf
      exact absurd (length_bootselFound.symm.trans (congrArg List.length hf)) hmany

/-! ## Serial ports -/

theorem of_joinWith_eq_nil {sep : Str} (hsep : sep ≠ []) {parts : List Str}
    (h : joinWith sep parts = []) : ∀ part ∈ parts, part = [] := by
  cases parts with
  | nil => simp
  | cons part parts =>
    cases parts with
    | nil => simpa [joinWith] using h
    | cons next parts => simp [joinWith_cons_cons, hsep] at h

theorem free_of_untracked {p : SerialPort} (h : (portCandidate host tracked p).trackedBy = none) :
    ∀ b ∈ portOwners host tracked p, b.type = [] := by
  intro b hb
  have htypes : joinWith ", ".toList (sorted ((portOwners host tracked p).map (·.type)).eraseDups) = [] := by
    simpa [portCandidate, blankToNone] using h
  refine of_joinWith_eq_nil (by decide) htypes b.type ?_
  rw [sorted, List.mem_mergeSort, List.mem_eraseDups]
  exact List.mem_map_of_mem hb

theorem only_of_zipIdx {found : List Found} {free : Found → Bool} {i : Nat}
    (h : (found.zipIdx.filter fun d => free d.1).map Prod.snd = [i]) :
    ∃ f, found[i]? = some f ∧ free f = true ∧ ∀ g ∈ found, free g = true → g = f := by
  obtain ⟨⟨f, j⟩, hpair, hj⟩ := List.map_eq_singleton_iff.mp h
  obtain rfl : j = i := hj
  have hmem : (f, j) ∈ found.zipIdx.filter fun d => free d.1 := hpair ▸ List.mem_singleton_self _
  obtain ⟨hzip, hfree⟩ := List.mem_filter.mp hmem
  refine ⟨f, List.mem_zipIdx_iff_getElem?.mp hzip, hfree, fun g hg hgfree => ?_⟩
  obtain ⟨k, hk⟩ := List.mem_iff_getElem?.mp hg
  have hgmem : (g, k) ∈ found.zipIdx.filter fun d => free d.1 :=
    List.mem_filter.mpr ⟨List.mem_zipIdx_iff_getElem?.mpr hk, hgfree⟩
  rw [hpair, List.mem_singleton] at hgmem
  exact congrArg Prod.fst hgmem

theorem mem_portScan (h : f ∈ (portScan lower host tracked type).devices) :
    ∃ p ∈ host.sys.serialPorts, f = portCandidate host tracked p := by
  have hmem : ∀ hwids, f ∈ (portsFor lower host tracked hwids).map (portCandidate host tracked) →
      ∃ p ∈ host.sys.serialPorts, f = portCandidate host tracked p := by
    intro hwids hf
    obtain ⟨p, hp, rfl⟩ := List.mem_map.mp hf
    exact ⟨p, List.mem_of_mem_filter hp, rfl⟩
  unfold portScan at h
  split at h
  · cases h
  · rename_i hwids _
    dsimp only at h
    split_ifs at h
    · exact hmem hwids h
    · exact hmem hwids h
    · split at h <;> exact hmem hwids h

/-- A ready scan of the ports is of the only one with the right ids that nothing configured is
on. -/
theorem port_ready (h : (portScan lower host tracked type).ready = true) :
    ∃ p ∈ host.sys.serialPorts, ∃ ids, type.bind host.hwids = some (some ids) ∧ vidPid lower p ∈ ids ∧
      (portScan lower host tracked type).chosen = some (portCandidate host tracked p) ∧
      (portCandidate host tracked p).trackedBy = none ∧
      ∀ g ∈ (portScan lower host tracked type).devices, g.trackedBy = none →
        g = portCandidate host tracked p := by
  unfold portScan at h ⊢
  split at h
  · cases h
  rename_i hwids htype
  dsimp only at h ⊢
  split_ifs at h ⊢ with hnil hnone
  · cases h
  · cases h
  obtain ⟨ids, rfl⟩ := Option.ne_none_iff_exists'.mp hnone
  split at h
  · cases h
  · rename_i i hfree
    obtain ⟨f, hget, hf, honly⟩ :=
      @only_of_zipIdx _ (fun d => decide (d.trackedBy = none)) _ hfree
    obtain ⟨p, hp, rfl⟩ := List.mem_map.mp (List.mem_of_getElem? hget)
    obtain ⟨hport, hids⟩ := List.mem_filter.mp hp
    dsimp only
    refine ⟨p, hport, ids, htype, ?_, ?_, by simpa using hf, fun g hg hgfree =>
      honly g hg (by simpa using hgfree)⟩
    · simpa using (Bool.and_eq_true_iff.mp hids).1
    · simpa [CandidateScan.chosen] using hget
  · cases h

end Facts

end McuUpdater.Flashers
