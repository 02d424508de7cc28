import McuUpdater.Inventory
import McuUpdater.Verdict
import McuUpdater.Lib.Except
import Mathlib.Data.List.ReduceOption

/-! `agent/methods/bulk.py` and `status.py`: the boards a fleet flash writes, and the rows
that say which boards want it. -/
namespace McuUpdater.Agent
open PyText PyValue Discovery Registry Inventory Verdict ExceptList

/-- `_NEEDS_FLASH` -/
def needsFlash : Option Verdict.Reason → Option Bool
  | none => some false
  | some .inBootloader | some .sourceChanged | some .artifactChanged | some .unexpectedImage
  | some .protocolMismatch => some true
  | some .deviceDirty | some .offline | some .unknownVersion | some .versionOnly => none

/-- A family's device-info reader. -/
structure Reader where
  runningSha : Option Str → Option Str
  isDirty : Option Str → Bool

/-- What `mcu_info` knows of a serial. -/
structure Running where
  version : Option Str := none
  mcu : Option Str := none

structure Sidecar where
  artifactShas : List Str := []
  version : Option Str := none

structure Host where
  byid : List BusDevice
  /-- the declared families, with whether each is a bootloader -/
  families : Str → Option Bool
  /-- whether anything is staged for a type and family -/
  staged : Str → Str → Bool
  head : Str → Option Str
  reader : Str → Reader
  sidecar : Str → Str → Sidecar
  versions : Str → Running
  /-- the flash log's entries that are dicts -/
  flashlog : Str → Option Mapping
  stopServices : Str → List Str

structure FlashState where
  mcu : Option Str
  runningVersion : Option Str
  runningSha : Option Str
  needsFlash : Option Bool
  reason : Option Verdict.Reason
  confidence : PyVal

inductive Scope
  | stale
  | all
  deriving DecidableEq

structure Selected where
  type : Str
  serial : Str
  chipset : Str
  fw : Str
  stopServices : List Str
  state : Str
  /-- none for a forced one -/
  reason : Option (Option Verdict.Reason)

structure Entry where
  serial : Str
  state : Str
  path : Option Str
  flash : FlashState

/-- `decide` tells only these states apart. -/
def boardState (state : Str) : Option BoardState :=
  if state = stateOffline then some .offline
  else if state = stateKatapult then some .katapult
  else if state = stateKlipper then some .klipper
  else none

def recordedText (entry : Mapping) (key : String) : Option Str :=
  match entry.get key with
  | .str (c :: s) => some (c :: s)
  | _ => none

/-- `FlashLog.entry_for` -/
def entryFor (flashlog : Str → Option Mapping) (serial : Str) (runningSha version : Option Str) :
    Option Mapping :=
  (flashlog serial).filter fun entry =>
    match present runningSha, present version with
    | some running, _ => (recordedText entry "fw_sha").all (running <+: ·)
    | none, some version => (recordedText entry "version").all (· = version)
    | none, none => true

section Model
variable (lower : Str → Str) (host : Host)

/-- `flash_state`, for the family a type runs. -/
def flashState (type fw serial state : Str) : Except PyError FlashState := do
  let running := host.versions serial
  let reader := host.reader fw
  let sidecar := host.sidecar type fw
  let runningSha := reader.runningSha running.version
  let record := entryFor host.flashlog serial runningSha running.version
  let status ← decide lower
    { state := boardState state, version := running.version, runningSha
      dirty := reader.isDirty running.version }
    { head := host.head fw, stamp := sidecar.version, artifactShas := sidecar.artifactShas, record }
  return {
    mcu := running.mcu, runningVersion := running.version, runningSha
    needsFlash := needsFlash status.reason, reason := status.reason
    confidence := (record.map (·.get "confidence")).getD .none }

/-- One serial's turn in `_boards_to_flash`. -/
def selectBoard (scope : Scope) (mcu : McuType) (serial : Str) : Except PyError (Option Selected) :=
  let fw := mcu.application host.families
  let (state, _) := deviceState lower mcu.chipset serial host.byid
  if state = stateOffline then .ok none
  else do
    let info ← flashState lower host mcu.name fw serial state
    if scope = .all ∨ info.needsFlash = some true then
      return some {
        type := mcu.name, serial, chipset := mcu.chipset, fw
        stopServices := host.stopServices mcu.name, state
        reason := if scope = .all then none else some info.reason }
    else return none

/-- `_boards_to_flash`, over the registry's types in the order of their names. -/
def boardsToFlash (scope : Scope) (only : Option Str) (reg : List McuType) :
    Except PyError (List Selected) := do
  let picked ← (reg.filter fun mcu => only.all (· = mcu.name)).mapM fun mcu =>
    if host.staged mcu.name (mcu.application host.families) then
      mcu.serials.mapM (selectBoard lower host scope mcu)
    else return []
  return picked.flatten.reduceOption

/-- The entry of one serial in `type_status`. -/
def serialEntry {β : Type} (rows : List (Row β)) (mcu : McuType) (serial : Str) :
    Except PyError Entry := do
  let row := rowFor rows mcu.name .serial serial
  let state := (row.map (·.state)).getD stateOffline
  let flash ← flashState lower host mcu.name (mcu.application host.families) serial state
  return { serial, state, path := row.bind (·.path), flash }

/-- The serials of `type_status`. -/
def typeStatus {β : Type} (rows : List (Row β)) (mcu : McuType) : Except PyError (List Entry) :=
  mcu.serials.mapM (serialEntry lower host rows mcu)

/-- The row says that the board is there and wants a flash. -/
def Entry.Shown (e : Entry) : Prop := e.state ≠ stateOffline ∧ e.flash.needsFlash = some true

def seen (serial : Str) : List BusDevice := host.byid.filter (·.serial = serial)

/-- The sightings of a serial that name the type's chipset. -/
def named (mcu : McuType) (serial : Str) : List BusDevice :=
  (seen host serial).filter fun dev => mcu.chipset = [] || dev.chipset = mcu.chipset

/-- The board, seen as this device, wants a flash. -/
def Wants (mcu : McuType) (serial : Str) (dev : BusDevice) : Prop :=
  dev.state lower ≠ stateOffline ∧ ∃ info,
    flashState lower host mcu.name (mcu.application host.families) serial (dev.state lower) =
      .ok info ∧ info.needsFlash = some true

/-- No board wants a flash whose one sighting does not name the chipset, or that is one of
several sightings and alone in naming it. -/
structure ChipsetsAgree (mcu : McuType) (serial : Str) : Prop where
  lone : ∀ dev, seen host serial = [dev] → named host mcu serial = [] → ¬Wants lower host mcu serial dev
  chosen : ∀ dev, named host mcu serial = [dev] → seen host serial ≠ [dev] →
    ¬Wants lower host mcu serial dev

end Model

section Facts
variable {lower : Str → Str} {host : Host} {scope : Scope} {only : Option Str}
  {reg : List McuType} {mcu : McuType} {serial : Str} {out : List Selected} {dev : BusDevice}

theorem findDevice_eq (lower : Str → Str) (host : Host) (mcu : McuType) (serial : Str) :
    findDevice lower mcu.chipset serial none host.byid = theOne (named host mcu serial) := by
  simp [findDevice, named, seen, List.filter_filter, Bool.and_comm]

theorem selectBoard_some {b : Selected} :
    selectBoard lower host scope mcu serial = .ok (some b) ↔
      ∃ dev info, named host mcu serial = [dev] ∧ dev.state lower ≠ stateOffline ∧
        flashState lower host mcu.name (mcu.application host.families) serial (dev.state lower) =
          .ok info ∧ (scope = .all ∨ info.needsFlash = some true) ∧
        { type := mcu.name, serial, chipset := mcu.chipset, fw := mcu.application host.families
          stopServices := host.stopServices mcu.name, state := dev.state lower
          reason := if scope = .all then none else some info.reason } = b := by
  simp only [← theOne_eq_some, ← findDevice_eq lower]
  unfold selectBoard deviceState
  cases hdev : findDevice lower mcu.chipset serial none host.byid with
  | none => simp
  | some dev =>
    by_cases hoff : dev.state lower = stateOffline
    · simp [hoff]
    · cases hinfo : flashState lower host mcu.name (mcu.application host.families) serial
          (dev.state lower) with
      | error e => simp [hoff, hinfo, bind, Except.bind]
      | ok info =>
        by_cases hwant : scope = .all ∨ info.needsFlash = some true
        · simp [hoff, hinfo, hwant, bind, Except.bind, pure, Except.pure]
        · simp [hoff, hinfo, hwant, bind, Except.bind, pure, Except.pure]

theorem selectBoard_iff : (∃ b, selectBoard lower host .stale mcu serial = .ok (some b)) ↔
    ∃ dev, named host mcu serial = [dev] ∧ Wants lower host mcu serial dev := by
  constructor
  · rintro ⟨b, hb⟩
    obtain ⟨dev, info, hnamed, hon, hinfo, hwant, -⟩ := selectBoard_some.mp hb
    exact ⟨dev, hnamed, hon, info, hinfo, hwant.resolve_left nofun⟩
  · rintro ⟨dev, hnamed, hon, info, hinfo, hwant⟩
    exact ⟨_, selectBoard_some.mpr ⟨dev, info, hnamed, hon, hinfo, .inr hwant, rfl⟩⟩

theorem mem_boardsToFlash (h : boardsToFlash lower host scope only reg = .ok out) (b : Selected) :
    b ∈ out ↔ ∃ mcu ∈ reg, (only.all (· = mcu.name)) = true ∧
      host.staged mcu.name (mcu.application host.families) = true ∧
      ∃ serial ∈ mcu.serials, selectBoard lower host scope mcu serial = .ok (some b) := by
  obtain ⟨picked, hpicked, hout⟩ := bind_ok h
  cases hout
  rw [List.reduceOption_mem_iff, List.mem_flatten]
  constructor
  · rintro ⟨bs, hbs, hb⟩
    obtain ⟨mcu, hmcu, hrun⟩ := (mem_mapM hpicked bs).mp hbs
    obtain ⟨hmcu, honly⟩ := List.mem_filter.mp hmcu
    split_ifs at hrun with hstaged
    · exact ⟨mcu, hmcu, honly, hstaged, (mem_mapM hrun (some b)).mp hb⟩
    · cases hrun
      cases hb
  · rintro ⟨mcu, hmcu, honly, hstaged, hb⟩
    have hmem : mcu ∈ reg.filter fun mcu => only.all (· = mcu.name) :=
      List.mem_filter.mpr ⟨hmcu, honly⟩
    obtain ⟨bs, hrun⟩ := ok_of_mapM hpicked hmem
    refine ⟨bs, (mem_mapM hpicked bs).mpr ⟨mcu, hmem, hrun⟩, ?_⟩
    rw [if_pos hstaged] at hrun
    exact (mem_mapM hrun (some b)).mpr hb

def NamesDiffer (reg : List McuType) : Prop :=
  ∀ a ∈ reg, ∀ b ∈ reg, a.name = b.name → a = b

theorem selected_iff (hnames : NamesDiffer reg) (hmcu : mcu ∈ reg)
    (hserial : serial ∈ mcu.serials) (honly : (only.all (· = mcu.name)) = true)
    (hstaged : host.staged mcu.name (mcu.application host.families) = true)
    (h : boardsToFlash lower host .stale only reg = .ok out) :
    (∃ b ∈ out, b.type = mcu.name ∧ b.serial = serial) ↔
      ∃ dev, named host mcu serial = [dev] ∧ Wants lower host mcu serial dev := by
  rw [← selectBoard_iff]
  constructor
  · rintro ⟨b, hb, htype, rfl⟩
    obtain ⟨other, hother, -, -, s, -, hpick⟩ := (mem_boardsToFlash h b).mp hb
    obtain ⟨dev, info, -, -, -, -, rfl⟩ := selectBoard_some.mp hpick
    obtain rfl := hnames other hother mcu hmcu htype
    exact ⟨_, hpick⟩
  · rintro ⟨b, hb⟩
    refine ⟨b, (mem_boardsToFlash h b).mpr ⟨mcu, hmcu, honly, hstaged, serial, hserial, hb⟩, ?_⟩
    obtain ⟨dev, info, -, -, -, -, rfl⟩ := selectBoard_some.mp hb
    exact ⟨rfl, rfl⟩

variable {β : Type} {sweep : Sweep β} {entries : List TypeEntry} {rows : List Entry} {e : Entry}

theorem serialEntry_ok (hsweep : sweep.byid = host.byid)
    (hentry : ∃ entry ∈ entries, entry.name = mcu.name ∧ serial ∈ entry.serials)
    (h : serialEntry lower host (build lower sweep entries) mcu serial = .ok e) :
    e.serial = serial ∧
      e.state = ((theOne (seen host serial)).map (·.state lower)).getD stateOffline ∧
      flashState lower host mcu.name (mcu.application host.families) serial e.state = .ok e.flash := by
  obtain ⟨row, hrow, hstate, -⟩ := @rowFor_serial lower β sweep entries _ _ hentry
  rw [serialEntry, hrow] at h
  obtain ⟨info, hinfo, h⟩ := bind_ok h
  cases h
  refine ⟨rfl, ?_, hinfo⟩
  rw [seen, ← hsweep]
  exact hstate

theorem shown_iff (hsweep : sweep.byid = host.byid) (hserial : serial ∈ mcu.serials)
    (hentries : ∀ serial ∈ mcu.serials, ∃ entry ∈ entries, entry.name = mcu.name ∧
      serial ∈ entry.serials)
    (h : typeStatus lower host (build lower sweep entries) mcu = .ok rows) :
    (∃ e ∈ rows, e.serial = serial ∧ e.Shown) ↔
      ∃ dev, seen host serial = [dev] ∧ Wants lower host mcu serial dev := by
  simp only [← theOne_eq_some]
  constructor
  · rintro ⟨e, he, hname, hon, hwant⟩
    obtain ⟨other, hother, hrun⟩ := (mem_mapM h e).mp he
    obtain ⟨hid, hstate, hflash⟩ := serialEntry_ok hsweep (hentries other hother) hrun
    obtain rfl : other = serial := hid.symm.trans hname
    cases hone : theOne (seen host other) with
    | none =>
      rw [hone] at hstate
      exact absurd hstate hon
    | some dev =>
      have hdev : e.state = dev.state lower := by simpa [hone] using hstate
      exact ⟨dev, rfl, hdev ▸ hon, e.flash, hdev ▸ hflash, hwant⟩
  · rintro ⟨dev, hone, hon, info, hinfo, hwant⟩
    obtain ⟨e, hrun⟩ := ok_of_mapM h hserial
    obtain ⟨hid, hstate, hflash⟩ := serialEntry_ok hsweep (hentries serial hserial) hrun
    have hdev : e.state = dev.state lower := by simpa [hone] using hstate
    rw [hdev, hinfo] at hflash
    cases hflash
    exact ⟨e, (mem_mapM h e).mpr ⟨serial, hserial, hrun⟩, hid, hdev ▸ hon, hwant⟩

theorem chipsetsAgree_iff : ChipsetsAgree lower host mcu serial ↔
    ((∃ dev, named host mcu serial = [dev] ∧ Wants lower host mcu serial dev) ↔
      ∃ dev, seen host serial = [dev] ∧ Wants lower host mcu serial dev) := by
  constructor
  · rintro ⟨lone, chosen⟩
    constructor
    · rintro ⟨dev, hnamed, hwants⟩
      by_contra hno
      exact chosen dev hnamed (fun hseen => hno ⟨dev, hseen, hwants⟩) hwants
    · rintro ⟨dev, hseen, hwants⟩
      have hnamed : named host mcu serial = [dev] ∨ named host mcu serial = [] := by
        rw [named, hseen, List.filter_singleton, Bool.cond_eq_ite]
        split_ifs
        · exact .inl rfl
        · exact .inr rfl
      exact ⟨dev, hnamed.resolve_right fun hnone => lone dev hseen hnone hwants, hwants⟩
  · intro h
    refine ⟨fun dev hseen hnone hwants => ?_, fun dev hnamed hseen hwants => ?_⟩
    · obtain ⟨other, hother, -⟩ := h.mpr ⟨dev, hseen, hwants⟩
      rw [hnone] at hother
      cases hother
    · obtain ⟨other, hother, -⟩ := h.mp ⟨dev, hnamed, hwants⟩
      have hmem : dev ∈ seen host serial :=
        (List.mem_filter.mp (hnamed ▸ List.mem_singleton_self dev : dev ∈ named host mcu serial)).1
      rw [hother] at hmem hseen
      exact hseen (by rw [List.mem_singleton.mp hmem])

/-- The fleet flash selects what the panel shows exactly where the chipset in the by-id name
decides nothing. -/
theorem selected_iff_shown_iff (hnames : NamesDiffer reg) (hmcu : mcu ∈ reg)
    (hserial : serial ∈ mcu.serials) (honly : (only.all (· = mcu.name)) = true)
    (hstaged : host.staged mcu.name (mcu.application host.families) = true)
    (hsweep : sweep.byid = host.byid)
    (hentries : ∀ serial ∈ mcu.serials, ∃ entry ∈ entries, entry.name = mcu.name ∧
      serial ∈ entry.serials)
    (hflash : boardsToFlash lower host .stale only reg = .ok out)
    (hstatus : typeStatus lower host (build lower sweep entries) mcu = .ok rows) :
    ((∃ b ∈ out, b.type = mcu.name ∧ b.serial = serial) ↔
        ∃ e ∈ rows, e.serial = serial ∧ e.Shown) ↔
      ChipsetsAgree lower host mcu serial := by
  rw [selected_iff hnames hmcu hserial honly hstaged hflash,
    shown_iff hsweep hserial hentries hstatus, chipsetsAgree_iff]

end Facts

/-- A board waiting in its bootloader under a by-id name that has no chipset. -/
def bareHost : Host where
  byid := [⟨"katapult".toList, [], "AAAA".toList, "/dev/serial/by-id/usb-katapult_AAAA".toList⟩]
  families _ := none
  staged _ _ := true
  head _ := none
  reader _ := ⟨fun _ => none, fun _ => false⟩
  sidecar _ _ := {}
  versions _ := {}
  flashlog _ := none
  stopServices _ := []

def bareType : McuType where
  name := "board".toList
  chipset := "stm32f072xb".toList
  serials := ["AAAA".toList]

def bareEntry : TypeEntry where
  name := "board".toList
  firmwares := ["klipper".toList]
  chipset := "stm32f072xb".toList
  serials := ["AAAA".toList]
  canbusUuids := []
  stopServices := none
  builders := ["kconfig_make".toList]

def bareRows : List (Row Unit) :=
  build (List.map Char.toLower) { byid := bareHost.byid, canbus := fun _ => none } [bareEntry]

theorem selected_iff_shown_iff_bare :
    ∃ out rows, boardsToFlash (List.map Char.toLower) bareHost .stale none [bareType] = .ok out ∧
      typeStatus (List.map Char.toLower) bareHost bareRows bareType = .ok rows ∧
      (((∃ b ∈ out, b.type = bareType.name ∧ b.serial = "AAAA".toList) ↔
          ∃ e ∈ rows, e.serial = "AAAA".toList ∧ e.Shown) ↔
        ChipsetsAgree (List.map Char.toLower) bareHost bareType "AAAA".toList) :=
  ⟨_, _, rfl, rfl, @selected_iff_shown_iff (List.map Char.toLower) bareHost none [bareType] bareType
    "AAAA".toList _ Unit { byid := bareHost.byid, canbus := fun _ => none } [bareEntry] _
    (by simp [NamesDiffer]) (by simp) (by simp [bareType]) rfl rfl rfl
    (by simp [bareType, bareEntry]) rfl rfl⟩

/-- The row of the waiting board wants a flash, and the fleet flash leaves the board out. -/
theorem waiting_board_left_out :
    boardsToFlash (List.map Char.toLower) bareHost .stale none [bareType] = .ok [] ∧
      ∃ rows, typeStatus (List.map Char.toLower) bareHost bareRows bareType = .ok rows ∧
        ∃ e ∈ rows, e.serial = "AAAA".toList ∧ e.Shown := by
  refine ⟨rfl, _, rfl, _, List.mem_singleton_self _, rfl, ?_, rfl⟩
  decide

end McuUpdater.Agent
