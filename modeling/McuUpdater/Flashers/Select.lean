import McuUpdater.Registry.Typelist

/-! `flashers/registry.py`: which flasher of a family writes a device, and which one sets a bare
board of a type up. -/
namespace McuUpdater.Flashers
open PyText Registry Typelist

/-- How a `Device` is addressed. -/
inductive DeviceKind
  | serial
  | canbus
  | port
  | bare
  deriving DecidableEq

structure Device where
  type : Str
  id : Str
  chipset : Str
  state : Str
  fw : Str
  kind : DeviceKind
  deriving DecidableEq

def stateDfu : Str := "dfu".toList
def stateBootsel : Str := "bootsel".toList
def stateEspRom : Str := "esp_rom".toList

def kindBin : Str := "bin".toList
def kindUf2 : Str := "uf2".toList
def kindPioEnv : Str := "pio_env".toList

/-- `artifacts.Artifact` -/
structure Artifact where
  kind : Str
  path : Str
  sha256 : Option Str := none
  deriving DecidableEq

structure Staged where
  artifacts : List Artifact

def Staged.firstOf (staged : Staged) (kinds : List Str) : Option Artifact :=
  kinds.findSome? fun kind => staged.artifacts.find? (·.kind = kind)

/-- The classes of `FLASHERS`, in its order. -/
inductive Tool
  | flashtool
  | platformio
  | dfuUtil
  | bootsel
  deriving DecidableEq

def Tool.all : List Tool := [.flashtool, .platformio, .dfuUtil, .bootsel]

def Tool.name : Tool → Str
  | .flashtool => "flashtool".toList
  | .platformio => "platformio".toList
  | .dfuUtil => "dfu_util".toList
  | .bootsel => "bootsel".toList

def Tool.chipsets : Tool → List Str
  | .flashtool => ["stm32".toList, "rp2040".toList, "lpc176".toList]
  | .platformio => ["esp32".toList]
  | .dfuUtil => ["stm32".toList]
  | .bootsel => ["rp2040".toList]

def Tool.states : Tool → List Str
  | .flashtool => ["klipper".toList, "katapult".toList]
  | .platformio => [stateEspRom]
  | .dfuUtil => [stateDfu]
  | .bootsel => [stateBootsel]

def Tool.accepts : Tool → List Str
  | .flashtool | .dfuUtil => [kindBin]
  | .platformio => [kindPioEnv]
  | .bootsel => [kindUf2]

/-- Whether `candidate_scanner` gives one: the classes with a `scan_candidates`. -/
def Tool.scans : Tool → Bool
  | .flashtool => false
  | .platformio | .dfuUtil | .bootsel => true

/-- `chipset_matches` -/
def Tool.chipsetMatches (t : Tool) (chipset : Str) : Bool := t.chipsets.any (·.isPrefixOf chipset)

/-- `supports`, over whether the helper can ask a running board for BOOTSEL. -/
def Tool.supports (requester : Bool) (device : Device) : Tool → Bool
  | .flashtool => (device.kind = .serial || device.kind = .canbus) &&
    Tool.flashtool.chipsetMatches device.chipset
  | .platformio =>
    if device.kind = .bare then
      device.state ∈ Tool.platformio.states && Tool.platformio.chipsetMatches device.chipset
    else device.kind = .port
  | .dfuUtil => device.kind = .bare && device.state ∈ Tool.dfuUtil.states &&
    Tool.dfuUtil.chipsetMatches device.chipset
  | .bootsel =>
    if device.state ∈ Tool.bootsel.states then Tool.bootsel.chipsetMatches device.chipset
    else device.kind = .serial && requester

/-- `_BY_NAME` -/
def toolOf (name : Str) : Option Tool := Tool.all.find? (·.name = name)

/-- `by_name` raised `KeyError` for this name. -/
structure UnknownFlasher where
  name : Str
  deriving DecidableEq

/-- The loop of `resolve` over the names a family lists. -/
def resolveAmong (device : Device) (requester : Bool) (staged : Staged) :
    List Str → Except UnknownFlasher (Option (Tool × Artifact))
  | [] => .ok none
  | name :: names =>
    match toolOf name with
    | none => .error ⟨name⟩
    | some tool =>
      if tool.supports requester device then
        match staged.firstOf tool.accepts with
        | some artifact => .ok (some (tool, artifact))
        | none => resolveAmong device requester staged names
      else resolveAmong device requester staged names

/-- `resolve` -/
def resolve (family : FirmwareFamily) (device : Device) (requester : Bool) (staged : Staged) :
    Except UnknownFlasher (Option (Tool × Artifact)) :=
  resolveAmong device requester staged family.flashers

/-! ## A bare board -/

def familyNamed (families : List FirmwareFamily) (fw : Str) : Option FirmwareFamily :=
  families.find? (·.name = fw)

/-- `install_family` -/
def installFamily (firmwares : List Str) (families : List FirmwareFamily) : Str :=
  let flags := fun fw => (familyNamed families fw).map (·.bootloader)
  (firmwares.find? (isBootloader flags ·)).getD (McuType.application flags { name := [], firmwares })

/-- `_bare` -/
def bare (entry : TypeEntry) (fw state : Str) : Device where
  type := entry.name
  id := []
  chipset := entry.chipset
  state
  fw
  kind := .bare

def show_ (s : Str) : String := String.ofList s

def commas (names : List Str) : String := ", ".intercalate (names.map show_)

/-- `SEEDED_KEYS` -/
def seededKeys (fw : Str) : List (String × String) :=
  if fw = "klipper".toList then [("flashers", "flashtool")]
  else if fw = "katapult".toList then [("flashers", "dfu_util, bootsel")]
  else []

def missingSectionMessage (fw : Str) : String :=
  let lines := [s!"[firmware {show_ fw}]", s!"source: ~/{show_ fw}"] ++
    (seededKeys fw).map fun kv => s!"{kv.1}: {kv.2}"
  s!"No [firmware {show_ fw}] section is declared. Add one to mcu-updater.cfg:\n" ++
    "\n".intercalate (lines.map ("    " ++ ·)) ++
    "\nRe-running install.sh writes the klipper and katapult sections for you.\n" ++
    "Every section is shown, commented, in mcu-updater.cfg and README.md in the " ++
    "mcu-updater checkout."

/-- `_no_first_install_writer`, for a writer that was found. -/
def noFirstInstallWriter (family : FirmwareFamily) (chipset state writer : Str) : String :=
  let rom := if state = stateBootsel then "BOOTSEL" else if state = stateDfu then "DFU"
    else "its ROM bootloader"
  let section_ := s!"[firmware {show_ family.name}]"
  if writer ∉ family.flashers then
    let line := commas (family.flashers ++ [writer])
    s!"nothing on {section_}'s flashers: list writes a bare {show_ chipset} in " ++
      s!"{rom}. Add {show_ writer} to it - flashers: {line} - on {section_}, then try again."
  else
    s!"don't know how to perform a first-time flash for chipset '{show_ chipset}': " ++
      s!"{show_ writer} on {section_} does not write it. Flash {show_ family.name} manually, " ++
      "then use 'add-serial' once it enumerates."

structure FirstInstall where
  fw : Str
  flasher : Option Str
  state : Str
  reason : Option String
  deriving DecidableEq

/-- The first of these flashers that takes a bare board in one of its own states, and the state. -/
def firstWriter (entry : TypeEntry) (fw : Str) (ts : List Tool) : Option (Tool × Str) :=
  ts.findSome? fun t =>
    (t.states.find? fun state => t.supports false (bare entry fw state)).map (t, ·)

/-- `first_install` -/
def firstInstall (entry : TypeEntry) (families : List FirmwareFamily) : FirstInstall :=
  if entry.firmwares = [] then
    ⟨[], none, [], some (s!"[type {show_ entry.name}] declares no firmware, so there is " ++
      "nothing to install.")⟩
  else
    let fw := installFamily entry.firmwares families
    match familyNamed families fw with
    | none => ⟨fw, none, [], some (missingSectionMessage fw)⟩
    | some family =>
      let listed := family.flashers.filterMap toolOf
      let scanners := listed.filter Tool.scans
      match firstWriter entry fw scanners with
      | some (tool, state) => ⟨fw, some tool.name, state, none⟩
      | none =>
        ⟨fw, none, [], some <|
          if scanners ≠ [] ∧ entry.chipset = [] then
            s!"[type {show_ entry.name}] declares no chipset:, and a bare board has " ++
              "nothing else to say which boot ROM it speaks. Add chipset: to it."
          else
            match firstWriter entry fw (Tool.all.filter fun t => t ∉ listed && t.scans) with
            | some (writer, state) => noFirstInstallWriter family entry.chipset state writer.name
            | none =>
              if scanners ≠ [] then
                s!"none of the flashers on [firmware {show_ fw}] that can find a new board " ++
                  s!"({commas (scanners.map Tool.name)}) writes a bare " ++
                  s!"{show_ entry.chipset}. Flash it by hand, then track it once it enumerates."
              else
                s!"nothing on [firmware {show_ fw}]'s flashers: " ++
                  s!"({commas family.flashers}) can scan for a new board, " ++
                  "so this type cannot be set up from bare yet. Flash it by hand, then track it " ++
                  "once it enumerates."⟩

/-! ## A scan and a write agree -/

theorem toolOf_name (t : Tool) : toolOf t.name = some t := by
  cases t <;> decide

theorem Tool.supports_bare (t : Tool) (entry : TypeEntry) (fw state : Str) :
    t.supports false (bare entry fw state) =
      (t.scans && decide (state ∈ t.states) && t.chipsetMatches entry.chipset) := by
  cases t with
  | flashtool => rfl
  | platformio => rfl
  | dfuUtil => rfl
  | bootsel => by_cases h : state ∈ Tool.bootsel.states <;> simp [Tool.supports, bare, Tool.scans, h]

theorem Tool.states_apart {t u : Tool} {state : Str} (ht : t.scans = true) (hu : u.scans = true)
    (mine : state ∈ t.states) (its : state ∈ u.states) : u = t := by
  cases t <;> cases u <;>
    first
    | rfl
    | exact absurd ht (by decide)
    | exact absurd hu (by decide)
    | exact absurd ((List.mem_singleton.1 mine).symm.trans (List.mem_singleton.1 its)) (by decide)

theorem firstWriter_some {entry : TypeEntry} {fw state : Str} {ts : List Tool} {t : Tool}
    (h : firstWriter entry fw ts = some (t, state)) :
    t ∈ ts ∧ state ∈ t.states ∧ t.supports false (bare entry fw state) = true := by
  obtain ⟨u, hu, found⟩ := List.exists_of_findSome?_eq_some h
  obtain ⟨s, hs, pair⟩ := Option.map_eq_some_iff.1 found
  obtain ⟨rfl, rfl⟩ := Prod.mk.inj pair
  have supported := List.find?_some hs
  exact ⟨hu, List.mem_of_find?_eq_some hs, supported⟩

theorem firstWriter_none {entry : TypeEntry} {fw : Str} {ts : List Tool}
    (h : firstWriter entry fw ts = none) {t : Tool} (ht : t ∈ ts) {state : Str}
    (hs : state ∈ t.states) : t.supports false (bare entry fw state) = false := by
  have none_of_t := List.findSome?_eq_none_iff.1 h t ht
  rw [Option.map_eq_none_iff, List.find?_eq_none] at none_of_t
  simpa using none_of_t state hs

/-- What a tool of the list would write `device` with. -/
def offer (device : Device) (requester : Bool) (staged : Staged) (t : Tool) :
    Option (Tool × Artifact) :=
  if t.supports requester device then (staged.firstOf t.accepts).map (t, ·) else none

theorem resolveAmong_eq {device : Device} {requester : Bool} {staged : Staged} {names : List Str}
    (known : ∀ name ∈ names, (toolOf name).isSome) :
    resolveAmong device requester staged names =
      .ok ((names.filterMap toolOf).findSome? (offer device requester staged)) := by
  induction names with
  | nil => rfl
  | cons name names ih =>
    have rest := ih fun n hn => known n (List.mem_cons_of_mem _ hn)
    obtain ⟨tool, htool⟩ := Option.isSome_iff_exists.1 (known name List.mem_cons_self)
    rw [resolveAmong, htool, List.filterMap_cons_some htool, List.findSome?_cons, rest, offer]
    by_cases takes : tool.supports requester device
    · cases hart : staged.firstOf tool.accepts <;> simp [takes, hart]
    · simp [takes]

theorem firstOf_isSome_iff (staged : Staged) (kinds : List Str) :
    (staged.firstOf kinds).isSome ↔ ∃ artifact ∈ staged.artifacts, artifact.kind ∈ kinds := by
  simp only [Staged.firstOf, List.findSome?_isSome_iff, List.find?_isSome, decide_eq_true_eq]
  constructor
  · rintro ⟨kind, hk, artifact, ha, rfl⟩
    exact ⟨artifact, ha, hk⟩
  · rintro ⟨artifact, ha, hk⟩
    exact ⟨artifact.kind, hk, artifact, ha, rfl⟩

theorem mem_of_firstOf {staged : Staged} {kinds : List Str} {artifact : Artifact}
    (h : staged.firstOf kinds = some artifact) :
    artifact ∈ staged.artifacts ∧ artifact.kind ∈ kinds := by
  obtain ⟨kind, hk, found⟩ := List.exists_of_findSome?_eq_some h
  have same : artifact.kind = kind := by simpa using List.find?_some found
  exact ⟨List.mem_of_find?_eq_some found, same ▸ hk⟩

theorem findSome_offer {device : Device} {requester : Bool} {staged : Staged} {t : Tool}
    {artifact : Artifact} {ts : List Tool} (listed : t ∈ ts)
    (only : ∀ u ∈ ts, u.supports requester device = true → u = t)
    (takes : t.supports requester device = true) (found : staged.firstOf t.accepts = some artifact) :
    ts.findSome? (offer device requester staged) = some (t, artifact) := by
  induction ts with
  | nil => exact absurd listed List.not_mem_nil
  | cons u ts ih =>
    rw [List.findSome?_cons]
    by_cases same : u = t
    · simp [same, offer, takes, found]
    · have refuses : u.supports requester device = false := by
        by_contra h
        exact same (only u List.mem_cons_self (by simpa using h))
      have later := (List.mem_cons.1 listed).resolve_left (Ne.symm same)
      simp only [offer, refuses, Bool.false_eq_true, if_false]
      exact ih later fun v hv => only v (List.mem_cons_of_mem _ hv)

/-- `first_install` past its two refusals, as the search it is. -/
theorem firstInstall_eq {entry : TypeEntry} {families : List FirmwareFamily}
    {family : FirmwareFamily} (declared : entry.firmwares ≠ [])
    (found : familyNamed families (installFamily entry.firmwares families) = some family) :
    ∃ reason, firstInstall entry families =
      match firstWriter entry (installFamily entry.firmwares families)
          ((family.flashers.filterMap toolOf).filter Tool.scans) with
      | some (tool, state) =>
        ⟨installFamily entry.firmwares families, some tool.name, state, none⟩
      | none => ⟨installFamily entry.firmwares families, none, [], some reason⟩ := by
  simp only [firstInstall, if_neg declared, found]
  cases firstWriter entry (installFamily entry.firmwares families)
      ((family.flashers.filterMap toolOf).filter Tool.scans) with
  | none => exact ⟨_, rfl⟩
  | some choice => exact ⟨"", rfl⟩

theorem firstInstall_resolves (entry : TypeEntry) (families : List FirmwareFamily)
    (family : FirmwareFamily) (declared : entry.firmwares ≠ [])
    (found : familyNamed families (installFamily entry.firmwares families) = some family)
    (known : ∀ name ∈ family.flashers, (toolOf name).isSome) :
    (∀ name, (firstInstall entry families).flasher = some name →
      ∃ tool, toolOf name = some tool ∧ ∀ staged : Staged,
        (∃ artifact ∈ staged.artifacts, artifact.kind ∈ tool.accepts) →
        ∃ artifact ∈ staged.artifacts, artifact.kind ∈ tool.accepts ∧
          resolve family
            (bare entry (firstInstall entry families).fw (firstInstall entry families).state)
            false staged = .ok (some (tool, artifact))) ∧
    ((firstInstall entry families).flasher = none → ∀ (state : Str) (staged : Staged),
      resolve family (bare entry (firstInstall entry families).fw state) false staged =
        .ok none) := by
  obtain ⟨reason, choice⟩ := firstInstall_eq declared found
  rw [choice]
  cases hw : firstWriter entry (installFamily entry.firmwares families)
      ((family.flashers.filterMap toolOf).filter Tool.scans) with
  | none =>
    refine ⟨nofun, fun _ state staged => ?_⟩
    rw [resolve, resolveAmong_eq known, List.findSome?_eq_none_iff.2]
    intro t ht
    -- a flasher that does not scan takes no bare device at all, the others were asked in each state
    have refuses : t.supports false
        (bare entry (installFamily entry.firmwares families) state) = false := by
      by_contra takes
      rw [Bool.not_eq_false, Tool.supports_bare] at takes
      simp only [Bool.and_eq_true, decide_eq_true_eq] at takes
      obtain ⟨⟨scans, hs⟩, matched⟩ := takes
      have asked := firstWriter_none hw (List.mem_filter.2 ⟨ht, scans⟩) hs
      simp [Tool.supports_bare, scans, hs, matched] at asked
    simp [offer, refuses]
  | some pair =>
    obtain ⟨tool, state⟩ := pair
    refine ⟨?_, nofun⟩
    rintro name ⟨rfl⟩
    obtain ⟨hmem, hs, takes⟩ := firstWriter_some hw
    obtain ⟨listed, scans⟩ := List.mem_filter.1 hmem
    refine ⟨tool, toolOf_name tool, fun staged has => ?_⟩
    obtain ⟨artifact, hart⟩ := Option.isSome_iff_exists.1
      ((firstOf_isSome_iff staged tool.accepts).2 has)
    obtain ⟨mem, kind⟩ := mem_of_firstOf hart
    refine ⟨artifact, mem, kind, ?_⟩
    rw [resolve, resolveAmong_eq known, findSome_offer listed ?_ takes hart]
    intro u _ its
    rw [Tool.supports_bare] at its
    simp only [Bool.and_eq_true, decide_eq_true_eq] at its
    exact Tool.states_apart scans its.1.1 hs its.1.2

/-- An RP2040 type and the list the seed writes for its install family. -/
def toolhead : TypeEntry where
  name := "toolhead".toList
  firmwares := ["klipper".toList, "katapult".toList]
  chipset := "rp2040".toList
  serials := []
  canbusUuids := []
  stopServices := none
  builders := [kconfigMake, kconfigMake]

def seededKatapult : FirmwareFamily where
  name := "katapult".toList
  builder := kconfigMake
  helper := []
  flashers := ["dfu_util".toList, "bootsel".toList]
  bootloader := true
  autoProvision := false

theorem firstInstall_resolves_toolhead :
    ∃ tool, toolOf "bootsel".toList = some tool ∧ ∀ staged : Staged,
      (∃ artifact ∈ staged.artifacts, artifact.kind ∈ tool.accepts) →
      ∃ artifact ∈ staged.artifacts, artifact.kind ∈ tool.accepts ∧
        resolve seededKatapult (bare toolhead (firstInstall toolhead [seededKatapult]).fw
          (firstInstall toolhead [seededKatapult]).state) false staged = .ok (some (tool, artifact)) :=
  (firstInstall_resolves toolhead [seededKatapult] seededKatapult (by decide) (by decide)
    (by decide)).1 _ (by decide)

end McuUpdater.Flashers
