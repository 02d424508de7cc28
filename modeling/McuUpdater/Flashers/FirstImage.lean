import McuUpdater.Flashers.Bootsel
import McuUpdater.Flashers.DfuUtil
import McuUpdater.Flashers.Select
import McuUpdater.Profiles.Deriving
import McuUpdater.Uf2.Rom

/-! `flashers/flash.py`: the first image of a bare board. A bootloader's image goes to a board in
BOOTSEL with the application's sector erased; an application's has to start where the board
boots. What is reported is left out. -/
namespace McuUpdater.Flashers
open PyText Bootsel Discovery Typelist Uf2Erase
open Profiles (File parseAnswer launchAddressSymbol)

/-- `uf2_erase.launch_address`, over the lines of the config and `int(raw, 16)`. -/
def launchAddress (intBase16 : Str → Option Int) (config : File) : Option Int :=
  let answers := (config.filterMap parseAnswer).foldl (Dict.dictPut Prod.fst) []
  let raw := strip ((answers.lookup launchAddressSymbol).getD [])
  if raw = [] then none else intBase16 raw

/-- `STM32_FLASH_BASE` -/
def stm32FlashBase : Nat := 0x08000000

inductive FirstError
  | unknownFamily
  | noUf2
  | noBin
  | unknownFlasher (name : Str)
  | unsupported
  /-- `BareImageOffsetError` -/
  | offset (start : Option Int)
  | noLaunchAddress
  | unreadable
  | notErasable (message : String)
  | notStaged
  | dfu (e : DfuError)
  | bootsel (e : BootselError)

/-- The arguments and surroundings of one first install. -/
structure FirstCall where
  families : List FirmwareFamily
  fw : Str
  chipset : Str
  state : Str
  fwBin : Option Str
  uf2Bin : Option Str
  /-- the lines of Katapult's saved config, `none` where there is no path for it -/
  katapultConfig : Option File
  targetSerial : Option Str
  dryRun : Bool
  /-- the bytes of an image, where it can be read -/
  files : Str → Option (List UInt8)
  /-- the integer that the build record has for `app_address` -/
  appAddress : Option Int
  intBase16 : Str → Option Int
  /-- the extended image can be written to the staging directory -/
  stages : Bool
  fwBinExists : Bool
  listing : Option Str
  run : Selector → Run
  uf2Exists : Bool
  present : List Str
  view : BootselView
  copy : Str → CopyCall

/-- What was written to which board, and what was returned. -/
structure FirstFlash where
  dfu : List Selector := []
  bootsel : List BootselEffect := []
  result : Option (Except FirstError Unit)

def refused (e : FirstError) : FirstFlash := { result := some (.error e) }

/-- `_stage_erasing_uf2`: the bytes it writes. -/
def stageErasingUf2 (image : Option (List UInt8)) (address : Option Int) :
    Except FirstError (List UInt8) :=
  match address with
  | none => .error .noLaunchAddress
  | some address =>
    match image with
    | none => .error .unreadable
    | some image =>
      match address with
      | .ofNat address => (withErasedSector image address).mapError .notErasable
      -- no header holds such an address
      | .negSucc _ => .error (.notErasable "'I' format requires 0 <= number <= 4294967295")

section Model
variable (isWord isDecimal : Char → Bool) (c : FirstCall)

def FirstCall.launch : Option Int := c.katapultConfig.bind (launchAddress c.intBase16)

def FirstCall.device : Device where
  type := c.chipset
  id := c.targetSerial.getD []
  chipset := c.chipset
  state := c.state
  fw := c.fw
  kind := .bare

def FirstCall.built : Staged where
  artifacts := ((blankToNone c.fwBin).toList.map fun path => { kind := kindBin, path }) ++
    ((blankToNone c.uf2Bin).toList.map fun path => { kind := kindUf2, path })

/-- The start of an image that `refuse_unbootable_first_image` compares, and where a board
boots. -/
def FirstCall.start (artifact : Artifact) : Option Int × Nat :=
  if artifact.kind = kindUf2 then
    match imageStart (c.files artifact.path) with
    | .ok start => (start.map Int.ofNat, flashBase)
    | .error _ => (none, flashBase)
  else (c.appAddress, stm32FlashBase)

/-- `refuse_unbootable_first_image` -/
def refuseUnbootableFirstImage (artifact : Artifact) : Except FirstError Unit :=
  if artifact.kind ≠ kindBin && artifact.kind ≠ kindUf2 then .ok ()
  else
    let (start, base) := c.start artifact
    if start = some (base : Int) then .ok () else .error (.offset start)

def FirstCall.dfuCall (artifact : Artifact) : DfuCall where
  dryRun := c.dryRun
  fwBin := artifact.path
  fwBinExists := c.fwBinExists
  listing := c.listing
  targetSerial := blankToNone (some c.device.id)
  run := c.run

def FirstCall.bootselCall (data : Option (List UInt8)) : BootselCall where
  dryRun := c.dryRun
  imageExists := c.uf2Exists
  data := data
  requester := none
  present := c.present
  view := c.view
  looks := []
  copy mount := { c.copy mount with image := data.getD [] }

def FirstCall.writeDfu (artifact : Artifact) : FirstFlash :=
  let flashed := flashDfuStm32 isWord isDecimal (c.dfuCall artifact)
  { dfu := flashed.writes, result := some (flashed.result.mapError .dfu) }

def FirstCall.writeBootsel (data : Option (List UInt8)) : FirstFlash :=
  let written := bootselWrite (c.bootselCall data)
  { bootsel := written.effects
    result := written.result.map fun result => (result.mapError .bootsel).map fun _ => () }

/-- The bytes that a copy of the image hands over. -/
def FirstCall.handed (family : FirmwareFamily) (artifact : Artifact) :
    Except FirstError (Option (List UInt8)) :=
  if artifact.kind = kindUf2 && family.bootloader then do
    let extended ← stageErasingUf2 (c.files artifact.path) c.launch
    if c.stages then return some extended else .error .notStaged
  else .ok (c.files artifact.path)

/-- `flash_initial_bootloader`, from the choice of a flasher on. -/
def FirstCall.writeChosen (family : FirmwareFamily) (tool : Tool) (artifact : Artifact) :
    FirstFlash :=
  match if family.bootloader then .ok () else refuseUnbootableFirstImage c artifact with
  | .error e => refused e
  | .ok () =>
    match c.handed family artifact with
    | .error e => refused e
    | .ok data =>
      match tool with
      | .bootsel => c.writeBootsel data
      -- no other takes a bare board and an image that was handed in
      | _ => c.writeDfu isWord isDecimal artifact

/-- `flash_initial_bootloader` -/
def flashInitialBootloader : FirstFlash :=
  match familyNamed c.families c.fw with
  | none => refused .unknownFamily
  | some family =>
    if c.state = stateBootsel && c.uf2Bin.isNone then refused .noUf2
    else if c.state = stateDfu && c.fwBin.isNone then refused .noBin
    else
      match resolve family c.device false c.built with
      | .error e => refused (.unknownFlasher e.name)
      | .ok none => refused .unsupported
      | .ok (some (tool, artifact)) => c.writeChosen isWord isDecimal family tool artifact

/-! ## What is handed over, and to which board -/

/-- The file that a board in BOOTSEL is given: a bootloader's with the sector erased that it
launches, or an application's that starts where the board boots. -/
inductive Handed (family : FirmwareFamily) : List UInt8 → Prop
  | extended {path : Str} {image out : List UInt8} {address : Nat}
      (bootloader : family.bootloader = true) (given : c.uf2Bin = some path)
      (read : c.files path = some image) (launch : c.launch = some (address : Int))
      (erased : withErasedSector image address = .ok out) : Handed family out
  | asBuilt {path : Str} {image : List UInt8} {length : Nat}
      (application : family.bootloader = false) (given : c.uf2Bin = some path)
      (read : c.files path = some image)
      (start : Uf2.imageExtent image = .ok (flashBase, length)) : Handed family image

/-- A copy to the one volume there was, of a file it was right to hand over. -/
structure GoodCopy (family : FirmwareFamily) (effect : BootselEffect)
    (result : Option (Except FirstError Unit)) : Prop where
  handed : ∃ mount landed out, effect = .copy mount landed ∧ bootselScan c.view = [mount] ∧
    Handed c family out ∧ (∀ bytes ∈ landed, bytes <+: out) ∧
    (result = some (.ok ()) → landed = some out)

structure FirstSafe : Prop where
  one : (flashInitialBootloader isWord isDecimal c).dfu.length +
    (flashInitialBootloader isWord isDecimal c).bootsel.length ≤ 1
  dry : c.dryRun = true → (flashInitialBootloader isWord isDecimal c).dfu = [] ∧
    (flashInitialBootloader isWord isDecimal c).bootsel = []
  refused : (flashInitialBootloader isWord isDecimal c).dfu = [] →
    (flashInitialBootloader isWord isDecimal c).bootsel = [] → c.dryRun = false →
    ∃ e, (flashInitialBootloader isWord isDecimal c).result = some (.error e)
  dfu : ∀ sel ∈ (flashInitialBootloader isWord isDecimal c).dfu, ∃ family artifact,
    familyNamed c.families c.fw = some family ∧ c.fwBin = some artifact.path ∧
      (family.bootloader = false → c.appAddress = some (stm32FlashBase : Int)) ∧
      (Alike ((c.dfuCall artifact).lines isWord isDecimal) → ∃ board,
        OnlyBoard (c.dfuCall artifact) ((c.dfuCall artifact).lines isWord isDecimal) sel board)
  bootsel : ∀ effect ∈ (flashInitialBootloader isWord isDecimal c).bootsel, ∃ family,
    familyNamed c.families c.fw = some family ∧
      GoodCopy c family effect (flashInitialBootloader isWord isDecimal c).result
  /-- whatever blocks of what landed the board takes, in whatever order -/
  blank : ∀ family mount bytes, familyNamed c.families c.fw = some family →
    family.bootloader = true →
    .copy mount (some bytes) ∈ (flashInitialBootloader isWord isDecimal c).bootsel →
    ∀ flash, ∀ l ⊆ received bytes, (romRun flash l).rebooted = true →
      ∃ address : Nat, c.launch = some (address : Int) ∧
        ∀ x, sectorOf x = sectorOf address → (romRun flash l).flash.cells x = 0xff

end Model

section Facts
variable {isWord isDecimal : Char → Bool} {c : FirstCall} {family : FirmwareFamily} {tool : Tool}
  {artifact : Artifact} {data : Option (List UInt8)}

theorem resolveAmong_some {device : Device} {requester : Bool} {staged : Staged} {names : List Str}
    (h : resolveAmong device requester staged names = .ok (some (tool, artifact))) :
    tool.supports requester device = true ∧ staged.firstOf tool.accepts = some artifact := by
  induction names with
  | nil => cases h
  | cons name names ih =>
    rw [resolveAmong] at h
    split at h
    · cases h
    · split at h
      · rename_i hsupports
        split at h
        · rename_i hfirst
          cases h
          exact ⟨hsupports, hfirst⟩
        · exact ih h
      · exact ih h

theorem built_uf2 (h : artifact ∈ c.built.artifacts) (hkind : artifact.kind = kindUf2) :
    c.uf2Bin = some artifact.path := by
  rcases List.mem_append.mp h with h | h
  · obtain ⟨path, -, rfl⟩ := List.mem_map.mp h
    exact absurd hkind (show kindBin ≠ kindUf2 by decide)
  · obtain ⟨path, hpath, rfl⟩ := List.mem_map.mp h
    exact (blankToNone_eq_some.mp (Option.mem_toList.mp hpath)).1

theorem built_bin (h : artifact ∈ c.built.artifacts) (hkind : artifact.kind = kindBin) :
    c.fwBin = some artifact.path := by
  rcases List.mem_append.mp h with h | h
  · obtain ⟨path, hpath, rfl⟩ := List.mem_map.mp h
    exact (blankToNone_eq_some.mp (Option.mem_toList.mp hpath)).1
  · obtain ⟨path, -, rfl⟩ := List.mem_map.mp h
    exact absurd hkind (show kindUf2 ≠ kindBin by decide)

theorem resolve_bare (h : resolve family c.device false c.built = .ok (some (tool, artifact))) :
    (tool = .dfuUtil ∧ artifact.kind = kindBin ∧ c.fwBin = some artifact.path) ∨
    (tool = .bootsel ∧ artifact.kind = kindUf2 ∧ c.uf2Bin = some artifact.path) := by
  obtain ⟨hsupports, hfirst⟩ := resolveAmong_some h
  obtain ⟨hmem, hkind⟩ := mem_of_firstOf hfirst
  cases tool with
  | flashtool => simp [Tool.supports, FirstCall.device] at hsupports
  | platformio =>
    have hkind : artifact.kind = kindPioEnv := List.mem_singleton.mp hkind
    rcases List.mem_append.mp hmem with h | h
    · obtain ⟨path, -, rfl⟩ := List.mem_map.mp h
      exact absurd hkind (show kindBin ≠ kindPioEnv by decide)
    · obtain ⟨path, -, rfl⟩ := List.mem_map.mp h
      exact absurd hkind (show kindUf2 ≠ kindPioEnv by decide)
  | dfuUtil =>
    have hkind : artifact.kind = kindBin := List.mem_singleton.mp hkind
    exact Or.inl ⟨rfl, hkind, built_bin hmem hkind⟩
  | bootsel =>
    have hkind : artifact.kind = kindUf2 := List.mem_singleton.mp hkind
    exact Or.inr ⟨rfl, hkind, built_uf2 hmem hkind⟩

theorem refuse_bin (hkind : artifact.kind = kindBin)
    (h : refuseUnbootableFirstImage c artifact = .ok ()) :
    c.appAddress = some (stm32FlashBase : Int) := by
  have hne : ¬(kindBin = kindUf2) := by decide
  simp only [refuseUnbootableFirstImage, FirstCall.start, hkind, hne, if_false] at h
  split at h
  · rename_i hskip
    simp at hskip
  · split at h
    · assumption
    · cases h

theorem refuse_uf2 (hkind : artifact.kind = kindUf2)
    (h : refuseUnbootableFirstImage c artifact = .ok ()) :
    ∃ image length, c.files artifact.path = some image ∧
      Uf2.imageExtent image = .ok (flashBase, length) := by
  simp only [refuseUnbootableFirstImage, FirstCall.start, hkind, if_true] at h
  split at h
  · rename_i hskip
    simp at hskip
  · cases hstart : imageStart (c.files artifact.path) with
    | error message => simp [hstart] at h
    | ok start =>
      rw [hstart] at h
      dsimp only at h
      split at h
      · rename_i hbase
        cases hfile : c.files artifact.path with
        | none =>
          rw [hfile, imageStart] at hstart
          cases hstart
          cases hbase
        | some image =>
          rw [hfile, imageStart] at hstart
          obtain ⟨⟨first, length⟩, hextent, rfl⟩ := ExceptList.map_ok hstart
          have hfirst : first = flashBase := by simpa using hbase
          exact ⟨image, length, rfl, by rw [hextent, hfirst]⟩
      · cases h

theorem handed_of_checked (hkind : artifact.kind = kindUf2)
    (hgiven : c.uf2Bin = some artifact.path)
    (hchecked : (if family.bootloader then .ok () else refuseUnbootableFirstImage c artifact) =
      .ok ())
    (h : c.handed family artifact = .ok data) : ∃ out, data = some out ∧ Handed c family out := by
  unfold FirstCall.handed at h
  cases hboot : family.bootloader with
  | false =>
    rw [hboot] at hchecked h
    obtain ⟨image, length, hread, hextent⟩ := refuse_uf2 hkind hchecked
    simp only [hkind, decide_true, Bool.and_false, Bool.false_eq_true, if_false] at h
    cases h
    exact ⟨image, hread, .asBuilt hboot hgiven hread hextent⟩
  | true =>
    simp only [hkind, hboot, decide_true, Bool.and_true, if_true] at h
    obtain ⟨extended, hstage, h⟩ := ExceptList.bind_ok h
    split at h
    · cases h
      refine ⟨extended, rfl, ?_⟩
      unfold stageErasingUf2 at hstage
      split at hstage
      · cases hstage
      · rename_i address hlaunch
        split at hstage
        · cases hstage
        · rename_i image hread
          split at hstage
          · rename_i address
            exact .extended hboot hgiven hread hlaunch (Uf2.mapError_ok hstage)
          · cases hstage
    · cases h

theorem writeBootsel_cases (c : FirstCall) (out : List UInt8) :
    ((c.writeBootsel (some out)).bootsel = [] ∧
      (c.dryRun = true ∨ ∃ e, (c.writeBootsel (some out)).result = some (.error e))) ∨
    (c.dryRun = false ∧ ∃ mount landed,
      (c.writeBootsel (some out)).bootsel = [.copy mount landed] ∧
      bootselScan c.view = [mount] ∧ (∀ bytes ∈ landed, bytes <+: out) ∧
      ((c.writeBootsel (some out)).result = some (.ok ()) → landed = some out)) := by
  have hcopy : ∀ mount, ((c.bootselCall (some out)).copy mount).image = out := fun _ => rfl
  have hdone : (c.writeBootsel (some out)).bootsel =
    (bootselWrite (c.bootselCall (some out))).effects := rfl
  rcases bootselWrite_cases (c.bootselCall (some out)) with ⟨hnone, hrefused, -⟩ | ⟨hwrite, hdry, -⟩
  · refine Or.inl ⟨hnone, hrefused.imp id fun ⟨e, he⟩ => ⟨.bootsel e, ?_⟩⟩
    rw [FirstCall.writeBootsel, he]
    rfl
  rcases copyToFound_cases (c.bootselCall (some out)) with ⟨heffects, -, herror⟩ |
    ⟨mount, hfound, heffects, hresult⟩
  · obtain ⟨e, he⟩ := herror heffects
    refine Or.inl ⟨by rw [hdone, hwrite, heffects]; rfl, Or.inr ⟨.bootsel e, ?_⟩⟩
    rw [FirstCall.writeBootsel, hwrite, he]
    rfl
  · have hsound := copySound ((c.bootselCall (some out)).copy mount)
    have haimed := aimed_of_found hfound
    refine Or.inr ⟨hdry, mount, _, by rw [hdone, hwrite, heffects]; rfl, ?_, fun bytes hbytes => ?_, fun h => ?_⟩
    · rcases haimed with ⟨-, hscan⟩ | ⟨topology, hasked, -⟩
      · exact hscan
      · cases hasked
    · rw [← hcopy mount]
      exact hsound.prefix_image bytes hbytes
    · rw [← hcopy mount]
      simp only [FirstCall.writeBootsel, hwrite, hresult] at h
      cases hcopied : (copyUf2 ((c.bootselCall (some out)).copy mount)).result with
      | error e => simp [hcopied, Except.mapError, Except.map] at h
      | ok applied => exact hsound.whole applied hcopied

theorem flashInitialBootloader_cases (isWord isDecimal : Char → Bool) (c : FirstCall) :
    (∃ e, flashInitialBootloader isWord isDecimal c = refused e) ∨
    ∃ family artifact, familyNamed c.families c.fw = some family ∧
      ((flashInitialBootloader isWord isDecimal c = c.writeDfu isWord isDecimal artifact ∧
          c.fwBin = some artifact.path ∧
          (family.bootloader = false → c.appAddress = some (stm32FlashBase : Int))) ∨
        ∃ out, flashInitialBootloader isWord isDecimal c = c.writeBootsel (some out) ∧
          Handed c family out) := by
  unfold flashInitialBootloader
  cases hfamily : familyNamed c.families c.fw with
  | none => exact Or.inl ⟨_, rfl⟩
  | some family =>
    dsimp only
    split
    · exact Or.inl ⟨_, rfl⟩
    split
    · exact Or.inl ⟨_, rfl⟩
    split
    case h_1 => exact Or.inl ⟨_, rfl⟩
    case h_2 => exact Or.inl ⟨_, rfl⟩
    case h_3 tool artifact hresolve =>
      unfold FirstCall.writeChosen
      split
      case h_1 => exact Or.inl ⟨_, rfl⟩
      case h_2 hchecked =>
        split
        case h_1 => exact Or.inl ⟨_, rfl⟩
        case h_2 data hhanded =>
          refine Or.inr ⟨family, artifact, rfl, ?_⟩
          rcases resolve_bare hresolve with ⟨rfl, hkind, hgiven⟩ | ⟨rfl, hkind, hgiven⟩
          · refine Or.inl ⟨rfl, hgiven, fun hboot => refuse_bin hkind ?_⟩
            simpa [hboot] using hchecked
          · obtain ⟨out, rfl, hout⟩ := handed_of_checked hkind hgiven hchecked hhanded
            exact Or.inr ⟨out, rfl, hout⟩

end Facts

end McuUpdater.Flashers
