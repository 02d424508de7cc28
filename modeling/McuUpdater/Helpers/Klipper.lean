import McuUpdater.Discovery.ByidScan
import McuUpdater.Flashers.Handoff
import McuUpdater.Profiles.Answers

/-! `helpers/klipper.py`: a running RP2040 is asked for BOOTSEL, and waited for after the write.
What is on the bus at each look is given. -/
namespace McuUpdater.Helpers.Klipper
open PyText Bootsel Discovery Flashers Profiles Dict
variable (lower : Str → Str)

/-! ## The request -/

/-- One look of `_await_bootsel`; the by-path directory is read anew for each device. -/
structure AwaitLook where
  mounts : BootselView
  byid : List BusDevice
  byPath : BusDevice → ByPathView
  late : Bool

/-- A device whose own topology lookup fails is on none. -/
def onTopology (byPath : BusDevice → ByPathView) (topology : Str) (dev : BusDevice) : Prop :=
  (serialTopologyFor (byPath dev) dev.path).toOption = some topology

instance (byPath : BusDevice → ByPathView) (topology : Str) (dev : BusDevice) :
    Decidable (onTopology byPath topology dev) :=
  inferInstanceAs (Decidable ((serialTopologyFor (byPath dev) dev.path).toOption = some topology))

/-- `mounts_on` -/
def mountsOn (view : BootselView) (topology : Str) : List Str :=
  matchingMounts (bootselScan view) topology

/-- `_katapult_on` -/
def katapultOn (look : AwaitLook) (topology : Str) : Bool :=
  look.byid.any fun dev => decide (lower dev.fw ∈ katapultNames) &&
    decide (onTopology look.byPath topology dev)

inductive RequestError
  | notRp2040
  | notOnUsb
  | inKatapult
  | topology (e : TopologyError)
  /-- `find_flashtool` raised -/
  | noTree
  | noFlashtool
  | exited (returncode : Int)
  | wentToKatapult

/-- `_await_bootsel`; with no look left it still waits. -/
def awaitBootsel (topology : Str) : List AwaitLook → Option (Except RequestError Unit)
  | [] => none
  | look :: looks =>
    if mountsOn look.mounts topology ≠ [] then some (.ok ())
    else if katapultOn lower look topology then some (.error .wentToKatapult)
    else if look.late then some (.ok ())
    else awaitBootsel topology looks

structure RequestCall where
  chipset : Str
  serial : Str
  byid : List BusDevice
  byPath : ByPathView
  /-- `os.path.exists(flashtool)`, `none` where it is not found out where it would be -/
  flashtool : Option Bool
  returncode : Int
  looks : List AwaitLook

structure Request where
  /-- the tty that `flashtool.py -r` was run for -/
  asked : Option Str
  /-- the topology of the handoff; `none` where it still waits -/
  result : Option (Except RequestError Str)

/-- `request_bootsel` -/
def requestBootsel (c : RequestCall) : Request :=
  if ¬"rp2040".toList <+: c.chipset then ⟨none, some (.error .notRp2040)⟩
  else
    match findDevice lower c.chipset c.serial none c.byid with
    | none => ⟨none, some (.error .notOnUsb)⟩
    | some device =>
      if lower device.fw ∈ katapultNames then ⟨none, some (.error .inKatapult)⟩
      else
        match serialTopologyFor c.byPath device.path with
        | .error e => ⟨none, some (.error (.topology e))⟩
        | .ok topology =>
          match c.flashtool with
          | none => ⟨none, some (.error .noTree)⟩
          | some false => ⟨none, some (.error .noFlashtool)⟩
          | some true =>
            if c.returncode ≠ 0 then ⟨some device.path, some (.error (.exited c.returncode))⟩
            else ⟨some device.path, (awaitBootsel lower topology c.looks).map fun awaited =>
              awaited.map fun _ => topology⟩

/-- The device is the only one with this serial, a running rp2040 whose USB socket is known. -/
structure Asked (c : RequestCall) (device : BusDevice) (topology : Str) : Prop where
  chipset : "rp2040".toList <+: c.chipset
  alone : findDevice lower c.chipset c.serial none c.byid = some device
  running : lower device.fw ∉ katapultNames
  socket : serialTopologyFor c.byPath device.path = .ok topology

/-- The wait ended with a volume on the topology, or with none in time, and never before with the
board in Katapult. -/
def LeftKlipper (topology : Str) (looks : List AwaitLook) : Prop :=
  ∃ before look after, looks = before ++ look :: after ∧
    (∀ earlier ∈ before, mountsOn earlier.mounts topology = [] ∧
      katapultOn lower earlier topology = false ∧ earlier.late = false) ∧
    (mountsOn look.mounts topology ≠ [] ∨
      katapultOn lower look topology = false ∧ look.late = true)

/-- What a request and the write that goes on with it do to the boards. -/
structure HandoffAimed (request : RequestCall) (write : BootselCall) : Prop where
  asked : ∀ tty, (requestBootsel lower request).asked = some tty →
    ∃ device topology, Asked lower request device topology ∧ device.path = tty
  /-- a board that was not asked, or that was seen elsewhere, is not written -/
  left : ∀ mount landed, .copy mount landed ∈ (bootselWrite write).effects →
    ∃ device topology, Asked lower request device topology ∧ request.returncode = 0 ∧
      (requestBootsel lower request).asked = some device.path ∧
      LeftKlipper lower topology request.looks
  /-- the volume that is written is of a drive on the ports that the asked board was on, of a
  controller with the same tag -/
  socket : ∀ (U T : Topology) (dir : Str) (v2 : Bool) (interface : Nat × Nat)
    (host channel target lun : Nat) (landed : Option (List UInt8)),
    (∀ device topology, Asked lower request device topology →
      request.byPath.OnSocket device.path U) → U.WellFormed → T.WellFormed →
    .copy (dir ++ '/' :: T.mountTag v2 interface host channel target lun) landed ∈
      (bootselWrite write).effects → SameTag T U

section Request
variable {lower} {request : RequestCall} {write : BootselCall} {device : BusDevice}
  {topology mount tty : Str} {looks : List AwaitLook} {landed : Option (List UInt8)}

theorem awaitBootsel_ok (h : awaitBootsel lower topology looks = some (.ok ())) :
    LeftKlipper lower topology looks := by
  induction looks with
  | nil => cases h
  | cons look looks ih =>
    rw [awaitBootsel] at h
    split_ifs at h with hmount hkatapult hlate
    · exact ⟨[], look, looks, rfl, by simp, Or.inl hmount⟩
    · cases h
    · exact ⟨[], look, looks, rfl, by simp, Or.inr ⟨by simpa using hkatapult, hlate⟩⟩
    · obtain ⟨before, last, after, rfl, hbefore, hlast⟩ := ih h
      refine ⟨look :: before, last, after, rfl, ?_, hlast⟩
      rw [List.forall_mem_cons]
      exact ⟨⟨by simpa using hmount, by simpa using hkatapult, by simpa using hlate⟩, hbefore⟩

theorem requestBootsel_cases (lower : Str → Str) (request : RequestCall) :
    ((requestBootsel lower request).asked = none ∧
      ∃ e, (requestBootsel lower request).result = some (.error e)) ∨
    ∃ device topology, Asked lower request device topology ∧
      (requestBootsel lower request).asked = some device.path ∧
      ((∃ e, (requestBootsel lower request).result = some (.error e)) ∨
        request.returncode = 0 ∧ (requestBootsel lower request).result =
          (awaitBootsel lower topology request.looks).map fun awaited => awaited.map fun _ => topology) := by
  unfold requestBootsel
  by_cases hchipset : "rp2040".toList <+: request.chipset
  case neg =>
    rw [if_pos hchipset]
    exact Or.inl ⟨rfl, _, rfl⟩
  rw [if_neg (not_not.mpr hchipset)]
  cases hdevice : findDevice lower request.chipset request.serial none request.byid with
  | none => exact Or.inl ⟨rfl, _, rfl⟩
  | some device =>
    dsimp only
    by_cases hkatapult : lower device.fw ∈ katapultNames
    case pos =>
      rw [if_pos hkatapult]
      exact Or.inl ⟨rfl, _, rfl⟩
    rw [if_neg hkatapult]
    cases htopology : serialTopologyFor request.byPath device.path with
    | error e => exact Or.inl ⟨rfl, _, rfl⟩
    | ok topology =>
      have hasked : Asked lower request device topology := ⟨hchipset, hdevice, hkatapult, htopology⟩
      cases htool : request.flashtool with
      | none => exact Or.inl ⟨rfl, _, rfl⟩
      | some exists_ =>
        cases exists_ with
        | false => exact Or.inl ⟨rfl, _, rfl⟩
        | true =>
          dsimp only
          split_ifs with hcode
          · exact Or.inr ⟨device, topology, hasked, rfl, Or.inl ⟨_, rfl⟩⟩
          · exact Or.inr ⟨device, topology, hasked, rfl, Or.inr ⟨not_not.mp hcode, rfl⟩⟩

theorem requestBootsel_ok (h : (requestBootsel lower request).result = some (.ok topology)) :
    ∃ device, Asked lower request device topology ∧ request.returncode = 0 ∧
      (requestBootsel lower request).asked = some device.path ∧
      LeftKlipper lower topology request.looks := by
  rcases requestBootsel_cases lower request with ⟨-, e, he⟩ | ⟨device, found, hasked, htty, hresult⟩
  · rw [he] at h
    cases h
  · rcases hresult with ⟨e, he⟩ | ⟨hcode, hawait⟩
    · rw [he] at h
      cases h
    · rw [hawait] at h
      obtain ⟨awaited, hlooks, hmap⟩ := Option.map_eq_some_iff.mp h
      obtain ⟨_, rfl, rfl⟩ := ExceptList.map_ok hmap
      exact ⟨device, hasked, hcode, htty, awaitBootsel_ok hlooks⟩

end Request

/-- A board that Klipper sends to BOOTSEL is written where it was, as far as a mount's tag tells its
controller from another: the copy goes to the volume on the ports that its serial device held when
it was asked, and to none where the request was refused or the board was seen in Katapult. -/
theorem klipper_handoff_aimed {lower : Str → Str} {request : RequestCall} {write : BootselCall}
    (h : Handoff (requestBootsel lower request).result write) :
    HandoffAimed lower request write := by
  refine ⟨fun tty htty => ?_, fun mount landed hcopy => ?_, ?_⟩
  · rcases requestBootsel_cases lower request with ⟨hnone, -⟩ | ⟨device, topology, hasked, hpath, -⟩
    · rw [hnone] at htty
      cases htty
    · rw [hpath] at htty
      exact ⟨device, topology, hasked, Option.some.inj htty⟩
  · obtain ⟨topology, hresult, -⟩ := copied_of_handoff h hcopy
    obtain ⟨device, hasked, hcode, hpath, hleft⟩ := requestBootsel_ok hresult
    exact ⟨device, topology, hasked, hcode, hpath, hleft⟩
  · intro U T dir v2 interface host channel target lun landed hsocket hU hT hcopy
    refine sameTag_of_handoff h hT hU (fun topology hresult => ?_) hcopy
    obtain ⟨device, hasked, -⟩ := requestBootsel_ok hresult
    exact serialTopologyFor_onSocket hU (hsocket device topology hasked) hasked.socket

def pico : BusDevice where
  fw := "Klipper".toList
  chipset := "rp2040".toList
  serial := "E6605838".toList
  path := "/dev/serial/by-id/usb-Klipper_rp2040_E6605838-if00".toList

def picoRequest : RequestCall where
  chipset := pico.chipset
  serial := pico.serial
  byid := [pico]
  byPath := hubByPath pico.path
  flashtool := some true
  returncode := 0
  looks := [⟨⟨[], fun _ => [], fun _ => false⟩, [], fun _ => hubByPath pico.path, true⟩]

theorem pico_handoff :
    Handoff (requestBootsel (List.map Char.toLower) picoRequest).result hubWrite := by
  refine ⟨.ok ((socket [1, 1]).text false), ?_, rfl⟩
  have hfound : findDevice (List.map Char.toLower) picoRequest.chipset picoRequest.serial none
      picoRequest.byid = some pico := by decide +kernel
  have hwait : awaitBootsel (List.map Char.toLower) ((socket [1, 1]).text false) picoRequest.looks =
      some (.ok ()) := by
    simp [picoRequest, awaitBootsel, mountsOn, matchingMounts, bootselScan, sorted, katapultOn]
  rw [requestBootsel, if_neg (by decide), hfound]
  dsimp only
  rw [if_neg (by decide), show picoRequest.byPath = hubByPath pico.path from rfl, hubByPath_topology]
  dsimp only
  rw [hwait]
  rfl

theorem klipper_handoff_aimed_neighbour :
    BootselEffect.copy neighbour (some [1]) ∉ (bootselWrite hubWrite).effects := by
  intro hcopy
  have hsame := (klipper_handoff_aimed pico_handoff).socket (socket [1, 1]) (socket [1])
    "/media/pi/BOOTSEL/by-path".toList true (1, 0) 0 0 0 0 (some [1])
    (fun device _ _ => hubByPath_onSocket pico.path device.path)
    wellFormed_socket.2 wellFormed_socket.1 hcopy
  exact absurd hsame.1 (by decide)

/-! ## The return -/

/-- `answer_map(answer_lines(path))`; an unreadable file has no line. -/
def answerMap (file : Option (List Str)) : List (Str × Str) :=
  ((((file.getD []).filter fun line => (parseAnswer line).isSome).map strip).filterMap
    parseAnswer).foldl (dictPut Prod.fst) []

def stripQuotes (s : Str) : Str := (s.dropWhile (· = '"')).rdropWhile (· = '"')

/-- `predicted_serial` -/
def predictedSerial (file : Option (List Str)) (current : Str) : Str :=
  let answers := answerMap file
  if (answers.lookup "USB_SERIAL_NUMBER_CHIPID".toList).getD "y".toList ≠ "n".toList then current
  else
    let literal := stripQuotes (strip ((answers.lookup "USB_SERIAL_NUMBER".toList).getD []))
    if literal = [] then current else literal ++ current.drop (canonicalSerial current).length

/-- One look at the bus for the board that comes back. -/
structure ReturnLook where
  byid : List BusDevice
  byPath : BusDevice → ByPathView
  late : Bool

/-- `_wait_for_topology`; with no look left it still waits, and `none` in it is the timeout. -/
def waitForTopology (topology chipset : Str) : List ReturnLook → Option (Option Str)
  | [] => none
  | look :: looks =>
    match look.byid.find? fun dev => decide (lower dev.fw ∈ klipperNames) &&
        decide (dev.chipset = chipset) && decide (onTopology look.byPath topology dev) with
    | some dev => some (some dev.serial)
    | none => if look.late then some none else waitForTopology topology chipset looks

/-- `wait_for_device` under Klipper's name -/
def waitForDevice (chipset serial : Str) : List ReturnLook → Option (Option Str)
  | [] => none
  | look :: looks =>
    match findDevice lower chipset serial (some "Klipper".toList) look.byid with
    | some dev => some (some dev.serial)
    | none => if look.late then some none else waitForDevice chipset serial looks

/-- The serial that a warning says the board has now. -/
inductive Warning
  /-- what the image sets -/
  | presents (serial : Str)
  /-- what was seen -/
  | cameBack (serial : Str)
  deriving DecidableEq

def Warning.serial : Warning → Str
  | .presents serial | .cameBack serial => serial

structure ReadyCall where
  config : Option (List Str)
  serial : Str
  chipset : Str
  topology : Str
  looks : List ReturnLook

/-- What was warned of, and whether the call returns, where it raises if the board is not back in
time; `none` where it still waits. -/
structure Ready where
  warnings : List Warning
  returned : Option Bool
  deriving DecidableEq

/-- `wait_ready` -/
def waitReady (c : ReadyCall) : Ready :=
  let expected := predictedSerial c.config c.serial
  let warned := expected ≠ c.serial
  let first := if warned then [.presents expected] else []
  if c.topology = [] then
    ⟨first, (waitForDevice lower c.chipset expected c.looks).map Option.isSome⟩
  else
    match waitForTopology lower c.topology c.chipset c.looks with
    | none => ⟨first, none⟩
    | some none => ⟨first, some false⟩
    | some (some found) =>
      let alreadyNamed := warned ∧ canonicalSerial expected = canonicalSerial found
      if canonicalSerial found ≠ canonicalSerial c.serial ∧ ¬alreadyNamed then
        ⟨first ++ [.cameBack found], some true⟩
      else ⟨first, some true⟩

/-- Where the wait returns the board was seen on its topology, and a serial it did not have before
is told, once. -/
structure ReturnTold (c : ReadyCall) : Prop where
  seen : c.topology ≠ [] → (waitReady lower c).returned = some true →
    ∃ look ∈ c.looks, ∃ dev ∈ look.byid, lower dev.fw ∈ klipperNames ∧ dev.chipset = c.chipset ∧
      onTopology look.byPath c.topology dev ∧
      (canonicalSerial dev.serial ≠ canonicalSerial c.serial →
        ((waitReady lower c).warnings.filter fun w =>
          canonicalSerial w.serial = canonicalSerial dev.serial).length = 1) ∧
      (canonicalSerial dev.serial = canonicalSerial c.serial →
        (waitReady lower c).warnings =
          if predictedSerial c.config c.serial = c.serial then []
          else [.presents (predictedSerial c.config c.serial)])
  /-- a board on the topology of a socket is on that socket -/
  socket : ∀ U : Topology, U.WellFormed → c.topology = U.text false → ∀ look ∈ c.looks,
    ∀ dev ∈ look.byid, onTopology look.byPath c.topology dev → ∀ T : Topology, T.WellFormed →
      (look.byPath dev).OnSocket dev.path T → T = U
  /-- where no socket was handed on, it is the predicted serial that is waited for -/
  predicted : c.topology = [] → (waitReady lower c).returned = some true →
    ∃ look ∈ c.looks, ∃ dev, findDevice lower c.chipset (predictedSerial c.config c.serial)
      (some "Klipper".toList) look.byid = some dev
  /-- the part of a serial that udev adds is kept -/
  suffix : canonicalSerial c.serial ≠ c.serial → canonicalSerial (predictedSerial c.config c.serial) ≠
    predictedSerial c.config c.serial

section Return
variable {lower} {c : ReadyCall} {topology chipset serial : Str} {looks : List ReturnLook}

theorem waitForTopology_some (h : waitForTopology lower topology chipset looks = some (some serial)) :
    ∃ look ∈ looks, ∃ dev ∈ look.byid, lower dev.fw ∈ klipperNames ∧ dev.chipset = chipset ∧
      onTopology look.byPath topology dev ∧ dev.serial = serial := by
  induction looks with
  | nil => cases h
  | cons look looks ih =>
    rw [waitForTopology] at h
    split at h
    case h_1 dev hdev =>
      cases h
      have hsome := List.find?_some hdev
      simp only [Bool.and_eq_true, decide_eq_true_eq] at hsome
      exact ⟨look, List.mem_cons_self, dev, List.mem_of_find?_eq_some hdev, hsome.1.1, hsome.1.2,
        hsome.2, rfl⟩
    case h_2 =>
      split_ifs at h
      · cases h
      · obtain ⟨later, hlater, hdev⟩ := ih h
        exact ⟨later, List.mem_cons_of_mem _ hlater, hdev⟩

theorem waitForDevice_some {found : Str} (h : waitForDevice lower chipset serial looks = some (some found)) :
    ∃ look ∈ looks, ∃ dev,
      findDevice lower chipset serial (some "Klipper".toList) look.byid = some dev := by
  induction looks with
  | nil => cases h
  | cons look looks ih =>
    rw [waitForDevice] at h
    split at h
    case h_1 dev hdev => exact ⟨look, List.mem_cons_self, dev, hdev⟩
    case h_2 =>
      split_ifs at h
      · cases h
      · obtain ⟨later, hlater, hdev⟩ := ih h
        exact ⟨later, List.mem_cons_of_mem _ hlater, hdev⟩

theorem predictedSerial_suffix (file : Option (List Str)) (current : Str)
    (h : canonicalSerial current ≠ current) :
    canonicalSerial (predictedSerial file current) ≠ predictedSerial file current := by
  unfold predictedSerial
  dsimp only
  split_ifs with hchip hliteral
  · exact h
  · exact h
  · have hcurrent := (canonicalSerial_cases current).resolve_left h
    have hdrop : current.drop (canonicalSerial current).length = interfaceSuffix := by
      conv_lhs => rw [hcurrent]
      rw [canonicalSerial_append_suffix, List.drop_left]
    rw [hdrop, canonicalSerial_append_suffix]
    simp [interfaceSuffix]

end Return

/-- Whatever serial the board written through a handoff comes back with, it is told once. -/
theorem return_told_once (lower : Str → Str) (c : ReadyCall) : ReturnTold lower c := by
  refine ⟨fun hne h => ?_, fun U hU htopology look _ dev _ hon T hT hsocket => ?_,
    fun hnil h => ?_, predictedSerial_suffix c.config c.serial⟩
  · unfold waitReady at h ⊢
    dsimp only at h ⊢
    rw [if_neg hne] at h ⊢
    cases hwait : waitForTopology lower c.topology c.chipset c.looks with
    | none => simp [hwait] at h
    | some found =>
      cases found with
      | none => simp [hwait] at h
      | some serial =>
        obtain ⟨look, hlook, dev, hdev, hklipper, hchipset, hon, rfl⟩ := waitForTopology_some hwait
        refine ⟨look, hlook, dev, hdev, hklipper, hchipset, hon, fun hchanged => ?_, fun hsame => ?_⟩
        · -- the image's own serial is told first, and the board's unless it is that one
          by_cases hwarned : predictedSerial c.config c.serial = c.serial
          · simp [hwarned, hchanged, Warning.serial]
          · by_cases hnamed : canonicalSerial (predictedSerial c.config c.serial) =
                canonicalSerial dev.serial
            · simp [hwarned, hnamed, Warning.serial]
            · simp [hwarned, hnamed, hchanged, Warning.serial]
        · simp [hsame]
  · have hok : serialTopologyFor (look.byPath dev) dev.path = .ok (U.text false) := by
      rw [onTopology, htopology] at hon
      cases hfound : serialTopologyFor (look.byPath dev) dev.path with
      | error e =>
        rw [hfound] at hon
        cases hon
      | ok t =>
        rw [hfound] at hon
        rw [Option.some.inj hon]
    exact text_injective hT hU (serialTopologyFor_onSocket hT hsocket hok).symm
  · unfold waitReady at h
    dsimp only at h
    rw [if_pos hnil] at h
    obtain ⟨found, hwait, hsome⟩ := Option.map_eq_some_iff.mp h
    obtain ⟨serial, rfl⟩ := Option.isSome_iff_exists.mp hsome
    exact waitForDevice_some hwait

end McuUpdater.Helpers.Klipper
