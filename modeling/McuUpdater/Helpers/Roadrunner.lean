import McuUpdater.Discovery.RoadrunnerIdentity
import McuUpdater.Flashers.Handoff

/-! `helpers/roadrunner.py`: a provisioned Roadrunner is sent to BOOTSEL, and waited for after the
write. -/
namespace McuUpdater.Helpers.Roadrunner
open PyText Bootsel Flashers McuUpdater.Roadrunner

inductive RequestError
  | identity (e : IdentityError)
  | topology (e : TopologyError)
  | helperFailed
  | stayed (e : RoadrunnerError)

/-- What is seen around one request. -/
structure RequestCall where
  serial : Str
  look : ProbedLook
  byPath : ByPathView
  /-- the helper's `bootsel` did not fail -/
  sent : Bool
  looks : List McuUpdater.Roadrunner.Look

/-- The board that the request was sent to, and the topology of the handoff; `none` where it still
waits. -/
structure Request where
  asked : Option RoadrunnerDevice
  result : Option (Except RequestError Str)

/-- `RoadrunnerHelper.request_bootsel` -/
def requestBootsel (c : RequestCall) : Request :=
  match findProvisioned c.look c.serial with
  | .error e => ⟨none, some (.error (.identity e))⟩
  | .ok device =>
    match serialTopologyFor c.byPath device.port with
    | .error e => ⟨none, some (.error (.topology e))⟩
    | .ok topology =>
      if !c.sent then ⟨some device, some (.error .helperFailed)⟩
      else ⟨some device, (awaitDisappearance device c.looks).map fun
        | .ok _ => .ok topology
        | .error e => .error (.stayed e)⟩

/-- `RoadrunnerError.code` -/
def code : IdentityError → Str
  | .notCanonical | .unconfirmed | .invalidReply => "identity_unconfirmed".toList
  | .notFound => "device_not_found".toList
  | .ambiguous => "device_ambiguous".toList
  | .helperFailed => "helper_failed".toList
  | .mismatch _ _ => "identity_mismatch".toList
  | .notBack => "reenumerate_timeout".toList
  | .timeout _ => "bootloader_timeout".toList

/-- `_TRANSIENT_READINESS_CODES` -/
def transientReadinessCodes : List Str :=
  ["device_not_found".toList, "helper_failed".toList, "identity_unconfirmed".toList]

/-- The loop of `wait_for_provisioned`; with no look left it still waits. -/
def awaitProvisioned (serial : Str) :
    List ProbedLook → Option (Except IdentityError RoadrunnerDevice)
  | [] => none
  | look :: looks =>
    match findProvisioned look serial with
    | .ok device => some (.ok device)
    | .error e =>
      if code e ∉ transientReadinessCodes then some (.error e)
      else if look.late then some (.error (.timeout e))
      else awaitProvisioned serial looks

/-- `wait_for_provisioned` -/
def waitForProvisioned (serial : Str) (looks : List ProbedLook) :
    Option (Except IdentityError RoadrunnerDevice) :=
  if !isProvisioned serial then some (.error .notCanonical) else awaitProvisioned serial looks

/-- What a request, and the write that goes on with it, do to the boards. -/
structure HandoffAimed (request : RequestCall) (write : BootselCall) : Prop where
  /-- the request goes to a board that has just confirmed its serial -/
  asked : ∀ device, (requestBootsel request).asked = some device →
    Confirmed true request.look request.serial device
  /-- what is written had left its socket as a serial device -/
  left : ∀ mount landed, .copy mount landed ∈ (bootselWrite write).effects →
    ∃ device, (requestBootsel request).asked = some device ∧ request.sent = true ∧
      ∃ look ∈ inTime request.looks, Cleared device look.view
  /-- and is of a drive on the same ports, of a controller with the same tag -/
  socket : ∀ (U T : Topology) (dir : Str) (v2 : Bool) (interface : Nat × Nat)
    (host channel target lun : Nat) (landed : Option (List UInt8)),
    (∀ device, (requestBootsel request).asked = some device →
      request.byPath.OnSocket device.port U) → U.WellFormed → T.WellFormed →
    .copy (dir ++ '/' :: T.mountTag v2 interface host channel target lun) landed ∈
      (bootselWrite write).effects → SameTag T U
  /-- and it is back when it confirms the serial it had -/
  back : ∀ looks device, waitForProvisioned request.serial looks = some (.ok device) →
    ∃ look ∈ looks, Confirmed true look request.serial device
  /-- a board is given up on early only where two answer to its serial -/
  givenUp : ∀ looks e, waitForProvisioned request.serial looks = some (.error e) →
    isProvisioned request.serial = true → (∃ look ∈ looks, look.late = true) ∨
      ∃ look ∈ looks, ∃ a b rest, look.candidates.filter (·.serial = request.serial) = a :: b :: rest

section Facts
variable {request : RequestCall} {topology serial : Str} {device : RoadrunnerDevice}
  {looks : List ProbedLook} {e : IdentityError} {look : ProbedLook}

theorem asked_confirmed (h : (requestBootsel request).asked = some device) :
    Confirmed true request.look request.serial device := by
  unfold requestBootsel at h
  split at h
  · cases h
  · rename_i found hfound
    split at h
    · cases h
    · split_ifs at h
      · cases h
        exact findConfirmed_ok hfound
      · cases h
        exact findConfirmed_ok hfound

theorem requestBootsel_ok (h : (requestBootsel request).result = some (.ok topology)) :
    ∃ device, (requestBootsel request).asked = some device ∧ request.sent = true ∧
      serialTopologyFor request.byPath device.port = .ok topology ∧
      ∃ look ∈ inTime request.looks, Cleared device look.view := by
  unfold requestBootsel at h ⊢
  split at h
  · cases h
  · rename_i device hfound
    split at h
    · cases h
    · rename_i found htopology
      split_ifs at h with hsent
      · cases h
      · obtain ⟨gone, hgone, hmap⟩ := Option.map_eq_some_iff.mp h
        cases gone with
        | error e => cases hmap
        | ok usb =>
          cases hmap
          rw [Bool.not_eq_true', Bool.not_eq_false] at hsent
          rw [if_neg (by simp [hsent])]
          exact ⟨device, rfl, hsent, htopology, (awaitDisappearance_ok.mp hgone).2⟩

theorem awaitProvisioned_ok (h : awaitProvisioned serial looks = some (.ok device)) :
    ∃ look ∈ looks, Confirmed true look serial device := by
  induction looks with
  | nil => cases h
  | cons look looks ih =>
    rw [awaitProvisioned] at h
    split at h
    · rename_i found hfound
      cases h
      exact ⟨look, List.mem_cons_self, findConfirmed_ok hfound⟩
    · split_ifs at h
      · cases h
      · obtain ⟨later, hlater, hconfirmed⟩ := ih h
        exact ⟨later, List.mem_cons_of_mem _ hlater, hconfirmed⟩
      · cases h

theorem ambiguous_of_code (h : findProvisioned look serial = .error e)
    (he : code e ∉ transientReadinessCodes) :
    ∃ a b rest, look.candidates.filter (·.serial = serial) = a :: b :: rest := by
  unfold findProvisioned findConfirmed at h
  split_ifs at h
  · cases h
    exact absurd (by decide) he
  · split at h
    · cases h
      exact absurd (by decide) he
    · split at h
      · cases h
        exact absurd (by decide) he
      · split_ifs at h
        cases h
        exact absurd (by decide) he
    · rename_i hnil hone
      match hfilter : look.candidates.filter (·.serial = serial) with
      | [] => exact absurd hfilter hnil
      | [c] => exact absurd hfilter (hone c)
      | a :: b :: rest => exact ⟨a, b, rest, hfilter⟩

theorem awaitProvisioned_error (h : awaitProvisioned serial looks = some (.error e)) :
    (∃ look ∈ looks, look.late = true) ∨
      ∃ look ∈ looks, ∃ a b rest, look.candidates.filter (·.serial = serial) = a :: b :: rest := by
  induction looks with
  | nil => cases h
  | cons look looks ih =>
    rw [awaitProvisioned] at h
    split at h
    · cases h
    · rename_i raised hraised
      split_ifs at h with hcode hlate
      · exact Or.inl ⟨look, List.mem_cons_self, hlate⟩
      · refine (ih h).imp ?_ ?_
        · exact fun ⟨later, hlater, hl⟩ => ⟨later, List.mem_cons_of_mem _ hlater, hl⟩
        · exact fun ⟨later, hlater, hl⟩ => ⟨later, List.mem_cons_of_mem _ hlater, hl⟩
      · exact Or.inr ⟨look, List.mem_cons_self, ambiguous_of_code hraised hcode⟩

end Facts

/-- A Roadrunner is written where it was, as far as a mount's tag tells: it confirms its serial and
then leaves its socket, the copy goes to the volume there, and it is back when it confirms the serial
again. -/
theorem roadrunner_handoff_aimed {request : RequestCall} {write : BootselCall}
    (h : Handoff (requestBootsel request).result write) : HandoffAimed request write := by
  refine ⟨fun device => asked_confirmed, fun mount landed hcopy => ?_, ?_, fun looks device hback => ?_,
    fun looks e herror hform => ?_⟩
  · obtain ⟨topology, hresult, -⟩ := copied_of_handoff h hcopy
    obtain ⟨device, hasked, hsent, -, hcleared⟩ := requestBootsel_ok hresult
    exact ⟨device, hasked, hsent, hcleared⟩
  · intro U T dir v2 interface host channel target lun landed hsocket hU hT hcopy
    refine sameTag_of_handoff h hT hU (fun topology hresult => ?_) hcopy
    obtain ⟨device, hasked, -, htopology, -⟩ := requestBootsel_ok hresult
    exact serialTopologyFor_onSocket hU (hsocket device hasked) htopology
  · unfold waitForProvisioned at hback
    split_ifs at hback
    · cases hback
    · exact awaitProvisioned_ok hback
  · unfold waitForProvisioned at herror
    rw [if_neg (by simp [hform])] at herror
    exact awaitProvisioned_error herror

def laneSerial : Str := "RR-0123456789ABCDEFGHJKMNPQRS".toList

def laneUsb : UsbDevice := ⟨"1-1.1".toList, some "Roadrunner".toList, some "Vylyne".toList⟩

def laneView (there : Bool) : BusView where
  serialById := "/dev/serial/by-id".toList
  listing := .names (if there then ["usb-Vylyne_Roadrunner_RR-0123456789ABCDEFGHJKMNPQRS-if00".toList] else [])
  inventory := some [laneUsb]
  realpath _ := "/dev/ttyACM0".toList
  deviceForTty inventory _ := inventory.head?

def laneInfo : PyValue.PyVal := .dict [
  (.str "protocol".toList, .int 1), (.str "model".toList, .str "roadrunner-v1".toList),
  (.str "serial".toList, .str laneSerial), (.str "provisioned".toList, .bool true)]

def laneRequest : RequestCall where
  serial := laneSerial
  look := ⟨laneView true, fun _ => some laneInfo, false⟩
  byPath := hubByPath "/dev/ttyACM0".toList
  sent := true
  looks := [⟨laneView false, false⟩]

theorem lane_handoff : Handoff (requestBootsel laneRequest).result hubWrite := by
  refine ⟨.ok ((socket [1, 1]).text false), ?_, rfl⟩
  have hcandidates : laneRequest.look.candidates = [⟨laneSerial, "/dev/ttyACM0".toList, laneUsb⟩] := by
    decide +kernel
  have hfound : findProvisioned laneRequest.look laneRequest.serial =
      .ok ⟨laneSerial, "/dev/ttyACM0".toList, laneUsb⟩ := by
    rw [findProvisioned, findConfirmed, hcandidates]
    rfl
  have hgone : awaitDisappearance ⟨laneSerial, "/dev/ttyACM0".toList, laneUsb⟩ laneRequest.looks =
      some (.ok laneUsb) := by
    refine awaitDisappearance_ok.mpr ⟨rfl, ⟨laneView false, false⟩, by simp [laneRequest, inTime], ?_⟩
    exact ⟨[], [laneUsb], rfl, rfl, by simp⟩
  rw [requestBootsel, hfound]
  dsimp only
  rw [show laneRequest.byPath = hubByPath "/dev/ttyACM0".toList from rfl, hubByPath_topology]
  dsimp only
  rw [if_neg (by decide), hgone]
  rfl

theorem roadrunner_handoff_aimed_neighbour :
    BootselEffect.copy neighbour (some [1]) ∉ (bootselWrite hubWrite).effects := by
  intro hcopy
  have hsame := (roadrunner_handoff_aimed lane_handoff).socket (socket [1, 1]) (socket [1])
    "/media/pi/BOOTSEL/by-path".toList true (1, 0) 0 0 0 0 (some [1])
    (fun device _ => hubByPath_onSocket _ device.port) wellFormed_socket.2 wellFormed_socket.1 hcopy
  exact absurd hsame.1 (by decide)

end McuUpdater.Helpers.Roadrunner
