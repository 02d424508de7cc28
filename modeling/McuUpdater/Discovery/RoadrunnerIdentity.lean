import McuUpdater.Discovery.Roadrunner
import McuUpdater.Lib.PyValue

/-! `discovery/roadrunner.py` and `helpers/roadrunner.py`: a Roadrunner is given a lasting identity,
or loses it again. What the boards answer is given; the image fields of an INFO reply are left
out. -/
namespace McuUpdater.Roadrunner
open PyText PyValue ExceptList

/-- `[0-9A-F]` -/
def isUpperHex (c : Char) : Bool := c.isDigit || ('A' ≤ c && c ≤ 'F')

/-- `[0-9A-HJKMNP-TV-Z]` -/
def isIdentityChar (c : Char) : Bool :=
  c.isDigit || (c.isUpper && c ∉ ['I', 'L', 'O', 'U'])

/-- `UNPROVISIONED_RE` -/
def isUnprovisioned (serial : Str) : Bool :=
  (after "RR-UNPROVISIONED-".toList serial).any fun rest => rest.length = 16 && rest.all isUpperHex

/-- `PROVISIONED_RE` -/
def isProvisioned (serial : Str) : Bool :=
  (after "RR-".toList serial).any fun rest => rest.length = 26 && rest.all isIdentityChar

/-- `_valid_info` -/
def validInfo (data : PyVal) (serial : Str) (provisioned : Bool) : Bool :=
  (data.item "protocol").any (·.eqInt 1) &&
    (data.item "model").any (·.eqStr "roadrunner-v1".toList) &&
    (data.item "serial").any (·.eqStr serial) &&
    match data.item "provisioned" with
    | some (.bool b) => b == provisioned
    | _ => false

/-- One look at the bus, and the INFO that the helper reads of each candidate, `none` where it
fails. -/
structure ProbedLook where
  view : BusView
  info : Candidate → Option PyVal
  late : Bool

def ProbedLook.candidates (look : ProbedLook) : List Candidate :=
  (entryCandidates false look.view).toOption.getD []

inductive IdentityError
  | notCanonical
  | notFound
  | ambiguous
  | helperFailed
  | unconfirmed
  /-- the serial of a provision reply is none -/
  | invalidReply
  /-- the serial and the state of the board that came back instead -/
  | mismatch (serial : Str) (provisioned : Bool)
  | notBack
  /-- `BootloaderTimeoutError`, and what was raised last -/
  | timeout (last : IdentityError)

/-- The two canonical forms of a serial. -/
def isCanonical (provisioned : Bool) (serial : Str) : Bool :=
  if provisioned then isProvisioned serial else isUnprovisioned serial

/-- `find_untracked` and `find_provisioned`, which differ in the identity they confirm. -/
def findConfirmed (provisioned : Bool) (look : ProbedLook) (serial : Str) :
    Except IdentityError RoadrunnerDevice :=
  if !isCanonical provisioned serial then .error .notCanonical
  else
    match look.candidates.filter (·.serial = serial) with
    | [] => .error .notFound
    | [c] =>
      match look.info c with
      | none => .error .helperFailed
      | some data =>
        if validInfo data serial provisioned then .ok ⟨c.serial, c.port, c.topology⟩
        else .error .unconfirmed
    | _ => .error .ambiguous

def findUntracked : ProbedLook → Str → Except IdentityError RoadrunnerDevice := findConfirmed false
def findProvisioned : ProbedLook → Str → Except IdentityError RoadrunnerDevice := findConfirmed true

/-- What a reply says of an identity that is not the one wanted. -/
def observed (c : Candidate) (data : PyVal) : Str × Bool :=
  (match data.item "serial" with
    | some (.str s) => s
    | _ => c.serial,
   ((data.item "provisioned").map PyVal.truthy).getD false)

/-- One turn over the candidates: the device that is back, or the last mismatch. -/
def probeEach (topology : UsbDevice) (wanted : Str → Bool) (provisioned : Bool)
    (info : Candidate → Option PyVal) : List Candidate → Option (Str × Bool) →
    Except (Option (Str × Bool)) RoadrunnerDevice
  | [], last => .error last
  | c :: cs, last =>
    if c.topology.name ≠ topology.name then probeEach topology wanted provisioned info cs last
    else
      match info c with
      | none => probeEach topology wanted provisioned info cs last
      | some data =>
        if wanted c.serial && validInfo data c.serial provisioned then
          .ok ⟨c.serial, c.port, c.topology⟩
        else probeEach topology wanted provisioned info cs (some (observed c data))

/-- `_await_reenumeration`; with no look left it still waits. -/
def awaitReenumeration (topology : UsbDevice) (wanted : Str → Bool) (provisioned : Bool) :
    List ProbedLook → Option (Str × Bool) → Option (Except IdentityError RoadrunnerDevice)
  | [], _ => none
  | look :: looks, last =>
    match probeEach topology wanted provisioned look.info look.candidates last with
    | .ok device => some (.ok device)
    | .error last =>
      if look.late then
        some (.error (match last with
          | some (serial, provisioned) => .mismatch serial provisioned
          | none => .notBack))
      else awaitReenumeration topology wanted provisioned looks last

/-- What is seen around one identity write. -/
structure IdentityRun where
  serial : Str
  before : ProbedLook
  /-- what the helper's write prints, `none` where it fails -/
  reply : Option PyVal
  after : List ProbedLook

/-- The board that was written to, and the serial it came back with; `none` while it waits. -/
structure IdentityWrite where
  written : Option RoadrunnerDevice
  result : Option (Except IdentityError Str)

/-- `provision`, with `provision_roadrunner` -/
def provision (r : IdentityRun) : IdentityWrite :=
  match findUntracked r.before r.serial with
  | .error e => ⟨none, some (.error e)⟩
  | .ok device =>
    match r.reply with
    | none => ⟨some device, some (.error .helperFailed)⟩
    | some data =>
      match data.item "serial" with
      | some (.str serial) =>
        if isProvisioned serial then
          ⟨some device, (awaitReenumeration device.topology (decide <| · = serial) true r.after none).map
            (·.map (·.serial))⟩
        else ⟨some device, some (.error .invalidReply)⟩
      | _ => ⟨some device, some (.error .invalidReply)⟩

/-- `clear`, with `clear_roadrunner` -/
def clear (r : IdentityRun) : IdentityWrite :=
  match findProvisioned r.before r.serial with
  | .error e => ⟨none, some (.error e)⟩
  | .ok device =>
    match r.reply with
    | none => ⟨some device, some (.error .helperFailed)⟩
    | some _ =>
      ⟨some device, (awaitReenumeration device.topology isUnprovisioned false r.after none).map
        (·.map (·.serial))⟩

/-- The board confirmed this identity over the wire, and no other candidate has its serial. -/
def Confirmed (provisioned : Bool) (look : ProbedLook) (serial : Str) (device : RoadrunnerDevice) :
    Prop :=
  isCanonical provisioned serial = true ∧ device.serial = serial ∧ ∃ c data,
    look.candidates.filter (·.serial = serial) = [c] ∧ c.port = device.port ∧
    c.topology = device.topology ∧ look.info c = some data ∧ validInfo data serial provisioned = true

/-- On this topology a Roadrunner said that it has this identity. -/
def SeenOn (topology : UsbDevice) (provisioned : Bool) (serial : Str) (look : ProbedLook) : Prop :=
  ∃ c ∈ look.candidates, c.topology.name = topology.name ∧ c.serial = serial ∧
    ∃ data, look.info c = some data ∧ validInfo data serial provisioned = true

/-- On this topology a Roadrunner gave another identity than the one that was wanted. -/
def StrangerOn (topology : UsbDevice) (wanted : Str → Bool) (provisioned : Bool)
    (identity : Str × Bool) (look : ProbedLook) : Prop :=
  ∃ c ∈ look.candidates, c.topology.name = topology.name ∧ ∃ data, look.info c = some data ∧
    observed c data = identity ∧ ¬(wanted c.serial = true ∧ validInfo data c.serial provisioned = true)

/-- No Roadrunner on this topology answers. -/
def SilentOn (topology : UsbDevice) (look : ProbedLook) : Prop :=
  ∀ c ∈ look.candidates, c.topology.name = topology.name → look.info c = none

/-- Until a look that comes too late, none of them found an answer on this topology. -/
def SilentUntilLate (topology : UsbDevice) (looks : List ProbedLook) : Prop :=
  ∃ before look rest, looks = before ++ look :: rest ∧ look.late = true ∧
    ∀ l ∈ before ++ [look], SilentOn topology l

/-- The serial that a provision reply names is the one to come back. -/
def IdentityRun.replied (r : IdentityRun) (serial : Str) : Bool :=
  (r.reply.bind (·.item "serial")).any (·.eqStr serial)

/-- A write that gives a board the other identity. -/
structure IdentityChanged (provisioned : Bool) (wanted : Str → Bool) (r : IdentityRun)
    (w : IdentityWrite) : Prop where
  /-- it goes to a board that has just confirmed the identity it loses -/
  aimed : ∀ device, w.written = some device → Confirmed (!provisioned) r.before r.serial device
  refused : w.written = none → ∃ e, w.result = some (.error e)
  /-- it succeeds when a board on the same socket confirms the identity it was given -/
  back : ∀ serial, w.result = some (.ok serial) →
    ∃ device, w.written = some device ∧
    isCanonical provisioned serial = true ∧ serial ≠ r.serial ∧ wanted serial = true ∧
    ∃ look ∈ r.after, SeenOn device.topology provisioned serial look
  /-- a board that came back as another one is named as what it said it is -/
  named : ∀ serial state, w.result = some (.error (.mismatch serial state)) →
    ∃ device, w.written = some device ∧
      ∃ look ∈ r.after, StrangerOn device.topology wanted provisioned (serial, state) look
  /-- and where none is named, the write itself failed, or no board answered there in time -/
  unnamed : ∀ device e, w.written = some device → w.result = some (.error e) →
    (∃ serial state, e = .mismatch serial state) ∨ (e = .helperFailed ∧ r.reply = none) ∨
    (e = .invalidReply ∧ ∀ serial, wanted serial = true → isCanonical provisioned serial = false) ∨
    (e = .notBack ∧ SilentUntilLate device.topology r.after)

section Facts
variable {topology : UsbDevice} {wanted : Str → Bool} {provisioned : Bool}
  {info : Candidate → Option PyVal} {cs : List Candidate} {last : Option (Str × Bool)}
  {device : RoadrunnerDevice} {look : ProbedLook} {looks : List ProbedLook} {serial : Str}
  {r : IdentityRun}

theorem not_both (hu : isUnprovisioned serial = true) : isProvisioned serial = false := by
  obtain ⟨rest, hrest, -⟩ := (Option.any_eq_true _ _).mp hu
  rw [Numbers.after_eq_some.mp hrest, isProvisioned]
  have hafter : after "RR-".toList ("RR-UNPROVISIONED-".toList ++ rest) =
      some ("UNPROVISIONED-".toList ++ rest) := Numbers.after_eq_some.mpr rfl
  rw [hafter, Option.any_some, Bool.and_eq_false_iff]
  refine Or.inr (List.all_eq_false.mpr ⟨'U', by simp, by decide⟩)

theorem canonical_ne {other : Str} (h : isCanonical (!provisioned) serial = true)
    (ho : isCanonical provisioned other = true) : other ≠ serial := by
  rintro rfl
  cases provisioned with
  | false =>
    have hboth := not_both (show isUnprovisioned other = true from ho)
    rw [show isProvisioned other = true from h] at hboth
    cases hboth
  | true =>
    have hboth := not_both (show isUnprovisioned other = true from h)
    rw [show isProvisioned other = true from ho] at hboth
    cases hboth

theorem findConfirmed_ok (h : findConfirmed provisioned look serial = .ok device) :
    Confirmed provisioned look serial device := by
  unfold findConfirmed at h
  split_ifs at h with hcanonical
  rw [Bool.not_eq_true', Bool.not_eq_false] at hcanonical
  split at h
  · cases h
  · rename_i c hfilter
    have hserial : c.serial = serial := by
      have hmem : c ∈ look.candidates.filter (·.serial = serial) := by simp [hfilter]
      simpa using (List.mem_filter.mp hmem).2
    split at h
    · cases h
    · rename_i data hdata
      split_ifs at h with hvalid
      cases h
      exact ⟨hcanonical, hserial, c, data, hfilter, rfl, rfl, hdata, hvalid⟩
  · cases h

theorem probeEach_ok (h : probeEach topology wanted provisioned info cs last = .ok device) :
    ∃ c ∈ cs, c.topology.name = topology.name ∧ device.serial = c.serial ∧
      wanted c.serial = true ∧ ∃ data, info c = some data ∧
      validInfo data c.serial provisioned = true := by
  induction cs generalizing last with
  | nil => cases h
  | cons c cs ih =>
    have hlater : ∀ last, probeEach topology wanted provisioned info cs last = .ok device →
        ∃ c' ∈ c :: cs, c'.topology.name = topology.name ∧ device.serial = c'.serial ∧
          wanted c'.serial = true ∧ ∃ data, info c' = some data ∧
          validInfo data c'.serial provisioned = true := by
      intro last h
      obtain ⟨c', hc', hrest⟩ := ih h
      exact ⟨c', List.mem_cons_of_mem _ hc', hrest⟩
    rw [probeEach] at h
    split_ifs at h with htopology
    · exact hlater last h
    · split at h
      · exact hlater last h
      · rename_i data hdata
        split_ifs at h with hvalid
        · cases h
          simp only [Bool.and_eq_true] at hvalid
          exact ⟨c, List.mem_cons_self, not_not.mp htopology, rfl, hvalid.1, data, hdata, hvalid.2⟩
        · exact hlater _ h

/-- A mismatch that is remembered was there before, or is that of a candidate. -/
theorem probeEach_error {identity : Str × Bool}
    (h : probeEach topology wanted provisioned info cs last = .error (some identity)) :
    last = some identity ∨ ∃ c ∈ cs, c.topology.name = topology.name ∧ ∃ data, info c = some data ∧
      observed c data = identity ∧
      ¬(wanted c.serial = true ∧ validInfo data c.serial provisioned = true) := by
  induction cs generalizing last with
  | nil => exact Or.inl (by cases h; rfl)
  | cons c cs ih =>
    have hlater : ∀ last', probeEach topology wanted provisioned info cs last' =
        .error (some identity) → last' = some identity ∨ ∃ c' ∈ c :: cs,
          c'.topology.name = topology.name ∧ ∃ data, info c' = some data ∧
          observed c' data = identity ∧
          ¬(wanted c'.serial = true ∧ validInfo data c'.serial provisioned = true) := by
      intro last' h
      exact (ih h).imp id fun ⟨c', hc', hrest⟩ => ⟨c', List.mem_cons_of_mem _ hc', hrest⟩
    rw [probeEach] at h
    split_ifs at h with htopology
    · exact hlater last h
    · split at h
      · exact hlater last h
      · rename_i data hdata
        split_ifs at h with hvalid
        rcases hlater _ h with hlast | hfound
        · exact Or.inr ⟨c, List.mem_cons_self, not_not.mp htopology, data, hdata,
            Option.some.inj hlast, by simpa using hvalid⟩
        · exact Or.inr hfound

/-- Where no mismatch is remembered, none was, and no candidate answered. -/
theorem probeEach_silent (h : probeEach topology wanted provisioned info cs last = .error none) :
    last = none ∧ ∀ c ∈ cs, c.topology.name = topology.name → info c = none := by
  induction cs generalizing last with
  | nil => exact ⟨by cases h; rfl, by simp⟩
  | cons c cs ih =>
    rw [probeEach] at h
    split_ifs at h with htopology
    · obtain ⟨hlast, hrest⟩ := ih h
      exact ⟨hlast, List.forall_mem_cons.mpr ⟨fun he => absurd he htopology, hrest⟩⟩
    · split at h
      · rename_i hnone
        obtain ⟨hlast, hrest⟩ := ih h
        exact ⟨hlast, List.forall_mem_cons.mpr ⟨fun _ => hnone, hrest⟩⟩
      · split_ifs at h
        exact absurd (ih h).1 (by simp)

theorem awaitReenumeration_ok
    (h : awaitReenumeration topology wanted provisioned looks last = some (.ok device)) :
    wanted device.serial = true ∧ ∃ look ∈ looks, SeenOn topology provisioned device.serial look := by
  induction looks generalizing last with
  | nil => cases h
  | cons look looks ih =>
    rw [awaitReenumeration] at h
    split at h
    · rename_i found hfound
      cases h
      obtain ⟨c, hc, htopology, hserial, hwanted, data, hdata, hvalid⟩ := probeEach_ok hfound
      rw [hserial]
      exact ⟨hwanted, look, List.mem_cons_self, c, hc, htopology, rfl, data, hdata, hvalid⟩
    · split_ifs at h
      · cases h
      · obtain ⟨hwanted, later, hlater, hseen⟩ := ih h
        exact ⟨hwanted, later, List.mem_cons_of_mem _ hlater, hseen⟩

theorem awaitReenumeration_mismatch {identity : Str × Bool}
    (h : awaitReenumeration topology wanted provisioned looks last =
      some (.error (.mismatch identity.1 identity.2))) :
    last = some identity ∨ ∃ look ∈ looks, StrangerOn topology wanted provisioned identity look := by
  obtain ⟨serial, state⟩ := identity
  induction looks generalizing last with
  | nil => cases h
  | cons look looks ih =>
    rw [awaitReenumeration] at h
    split at h
    · cases h
    · rename_i last' hlast'
      have hfrom : last' = some (serial, state) → last = some (serial, state) ∨
          ∃ l ∈ look :: looks, StrangerOn topology wanted provisioned (serial, state) l := by
        rintro rfl
        exact (probeEach_error hlast').imp id fun ⟨c, hc, hrest⟩ => ⟨look, by simp, c, hc, hrest⟩
      split_ifs at h
      · refine hfrom ?_
        cases last' with
        | none => cases h
        | some found =>
          cases h
          rfl
      · rcases ih h with hlast | ⟨later, hlater, hstranger⟩
        · exact hfrom hlast
        · exact Or.inr ⟨later, List.mem_cons_of_mem _ hlater, hstranger⟩

/-- A wait that fails names a mismatch, or nothing was heard until its deadline. -/
theorem awaitReenumeration_error {e : IdentityError}
    (h : awaitReenumeration topology wanted provisioned looks last = some (.error e)) :
    (∃ serial state, e = .mismatch serial state) ∨
      (e = .notBack ∧ last = none ∧ SilentUntilLate topology looks) := by
  induction looks generalizing last with
  | nil => cases h
  | cons look looks ih =>
    rw [awaitReenumeration] at h
    split at h
    · cases h
    · rename_i last' hlast'
      split_ifs at h with hlate
      · cases last' with
        | some found =>
          cases h
          exact Or.inl ⟨_, _, rfl⟩
        | none =>
          cases h
          obtain ⟨hnone, hsilent⟩ := probeEach_silent hlast'
          refine Or.inr ⟨rfl, hnone, [], look, looks, rfl, hlate, fun l hl => ?_⟩
          obtain rfl := List.mem_singleton.mp hl
          exact hsilent
      · rcases ih h with hmismatch | ⟨he, rfl, before, later, rest, rfl, hlater, hsilent⟩
        · exact Or.inl hmismatch
        · obtain ⟨hnone, hhere⟩ := probeEach_silent hlast'
          exact Or.inr ⟨he, hnone, look :: before, later, rest, rfl, hlater,
            List.forall_mem_cons.mpr ⟨hhere, hsilent⟩⟩

theorem changed_of_wait {w : IdentityWrite}
    (hfound : findConfirmed (!provisioned) r.before r.serial = .ok device)
    (hwritten : w.written = some device)
    (hwanted : ∀ serial, wanted serial = true → isCanonical provisioned serial = true)
    (hresult : w.result =
      (awaitReenumeration device.topology wanted provisioned r.after none).map (·.map (·.serial))) :
    IdentityChanged provisioned wanted r w := by
  have hconfirmed := findConfirmed_ok hfound
  refine ⟨fun d hd => ?_, by simp [hwritten], fun serial h => ?_, fun serial state h => ?_,
    fun d e hd h => ?_⟩
  · rw [hwritten] at hd
    rw [← Option.some.inj hd]
    exact hconfirmed
  · rw [hresult] at h
    obtain ⟨waited, hwait, hmap⟩ := Option.map_eq_some_iff.mp h
    obtain ⟨found, rfl, rfl⟩ := map_ok hmap
    obtain ⟨hw, look, hlook, hseen⟩ := awaitReenumeration_ok hwait
    exact ⟨device, hwritten, hwanted _ hw, canonical_ne hconfirmed.1 (hwanted _ hw), hw, look, hlook,
      hseen⟩
  · rw [hresult] at h
    obtain ⟨waited, hwait, hmap⟩ := Option.map_eq_some_iff.mp h
    cases waited with
    | ok found => cases hmap
    | error e =>
      cases hmap
      rcases @awaitReenumeration_mismatch _ _ _ _ _ (serial, state) hwait with hnone | hstranger
      · cases hnone
      · exact ⟨device, hwritten, hstranger⟩
  · rw [hwritten] at hd
    cases hd
    rw [hresult] at h
    obtain ⟨waited, hwait, hmap⟩ := Option.map_eq_some_iff.mp h
    cases waited with
    | ok found => cases hmap
    | error e' =>
      cases hmap
      rcases awaitReenumeration_error hwait with hmismatch | ⟨he, -, hsilent⟩
      · exact Or.inl hmismatch
      · exact Or.inr (Or.inr (Or.inr ⟨he, hsilent⟩))

theorem changed_of_error {w : IdentityWrite} {e : IdentityError}
    (hfound : findConfirmed (!provisioned) r.before r.serial = .ok device)
    (hwritten : w.written = some device) (hresult : w.result = some (.error e))
    (he : (e = .helperFailed ∧ r.reply = none) ∨
      (e = .invalidReply ∧ ∀ serial, wanted serial = true → isCanonical provisioned serial = false)) :
    IdentityChanged provisioned wanted r w := by
  refine ⟨fun d hd => ?_, by simp [hwritten], fun serial h => ?_, fun serial state h => ?_,
    fun d e' _ h => ?_⟩
  · rw [hwritten] at hd
    rw [← Option.some.inj hd]
    exact findConfirmed_ok hfound
  · rw [hresult] at h
    cases h
  · rw [hresult] at h
    cases h
    rcases he with ⟨he, -⟩ | ⟨he, -⟩ <;> cases he
  · rw [hresult] at h
    cases h
    exact Or.inr (he.imp id Or.inl)

theorem findConfirmed_error {e : IdentityError} (h : findConfirmed provisioned look serial = .error e) :
    ∀ s state, e ≠ .mismatch s state := by
  unfold findConfirmed at h
  split_ifs at h
  · cases h
    simp
  · split at h
    · cases h
      simp
    · split at h
      · cases h
        simp
      · split_ifs at h
        cases h
        simp
    · cases h
      simp

theorem changed_of_refused {w : IdentityWrite} {e : IdentityError}
    (hfound : findConfirmed (!provisioned) r.before r.serial = .error e)
    (hwritten : w.written = none) (hresult : w.result = some (.error e)) :
    IdentityChanged provisioned wanted r w := by
  refine ⟨by simp [hwritten], fun _ => ⟨e, hresult⟩, fun serial h => ?_, fun serial state h => ?_,
    by simp [hwritten]⟩
  · rw [hresult] at h
    cases h
  · rw [hresult] at h
    cases h
    exact absurd rfl (findConfirmed_error hfound serial state)

end Facts

/-- Whatever the bus shows and the boards answer, an identity is written only to a board that just
confirmed the one it had, and is reported as changed only when the same socket confirms the new
one. -/
theorem identity_change_confirmed (r : IdentityRun) :
    IdentityChanged true r.replied r (provision r) ∧
    IdentityChanged false isUnprovisioned r (clear r) := by
  constructor
  · unfold provision
    cases hfound : findUntracked r.before r.serial with
    | error e => exact changed_of_refused hfound rfl rfl
    | ok device =>
      cases hreply : r.reply with
      | none => exact changed_of_error hfound rfl rfl (Or.inl ⟨rfl, hreply⟩)
      | some data =>
        dsimp only
        split
        · rename_i serial hserial
          have hreplied : r.replied = (decide <| · = serial) := by
            funext s
            rw [Bool.eq_iff_iff]
            simp only [IdentityRun.replied, hreply, Option.bind_some, hserial, Option.any_some,
              PyVal.eqStr_iff, PyVal.str.injEq, decide_eq_true_eq]
            exact eq_comm
          rw [hreplied]
          split_ifs with hform
          · refine changed_of_wait hfound rfl (fun s hs => ?_) rfl
            rw [of_decide_eq_true hs]
            exact hform
          · refine changed_of_error hfound rfl rfl (Or.inr ⟨rfl, fun s hs => ?_⟩)
            rw [of_decide_eq_true hs]
            simpa [isCanonical] using hform
        · rename_i hother
          refine changed_of_error hfound rfl rfl (Or.inr ⟨rfl, fun s hs => ?_⟩)
          -- the reply has no serial that a board could come back with
          obtain ⟨value, hvalue, hs⟩ := (Option.any_eq_true _ _).mp hs
          rw [hreply, Option.bind_some] at hvalue
          rw [PyVal.eqStr_iff.mp hs] at hvalue
          exact absurd hvalue (hother s)
  · unfold clear
    cases hfound : findProvisioned r.before r.serial with
    | error e => exact changed_of_refused hfound rfl rfl
    | ok device =>
      cases hreply : r.reply with
      | none => exact changed_of_error hfound rfl rfl (Or.inl ⟨rfl, hreply⟩)
      | some data => exact changed_of_wait hfound rfl (fun s hs => hs) rfl

end McuUpdater.Roadrunner
