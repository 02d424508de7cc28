import Mathlib.Data.List.Sort
import McuUpdater.Agent.BusWatcher
import McuUpdater.Agent.Identity
import McuUpdater.Lib.Dict

/-! `provisioning.py`: `auto_provision`, and the bus watcher that calls it. What each judge says of a
serial, and what comes of an attempt to write one, is given. -/
namespace McuUpdater.Provisioning
open PyText Discovery Transition
open Agent.Identity (TrackVerdict)

inductive ProvisionError
  | busy
  | updater (text : Str)
  | other
  deriving DecidableEq

/-- What comes of an attempt; none where another holds the operation lock. -/
abbrev Attempt := Option (Except ProvisionError Str)

structure Helper where
  /-- `is_trackable`, which may raise -/
  judge : Option (Str → Except Str TrackVerdict)
  provisions : Bool

structure Family where
  name : Str
  autoProvision : Bool
  /-- `helpers.for_name`, which refuses an unknown one -/
  helper : Except Str Helper

/-- `judge`, where the helper can provision too. -/
def Helper.judgeToProvision (helper : Helper) : Option (Str → Except Str TrackVerdict) :=
  if helper.provisions then helper.judge else none

inductive Event
  | report (level text : Str)
  | lock (serial : Str)
  | provision (serial : Str)
  | unlock (serial : Str)
  deriving DecidableEq

structure Sweep where
  log : List Event := []
  attempted : List Str := []
  retry : Bool := false

inductive Flow
  | next (s : Sweep)
  | leave (s : Sweep)
  | raised (s : Sweep)

def Sweep.warn (s : Sweep) (text : Str) : Sweep :=
  { s with log := s.log ++ [.report "warn".toList text] }

def Sweep.info (s : Sweep) (text : Str) : Sweep :=
  { s with log := s.log ++ [.report "info".toList text] }

section Model
variable (mayProvision : Bool) (outcome : Str → Attempt)

def attempt (serial : Str) (s : Sweep) : Flow :=
  let s := { s with attempted := s.attempted ++ [serial] }
  match outcome serial with
  | none => .next { s with retry := true }
  | some result =>
    let s := { s with log := s.log ++ [.lock serial, .provision serial, .unlock serial] }
    match result with
    | .ok provisioned =>
      .next (s.info ("Provisioned ".toList ++ serial ++ " as ".toList ++ provisioned ++ ['.']))
    | .error .busy => .next { s with retry := true }
    | .error (.updater text) => .next (s.warn (serial ++ ": ".toList ++ text))
    | .error .other => .raised s

def warnFamily (family : Family) (text : Str) (s : Sweep) : Sweep :=
  s.warn ("[firmware ".toList ++ family.name ++ "]: ".toList ++ text)

/-- The inner loop's body; a judge that raises ends the loop. -/
def visit (family : Family) (judge : Str → Except Str TrackVerdict) (serial : Str) (s : Sweep) : Flow :=
  match judge serial with
  | .error text => .leave (warnFamily family text s)
  | .ok .ok | .ok .refused => .next s
  | .ok .provision =>
    if !mayProvision ∨ serial ∈ s.attempted then .next s else attempt outcome serial s

def visitEach (family : Family) (judge : Str → Except Str TrackVerdict) : List Str → Sweep → Flow
  | [], s => .next s
  | serial :: serials, s =>
    match visit mayProvision outcome family judge serial s with
    | .next s => visitEach family judge serials s
    | .leave s => .next s
    | .raised s => .raised s

def provisionFamily (serials : List Str) (family : Family) (s : Sweep) : Flow :=
  if !family.autoProvision then .next s
  else
    match family.helper with
    | .error text => .next (warnFamily family text s)
    | .ok helper =>
      match helper.judgeToProvision with
      | none => .next s
      | some judge => visitEach mayProvision outcome family judge serials s

def provisionEach (serials : List Str) : List Family → Sweep → Flow
  | [], s => .next s
  | family :: families, s =>
    match provisionFamily mayProvision outcome serials family s with
    | .next s | .leave s => provisionEach serials families s
    | .raised s => .raised s

/-- `auto_provision`: what it does, and what it returns where it does not raise. -/
def autoProvision (config : Except Str (List Family)) (devices : List Str) : Sweep × Option Bool :=
  match config with
  | .error text => (({} : Sweep).warn ("could not read the firmware families: ".toList ++ text), some false)
  | .ok families =>
    match provisionEach mayProvision outcome (devices.insertionSort (· ≤ ·)) families {} with
    | .next s | .leave s => (s, some s.retry)
    | .raised s => (s, none)

end Model

/-- An opted-in family's judge asks for an identity. -/
def Family.Wants (family : Family) (serial : Str) : Prop :=
  family.autoProvision = true ∧ ∃ helper judge, family.helper = .ok helper ∧
    helper.judgeToProvision = some judge ∧ judge serial = .ok .provision

/-- Its judge, as `Agent.Identity` has it: one that raises asks for nothing. -/
def Family.autoJudge (family : Family) : Option (Str → TrackVerdict) :=
  match family.autoProvision, family.helper with
  | true, .ok helper => helper.judgeToProvision.map fun judge serial =>
    match judge serial with
    | .ok verdict => verdict
    | .error _ => .refused
  | _, _ => none

/-- Its judge raises on none of these. -/
def Family.Judges (family : Family) (devices : List Str) : Prop :=
  ∀ helper judge, family.helper = .ok helper → helper.judgeToProvision = some judge →
    ∀ serial ∈ devices, ∀ text, judge serial ≠ .error text

def isBusy (outcome : Str → Attempt) (serial : Str) : Bool :=
  outcome serial = none || outcome serial = some (.error .busy)

def Event.provisioned : Event → Option Str
  | .provision serial => some serial
  | _ => none

def Event.acts : Event → Bool
  | .report _ _ => false
  | _ => true

/-- Only a write that raises what is not an error of the updater's own cuts a sweep short. -/
def Flow.Cut (outcome : Str → Attempt) : Flow → Prop
  | .next s | .leave s => ∀ serial ∈ s.attempted, outcome serial ≠ some (.error .other)
  | .raised s => ∃ serial ∈ s.attempted, outcome serial = some (.error .other)

structure Sound (mayProvision : Bool) (outcome : Str → Attempt) (families : List Family)
    (devices : List Str) (s : Sweep) : Prop where
  /-- a board is attempted once, and only where an opted-in family's judge asks for it -/
  once : s.attempted.Nodup
  wanted : ∀ serial ∈ s.attempted, mayProvision = true ∧ serial ∈ devices ∧
    ∃ family ∈ families, family.Wants serial
  /-- each write has the operation lock to itself, and nothing else is done under it -/
  framed : s.log.filter Event.acts = (s.attempted.filter fun serial => (outcome serial).isSome).flatMap
    fun serial => [.lock serial, .provision serial, .unlock serial]
  retry : s.retry = s.attempted.any (isBusy outcome)

section Facts
variable {mayProvision : Bool} {outcome : Str → Attempt} {families : List Family} {family : Family}
  {devices serials : List Str} {serial text : Str} {judge : Str → Except Str TrackVerdict} {s t : Sweep}

def Flow.state : Flow → Sweep
  | .next s | .leave s | .raised s => s

theorem attempt_spec (serial : Str) (s : Sweep) :
    (attempt outcome serial s).state.attempted = s.attempted ++ [serial] ∧
    (attempt outcome serial s).state.log.filter Event.acts = s.log.filter Event.acts ++
      (if (outcome serial).isSome then [.lock serial, .provision serial, .unlock serial] else []) ∧
    (attempt outcome serial s).state.retry = (s.retry || isBusy outcome serial) := by
  unfold attempt isBusy
  cases houtcome : outcome serial with
  | none => simp [Flow.state]
  | some result =>
    cases result with
    | ok provisioned => simp [Flow.state, Sweep.info, Event.acts, List.filter_cons]
    | error e => cases e <;> simp [Flow.state, Sweep.warn, Event.acts, List.filter_cons]

theorem Sound.report (h : Sound mayProvision outcome families devices s) (level text : Str) :
    Sound mayProvision outcome families devices { s with log := s.log ++ [.report level text] } :=
  ⟨h.once, h.wanted, by simpa [Event.acts] using h.framed, h.retry⟩

theorem sound_attempt (h : Sound mayProvision outcome families devices s) (hmay : mayProvision = true)
    (hnew : serial ∉ s.attempted) (hserial : serial ∈ devices) (hfamily : family ∈ families)
    (hwants : family.Wants serial) :
    Sound mayProvision outcome families devices (attempt outcome serial s).state := by
  obtain ⟨hattempted, hlog, hretry⟩ := @attempt_spec outcome serial s
  refine ⟨?_, fun other hother => ?_, ?_, ?_⟩
  · rw [hattempted]
    exact List.nodup_append.mpr ⟨h.once, List.nodup_singleton serial, fun a ha b hb heq =>
      hnew (List.mem_singleton.mp hb ▸ heq ▸ ha)⟩
  · rw [hattempted] at hother
    rcases List.mem_append.mp hother with hother | hother
    · exact h.wanted other hother
    · obtain rfl := List.mem_singleton.mp hother
      exact ⟨hmay, hserial, family, hfamily, hwants⟩
  · rw [hlog, hattempted, h.framed, List.filter_append, List.flatMap_append]
    by_cases hsome : (outcome serial).isSome <;> simp [hsome]
  · rw [hretry, hattempted, h.retry, List.any_append]
    simp

theorem sound_visit (h : Sound mayProvision outcome families devices s) (hserial : serial ∈ devices)
    (hfamily : family ∈ families) (hwants : judge serial = .ok .provision → family.Wants serial) :
    Sound mayProvision outcome families devices
      (visit mayProvision outcome family judge serial s).state := by
  unfold visit
  split
  · exact h.report _ _
  · exact h
  · exact h
  · next hjudge =>
    split_ifs with hskip
    · exact h
    · simp only [Bool.not_eq_true', not_or, Bool.not_eq_false] at hskip
      exact sound_attempt h hskip.1 hskip.2 hserial hfamily (hwants hjudge)

theorem sound_visitEach (h : Sound mayProvision outcome families devices s) (hserials : serials ⊆ devices)
    (hfamily : family ∈ families) (hwants : ∀ serial, judge serial = .ok .provision → family.Wants serial) :
    Sound mayProvision outcome families devices
      (visitEach mayProvision outcome family judge serials s).state := by
  induction serials generalizing s with
  | nil => exact h
  | cons serial serials ih =>
    rw [List.cons_subset] at hserials
    have hvisit := sound_visit h hserials.1 hfamily (hwants serial)
    rw [visitEach]
    split <;> rename_i heq <;> rw [heq] at hvisit
    · exact ih hvisit hserials.2
    · exact hvisit
    · exact hvisit

theorem sound_provisionFamily (h : Sound mayProvision outcome families devices s)
    (hserials : serials ⊆ devices) (hfamily : family ∈ families) :
    Sound mayProvision outcome families devices
      (provisionFamily mayProvision outcome serials family s).state := by
  unfold provisionFamily
  split_ifs with hauto
  · exact h
  split
  · exact h.report _ _
  next helper hhelper =>
  split
  · exact h
  · next judge hjudge =>
    exact sound_visitEach h hserials hfamily fun serial hwants =>
      ⟨by simpa using hauto, helper, judge, hhelper, hjudge, hwants⟩

theorem sound_provisionEach {fs : List Family} (h : Sound mayProvision outcome families devices s)
    (hserials : serials ⊆ devices) (hfamilies : fs ⊆ families) :
    Sound mayProvision outcome families devices
      (provisionEach mayProvision outcome serials fs s).state := by
  induction fs generalizing s with
  | nil => exact h
  | cons family fs ih =>
    rw [List.cons_subset] at hfamilies
    have hone := sound_provisionFamily h hserials hfamilies.1
    rw [provisionEach]
    split <;> rename_i heq <;> rw [heq] at hone
    · exact ih hone hfamilies.2
    · exact ih hone hfamilies.2
    · exact hone

/-! What cuts it short -/

theorem cut_attempt (h : (Flow.next s).Cut outcome) (serial : Str) :
    (attempt outcome serial s).Cut outcome := by
  have hmore : outcome serial ≠ some (.error .other) →
      ∀ other ∈ s.attempted ++ [serial], outcome other ≠ some (.error .other) := fun hne other hother => by
    rcases List.mem_append.mp hother with hother | hother
    · exact h other hother
    · exact List.mem_singleton.mp hother ▸ hne
  unfold attempt
  cases houtcome : outcome serial with
  | none => exact hmore (by simp [houtcome])
  | some result =>
    cases result with
    | ok provisioned => exact hmore (by simp [houtcome])
    | error e =>
      cases e with
      | busy => exact hmore (by simp [houtcome])
      | updater text => exact hmore (by simp [houtcome])
      | other => exact ⟨serial, by simp, houtcome⟩

theorem cut_visit (h : (Flow.next s).Cut outcome) :
    (visit mayProvision outcome family judge serial s).Cut outcome := by
  unfold visit
  split
  · exact h
  · exact h
  · exact h
  · split_ifs
    · exact h
    · exact cut_attempt h serial

theorem cut_visitEach (h : (Flow.next s).Cut outcome) :
    (visitEach mayProvision outcome family judge serials s).Cut outcome := by
  induction serials generalizing s with
  | nil => exact h
  | cons serial serials ih =>
    have hvisit := @cut_visit mayProvision outcome family serial judge s h
    rw [visitEach]
    split <;> rename_i heq <;> rw [heq] at hvisit
    · exact ih hvisit
    · exact hvisit
    · exact hvisit

theorem cut_provisionFamily (h : (Flow.next s).Cut outcome) :
    (provisionFamily mayProvision outcome serials family s).Cut outcome := by
  unfold provisionFamily
  split_ifs
  · exact h
  · split
    · exact h
    · split
      · exact h
      · exact cut_visitEach h

theorem cut_provisionEach {fs : List Family} (h : (Flow.next s).Cut outcome) :
    (provisionEach mayProvision outcome serials fs s).Cut outcome := by
  induction fs generalizing s with
  | nil => exact h
  | cons family fs ih =>
    have hone := @cut_provisionFamily mayProvision outcome family serials s h
    rw [provisionEach]
    split <;> rename_i heq <;> rw [heq] at hone
    · exact ih hone
    · exact ih hone
    · exact hone

/-! Nothing that is wanted is left out -/

theorem attempted_attempt (s : Sweep) :
    (attempt outcome serial s).state.attempted = s.attempted ++ [serial] := (attempt_spec serial s).1

theorem attempted_visit (s : Sweep) :
    s.attempted ⊆ (visit mayProvision outcome family judge serial s).state.attempted := by
  unfold visit
  split
  · exact List.Subset.refl _
  · exact List.Subset.refl _
  · exact List.Subset.refl _
  · split_ifs
    · exact List.Subset.refl _
    · rw [attempted_attempt]
      exact List.subset_append_left _ _

theorem visit_wanted (hmay : mayProvision = true) (hjudge : judge serial = .ok .provision) (s : Sweep) :
    serial ∈ (visit mayProvision outcome family judge serial s).state.attempted := by
  unfold visit
  rw [hjudge]
  dsimp only
  split_ifs with hskip
  · have hold : serial ∈ s.attempted := by simpa [hmay] using hskip
    exact hold
  · rw [attempted_attempt]
    simp

theorem attempted_visitEach (s : Sweep) :
    s.attempted ⊆ (visitEach mayProvision outcome family judge serials s).state.attempted := by
  induction serials generalizing s with
  | nil => exact List.Subset.refl _
  | cons serial serials ih =>
    have hvisit := @attempted_visit mayProvision outcome family serial judge s
    rw [visitEach]
    split <;> rename_i heq <;> rw [heq] at hvisit
    · exact List.Subset.trans hvisit (ih _)
    · exact hvisit
    · exact hvisit

theorem visit_leave (h : visit mayProvision outcome family judge serial s = .leave t) :
    ∃ text, judge serial = .error text := by
  unfold visit at h
  split at h
  · next text hjudge => exact ⟨text, hjudge⟩
  · cases h
  · cases h
  · split_ifs at h
    unfold attempt at h
    cases houtcome : outcome serial with
    | none => simp [houtcome] at h
    | some result =>
      cases result with
      | ok provisioned => simp [houtcome] at h
      | error e => cases e <;> simp [houtcome] at h

theorem visitEach_wanted (hmay : mayProvision = true)
    (hjudges : ∀ serial ∈ serials, ∀ text, judge serial ≠ .error text)
    (hend : visitEach mayProvision outcome family judge serials s = .next t) :
    ∀ serial ∈ serials, judge serial = .ok .provision → serial ∈ t.attempted := by
  induction serials generalizing s with
  | nil => simp
  | cons serial serials ih =>
    intro other hother hwants
    rw [List.forall_mem_cons] at hjudges
    rw [visitEach] at hend
    split at hend <;> rename_i heq
    · rcases List.mem_cons.mp hother with rfl | hother
      · have hvisit := @visit_wanted mayProvision outcome family other judge hmay hwants s
        rw [heq] at hvisit
        have hmore := @attempted_visitEach mayProvision outcome family serials judge
        have hlater := hmore _ hvisit
        simp only [Flow.state, hend] at hlater
        exact hlater
      · exact ih hjudges.2 hend other hother hwants
    · obtain ⟨text, herror⟩ := visit_leave heq
      exact absurd herror (hjudges.1 text)
    · cases hend

theorem visitEach_ne_leave : visitEach mayProvision outcome family judge serials s ≠ .leave t := by
  induction serials generalizing s with
  | nil => exact nofun
  | cons serial serials ih =>
    rw [visitEach]
    split
    · exact ih
    · exact nofun
    · exact nofun

theorem provisionFamily_next (hend : provisionFamily mayProvision outcome serials family s = .next t) :
    s.attempted ⊆ t.attempted ∧ (mayProvision = true → family.Judges serials →
      ∀ serial ∈ serials, family.Wants serial → serial ∈ t.attempted) := by
  unfold provisionFamily at hend
  split_ifs at hend with hauto
  · cases hend
    refine ⟨List.Subset.refl _, fun _ _ serial _ hwants => ?_⟩
    simp [hwants.1] at hauto
  split at hend
  · next text hhelper =>
    cases hend
    refine ⟨List.Subset.refl _, fun _ _ serial _ hwants => ?_⟩
    obtain ⟨-, helper, judge, heq, -⟩ := hwants
    rw [hhelper] at heq
    cases heq
  next helper hhelper =>
  split at hend
  · next hnone =>
    cases hend
    refine ⟨List.Subset.refl _, fun _ _ serial _ hwants => ?_⟩
    obtain ⟨-, helper', judge, heq, hjudge, -⟩ := hwants
    cases hhelper.symm.trans heq
    rw [hnone] at hjudge
    cases hjudge
  · next judge hjudge =>
    have hmore := @attempted_visitEach mayProvision outcome family serials judge s
    rw [hend] at hmore
    refine ⟨hmore, fun hmay hjudges serial hserial hwants => ?_⟩
    obtain ⟨-, helper', judge', heq, hjudge', hwanted⟩ := hwants
    cases hhelper.symm.trans heq
    cases hjudge.symm.trans hjudge'
    exact visitEach_wanted hmay (hjudges helper judge hhelper hjudge) hend serial hserial hwanted

theorem provisionEach_next {fs : List Family} (hend : provisionEach mayProvision outcome serials fs s = .next t) :
    s.attempted ⊆ t.attempted ∧ (mayProvision = true → ∀ family ∈ fs, family.Judges serials →
      ∀ serial ∈ serials, family.Wants serial → serial ∈ t.attempted) := by
  induction fs generalizing s with
  | nil =>
    cases hend
    exact ⟨List.Subset.refl _, by simp⟩
  | cons family fs ih =>
    rw [provisionEach] at hend
    split at hend
    · next s' heq =>
      obtain ⟨hmore, hone⟩ := provisionFamily_next heq
      obtain ⟨hmore', hrest⟩ := ih hend
      refine ⟨List.Subset.trans hmore hmore', fun hmay f hf hjudges serial hserial hwants => ?_⟩
      rcases List.mem_cons.mp hf with rfl | hf
      · exact hmore' (hone hmay hjudges serial hserial hwants)
      · exact hrest hmay f hf hjudges serial hserial hwants
    · next s' heq =>
      exfalso
      unfold provisionFamily at heq
      split_ifs at heq
      split at heq
      · cases heq
      · split at heq
        · cases heq
        · exact visitEach_ne_leave heq
    · cases hend

theorem provisionEach_ne_leave {fs : List Family} :
    provisionEach mayProvision outcome serials fs s ≠ .leave t := by
  induction fs generalizing s with
  | nil => exact nofun
  | cons family fs ih =>
    rw [provisionEach]
    split
    · exact ih
    · exact ih
    · exact nofun

end Facts

theorem wants_iff {family : Family} {serial : Str} :
    family.Wants serial ↔ ∃ judge ∈ family.autoJudge, judge serial = .provision := by
  unfold Family.autoJudge
  constructor
  · rintro ⟨hauto, helper, judge, hhelper, hjudge, hwants⟩
    simp [hauto, hhelper, hjudge, hwants]
  · rintro ⟨judge, hjudge, hwants⟩
    split at hjudge
    · next helper hauto hhelper =>
      obtain ⟨judge', hjudge', rfl⟩ := Option.map_eq_some_iff.mp hjudge
      refine ⟨hauto, helper, judge', hhelper, hjudge', ?_⟩
      cases hverdict : judge' serial with
      | error text => simp [hverdict] at hwants
      | ok verdict =>
        simp only [hverdict] at hwants
        rw [hwants]
    · cases hjudge

/-- What a sweep did, and what it asks the watcher for. -/
structure Guarded (mayProvision : Bool) (outcome : Str → Attempt) (families : List Family)
    (devices : List Str) (result : Sweep × Option Bool) : Prop where
  sound : Sound mayProvision outcome families devices result.1
  /-- it is cut short only by a write that raises what is not an error of the updater's own -/
  cut : result.2 = none ↔ ∃ serial ∈ result.1.attempted, outcome serial = some (.error .other)
  again : ∀ retry ∈ result.2, retry = result.1.attempted.any (isBusy outcome)
  /-- where a family's judge raises on no board, all the boards it wants are attempted -/
  whole : result.2 ≠ none → mayProvision = true → ∀ family ∈ families, family.Judges devices →
    ∀ serial ∈ devices, family.Wants serial → serial ∈ result.1.attempted
  /-- and where none raises, they are the ones that the model of the agent's threads attempts -/
  refines : result.2 ≠ none → (∀ family ∈ families, family.Judges devices) →
    ∀ helpers : Agent.Identity.Helpers, helpers.autoJudges = families.filterMap Family.autoJudge →
      result.1.attempted.Perm (Agent.Identity.attempts helpers devices mayProvision)

section Whole
variable {mayProvision : Bool} {outcome : Str → Attempt} {families : List Family} {devices : List Str}

theorem autoProvision_cases (mayProvision : Bool) (outcome : Str → Attempt) (families : List Family)
    (devices : List Str) : ∃ s, Sound mayProvision outcome families devices s ∧
    ((provisionEach mayProvision outcome (devices.insertionSort (· ≤ ·)) families {} = .next s ∧
      autoProvision mayProvision outcome (.ok families) devices = (s, some s.retry)) ∨
    autoProvision mayProvision outcome (.ok families) devices = (s, none)) := by
  have hperm := List.perm_insertionSort (· ≤ ·) devices
  have hstart : Sound mayProvision outcome families devices {} := ⟨List.nodup_nil, by simp, rfl, rfl⟩
  have hsound := sound_provisionEach hstart hperm.subset (List.Subset.refl families)
  rw [autoProvision]
  split <;> rename_i s heq <;> rw [heq] at hsound
  · exact ⟨s, hsound, .inl ⟨heq, rfl⟩⟩
  · exact absurd heq provisionEach_ne_leave
  · exact ⟨s, hsound, .inr rfl⟩

theorem autoProvision_cut : (autoProvision mayProvision outcome (.ok families) devices).2 = none ↔
    ∃ serial ∈ (autoProvision mayProvision outcome (.ok families) devices).1.attempted,
      outcome serial = some (.error .other) := by
  have hcut := @cut_provisionEach mayProvision outcome (devices.insertionSort (· ≤ ·)) {} families
    (by simp [Flow.Cut])
  rw [autoProvision]
  split <;> rename_i s heq <;> rw [heq] at hcut
  · exact ⟨nofun, fun ⟨serial, hserial, hother⟩ => absurd hother (hcut serial hserial)⟩
  · exact ⟨nofun, fun ⟨serial, hserial, hother⟩ => absurd hother (hcut serial hserial)⟩
  · exact ⟨fun _ => hcut, fun _ => rfl⟩

theorem sound_autoProvision : Sound mayProvision outcome families devices
    (autoProvision mayProvision outcome (.ok families) devices).1 := by
  obtain ⟨s, hsound, ⟨-, heq⟩ | heq⟩ := autoProvision_cases mayProvision outcome families devices <;>
    rw [heq] <;> exact hsound

theorem autoProvision_again {retry : Bool}
    (h : (autoProvision mayProvision outcome (.ok families) devices).2 = some retry) : retry =
    (autoProvision mayProvision outcome (.ok families) devices).1.attempted.any (isBusy outcome) := by
  obtain ⟨s, hsound, ⟨-, heq⟩ | heq⟩ := autoProvision_cases mayProvision outcome families devices <;>
    rw [heq] at h ⊢
  · rw [← Option.some.inj h]
    exact hsound.retry
  · cases h

theorem autoProvision_whole {family : Family} {serial : Str} (hmay : mayProvision = true)
    (hend : (autoProvision mayProvision outcome (.ok families) devices).2 ≠ none)
    (hfamily : family ∈ families) (hjudges : family.Judges devices) (hserial : serial ∈ devices)
    (hwants : family.Wants serial) :
    serial ∈ (autoProvision mayProvision outcome (.ok families) devices).1.attempted := by
  have hperm := List.perm_insertionSort (· ≤ ·) devices
  obtain ⟨s, -, ⟨hnext, heq⟩ | heq⟩ := autoProvision_cases mayProvision outcome families devices
  · rw [heq]
    refine (provisionEach_next hnext).2 hmay family hfamily ?_ serial (hperm.mem_iff.mpr hserial) hwants
    exact fun helper judge hhelper hjudge other hother =>
      hjudges helper judge hhelper hjudge other (hperm.mem_iff.mp hother)
  · rw [heq] at hend
    exact absurd rfl hend

theorem autoProvision_refines (helpers : Agent.Identity.Helpers)
    (hhelpers : helpers.autoJudges = families.filterMap Family.autoJudge)
    (hend : (autoProvision mayProvision outcome (.ok families) devices).2 ≠ none)
    (hjudges : ∀ family ∈ families, family.Judges devices) :
    (autoProvision mayProvision outcome (.ok families) devices).1.attempted.Perm
      (Agent.Identity.attempts helpers devices mayProvision) := by
  have hsound := @sound_autoProvision mayProvision outcome families devices
  unfold Agent.Identity.attempts
  cases mayProvision with
  | false =>
    have hnil : (autoProvision false outcome (.ok families) devices).1.attempted = [] :=
      List.eq_nil_iff_forall_not_mem.mpr fun serial hserial => by
        simpa using (hsound.wanted serial hserial).1
    simp [hnil]
  | true =>
    rw [if_pos rfl]
    refine (List.perm_ext_iff_of_nodup hsound.once (Dict.nodup_eraseDups _)).mpr fun serial => ?_
    simp only [hhelpers, List.mem_eraseDups, List.mem_flatMap, List.mem_filterMap, List.mem_filter,
      decide_eq_true_eq]
    constructor
    · intro hserial
      obtain ⟨-, hdevice, family, hfamily, hwants⟩ := hsound.wanted serial hserial
      obtain ⟨judge, hjudge, hasks⟩ := wants_iff.mp hwants
      exact ⟨judge, ⟨family, hfamily, hjudge⟩, hdevice, hasks⟩
    · rintro ⟨judge, ⟨family, hfamily, hjudge⟩, hdevice, hasks⟩
      exact autoProvision_whole rfl hend hfamily (hjudges family hfamily) hdevice
        (wants_iff.mpr ⟨judge, hjudge, hasks⟩)

end Whole

theorem auto_provision_guarded (mayProvision : Bool) (outcome : Str → Attempt) (families : List Family)
    (devices : List Str) : Guarded mayProvision outcome families devices
      (autoProvision mayProvision outcome (.ok families) devices) :=
  ⟨sound_autoProvision, autoProvision_cut, fun _ => autoProvision_again,
    fun hend hmay _ hfamily hjudges _ => autoProvision_whole hmay hend hfamily hjudges,
    fun hend hjudges helpers hhelpers => autoProvision_refines helpers hhelpers hend hjudges⟩

/-! ## The watcher's next polls -/

section Watcher
open Agent.Events
variable (lower : Str → Str) (mayProvision : Bool) (families : List Family) (found : List BusDevice)

/-- A poll that finds these devices, and whether it runs the handler. -/
def poll (handler : Option Bool) (s : BusWatcher) : Option (Bool × BusWatcher) := do
  let s ← s.step lower (.sweep (some found))
  match s.phase with
  | .between => return (false, s)
  | _ =>
    let s ← s.step lower .remember
    let s ← s.step lower (.handler handler)
    match s.phase with
    | .between => return (true, s)
    | _ => return (true, ← s.step lower (.emit true))

/-- The boards that each poll attempts while the bus stays as it is. -/
def watch : List (Str → Attempt) → BusWatcher → Option (List (List Str))
  | [], _ => some []
  | outcome :: outcomes, s => do
    let result := autoProvision mayProvision outcome (.ok families) (found.map (·.serial))
    -- what raises is caught, and asks for nothing
    let (ran, s) ← poll lower found (some (result.2.getD false)) s
    let rest ← watch outcomes s
    return (if ran then result.1.attempted else []) :: rest

variable {lower mayProvision families found}

theorem poll_eq {s : BusWatcher} (h : s.phase = .between) (handler : Option Bool) :
    ∃ t, poll lower found handler s =
        some (decide (s.last ≠ some (fingerprint lower found) ∨ s.retry = true), t) ∧
      t.phase = .between ∧ t.last = some (fingerprint lower found) ∧
      t.retry = (decide (s.last ≠ some (fingerprint lower found) ∨ s.retry = true) &&
        handler.getD false) := by
  by_cases hlast : s.last = some (fingerprint lower found)
  · cases hretry : s.retry <;> simp [poll, BusWatcher.step, h, hlast, hretry]
  · simp [poll, BusWatcher.step, h, hlast]

theorem watch_idle {s : BusWatcher} (hphase : s.phase = .between)
    (hlast : s.last = some (fingerprint lower found)) (hretry : s.retry = false)
    (outcomes : List (Str → Attempt)) :
    watch lower mayProvision families found outcomes s = some (outcomes.map fun _ => []) := by
  induction outcomes generalizing s with
  | nil => rfl
  | cons outcome outcomes ih =>
    obtain ⟨t, hpoll, htphase, htlast, htretry⟩ := @poll_eq lower found s hphase
      (some ((autoProvision mayProvision outcome (.ok families) (found.map (·.serial))).2.getD false))
    have hskip : decide (s.last ≠ some (fingerprint lower found) ∨ s.retry = true) = false := by
      simp [hlast, hretry]
    rw [hskip] at hpoll htretry
    rw [watch]
    simp [hpoll, ih htphase htlast htretry]

theorem watch_total {s : BusWatcher} (hphase : s.phase = .between) (outcomes : List (Str → Attempt)) :
    ∃ attempted, watch lower mayProvision families found outcomes s = some attempted := by
  induction outcomes generalizing s with
  | nil => exact ⟨[], rfl⟩
  | cons outcome outcomes ih =>
    obtain ⟨t, hpoll, htphase, -⟩ := @poll_eq lower found s hphase
      (some ((autoProvision mayProvision outcome (.ok families) (found.map (·.serial))).2.getD false))
    obtain ⟨attempted, hattempted⟩ := ih htphase
    rw [watch]
    simp [hpoll, hattempted]

theorem watch_due {s : BusWatcher} (hphase : s.phase = .between)
    (hdue : s.last ≠ some (fingerprint lower found) ∨ s.retry = true) (outcome : Str → Attempt)
    (outcomes : List (Str → Attempt)) : ∃ t : BusWatcher, t.phase = .between ∧
      t.last = some (fingerprint lower found) ∧ t.retry = (autoProvision mayProvision outcome
        (.ok families) (found.map (·.serial))).2.getD false ∧
      watch lower mayProvision families found (outcome :: outcomes) s =
        (watch lower mayProvision families found outcomes t).map ((autoProvision mayProvision outcome
          (.ok families) (found.map (·.serial))).1.attempted :: ·) := by
  obtain ⟨t, hpoll, htphase, htlast, htretry⟩ := @poll_eq lower found s hphase
    (some ((autoProvision mayProvision outcome (.ok families) (found.map (·.serial))).2.getD false))
  rw [decide_eq_true hdue] at hpoll htretry
  refine ⟨t, htphase, htlast, by simpa using htretry, ?_⟩
  rw [watch]
  simp only [hpoll, Option.bind_eq_bind, Option.bind_some, if_true]
  cases watch lower mayProvision families found outcomes t <;> rfl

/-- While the bus stays as it is, a board that an opted-in family wants is attempted at every poll
until the operation lock is free for it; and after a sweep that met no held lock nothing is. -/
theorem busy_tried_again {s : BusWatcher} {held rest : List (Str → Attempt)} {outcome : Str → Attempt}
    {family : Family} {serial : Str} (hphase : s.phase = .between)
    (hdue : s.last ≠ some (fingerprint lower found) ∨ s.retry = true)
    (hserial : serial ∈ found.map (·.serial)) (hfamily : family ∈ families)
    (hjudges : family.Judges (found.map (·.serial))) (hwants : family.Wants serial)
    (hheld : ∀ o ∈ held, isBusy o serial = true)
    (hends : ∀ o ∈ outcome :: held,
      (autoProvision true o (.ok families) (found.map (·.serial))).2 ≠ none) :
    ∃ attempted, watch lower true families found (held ++ outcome :: rest) s = some attempted ∧
      (∀ serials ∈ attempted.take (held.length + 1), serial ∈ serials) ∧
      ((∀ other, isBusy outcome other = false) →
        attempted.drop (held.length + 1) = rest.map fun _ => []) := by
  rw [List.forall_mem_cons] at hends
  have hmem : ∀ o : Str → Attempt,
      (autoProvision true o (.ok families) (found.map (·.serial))).2 ≠ none →
      serial ∈ (autoProvision true o (.ok families) (found.map (·.serial))).1.attempted := fun o hend =>
    autoProvision_whole rfl hend hfamily hjudges hserial hwants
  induction held generalizing s with
  | nil =>
    obtain ⟨t, htphase, htlast, htretry, hwatch⟩ := @watch_due lower true families found s hphase hdue
      outcome rest
    obtain ⟨attempted, hattempted⟩ := @watch_total lower true families found t htphase rest
    rw [hattempted] at hwatch
    refine ⟨_, hwatch, by simpa using hmem outcome hends.1, fun hfree => ?_⟩
    have hnone : t.retry = false := by
      obtain ⟨retry, hretry⟩ := Option.ne_none_iff_exists'.mp hends.1
      rw [htretry, hretry, Option.getD_some, autoProvision_again hretry]
      simpa using fun other _ => hfree other
    have hidle := @watch_idle lower true families found t htphase htlast hnone rest
    simpa using hattempted.symm.trans hidle
  | cons o held ih =>
    rw [List.forall_mem_cons] at hheld
    have hends' := List.forall_mem_cons.mp hends.2
    obtain ⟨t, htphase, htlast, htretry, hwatch⟩ := @watch_due lower true families found s hphase hdue o
      (held ++ outcome :: rest)
    have hagain : t.retry = true := by
      obtain ⟨retry, hretry⟩ := Option.ne_none_iff_exists'.mp hends'.1
      rw [htretry, hretry, Option.getD_some, autoProvision_again hretry]
      exact List.any_eq_true.mpr ⟨serial, hmem o hends'.1, hheld.1⟩
    obtain ⟨attempted, hattempted, htried, hrest⟩ := ih htphase (.inr hagain) hheld.2 ⟨hends.1, hends'.2⟩
    rw [hattempted] at hwatch
    refine ⟨_, hwatch, fun serials hserials => ?_, hrest⟩
    rcases List.mem_cons.mp hserials with rfl | hserials
    · exact hmem o hends'.1
    · exact htried serials hserials

/-- A lane of which the judge of the one opted-in family asks for an identity. -/
def newLane : BusDevice :=
  ⟨"Vylyne".toList, "Roadrunner".toList, "RR-unprovisioned".toList, "/dev/ttyACM0".toList⟩

def lanes : Family where
  name := "roadrunner".toList
  autoProvision := true
  helper := .ok { judge := some fun _ => .ok .provision, provisions := true }

theorem busy_tried_again_newLane : ∃ attempted,
    watch id true [lanes] [newLane] ([fun _ => none] ++ (fun _ => some (.ok "RR-1".toList)) ::
      [fun _ => none]) {} = some attempted ∧
    (∀ serials ∈ attempted.take 2, newLane.serial ∈ serials) ∧ attempted.drop 2 = [[]] := by
  obtain ⟨attempted, hwatch, htried, hrest⟩ := @busy_tried_again id [lanes] [newLane] {} [fun _ => none]
    [fun _ => none] (fun _ => some (.ok "RR-1".toList)) lanes newLane.serial rfl (.inl (by simp))
    (by decide) (by simp) (fun _ _ hhelper hjudge _ _ _ => by cases hhelper; cases hjudge; simp)
    ⟨rfl, _, _, rfl, rfl, rfl⟩ (by decide) (by decide)
  exact ⟨attempted, hwatch, htried, hrest fun _ => rfl⟩

end Watcher

end McuUpdater.Provisioning
