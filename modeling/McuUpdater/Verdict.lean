import McuUpdater.Lib.PyValue

/-! `verdict.py`: `decide`, over everything a device said and everything held for it,
with `DeviceInfo.has_digest` and the device reasons of `states.py`. -/
namespace McuUpdater.Verdict
open PyText PyValue

/-- The reasons of a `DeviceStatus`. -/
inductive Reason
  | inBootloader
  | artifactChanged
  | protocolMismatch
  | deviceDirty
  | offline
  | unknownVersion
  | versionOnly
  | unexpectedImage
  | sourceChanged
  deriving DecidableEq

/-- No reason means there is nothing to do. -/
structure DeviceStatus where
  reason : Option Reason := none
  deriving DecidableEq

/-- The states of `discovery.byid`. -/
inductive BoardState
  | klipper
  | katapult
  | offline
  | dfu
  | bootsel
  | espRom
  deriving DecidableEq

inductive StampKind
  | built
  | tag
  deriving DecidableEq

/-- `_DIGEST_FIELDS` -/
inductive DigestField
  | digestAlgorithm
  | digest
  | imageStart
  | imageLength
  deriving DecidableEq

def DigestField.key : DigestField → String
  | .digestAlgorithm => "digest_algorithm"
  | .digest => "digest"
  | .imageStart => "image_start"
  | .imageLength => "image_length"

def digestFields : List DigestField := [.digestAlgorithm, .digest, .imageStart, .imageLength]

theorem mem_digestFields (f : DigestField) : f ∈ digestFields := by
  cases f <;> simp [digestFields]

structure DeviceInfo where
  digestAlgorithm : Option Int := none
  digest : Option Int := none
  imageStart : Option Int := none
  imageLength : Option Int := none

/-- `getattr(info, field)` -/
def DeviceInfo.get (i : DeviceInfo) : DigestField → Option Int
  | .digestAlgorithm => i.digestAlgorithm
  | .digest => i.digest
  | .imageStart => i.imageStart
  | .imageLength => i.imageLength

/-- `DIGEST_NONE` is 0, and an `image_start` of 0 is a real start. -/
def DeviceInfo.hasDigest (i : DeviceInfo) : Bool :=
  i.digestAlgorithm.getD 0 != 0 && i.digest.isSome && i.imageStart.isSome && i.imageLength.isSome

/-- What the device itself said. -/
structure Evidence where
  state : Option BoardState := none
  version : Option Str := none
  runningSha : Option Str := none
  dirty : Bool := false
  protocolMatch : Option Bool := none
  info : Option DeviceInfo := none

/-- What is held for it: the tree, the artifact and the ledger. -/
structure Expected where
  head : Option Str := none
  stamp : Option Str := none
  stampKind : StampKind := .built
  tagClean : Bool := false
  requireHead : Bool := false
  artifactShas : List Str := []
  record : Option Mapping := none
  digest : Option Mapping := none

def present : Option Str → Option Str
  | some (c :: s) => some (c :: s)
  | _ => none

/-- `theirs == ours` on one field -/
def DeviceInfo.agrees (i : DeviceInfo) (ours : Mapping) (f : DigestField) : Bool :=
  match i.get f with
  | some n => (ours.get f.key).eqInt n
  | none => (ours.get f.key).isNone

def imageVerdict (info : Option DeviceInfo) (expected : Option Mapping) : Option DeviceStatus :=
  match info, expected with
  | some i, some (kv :: ours) =>
    if !i.hasDigest then none
    -- a sidecar from before these fields existed
    else if digestFields.any fun f => (Mapping.get (kv :: ours) f.key).isNone then none
    else if digestFields.all (i.agrees (kv :: ours)) then some {}
    else some ⟨some .unexpectedImage⟩
  | _, _ => none

/-- `flashed in artifact_shas`, which hashes `flashed`. -/
def inShas (flashed : PyVal) (shas : List Str) : Except PyError Bool :=
  if flashed.hashable then .ok (shas.any flashed.eqStr) else .error .typeError

def recordVerdict (x : Expected) (absentIs : Option Reason) : Except PyError DeviceStatus :=
  match x.record with
  | none => .ok ⟨absentIs⟩
  | some record =>
    let flashed := record.get "bin_sha256"
    if flashed.truthy && !x.artifactShas.isEmpty then do
      if ← inShas flashed x.artifactShas then .ok {} else .ok ⟨some .artifactChanged⟩
    else .ok {}

/-- `running[:size] == head[:size]` over the shorter of the two. -/
def sameCommit (lower : Str → Str) (running head : Str) : Bool :=
  let size := min (lower running).length (lower head).length
  (lower running).take size == (lower head).take size

/-- The last rung of `decide`: no commit to compare, only a stamp. -/
def stampVerdict (version : Str) (x : Expected) : Except PyError DeviceStatus :=
  match present x.stamp, x.stampKind with
  | none, _ => .ok ⟨some .unknownVersion⟩
  | some stamp, .tag =>
    if strip version = stamp ∧ x.tagClean then .ok {} else .ok ⟨some .sourceChanged⟩
  | some stamp, .built =>
    if strip version ≠ stamp then .ok ⟨some .sourceChanged⟩
    else recordVerdict x (some .versionOnly)

/-- The version rungs of `decide`, once nothing has been measured. -/
def versionVerdict (lower : Str → Str) (e : Evidence) (x : Expected) :
    Except PyError DeviceStatus :=
  match present e.version with
  | none => .ok ⟨some .unknownVersion⟩
  | some version =>
    if x.requireHead && (present x.head).isNone then .ok ⟨some .unknownVersion⟩
    else if e.dirty then .ok ⟨some .deviceDirty⟩
    else
      match present e.runningSha, present x.head with
      | some running, some head =>
        if sameCommit lower running head then recordVerdict x none
        else .ok ⟨some .sourceChanged⟩
      | _, _ => stampVerdict version x

/-- Does this device want firmware, and why? `lower` is `str.lower`. -/
def decide (lower : Str → Str) (e : Evidence) (x : Expected) : Except PyError DeviceStatus :=
  if e.protocolMatch = some false then .ok ⟨some .protocolMismatch⟩
  else if e.state = some .offline then .ok ⟨some .offline⟩
  else if e.state = some .katapult then .ok ⟨some .inBootloader⟩
  else
    match imageVerdict e.info x.digest with
    | some measured => .ok measured
    | none => versionVerdict lower e x

/-- A flash record that says other bytes than any artifact hash. -/
def RecordContradicts (x : Expected) : Prop :=
  ∃ record, x.record = some record ∧ (record.get "bin_sha256").truthy ∧
    x.artifactShas ≠ [] ∧ ∀ sha ∈ x.artifactShas, (record.get "bin_sha256").eqStr sha = false

/-- Both sides have all four digest fields. -/
def Measured (i : DeviceInfo) (ours : Mapping) : Prop :=
  ∀ f, (i.get f).isSome ∧ (ours.get f.key).isNone = false

/-- Present evidence that equals what is expected. -/
inductive Supported (lower : Str → Str) (e : Evidence) (x : Expected) : Prop
  | image (i : DeviceInfo) (ours : Mapping) (hi : e.info = some i) (ho : x.digest = some ours)
      (hm : Measured i ours) (heq : ∀ f, i.agrees ours f)
  | commit (running head : Str) (hr : present e.runningSha = some running)
      (hh : present x.head = some head) (heq : sameCommit lower running head)
      (hrec : ¬ RecordContradicts x)
  | tag (version stamp : Str) (hv : present e.version = some version)
      (hs : present x.stamp = some stamp) (hk : x.stampKind = .tag)
      (heq : strip version = stamp) (hclean : x.tagClean)
  | built (version stamp : Str) (hv : present e.version = some version)
      (hs : present x.stamp = some stamp) (hk : x.stampKind = .built)
      (heq : strip version = stamp) (hrec : x.record.isSome) (hno : ¬ RecordContradicts x)

/-- Present evidence that differs from what is expected, for the reason given. -/
inductive Contradicted (lower : Str → Str) (e : Evidence) (x : Expected) : Reason → Prop
  | image (i : DeviceInfo) (ours : Mapping) (f : DigestField) (hi : e.info = some i)
      (ho : x.digest = some ours) (hm : Measured i ours) (hne : i.agrees ours f = false) :
      Contradicted lower e x .unexpectedImage
  | commit (running head : Str) (hr : present e.runningSha = some running)
      (hh : present x.head = some head) (hne : sameCommit lower running head = false) :
      Contradicted lower e x .sourceChanged
  | stamp (version stamp : Str) (hv : present e.version = some version)
      (hs : present x.stamp = some stamp) (hne : strip version ≠ stamp) :
      Contradicted lower e x .sourceChanged
  | moved (version stamp : Str) (hv : present e.version = some version)
      (hs : present x.stamp = some stamp) (hk : x.stampKind = .tag) (hclean : x.tagClean = false) :
      Contradicted lower e x .sourceChanged
  | record (h : RecordContradicts x) : Contradicted lower e x .artifactChanged

def Reason.saysDiffers (r : Reason) : Prop :=
  r = .sourceChanged ∨ r = .unexpectedImage ∨ r = .artifactChanged

/-- What `decide` may answer. -/
def Sound (lower : Str → Str) (e : Evidence) (x : Expected) (s : DeviceStatus) : Prop :=
  (s.reason = none → Supported lower e x) ∧
    ∀ r, s.reason = some r → r.saysDiffers → Contradicted lower e x r

variable {lower : Str → Str} {e : Evidence} {x : Expected} {s : DeviceStatus}

theorem Sound.of_supported (h : Supported lower e x) : Sound lower e x {} :=
  ⟨fun _ => h, fun _ hr => by simp at hr⟩

theorem Sound.of_contradicted {r : Reason} (h : Contradicted lower e x r) :
    Sound lower e x ⟨some r⟩ :=
  ⟨fun hr => by simp at hr, fun r' hr _ => by simp at hr; exact hr ▸ h⟩

theorem Sound.of_other {r : Reason} (h : ¬ r.saysDiffers) : Sound lower e x ⟨some r⟩ :=
  ⟨fun hr => by simp at hr, fun r' hr hd => by simp at hr; exact absurd (hr ▸ hd) h⟩

theorem DeviceInfo.get_isSome {i : DeviceInfo} (h : i.hasDigest) (f : DigestField) :
    (i.get f).isSome := by
  simp only [hasDigest, Bool.and_eq_true, bne_iff_ne, ne_eq] at h
  obtain ⟨⟨⟨ha, hd⟩, hs⟩, hl⟩ := h
  cases f with
  | digestAlgorithm =>
    cases hi : i.digestAlgorithm with
    | none => simp [hi] at ha
    | some n => simp [get, hi]
  | digest => exact hd
  | imageStart => exact hs
  | imageLength => exact hl

theorem imageVerdict_sound (h : imageVerdict e.info x.digest = some s) :
    Sound lower e x s := by
  unfold imageVerdict at h
  split at h
  · rename_i i kv ours hi ho
    by_cases hd : i.hasDigest
    · by_cases hn : digestFields.any fun f => (Mapping.get (kv :: ours) f.key).isNone
      · simp [hd, hn] at h
      · have hm : Measured i (kv :: ours) := by
          refine fun f => ⟨DeviceInfo.get_isSome hd f, ?_⟩
          simp only [List.any_eq_true, not_exists, not_and] at hn
          exact Bool.eq_false_iff.mpr (hn f (mem_digestFields f))
        rw [Bool.not_eq_true] at hn
        simp only [hd, hn, Bool.not_true, Bool.false_eq_true, if_false] at h
        by_cases ha : digestFields.all (i.agrees (kv :: ours))
        · rw [if_pos ha] at h
          cases h
          rw [List.all_eq_true] at ha
          exact .of_supported (.image i _ hi ho hm fun f => ha f (mem_digestFields f))
        · rw [if_neg ha] at h
          cases h
          simp only [List.all_eq_true, not_forall] at ha
          obtain ⟨f, _, hf⟩ := ha
          exact .of_contradicted (.image i _ f hi ho hm (by simpa using hf))
    · simp [hd] at h
  · cases h

/-- The ledger only adds doubt: an answer other than the one for a missing record
is about what the record says. -/
theorem recordVerdict_cases {absentIs : Option Reason} (h : recordVerdict x absentIs = .ok s) :
    (x.record = none ∧ s = ⟨absentIs⟩) ∨
      (x.record.isSome ∧ s = {} ∧ ¬ RecordContradicts x) ∨
      (s = ⟨some .artifactChanged⟩ ∧ RecordContradicts x) := by
  unfold recordVerdict at h
  split at h
  · rename_i hrec
    cases h
    exact .inl ⟨hrec, rfl⟩
  · rename_i record hrec
    right
    by_cases hc : ((record.get "bin_sha256").truthy && !x.artifactShas.isEmpty) = true
    · simp only [hc, if_true, inShas] at h
      simp only [Bool.and_eq_true, Bool.not_eq_true', List.isEmpty_eq_false_iff] at hc
      by_cases hh : (record.get "bin_sha256").hashable
      · by_cases ha : x.artifactShas.any (record.get "bin_sha256").eqStr
        · simp only [hh, ha, if_true] at h
          cases h
          refine .inl ⟨by simp [hrec], rfl, ?_⟩
          rintro ⟨record', hrec', -, -, hno⟩
          obtain rfl : record = record' := by simpa [hrec] using hrec'
          obtain ⟨sha, hm, hs⟩ := List.any_eq_true.mp ha
          simp [hno sha hm] at hs
        · simp only [hh, ha, if_true] at h
          cases h
          refine .inr ⟨rfl, record, hrec, hc.1, hc.2, fun sha hm => ?_⟩
          simp only [List.any_eq_true, not_exists, not_and] at ha
          exact Bool.eq_false_iff.mpr (ha sha hm)
      · simp only [hh] at h
        cases h
    · simp only [hc] at h
      cases h
      refine .inl ⟨by simp [hrec], rfl, ?_⟩
      rintro ⟨record', hrec', ht, hne, -⟩
      obtain rfl : record = record' := by simpa [hrec] using hrec'
      simp [ht, hne] at hc

theorem stampVerdict_sound {version : Str} (hv : present e.version = some version)
    (h : stampVerdict version x = .ok s) : Sound lower e x s := by
  unfold stampVerdict at h
  split at h
  · cases h
    exact .of_other (by simp [Reason.saysDiffers])
  · rename_i stamp hs hk
    by_cases heq : strip version = stamp ∧ x.tagClean
    · rw [if_pos heq] at h
      cases h
      exact .of_supported (.tag version stamp hv hs hk heq.1 heq.2)
    · rw [if_neg heq] at h
      cases h
      by_cases he : strip version = stamp
      · exact .of_contradicted (.moved version stamp hv hs hk (by simpa [he] using heq))
      · exact .of_contradicted (.stamp version stamp hv hs he)
  · rename_i stamp hs hk
    by_cases heq : strip version = stamp
    · rw [if_neg (not_not.mpr heq)] at h
      rcases recordVerdict_cases h with ⟨-, rfl⟩ | ⟨hrec, rfl, hno⟩ | ⟨rfl, hc⟩
      · exact .of_other (by simp [Reason.saysDiffers])
      · exact .of_supported (.built version stamp hv hs hk heq hrec hno)
      · exact .of_contradicted (.record hc)
    · rw [if_pos heq] at h
      cases h
      exact .of_contradicted (.stamp version stamp hv hs heq)

theorem versionVerdict_sound (h : versionVerdict lower e x = .ok s) : Sound lower e x s := by
  unfold versionVerdict at h
  split at h
  · cases h
    exact .of_other (by simp [Reason.saysDiffers])
  · rename_i version hv
    split at h
    · cases h
      exact .of_other (by simp [Reason.saysDiffers])
    · split at h
      · cases h
        exact .of_other (by simp [Reason.saysDiffers])
      · split at h
        · rename_i running head hr hh
          by_cases hc : sameCommit lower running head
          · rw [if_pos hc] at h
            rcases recordVerdict_cases h with ⟨hn, rfl⟩ | ⟨-, rfl, hno⟩ | ⟨rfl, hrec⟩
            · refine .of_supported (.commit running head hr hh hc ?_)
              rintro ⟨record, hsome, -⟩
              simp [hn] at hsome
            · exact .of_supported (.commit running head hr hh hc hno)
            · exact .of_contradicted (.record hrec)
          · rw [if_neg hc] at h
            cases h
            exact .of_contradicted (.commit running head hr hh (by simpa using hc))
        · exact stampVerdict_sound hv h

theorem decide_sound (h : decide lower e x = .ok s) : Sound lower e x s := by
  unfold decide at h
  split at h
  · cases h
    exact .of_other (by simp [Reason.saysDiffers])
  · split at h
    · cases h
      exact .of_other (by simp [Reason.saysDiffers])
    · split at h
      · cases h
        exact .of_other (by simp [Reason.saysDiffers])
      · split at h
        · rename_i measured hm
          cases h
          exact imageVerdict_sound hm
        · exact versionVerdict_sound h

/-- The same evidence with every empty string gone. -/
def Evidence.erase (e : Evidence) : Evidence :=
  { e with version := present e.version, runningSha := present e.runningSha }

/-- A record with a blank hash gone from it, and still a record. -/
def eraseHash (record : Mapping) : Mapping :=
  if (record.get "bin_sha256").truthy then record else record.filter (·.1 ≠ "bin_sha256")

/-- The same expectation with every empty string, an empty sidecar and an empty
recorded hash gone. -/
def Expected.erase (x : Expected) : Expected :=
  { x with
    head := present x.head
    stamp := present x.stamp
    digest := x.digest.filter fun d => !d.isEmpty
    record := x.record.map eraseHash }

theorem lookup_filter_ne (record : Mapping) (key : String) :
    (record.filter (·.1 ≠ key)).lookup key = none := by
  induction record with
  | nil => rfl
  | cons kv record ih =>
    by_cases hkey : kv.1 = key
    · rw [List.filter_cons_of_neg (by simpa using hkey)]
      exact ih
    · have hne : (key == kv.1) = false := by simpa using Ne.symm hkey
      rw [List.filter_cons_of_pos (by simpa using hkey), List.lookup_cons, hne]
      exact ih

theorem truthy_eraseHash (record : Mapping) : ((eraseHash record).get "bin_sha256").truthy =
    (record.get "bin_sha256").truthy := by
  unfold eraseHash
  split_ifs with h
  · rfl
  · rw [Mapping.get, lookup_filter_ne, Bool.eq_false_iff.mpr h]
    rfl

@[simp] theorem present_present (s : Option Str) : present (present s) = present s := by
  rcases s with _ | _ | _ <;> rfl

theorem imageVerdict_erase (info : Option DeviceInfo) (d : Option Mapping) :
    imageVerdict info (d.filter fun d => !d.isEmpty) = imageVerdict info d := by
  rcases info with _ | i <;> rcases d with _ | _ | ⟨kv, ours⟩ <;> rfl

theorem recordVerdict_erase (x : Expected) (absentIs : Option Reason) :
    recordVerdict x.erase absentIs = recordVerdict x absentIs := by
  cases hr : x.record with
  | none => simp [recordVerdict, Expected.erase, hr]
  | some record =>
    by_cases ht : (record.get "bin_sha256").truthy
    · simp [recordVerdict, Expected.erase, hr, ht, eraseHash]
    · simp [recordVerdict, Expected.erase, hr, ht, truthy_eraseHash]

theorem versionVerdict_erase (lower : Str → Str) (e : Evidence) (x : Expected) :
    versionVerdict lower e.erase x.erase = versionVerdict lower e x := by
  have hstamp (version : Str) : stampVerdict version x.erase = stampVerdict version x := by
    have hs : present x.erase.stamp = present x.stamp := present_present _
    simp only [stampVerdict, recordVerdict_erase, hs]
    rfl
  have hv : present e.erase.version = present e.version := present_present _
  have hr : present e.erase.runningSha = present e.runningSha := present_present _
  have hh : present x.erase.head = present x.head := present_present _
  simp only [versionVerdict, recordVerdict_erase, hstamp, hv, hr, hh]
  rfl

theorem decide_erase (lower : Str → Str) (e : Evidence) (x : Expected) :
    decide lower e.erase x.erase = decide lower e x := by
  have hi : imageVerdict e.erase.info x.erase.digest = imageVerdict e.info x.digest :=
    imageVerdict_erase _ _
  simp only [decide, versionVerdict_erase, hi]
  rfl

/-- A record without a hash counts as one, whatever else is in it. -/
theorem decide_hashless {record : Mapping} (hx : x.record = some record)
    (hblank : (record.get "bin_sha256").truthy = false) :
    decide lower e { x with record := some [] } = decide lower e x := by
  have hrecord (absentIs : Option Reason) :
      recordVerdict { x with record := some [] } absentIs = recordVerdict x absentIs := by
    simp [recordVerdict, hx, hblank]
  simp only [decide, versionVerdict, stampVerdict, hrecord]

/-- "Nothing to do" rests on present, equal evidence, "differs" on two present values
that differ, and an empty field is read as a missing one; but a flash record is missing only
where there is none. -/
theorem decide_rests_on_present (h : decide lower e x = .ok s) :
    (s.reason = none → Supported lower e x) ∧
      (∀ r, s.reason = some r → r.saysDiffers → Contradicted lower e x r) ∧
      decide lower e.erase x.erase = decide lower e x ∧
      (x.erase.record.isSome = x.record.isSome ∧ ∀ record, x.record = some record →
        (record.get "bin_sha256").truthy = false →
        decide lower e { x with record := some [] } = decide lower e x) :=
  ⟨(decide_sound h).1, (decide_sound h).2, decide_erase lower e x, Option.isSome_map,
    fun _ hx hblank => decide_hashless hx hblank⟩

/-- A board on the commit of the tree, and another on an older one. -/
theorem decide_rests_on_present_commits :
    ∃ e x : _, Supported id e x ∧ ∃ e', Contradicted id e' x .sourceChanged := by
  let e : Evidence := { version := some "v1".toList, runningSha := some "ab12".toList }
  let e' : Evidence := { version := some "v0".toList, runningSha := some "cd34".toList }
  let x : Expected := { head := some "ab12cd".toList }
  exact ⟨e, x, (decide_rests_on_present (s := {}) rfl).1 rfl, e',
    (decide_rests_on_present (s := ⟨some .sourceChanged⟩) rfl).2.1 _ rfl (.inl rfl)⟩

/-- An empty string in one digest field of the sidecar is compared, not passed over; and an
empty record is read as a record, where none would leave the answer open. -/
theorem blank_digest_read_as_mismatch :
    (∃ (e : Evidence) (x : Expected) (ours : Mapping) (f : DigestField),
      x.digest = some ours ∧ (ours.get f.key).isBlank ∧
        ∀ lower, decide lower e x = .ok ⟨some .unexpectedImage⟩) ∧
    ∃ (e : Evidence) (x : Expected), x.record = some [] ∧ ∀ lower,
      decide lower e x = .ok {} ∧
        decide lower e { x with record := none } = .ok ⟨some .versionOnly⟩ :=
  ⟨⟨{ info := some ⟨some 1, some 7, some 0, some 16⟩ },
      { digest := some [("digest_algorithm", .int 1), ("digest", .str []), ("image_start", .int 0),
          ("image_length", .int 16)] },
      _, .digest, rfl, rfl, fun _ => rfl⟩,
    { version := some "v1".toList }, { stamp := some "v1".toList, record := some [] }, rfl,
    fun _ => ⟨rfl, rfl⟩⟩

end McuUpdater.Verdict
