import McuUpdater.Agent.FlashAll

/-! `build.py`: where `FlashLog.entry_for` and `verdict.decide` read the same pair of commits,
or of versions, alike. -/
namespace McuUpdater.Agent
open PyText PyValue Verdict

section Model
variable (flashlog : Str → Option Mapping) (serial : Str) (runningSha version : Option Str)

def recorded (key : String) : Option Str := (flashlog serial).bind (recordedText · key)

/-- With a running sha only the sha clause of `entry_for` can discard the record. -/
def DiscardedForSha : Prop :=
  (flashlog serial).isSome ∧ entryFor flashlog serial runningSha version = none ∧
    (present runningSha).isSome

/-- Without one only the version clause can. -/
def DiscardedForVersion : Prop :=
  (flashlog serial).isSome ∧ entryFor flashlog serial runningSha version = none ∧
    present runningSha = none

end Model

/-- `decide` on the two shas alone, for a device that says some version. -/
def JudgesShaDifferent (lower : Str → Str) (runningSha recordedSha : Option Str) : Prop :=
  ∀ version : Str, version ≠ [] →
    Verdict.decide lower { version := some version, runningSha } { head := recordedSha } =
      .ok ⟨some .sourceChanged⟩

/-- `decide` on the device and the record, where it is not the shas that differ. -/
def JudgesVersionDifferent (lower : Str → Str) (runningSha version recordedSha recordedVersion :
    Option Str) : Prop :=
  Verdict.decide lower { version, runningSha } { head := recordedSha, stamp := recordedVersion } =
      .ok ⟨some .sourceChanged⟩ ∧ ¬ JudgesShaDifferent lower runningSha recordedSha

variable {lower : Str → Str} {flashlog : Str → Option Mapping} {serial : Str}
  {runningSha version recordedSha recordedVersion : Option Str}

theorem present_recorded (key : String) :
    present (recorded flashlog serial key) = recorded flashlog serial key := by
  cases hrecorded : recorded flashlog serial key with
  | none => rfl
  | some s =>
    obtain ⟨entry, -, htext⟩ := Option.bind_eq_some_iff.mp hrecorded
    unfold recordedText at htext
    split at htext
    · cases htext
      rfl
    · cases htext

/-! `decide` on an identity and a record, and nothing else. -/

theorem decide_of_no_version {head stamp : Option Str} (hv : present version = none) :
    Verdict.decide lower { version, runningSha } { head, stamp } =
      .ok ⟨some .unknownVersion⟩ := by
  simp [Verdict.decide, versionVerdict, imageVerdict, hv]

theorem decide_of_shas {head stamp : Option Str} {v running sha : Str}
    (hv : present version = some v) (hr : present runningSha = some running)
    (hs : present head = some sha) :
    Verdict.decide lower { version, runningSha } { head, stamp } =
      if sameCommit lower running sha then .ok {} else .ok ⟨some .sourceChanged⟩ := by
  simp [Verdict.decide, versionVerdict, imageVerdict, hv, hr, hs, recordVerdict]

theorem decide_of_no_shas {head stamp : Option Str} {v : Str} (hv : present version = some v)
    (h : present runningSha = none ∨ present head = none) :
    Verdict.decide lower { version, runningSha } { head, stamp } =
      stampVerdict v { head, stamp } := by
  rcases h with h | h
  · simp [Verdict.decide, versionVerdict, imageVerdict, hv, h]
  · cases hr : present runningSha <;>
      simp [Verdict.decide, versionVerdict, imageVerdict, hv, h, hr]

theorem stampVerdict_differs {head stamp : Option Str} {v : Str} :
    stampVerdict v { head, stamp } = .ok ⟨some .sourceChanged⟩ ↔
      ∃ w, present stamp = some w ∧ strip v ≠ w := by
  cases hs : present stamp with
  | none => simp [stampVerdict, hs]
  | some w =>
    by_cases heq : strip v = w
    · simp [stampVerdict, hs, heq, recordVerdict]
    · simp [stampVerdict, hs, heq]

theorem judgesShaDifferent_iff : JudgesShaDifferent lower runningSha recordedSha ↔
    ∃ running sha, present runningSha = some running ∧ present recordedSha = some sha ∧
      sameCommit lower running sha = false := by
  have hpresent : ∀ v : Str, v ≠ [] → present (some v) = some v := by
    intro v hv
    obtain ⟨c, v, rfl⟩ := List.exists_cons_of_ne_nil hv
    rfl
  constructor
  · intro h
    have hone := h ['v'] (by simp)
    cases hr : present runningSha with
    | none =>
      rw [decide_of_no_shas (hpresent _ (by simp)) (.inl hr), stampVerdict_differs] at hone
      obtain ⟨w, hw, -⟩ := hone
      cases hw
    | some running =>
      cases hs : present recordedSha with
      | none =>
        rw [decide_of_no_shas (hpresent _ (by simp)) (.inr hs), stampVerdict_differs] at hone
        obtain ⟨w, hw, -⟩ := hone
        cases hw
      | some sha =>
        rw [decide_of_shas (hpresent _ (by simp)) hr hs] at hone
        refine ⟨running, sha, rfl, rfl, Bool.eq_false_iff.mpr fun hsame => ?_⟩
        simp [hsame] at hone
  · rintro ⟨running, sha, hr, hs, hne⟩ v hv
    rw [decide_of_shas (hpresent v hv) hr hs]
    simp [hne]

theorem judgesVersionDifferent_iff :
    JudgesVersionDifferent lower runningSha version recordedSha recordedVersion ↔
      (present runningSha = none ∨ present recordedSha = none) ∧ ∃ v w,
        present version = some v ∧ present recordedVersion = some w ∧ strip v ≠ w := by
  rw [JudgesVersionDifferent, judgesShaDifferent_iff]
  cases hv : present version with
  | none => simp [decide_of_no_version hv]
  | some v =>
    by_cases hno : present runningSha = none ∨ present recordedSha = none
    · rw [decide_of_no_shas hv hno, stampVerdict_differs]
      rcases hno with hno | hno <;> simp [hno]
    · obtain ⟨running, hr⟩ := Option.ne_none_iff_exists'.mp fun h => hno (.inl h)
      obtain ⟨sha, hs⟩ := Option.ne_none_iff_exists'.mp fun h => hno (.inr h)
      rw [decide_of_shas hv hr hs]
      simp [hr, hs]

/-! The lookup and the verdict, side by side. -/

theorem discardedForSha_iff : DiscardedForSha flashlog serial runningSha version ↔
    ∃ running sha, present runningSha = some running ∧
      recorded flashlog serial "fw_sha" = some sha ∧ ¬ running <+: sha := by
  unfold DiscardedForSha recorded entryFor
  cases hentry : flashlog serial with
  | none => simp
  | some entry =>
    cases hr : present runningSha with
    | none => simp
    | some running => cases hs : recordedText entry "fw_sha" <;> simp [hs]

theorem discardedForVersion_iff : DiscardedForVersion flashlog serial runningSha version ↔
    present runningSha = none ∧ ∃ v w, present version = some v ∧
      recorded flashlog serial "version" = some w ∧ v ≠ w := by
  unfold DiscardedForVersion recorded entryFor
  cases hentry : flashlog serial with
  | none => simp
  | some entry =>
    cases hr : present runningSha with
    | some running => simp
    | none =>
      cases hv : present version with
      | none => simp
      | some v => cases hs : recordedText entry "version" <;> simp [hs, @eq_comm _ v]

/-- The running sha against the recorded one, and the running version against the recorded one,
where both are there. -/
structure SpelledAlike (lower : Str → Str) (runningSha version recordedSha recordedVersion :
    Option Str) : Prop where
  /-- lowering keeps a beginning a beginning, as it does for hexadecimal digits -/
  begins : ∀ running sha, present runningSha = some running → recordedSha = some sha →
    sha.take running.length = running → sameCommit lower running sha
  /-- a running sha that is longer names another commit -/
  longer : ∀ running sha, present runningSha = some running → recordedSha = some sha →
    sha.length < running.length → sameCommit lower running sha = false
  /-- one that is not longer and names the same commit is in the same letter case -/
  letters : ∀ running sha, present runningSha = some running → recordedSha = some sha →
    running.length ≤ sha.length → sameCommit lower running sha → sha.take running.length = running
  /-- a version has no blanks around it, or is another one with and without them -/
  blanks : ∀ v w, present version = some v → recordedVersion = some w →
    present runningSha = none → strip v = v ∨ (v ≠ w ∧ strip v ≠ w)
  /-- a record without a sha, of a device that says one, has the version that runs -/
  shaless : ∀ v w, present version = some v → recordedVersion = some w →
    present runningSha ≠ none → recordedSha = none → strip v = w

theorem SpelledAlike.commit_iff (h : SpelledAlike lower runningSha version recordedSha
    recordedVersion) {running sha : Str} (hr : present runningSha = some running)
    (hs : recordedSha = some sha) : sameCommit lower running sha = true ↔ running <+: sha := by
  rw [List.prefix_iff_eq_take, eq_comm (a := running)]
  refine ⟨fun hsame => ?_, h.begins running sha hr hs⟩
  by_cases hle : running.length ≤ sha.length
  · exact h.letters running sha hr hs hle hsame
  · rw [h.longer running sha hr hs (by omega)] at hsame
    cases hsame

theorem SpelledAlike.of_commit_iff
    (hcommit : ∀ running sha, present runningSha = some running → recordedSha = some sha →
      (sameCommit lower running sha = true ↔ running <+: sha))
    (hblanks : ∀ v w, present version = some v → recordedVersion = some w →
      present runningSha = none → strip v = v ∨ (v ≠ w ∧ strip v ≠ w))
    (hshaless : ∀ v w, present version = some v → recordedVersion = some w →
      present runningSha ≠ none → recordedSha = none → strip v = w) :
    SpelledAlike lower runningSha version recordedSha recordedVersion where
  begins running sha hr hs htake :=
    (hcommit running sha hr hs).mpr (List.prefix_iff_eq_take.mpr htake.symm)
  longer running sha hr hs hlt := by
    rw [Bool.eq_false_iff]
    intro hsame
    have hle := ((hcommit running sha hr hs).mp hsame).length_le
    omega
  letters running sha hr hs _ hsame :=
    (List.prefix_iff_eq_take.mp ((hcommit running sha hr hs).mp hsame)).symm
  blanks := hblanks
  shaless := hshaless

/-- The record is discarded because of the sha, or of the version, exactly where the verdict
would call the two different, if and only if the two are spelled alike. -/
theorem entryFor_agrees_iff (lower : Str → Str) (flashlog : Str → Option Mapping) (serial : Str)
    (runningSha version : Option Str) :
    ((DiscardedForSha flashlog serial runningSha version ↔
        JudgesShaDifferent lower runningSha (recorded flashlog serial "fw_sha")) ∧
      (DiscardedForVersion flashlog serial runningSha version ↔
        JudgesVersionDifferent lower runningSha version (recorded flashlog serial "fw_sha")
          (recorded flashlog serial "version"))) ↔
      SpelledAlike lower runningSha version (recorded flashlog serial "fw_sha")
        (recorded flashlog serial "version") := by
  rw [discardedForSha_iff, judgesShaDifferent_iff, discardedForVersion_iff,
    judgesVersionDifferent_iff, present_recorded, present_recorded]
  generalize recorded flashlog serial "fw_sha" = recordedSha
  generalize recorded flashlog serial "version" = recordedVersion
  constructor
  · rintro ⟨hsha, hversion⟩
    refine .of_commit_iff ?_ ?_ ?_
    · intro running sha hr hs
      have hiff : ¬ running <+: sha ↔ sameCommit lower running sha = false := by
        simpa [hr, hs] using hsha
      rw [← Bool.not_eq_true] at hiff
      exact (not_iff_not.mp hiff).symm
    · intro v w hv hw hr
      have hiff : v ≠ w ↔ strip v ≠ w := by simpa [hr, hv, hw] using hversion
      by_cases heq : v = w
      · have hstrip : strip v = w := by
          by_contra hne
          exact hiff.mpr hne heq
        exact .inl (hstrip.trans heq.symm)
      · exact .inr ⟨heq, hiff.mp heq⟩
    · intro v w hv hw hr hs
      by_contra hne
      obtain ⟨hr', -⟩ := hversion.mpr ⟨.inr hs, v, w, hv, hw, hne⟩
      exact hr hr'
  · intro h
    constructor
    · constructor
      · rintro ⟨running, sha, hr, hs, hne⟩
        exact ⟨running, sha, hr, hs, by rwa [← Bool.not_eq_true, h.commit_iff hr hs]⟩
      · rintro ⟨running, sha, hr, hs, hne⟩
        exact ⟨running, sha, hr, hs, by rwa [← h.commit_iff hr hs, Bool.not_eq_true]⟩
    · constructor
      · rintro ⟨hr, v, w, hv, hw, hne⟩
        refine ⟨.inl hr, v, w, hv, hw, ?_⟩
        rcases h.blanks v w hv hw hr with hstrip | ⟨-, hne'⟩
        · rwa [hstrip]
        · exact hne'
      · rintro ⟨hno, v, w, hv, hw, hne⟩
        have hr : present runningSha = none := by
          by_contra hr
          exact hne (h.shaless v w hv hw hr (hno.resolve_left hr))
        refine ⟨hr, v, w, hv, hw, ?_⟩
        rcases h.blanks v w hv hw hr with hstrip | ⟨hne', -⟩
        · rwa [hstrip] at hne
        · exact hne'

/-- A record of seven digits, of a device that was built where git shortens to eight. -/
theorem shorter_record_discarded :
    ¬ (DiscardedForSha (fun _ => some [("fw_sha", .str "d34db33".toList)]) "knomi".toList
        (some "d34db335".toList) (some "0.4.0+3.gd34db335".toList) ↔
      JudgesShaDifferent (List.map Char.toLower) (some "d34db335".toList)
        (recorded (fun _ => some [("fw_sha", .str "d34db33".toList)]) "knomi".toList
          "fw_sha")) := by
  rw [discardedForSha_iff, judgesShaDifferent_iff, present_recorded]
  intro h
  obtain ⟨running, sha, hr, hs, hne⟩ := h.mp ⟨_, _, rfl, rfl, by decide⟩
  cases hr
  cases hs
  revert hne
  decide

end McuUpdater.Agent
