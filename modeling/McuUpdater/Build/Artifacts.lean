import McuUpdater.Lib.PyValue

/-! `artifacts.py`, with the `staged` of `build.py`, `providers/cmake.py` and `providers/pio.py`:
what a build left staged for a type, and what hash is reported for it. -/
namespace McuUpdater.Build
open PyText PyValue

inductive Kind
  | bin
  | uf2
  | pioEnv
  deriving DecidableEq

def Kind.key : Kind → String
  | .bin => "bin"
  | .uf2 => "uf2"
  | .pioEnv => "pio_env"

/-- A file on disk, with what a `stat` says of it. -/
structure File where
  content : Bytes
  mtime : PyFloat

/-- What one type's builder keeps on disk: a file for each kind, and the sidecar, which is
none where it is missing or holds no JSON object. -/
structure Stage where
  file : Kind → Option File := fun _ => none
  sidecar : Option Mapping := none

/-- The path of an artifact is the one of its kind. -/
structure Artifact where
  kind : Kind
  sha256 : Option Str := none

structure Staged where
  artifacts : List Artifact := []
  fwSha : PyVal := .none
  version : PyVal := .none

/-- `str(v)`, where `repr` spells what is not a string. -/
def text (repr : PyVal → Str) : PyVal → Str
  | .str s => s
  | v => repr v

/-- `{"sha256": sha}` -/
def hashEntry (sha : PyVal) : PyVal := .dict [(.str "sha256".toList, sha)]

/-- `sidecar_field` -/
def sidecarField (hashes : List (Kind × PyVal)) : PyVal :=
  .dict (hashes.map fun h => (.str h.1.key.toList, hashEntry h.2))

/-- `kind in recorded_kinds(side)` -/
def recordsKind (side : Mapping) (kind : Kind) : Bool :=
  ((side.get "artifacts").item kind.key).isSome

section Model
variable (sha256 : Bytes → Str) (repr : PyVal → Str)

def hashText (v : PyVal) : Option Str := if v.truthy then some (text repr v) else none

/-- `recorded_sha256` -/
def recordedSha256 (side : Mapping) (kind primary : Kind) : Option Str :=
  match ((side.get "artifacts").item kind.key).bind (PyVal.item "sha256") with
  | some sha =>
    if sha.truthy then some (text repr sha)
    else if kind = primary then hashText repr (side.get "bin_sha256") else none
  | none => if kind = primary then hashText repr (side.get "bin_sha256") else none

/-- `sha256_file` of the file of a kind -/
def Stage.sha256File (stage : Stage) (kind : Kind) : Option Str :=
  (stage.file kind).map fun f => sha256 f.content

/-- `_verified` -/
def verified (stage : Stage) (kind : Kind) (recorded : Option Str) : Option Str :=
  if recorded.isSome ∧ stage.sha256File sha256 kind = recorded then recorded else none

/-- The artifact of a file that is there and, where that is asked, listed. -/
def offered (stage : Stage) (kind : Kind) (listed : Bool) (recorded : Option Str) :
    List Artifact :=
  if listed ∧ (stage.file kind).isSome then
    [{ kind, sha256 := verified sha256 stage kind recorded }]
  else []

def untouched (record : Mapping) (file : File) : Bool :=
  (record.get "bin_size").eqInt file.content.length && (record.get "bin_mtime").eqFloat file.mtime

/-- `sidecar_describes_image`, and word for word `_is_our_image` -/
def describesImage (record : Mapping) (file : File) : Bool :=
  if untouched record file then true
  else if (record.get "bin_sha256").truthy then (record.get "bin_sha256").eqStr (sha256 file.content)
  else false

/-- `build.staged`; `head` is the tree's, for a sidecar without a sha. -/
def stagedKconfig (head : PyVal) (stage : Stage) : Staged :=
  let side := stage.sidecar.getD []
  { artifacts := offered sha256 stage .bin true (recordedSha256 repr side .bin .bin) ++
      offered sha256 stage .uf2 (recordsKind side .uf2) (recordedSha256 repr side .uf2 .bin)
    fwSha := if (side.get "fw_sha").truthy then side.get "fw_sha" else head
    version := side.get "version" }

/-- `cmake.read_record`: another provider's record is none. -/
def readRecord (stage : Stage) : Option Mapping :=
  stage.sidecar.filter fun record => (record.get "provider").eqStr "cmake".toList

/-- `cmake.staged` -/
def stagedCmake (stage : Stage) : Staged :=
  match stage.file .uf2 with
  | none => {}
  | some file =>
    let record := (readRecord stage).getD []
    let ours := !record.isEmpty && !(record.get "dirty").truthy && describesImage sha256 record file
    let side := if ours then record else []
    { artifacts := { kind := .uf2, sha256 := recordedSha256 repr side .uf2 .uf2 } ::
        offered sha256 stage .bin (recordsKind record .bin) (recordedSha256 repr side .bin .uf2)
      fwSha := side.get "sha"
      version := side.get "version" }

/-- `pio.staged`, of a type that has an env or has none -/
def stagedPio (configured : Bool) (stage : Stage) : Staged :=
  if configured then
    let record := stage.sidecar.getD []
    let ours := !record.isEmpty && (stage.file .pioEnv).any (describesImage sha256 record)
    let side := if ours then record else []
    { artifacts := [{ kind := .pioEnv, sha256 := recordedSha256 repr side .pioEnv .pioEnv }]
      fwSha := side.get "sha"
      version := side.get "version" }
  else {}

/-- A builder, with what its `staged` reads beside the stage. -/
inductive Builder
  | kconfig (head : PyVal)
  | cmake
  | pio (configured : Bool)

def staged : Builder → Stage → Staged
  | .kconfig head => stagedKconfig sha256 repr head
  | .cmake => stagedCmake sha256 repr
  | .pio configured => stagedPio sha256 repr configured

/-- A hash is reported only for bytes that hash to it. -/
def Staged.Honest (staged : Staged) (stage : Stage) : Prop :=
  ∀ a ∈ staged.artifacts, ∀ h, a.sha256 = some h → stage.sha256File sha256 a.kind = some h

/-- Where the size and the mtime are those recorded, the bytes are those recorded for the kind;
where only `bin_sha256` names them, the hash of the kind is the same one. -/
structure Vouches (record : Mapping) (kind : Kind) (file : File) : Prop where
  fast : untouched record file → ∀ h, recordedSha256 repr record kind kind = some h →
    sha256 file.content = h
  slow : untouched record file = false → record.get "bin_sha256" = .str (sha256 file.content) →
    sha256 file.content ≠ [] → ∀ h, recordedSha256 repr record kind kind = some h →
    record.get "bin_sha256" = .str h

/-- The sidecars for which a builder's reported hash is that of the bytes: for kconfig all. -/
def Vouched : Builder → Stage → Prop
  | .kconfig _, _ => True
  | .cmake, stage => ∀ record file, readRecord stage = some record → stage.file .uf2 = some file →
    (record.get "dirty").truthy = false → Vouches sha256 repr record .uf2 file
  | .pio configured, stage => configured → ∀ record file, stage.sidecar = some record →
    record ≠ [] → stage.file .pioEnv = some file → Vouches sha256 repr record .pioEnv file

end Model

theorem Kind.key_toList {kind kind' : Kind} :
    kind.key.toList = kind'.key.toList ↔ kind = kind' := by
  cases kind <;> cases kind' <;> decide

/-- A sidecar's `artifacts` has an entry for the kinds it was made of. -/
theorem item_sidecarField (hashes : List (Kind × PyVal)) (kind : Kind) :
    (sidecarField hashes).item kind.key =
      (hashes.find? fun h => h.1 = kind).map fun h => hashEntry h.2 := by
  induction hashes with
  | nil => rfl
  | cons h hashes ih =>
    simp only [sidecarField, PyVal.item, List.map_cons, List.find?_cons, PyVal.eqStr] at ih ⊢
    by_cases hkind : h.1 = kind
    · simp [hkind]
    · have hne : (h.1.key.toList == kind.key.toList) = false := by
        simpa [Kind.key_toList] using hkind
      rw [hne]
      simpa [hkind] using ih

@[simp] theorem item_hashEntry (sha : PyVal) : (hashEntry sha).item "sha256" = some sha := by
  simp [hashEntry, PyVal.item, PyVal.eqStr]

variable {sha256 : Bytes → Str} {repr : PyVal → Str} {stage : Stage} {record : Mapping}
  {kind : Kind} {file : File} {h : Str}

theorem verified_ok {recorded : Option Str} (hv : verified sha256 stage kind recorded = some h) :
    stage.sha256File sha256 kind = some h := by
  unfold verified at hv
  split_ifs at hv with hmatch
  rw [hmatch.2, hv]

theorem offered_honest {listed : Bool} {recorded : Option Str} {a : Artifact}
    (ha : a ∈ offered sha256 stage kind listed recorded) (hsha : a.sha256 = some h) :
    stage.sha256File sha256 a.kind = some h := by
  unfold offered at ha
  split_ifs at ha
  · obtain rfl := List.mem_singleton.mp ha
    exact verified_ok hsha
  · cases ha

theorem recordedSha256_nil (kind primary : Kind) : recordedSha256 repr [] kind primary = none := by
  simp [recordedSha256, PyVal.item, hashText]

theorem vouches_iff : Vouches sha256 repr record kind file ↔
    (describesImage sha256 record file → ∀ h, recordedSha256 repr record kind kind = some h →
      sha256 file.content = h) := by
  constructor
  · intro hv hdescribes h hrecorded
    cases hfast : untouched record file with
    | true => exact hv.fast hfast h hrecorded
    | false =>
      unfold describesImage at hdescribes
      rw [hfast] at hdescribes
      by_cases htruthy : (record.get "bin_sha256").truthy
      · have hbin : record.get "bin_sha256" = .str (sha256 file.content) := by
          simpa [htruthy] using hdescribes
        have hne : sha256 file.content ≠ [] := by
          intro hnil
          rw [hbin, hnil] at htruthy
          cases htruthy
        have hsame := hv.slow hfast hbin hne h hrecorded
        rw [hbin] at hsame
        cases hsame
        rfl
      · simp [htruthy] at hdescribes
  · intro htrue
    refine ⟨fun hfast h hrecorded => htrue (by simp [describesImage, hfast]) h hrecorded, ?_⟩
    intro hfast hbin hne h hrecorded
    have htruthy : (record.get "bin_sha256").truthy := by
      rw [hbin]
      cases hc : sha256 file.content with
      | nil => exact absurd hc hne
      | cons c s => rfl
    have hdescribes : describesImage sha256 record file := by
      rw [describesImage, hfast, if_neg Bool.false_ne_true, if_pos htruthy, hbin]
      simp
    rw [hbin, htrue hdescribes h hrecorded]

theorem stagedKconfig_honest (head : PyVal) (stage : Stage) :
    (stagedKconfig sha256 repr head stage).Honest sha256 stage := by
  intro a ha h hsha
  rcases List.mem_append.mp ha with ha | ha
  · exact offered_honest ha hsha
  · exact offered_honest ha hsha

theorem recorded_ours {ours : Bool}
    (hrecorded : recordedSha256 repr (if ours then record else []) kind kind = some h) :
    ours = true ∧ recordedSha256 repr record kind kind = some h := by
  cases ours with
  | true => exact ⟨rfl, hrecorded⟩
  | false =>
    rw [if_neg Bool.false_ne_true, recordedSha256_nil] at hrecorded
    cases hrecorded

theorem stagedCmake_honest_iff : (stagedCmake sha256 repr stage).Honest sha256 stage ↔
    Vouched sha256 repr .cmake stage := by
  simp only [Vouched, vouches_iff]
  unfold stagedCmake
  cases hfile : stage.file .uf2 with
  | none => simp [Staged.Honest]
  | some file =>
    constructor
    · intro hhonest record file' hrecord hfile' hclean hdescribes h hrecorded
      cases hfile'
      have hne : record ≠ [] := by
        rintro rfl
        simp [readRecord, Mapping.get, PyVal.eqStr] at hrecord
      have huf2 := hhonest _ List.mem_cons_self h (by
        simp [hrecord, hclean, hdescribes, hne, hrecorded])
      rw [Stage.sha256File, hfile] at huf2
      simpa using huf2
    · intro hvouches a ha h hsha
      rcases List.mem_cons.mp ha with rfl | ha
      · obtain ⟨hours, hrecorded⟩ := recorded_ours hsha
        simp only [Bool.and_eq_true, Bool.not_eq_true'] at hours
        obtain ⟨⟨hne, hclean⟩, hdescribes⟩ := hours
        cases hrecord : readRecord stage with
        | none => simp [hrecord] at hne
        | some record =>
          simp only [hrecord, Option.getD_some] at hclean hdescribes hrecorded
          rw [Stage.sha256File, hfile]
          exact congrArg some (hvouches record file hrecord rfl hclean hdescribes h hrecorded)
      · exact offered_honest ha hsha

theorem stagedPio_honest_iff {configured : Bool} :
    (stagedPio sha256 repr configured stage).Honest sha256 stage ↔
      Vouched sha256 repr (.pio configured) stage := by
  simp only [Vouched, vouches_iff]
  unfold stagedPio
  cases configured with
  | false => simp [Staged.Honest]
  | true =>
    constructor
    · intro hhonest _ record file hrecord hne hfile hdescribes h hrecorded
      have himage := hhonest _ List.mem_cons_self h (by
        simp [hrecord, hne, hfile, hdescribes, hrecorded])
      rw [Stage.sha256File, hfile] at himage
      simpa using himage
    · intro hvouches a ha h hsha
      obtain rfl := List.mem_singleton.mp ha
      obtain ⟨hours, hrecorded⟩ := recorded_ours hsha
      simp only [Bool.and_eq_true, Bool.not_eq_true'] at hours
      obtain ⟨hne, hdescribes⟩ := hours
      cases hfile : stage.file .pioEnv with
      | none => simp [hfile] at hdescribes
      | some file =>
        cases hrecord : stage.sidecar with
        | none => simp [hrecord] at hne
        | some record =>
          simp only [hrecord, hfile, Option.getD_some, Option.any_some] at hne hdescribes hrecorded
          rw [Stage.sha256File, hfile]
          exact congrArg some
            (hvouches rfl record file hrecord (by simpa using hne) hfile hdescribes h hrecorded)

/-- A reported hash is that of the bytes, for every builder, file and sidecar that vouches. -/
theorem staged_honest_iff (sha256 : Bytes → Str) (repr : PyVal → Str) (builder : Builder)
    (stage : Stage) : (staged sha256 repr builder stage).Honest sha256 stage ↔
      Vouched sha256 repr builder stage := by
  cases builder with
  | kconfig head => exact iff_of_true (stagedKconfig_honest head stage) trivial
  | cmake => exact stagedCmake_honest_iff
  | pio configured => exact stagedPio_honest_iff

/-- A stand-in for the hash: never empty, and not the same for any two contents. -/
def spelled (content : Bytes) : Str := 'h' :: content.map Char.ofUInt8

/-- Other bytes in the staged file's place, its size and mtime kept. -/
def replaced : Stage where
  file kind := if kind = .uf2 then some ⟨[2], .finite 5 0⟩ else none
  sidecar := some [("provider", .str "cmake".toList), ("bin_size", .int 1),
    ("bin_mtime", .float (.finite 5 0)), ("bin_sha256", .str (spelled [1]))]

/-- The sidecar of the build before still vouches for them. -/
theorem replaced_dishonest : ¬ (staged spelled (fun _ => []) .cmake replaced).Honest spelled
    replaced := by
  intro hhonest
  have hsha := hhonest _ List.mem_cons_self (spelled [1]) (by decide)
  revert hsha
  decide

end McuUpdater.Build
