import McuUpdater.Lib.Except
import McuUpdater.Build.Artifacts

/-! `build.py`, `providers/cmake.py` and `providers/pio.py`: `build` of the three builders, as
what it does to the stage of one type, and `artifact_status`. What the world answers a build (the
exit of each command, the tree it reads) is given to it. -/
namespace McuUpdater.Build
open PyText PyValue

/-- The exceptions of a build; `raised` is any other, of what a build calls. -/
inductive BuildFault
  | cancelled
  | sourceTreeMissing
  | configNotFound
  | submodulesFailed (returncode : Int)
  | configureFailed (returncode : Int)
  | buildFailed (returncode : Int)
  | cleanupFailed (returncode : Int)
  | targetNotDeclared
  | nothingProduced
  | raised (text : String)

structure Command where
  rehearsal : Option BuildFault := none
  run : Except BuildFault Int := .ok 0

/-- `run_streamed` -/
def Command.streamed (dryRun : Bool) (c : Command) : Except BuildFault Int :=
  if dryRun then
    match c.rehearsal with
    | some e => .error e
    | none => .ok 0
  else c.run

/-- A command whose exit code must be 0. -/
def Command.demand (dryRun : Bool) (failed : Int → BuildFault) (c : Command) : Except BuildFault Unit := do
  let rc ← c.streamed dryRun
  if rc ≠ 0 then .error (failed rc) else .ok ()

def raises : Option BuildFault → Except BuildFault Unit
  | some e => .error e
  | none => .ok ()

def Stage.put (stage : Stage) (kind : Kind) (file : Option File) : Stage :=
  { stage with file := fun k => if k = kind then file else stage.file k }

def textOrNone : Option Str → PyVal
  | some s => .str s
  | none => .none

section Model
variable (sha256 : Bytes → Str) (dryRun : Bool)

/-! `build.build` -/

/-- The rest of `BuildResult.to_sidecar`. -/
structure BuildInfo where
  fwSha : Option Str
  duration : PyFloat
  timestamp : PyFloat
  appAddress : Option Int
  version : Option Str
  extraRepoShas : List (Str × Option Str)

structure KconfigRun where
  sourceDir : Bool
  savedConfig : Bool
  reseed : Option BuildFault
  patching : Option BuildFault
  unpatching : Option BuildFault
  clean : Option Command
  make : Command
  cleanup : Command
  configBefore : Option Str
  configAfter : Option Str
  compiledBin : Option File
  compiledUf2 : Option File
  stubMtime : PyFloat
  info : BuildInfo
  sidecarWritable : Bool

structure BuildResult where
  binPath : Bool
  uf2Path : Bool
  binSha256 : Option Str
  uf2Sha256 : Option Str
  configSha256 : Option Str
  configRewritten : Bool

/-- `BuildResult.to_sidecar` -/
def BuildResult.toSidecar (result : BuildResult) (info : BuildInfo) : Mapping :=
  let hashes :=
    (if result.binPath then [(Kind.bin, textOrNone result.binSha256)] else []) ++
      if result.uf2Path then [(Kind.uf2, textOrNone result.uf2Sha256)] else []
  [("fw_sha", textOrNone info.fwSha), ("config_sha256", textOrNone result.configSha256),
    ("bin_sha256", textOrNone result.binSha256), ("artifacts", sidecarField hashes),
    ("duration", .float info.duration), ("timestamp", .float info.timestamp),
    ("config_rewritten", .bool result.configRewritten),
    ("app_address", match info.appAddress with | some n => .int n | none => .none),
    ("version", textOrNone info.version),
    ("extra_repo_shas", .dict (info.extraRepoShas.map fun r => (.str r.1, textOrNone r.2)))]

theorem BuildResult.toSidecar_bin (result : BuildResult) (info : BuildInfo) :
    (result.toSidecar info).get "bin_sha256" = textOrNone result.binSha256 := rfl

theorem BuildResult.toSidecar_artifacts (result : BuildResult) (info : BuildInfo) :
    (result.toSidecar info).get "artifacts" = sidecarField
      ((if result.binPath then [(Kind.bin, textOrNone result.binSha256)] else []) ++
        if result.uf2Path then [(Kind.uf2, textOrNone result.uf2Sha256)] else []) := rfl

/-- The inert file of a rehearsal: `b"\0" * 1024`. -/
def stub : Bytes := List.replicate 1024 0

/-- The files a kconfig build leaves: on a rehearsal a stub in place of the `.bin`, else what
was compiled, an earlier file of a kind that was not being removed. -/
def stageKconfig (run : KconfigRun) (stage : Stage) : Except BuildFault (Stage × Bool × Bool) :=
  if dryRun then
    .ok (stage.put .bin (some { content := stub, mtime := run.stubMtime }), true, false)
  else if run.compiledBin.isNone && run.compiledUf2.isNone then
    .error .nothingProduced
  else .ok ((stage.put .bin run.compiledBin).put .uf2 run.compiledUf2, run.compiledBin.isSome,
    run.compiledUf2.isSome)

/-- The body of `build` between the patches and the cleanup, once `make` has exited. -/
def finishKconfig (run : KconfigRun) (rc : Int) (stage : Stage) :
    Stage × Except BuildFault BuildResult :=
  if rc ≠ 0 then (stage, .error (.buildFailed rc))
  else
    match stageKconfig dryRun run stage with
    | .error e => (stage, .error e)
    | .ok (staged, bin, uf2) =>
      let result : BuildResult := {
        binPath := bin
        uf2Path := uf2
        binSha256 := if bin then staged.sha256File sha256 .bin else none
        uf2Sha256 := if uf2 then staged.sha256File sha256 .uf2 else none
        configSha256 := run.configAfter
        configRewritten := run.configBefore.isSome && run.configAfter.isSome &&
          run.configBefore != run.configAfter }
      -- a sidecar that cannot be written is only warned of
      let sidecar := if run.sidecarWritable then some (result.toSidecar run.info) else staged.sidecar
      ({ staged with sidecar }, .ok result)

/-- The compile of a kconfig build, inside `makefile_patches`; what the first `make clean` exits
with is not asked. -/
def compileKconfig (run : KconfigRun) : Except BuildFault Int := do
  raises run.patching
  let _ ← (run.clean.getD {}).streamed dryRun
  let rc ← run.make.streamed dryRun
  raises run.unpatching
  return rc

/-- `_clean_source_tree_after_build` on the way out: its own failure is raised only where the
build had none. -/
def cleanedUp (run : KconfigRun) (result : Except BuildFault BuildResult) : Except BuildFault BuildResult :=
  match result, run.cleanup.demand dryRun .cleanupFailed with
  | .ok _, .error e => .error e
  | result, _ => result

/-- `build.build` -/
def buildKconfig (run : KconfigRun) (stage : Stage) : Stage × Except BuildFault BuildResult :=
  if !run.sourceDir then (stage, .error .sourceTreeMissing)
  else if !run.savedConfig then (stage, .error .configNotFound)
  else
    match run.reseed with
    | some e => (stage, .error e)
    | none =>
      match compileKconfig dryRun run with
      | .error e => (stage, cleanedUp dryRun run (.error e))
      | .ok rc =>
        let (staged, result) := finishKconfig sha256 dryRun run rc stage
        (staged, cleanedUp dryRun run result)

/-! `cmake.build` -/

/-- What git answers about a tree; a command that fails or takes too long answers nothing. -/
structure GitAnswers where
  isDir : Bool := true
  log : Option Str := none
  status : Option Str := none
  describe : Option Str := none

structure SourceState where
  sha : Option Str := none
  dirty : Bool := false
  version : Option Str := none
  deriving DecidableEq

def nonEmpty : Option Str → Option Str
  | some (c :: s) => some (c :: s)
  | _ => none

/-- `cmake.source_state` -/
def sourceState (git : GitAnswers) : SourceState :=
  if !git.isDir then {}
  else
    match nonEmpty git.log with
    | none => {}
    | some sha =>
      -- `bool(_git(...))`: no answer counts as no changes
      let dirty := (nonEmpty git.status).isSome
      let described := (nonEmpty git.describe).getD "dev".toList
      { sha := some sha, dirty, version := if dirty then described ++ "-dirty".toList else described }

structure DigestFields where
  digestAlgorithm : Int
  digest : Int
  imageStart : Int
  imageLength : Int

def DigestFields.fields (d : DigestFields) : Mapping :=
  [("digest_algorithm", .int d.digestAlgorithm), ("digest", .int d.digest),
    ("image_start", .int d.imageStart), ("image_length", .int d.imageLength)]

/-- The record of `cmake.record_build`, of the files that are staged. -/
def cmakeRecord (target : Str) (state : SourceState) (time : PyFloat) (uf2 : File)
    (bin : Option File) (digest : Option DigestFields) : Mapping :=
  [("provider", .str "cmake".toList), ("sha", textOrNone state.sha),
    ("version", textOrNone state.version), ("dirty", .bool state.dirty),
    ("cmake_target", .str target), ("at", .float time),
    ("bin_sha256", .str (sha256 uf2.content)), ("bin_size", .int uf2.content.length),
    ("bin_mtime", .float uf2.mtime),
    ("artifacts", sidecarField ((.uf2, .str (sha256 uf2.content)) ::
      match bin with
      | some file => [(.bin, .str (sha256 file.content))]
      | none => []))] ++
    (match digest with | some d => d.fields | none => [])

/-- `sha` and `dirty` as they are after `make`, `version` as it was before, and dirty where the
tree was unclean at either end or moved in between. -/
def builtState (before after : SourceState) : SourceState :=
  { after with
    version := before.version
    dirty := before.dirty || after.dirty || after.sha != before.sha }

structure CmakeRun where
  target : Str
  submodules : Option Command
  before : GitAnswers
  /-- the expanded `cmake_args` -/
  args : Except BuildFault (List Str)
  needsConfigure : Bool
  configure : Command
  make : Command
  declared : Option (List Str)
  produced : Option File
  producedBin : Option File
  after : GitAnswers
  digest : Option DigestFields
  time : PyFloat

/-- `cmake.build` up to the end of `make`. -/
def compileCmake (run : CmakeRun) : Except BuildFault Unit := do
  match run.submodules with
  | some update => update.demand dryRun .submodulesFailed
  | none => .ok ()
  let args ← run.args
  if run.needsConfigure || !args.isEmpty then run.configure.demand dryRun .configureFailed
  else .ok ()
  run.make.demand dryRun .buildFailed

/-- The two images of a link are staged, and an older `.bin` is removed. -/
def stageCmake (run : CmakeRun) (stage : Stage) : Except BuildFault (Stage × File) :=
  if run.declared.any fun known => !known.contains run.target then
    .error .targetNotDeclared
  else
    match run.produced with
    | none => .error .nothingProduced
    | some uf2 => .ok ((stage.put .uf2 (some uf2)).put .bin run.producedBin, uf2)

/-- `cmake.build` -/
def buildCmake (run : CmakeRun) (stage : Stage) : Stage × Except BuildFault Unit :=
  match compileCmake dryRun run with
  | .error e => (stage, .error e)
  | .ok () =>
    if dryRun then (stage, .ok ())
    else
      match stageCmake run stage with
      | .error e => (stage, .error e)
      | .ok (staged, uf2) =>
        let state := builtState (sourceState run.before) (sourceState run.after)
        let record := cmakeRecord sha256 run.target state run.time uf2 run.producedBin run.digest
        ({ staged with sidecar := some record }, .ok ())

/-! `pio.build` -/

/-- `pio.SourceState` -/
structure PioState where
  head : Option Str
  version : Option Str
  dirty : Bool

/-- What the world answers a PlatformIO build; `built` is what `pio run` leaves as the image. -/
structure PioRun where
  source : Option BuildFault
  pio : Option BuildFault
  command : Command
  built : Option File
  state : PioState
  time : PyFloat

/-- `pio.record_build` -/
def recordPio (run : PioRun) (stage : Stage) : Stage :=
  match stage.file .pioEnv with
  | none => stage
  | some file =>
    let record : Mapping := [("sha", textOrNone run.state.head),
      ("version", textOrNone run.state.version), ("dirty", .bool run.state.dirty),
      ("at", .float run.time), ("bin_sha256", .str (sha256 file.content)),
      ("bin_size", .int file.content.length), ("bin_mtime", .float file.mtime),
      ("artifacts", sidecarField [(.pioEnv, .str (sha256 file.content))])]
    { stage with sidecar := some record }

/-- `pio.build`. A command that is run leaves its image whatever it exits with. -/
def buildPio (run : PioRun) (stage : Stage) : Stage × Except BuildFault Unit :=
  match run.source, run.pio with
  | some e, _ => (stage, .error e)
  | none, some e => (stage, .error e)
  | none, none =>
    let left := if dryRun then stage else stage.put .pioEnv run.built
    match run.command.demand dryRun .buildFailed with
    | .error e => (left, .error e)
    | .ok () => (if dryRun then left else recordPio sha256 run left, .ok ())

/-! `artifact_status` of the three builders. -/

/-- The reasons of an `ArtifactStatus`. -/
inductive ArtifactReason
  | neverBuilt
  | configChanged
  | sourceChanged
  | builtDirty
  | foreignBuild
  | noProvenance
  deriving DecidableEq

/-- `recorded and sha256_file(path) != recorded` -/
def accuses (stage : Stage) (kind : Kind) (recorded : Option Str) : Bool :=
  recorded.isSome && stage.sha256File sha256 kind != recorded

/-- What a kconfig status is asked against: the saved config's hash, the head of the tree, and
those of the extra trees. -/
structure KconfigNow where
  configSha : Option Str
  head : Option Str
  extraRepos : List (Str × Option Str)

/-- `head and side.get(key) and head != side[key]` -/
def moved (now : Option Str) (recorded : PyVal) : Bool :=
  (nonEmpty now).isSome && recorded.truthy && !(now.any recorded.eqStr)

/-- `build.artifact_status`; no reason means current. -/
def kconfigStatus (repr : PyVal → Str) (now : KconfigNow) (stage : Stage) :
    Option ArtifactReason :=
  if (stage.file .bin).isNone && (stage.file .uf2).isNone then some .neverBuilt
  else
    match stage.sidecar with
    | none => some .noProvenance
    | some side =>
      if (side.get "bin_sha256").truthy &&
          !((stage.sha256File sha256 .bin).any (side.get "bin_sha256").eqStr) then
        some .foreignBuild
      else if (stage.file .uf2).isSome &&
          accuses sha256 stage .uf2 (recordedSha256 repr side .uf2 .bin) then some .foreignBuild
      else if moved now.configSha (side.get "config_sha256") then some .configChanged
      else if moved now.head (side.get "fw_sha") then some .sourceChanged
      else if now.extraRepos.any fun repo =>
          moved repo.2 (((side.get "extra_repo_shas").item (String.ofList repo.1)).getD .none) then
        some .sourceChanged
      else none

/-- `cmake.artifact_status` -/
def cmakeStatus (repr : PyVal → Str) (target : Str) (now : SourceState) (stage : Stage) :
    Option ArtifactReason :=
  match stage.file .uf2 with
  | none => some .neverBuilt
  | some file =>
    match readRecord stage with
    | none => some .noProvenance
    | some record =>
      if !describesImage sha256 record file then
        if (record.get "bin_sha256").truthy then some .foreignBuild else some .noProvenance
      else if (stage.file .bin).isSome &&
          accuses sha256 stage .bin (recordedSha256 repr record .bin .uf2) then some .foreignBuild
      else if (record.get "dirty").truthy then some .builtDirty
      else if !(record.get "cmake_target").eqStr target then some .configChanged
      else
        match now.sha with
        | none => some .noProvenance
        | some head =>
          if !(record.get "sha").truthy || head.isEmpty then some .noProvenance
          else if (record.get "sha").eqStr head then none
          else some .sourceChanged

/-- `built[:size].lower() == head[:size].lower()` over the shorter of the two. -/
def sameShort (lower : Str → Str) (built head : Str) : Bool :=
  lower (built.take (min built.length head.length)) ==
    lower (head.take (min built.length head.length))

/-- `pio.artifact_status` -/
def pioStatus (lower : Str → Str) (head : Option Str) (stage : Stage) : Option ArtifactReason :=
  match stage.file .pioEnv with
  | none => some .neverBuilt
  | some file =>
    match stage.sidecar with
    | none => some .noProvenance
    | some record =>
      if !describesImage sha256 record file then some .noProvenance
      else if (record.get "dirty").truthy then some .builtDirty
      else
        match record.get "sha", nonEmpty head with
        -- a recorded sha is a string
        | .str (c :: built), some head =>
          if sameShort lower (c :: built) head then none else some .sourceChanged
        | _, _ => some .noProvenance

end Model

/-! A rehearsal. -/

variable {sha256 : Bytes → Str} {stage : Stage}

@[simp] theorem Stage.put_self (kind : Kind) (file : Option File) :
    (stage.put kind file).file kind = file := by
  simp [Stage.put]

@[simp] theorem Stage.put_of_ne {kind kind' : Kind} (file : Option File) (h : kind' ≠ kind) :
    (stage.put kind file).file kind' = stage.file kind' := by
  simp [Stage.put, h]

theorem buildCmake_rehearsed (run : CmakeRun) : (buildCmake sha256 true run stage).1 = stage := by
  unfold buildCmake
  split <;> rfl

theorem buildPio_rehearsed (run : PioRun) : (buildPio sha256 true run stage).1 = stage := by
  unfold buildPio
  split
  · rfl
  · rfl
  · rw [if_pos rfl]
    dsimp only
    split <;> rfl

/-- The staged bytes and the sidecar are as they were. -/
structure Kept (before after : Stage) : Prop where
  bytes : ∀ kind, (after.file kind).map File.content = (before.file kind).map File.content
  sidecar : after.sidecar = before.sidecar

/-- Nothing raises in a rehearsal before its stub is written. -/
structure KconfigRun.PastMake (run : KconfigRun) : Prop where
  sourceDir : run.sourceDir = true
  savedConfig : run.savedConfig = true
  reseed : run.reseed = none
  patching : run.patching = none
  clean : (run.clean.getD {}).rehearsal = none
  make : run.make.rehearsal = none
  unpatching : run.unpatching = none

/-- The sidecar that a rehearsal writes beside its stub. -/
def KconfigRun.stubSidecar (sha256 : Bytes → Str) (run : KconfigRun) : Mapping :=
  let result : BuildResult := {
    binPath := true
    uf2Path := false
    binSha256 := some (sha256 stub)
    uf2Sha256 := none
    configSha256 := run.configAfter
    configRewritten := run.configBefore.isSome && run.configAfter.isSome &&
      run.configBefore != run.configAfter }
  result.toSidecar run.info

/-- The stub is staged already, with what would be written beside it. -/
def AlreadyStub (sha256 : Bytes → Str) (run : KconfigRun) (stage : Stage) : Prop :=
  (stage.file .bin).map File.content = some stub ∧
    (run.sidecarWritable = true → stage.sidecar = some (run.stubSidecar sha256))

theorem Kept.sha256File {before after : Stage} (h : Kept before after) (kind : Kind) :
    after.sha256File sha256 kind = before.sha256File sha256 kind := by
  have hfile (stage : Stage) : stage.sha256File sha256 kind =
      ((stage.file kind).map File.content).map sha256 := by
    rw [Option.map_map]
    rfl
  rw [hfile, hfile, h.bytes]

theorem Kept.isSome {before after : Stage} (h : Kept before after) (kind : Kind) :
    (after.file kind).isSome = (before.file kind).isSome := by
  rw [← Option.isSome_map (f := File.content), h.bytes, Option.isSome_map]

theorem Kept.offered {before after : Stage} (h : Kept before after) (kind : Kind) (listed : Bool)
    (recorded : Option Str) :
    offered sha256 after kind listed recorded = offered sha256 before kind listed recorded := by
  unfold Build.offered verified
  rw [h.isSome, h.sha256File]

theorem Kept.kconfig {before after : Stage} (h : Kept before after) (repr : PyVal → Str)
    (head : PyVal) (now : KconfigNow) :
    staged sha256 repr (.kconfig head) after = staged sha256 repr (.kconfig head) before ∧
      kconfigStatus sha256 repr now after = kconfigStatus sha256 repr now before := by
  constructor
  · simp only [staged, stagedKconfig, h.sidecar, h.offered]
  · have hnone (kind : Kind) : (after.file kind).isNone = (before.file kind).isNone := by
      rw [← Option.not_isSome, h.isSome, Option.not_isSome]
    simp only [kconfigStatus, accuses, h.sidecar, h.sha256File, h.isSome, hnone]
    rfl

theorem finishKconfig_rehearsed (run : KconfigRun) :
    (finishKconfig sha256 true run 0 stage).1 =
      { stage.put .bin (some { content := stub, mtime := run.stubMtime }) with
        sidecar := if run.sidecarWritable then some (run.stubSidecar sha256) else stage.sidecar } := by
  unfold finishKconfig stageKconfig
  simp [Stage.sha256File, KconfigRun.stubSidecar, Stage.put]

theorem streamed_rehearsed {c : Command} (h : c.rehearsal = none) : c.streamed true = .ok 0 := by
  unfold Command.streamed
  rw [if_pos rfl, h]

theorem rehearsal_of_streamed {c : Command} {rc : Int} (h : c.streamed true = .ok rc) :
    c.rehearsal = none := by
  cases hr : c.rehearsal with
  | none => rfl
  | some e =>
    rw [Command.streamed, if_pos rfl, hr] at h
    cases h

theorem raises_ok {e : Option BuildFault} (h : raises e = .ok ()) : e = none := by
  cases e with
  | none => rfl
  | some e => cases h

/-- Past `make` the stub is left; short of it nothing is. -/
theorem buildKconfig_rehearsed (run : KconfigRun) :
    run.PastMake ∧ (buildKconfig sha256 true run stage).1 = (finishKconfig sha256 true run 0 stage).1 ∨
      ¬run.PastMake ∧ (buildKconfig sha256 true run stage).1 = stage := by
  by_cases hpast : run.PastMake
  · refine .inl ⟨hpast, ?_⟩
    have hcompiled : compileKconfig true run = .ok 0 := by
      rw [compileKconfig, hpast.patching, hpast.unpatching, streamed_rehearsed hpast.clean,
        streamed_rehearsed hpast.make]
      rfl
    simp [buildKconfig, hpast.sourceDir, hpast.savedConfig, hpast.reseed, hcompiled]
  · refine .inr ⟨hpast, ?_⟩
    unfold buildKconfig
    split_ifs with hdir hconfig
    · rfl
    · rfl
    · split
      · rfl
      next hreseed =>
        split
        · rfl
        next rc hrc =>
          obtain ⟨_, hpatching, hrc⟩ := ExceptList.bind_ok hrc
          obtain ⟨_, hclean, hrc⟩ := ExceptList.bind_ok hrc
          obtain ⟨_, hmake, hrc⟩ := ExceptList.bind_ok hrc
          obtain ⟨_, hunpatching, -⟩ := ExceptList.bind_ok hrc
          exact absurd ⟨by simpa using hdir, by simpa using hconfig, hreseed, raises_ok hpatching,
            rehearsal_of_streamed hclean, rehearsal_of_streamed hmake, raises_ok hunpatching⟩ hpast

theorem kept_stub_iff (run : KconfigRun) :
    Kept stage (finishKconfig sha256 true run 0 stage).1 ↔ AlreadyStub sha256 run stage := by
  rw [finishKconfig_rehearsed]
  constructor
  · rintro ⟨hbytes, hsidecar⟩
    refine ⟨(by simpa using hbytes .bin : _ = _).symm, fun hwritable => ?_⟩
    rw [← hsidecar, hwritable, if_pos rfl]
  · rintro ⟨hbytes, hsidecar⟩
    refine ⟨fun kind => ?_, ?_⟩
    · by_cases hkind : kind = .bin
      · subst hkind
        simpa using hbytes.symm
      · simp [hkind]
    · dsimp only
      split_ifs with hwritable
      · exact (hsidecar hwritable).symm
      · rfl

/-- A type that has been built, and a rehearsal of the next build of it. -/
def compiled : Stage where
  file kind := if kind = .bin then some ⟨[1, 2, 3], .finite 5 0⟩ else none

def rehearsal : KconfigRun where
  sourceDir := true
  savedConfig := true
  reseed := none
  patching := none
  unpatching := none
  clean := some {}
  make := {}
  cleanup := {}
  configBefore := none
  configAfter := none
  compiledBin := none
  compiledUf2 := none
  stubMtime := .finite 6 0
  info := { fwSha := none, duration := .finite 0 0, timestamp := .finite 6 0, appAddress := none
            version := none, extraRepoShas := [] }
  sidecarWritable := true

end McuUpdater.Build
