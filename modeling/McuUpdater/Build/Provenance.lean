import McuUpdater.Lib.Transition
import McuUpdater.Build.Builds

/-! `providers/cmake.py`: builds of one type in a tree that others edit meanwhile, and what its
`artifact_status` says of the image that is staged. -/
namespace McuUpdater.Build.Provenance
open PyText PyValue Transition

/-- The source subtree: its last commit, and whether it has uncommitted changes. -/
structure Tree where
  sha : Option Str
  dirty : Bool
  deriving DecidableEq

/-- Which git commands answer a sample of the tree. -/
structure Answers where
  log : Bool := true
  status : Bool := true
  describe : Option Str := none

/-- A changed tree's status has a line for each change. -/
def Tree.answers (t : Tree) (git : Answers) : GitAnswers where
  log := if git.log then t.sha else none
  status := if git.status then some (if t.dirty then ['M'] else []) else none
  describe := git.describe

def Tree.clean (t : Tree) (sha : Str) : Prop := t.sha = some sha ∧ t.dirty = false

/-- A build that began: what it sampled first, and the trees it met since. -/
structure Attempt where
  target : Str
  before : SourceState
  began : Tree
  moved : List Tree := []

/-- How far a build has come. `uf2` and `bin` are the images its link made. -/
inductive Phase
  | idle
  | compiling (a : Attempt)
  | linked (a : Attempt) (uf2 : File)
  | copied (a : Attempt) (uf2 : File) (bin : Option File)
  | sampled (a : Attempt) (built : SourceState) (uf2 : File) (bin : Option File)

/-- What the build behind the record on disk really was; no field of the source. -/
structure Facts where
  target : Str
  began : Tree
  moved : List Tree
  uf2 : Bytes
  bin : Option Bytes

structure World where
  tree : Tree
  target : Str
  stage : Stage
  phase : Phase := .idle
  recorded : Option Facts := none

inductive Step
  /-- an edit, a commit, a checkout, a submodule update -/
  | tree (t : Tree)
  | retarget (target : Str)
  /-- somebody else writes or removes a staged file -/
  | replace (kind : Kind) (file : Option File)
  /-- the first sample -/
  | begin (git : Answers)
  /-- `make` has linked, and its image is staged -/
  | stageUf2 (file : File)
  | stageBin (file : Option File)
  /-- the second sample -/
  | sample (git : Answers)
  | record (time : PyFloat) (digest : Option DigestFields)
  /-- the build raises, or its process dies -/
  | fail

def Attempt.moves (a : Attempt) (t : Tree) : Attempt := { a with moved := a.moved ++ [t] }

def Phase.moves (t : Tree) : Phase → Phase
  | .compiling a => .compiling (a.moves t)
  | .linked a uf2 => .linked (a.moves t) uf2
  | .copied a uf2 bin => .copied (a.moves t) uf2 bin
  | phase => phase

/-- The build that has not sampled the tree for the second time. -/
def Phase.between : Phase → Option Attempt
  | .compiling a | .linked a _ | .copied a _ _ => some a
  | _ => none

/-- No image of a running build is staged. -/
def Phase.unstaged : Phase → Prop
  | .idle | .compiling _ => True
  | _ => False

def Attempt.facts (a : Attempt) (uf2 : File) (bin : Option File) : Facts where
  target := a.target
  began := a.began
  moved := a.moved
  uf2 := uf2.content
  bin := bin.map File.content

/-- The record is written, and the build is over. -/
def World.filed (w : World) (record : Mapping) (facts : Facts) : World :=
  { w with phase := .idle, stage := { w.stage with sidecar := some record }, recorded := some facts }

section Model
variable (sha256 : Bytes → Str)

def step (w : World) : Step → Option World
  | .tree t => some { w with tree := t, phase := w.phase.moves t }
  | .retarget target => some { w with target }
  | .replace kind file => some { w with stage := w.stage.put kind file }
  | .begin git =>
    match w.phase with
    | .idle =>
      let before := sourceState (w.tree.answers git)
      some { w with phase := .compiling { target := w.target, before, began := w.tree } }
    | _ => none
  | .stageUf2 file =>
    match w.phase with
    | .compiling a => some { w with stage := w.stage.put .uf2 (some file), phase := .linked a file }
    | _ => none
  | .stageBin file =>
    match w.phase with
    | .linked a uf2 => some { w with stage := w.stage.put .bin file, phase := .copied a uf2 file }
    | _ => none
  | .sample git =>
    match w.phase with
    | .copied a uf2 bin =>
      let built := builtState a.before (sourceState (w.tree.answers git))
      some { w with phase := .sampled a built uf2 bin }
    | _ => none
  | .record time digest =>
    match w.phase with
    | .sampled a built uf2 bin =>
      match w.stage.file .uf2 with
      | none => some { w with phase := .idle }
      | some file =>
        let record := cmakeRecord sha256 a.target built time file (w.stage.file .bin) digest
        some (w.filed record (a.facts uf2 bin))
    | _ => none
  | .fail => some { w with phase := .idle }

/-- The file has not both the size and the mtime that the record on disk names. -/
def NewStat (w : World) (file : File) : Prop :=
  ∀ record, readRecord w.stage = some record → untouched record file = false

/-- The steps after which the provenance holds good: git's status of a changed tree answers, a
build does not see the tree return to the commit it sampled, an image is written with a size and
mtime other than those recorded, and by nobody else while a build has its own staged. -/
def Careful (w : World) : Step → Prop
  | .tree t => ∀ a, w.phase.between = some a → ∀ sha, a.before.sha = some sha → ¬ t.clean sha
  | .begin git | .sample git => w.tree.dirty → git.status
  | .replace .uf2 (some file) => w.phase.unstaged ∧ NewStat w file
  | .replace .bin (some _) => w.phase.unstaged
  | .stageUf2 file => NewStat w file
  | _ => True

/-- A hash is written in at least one digit. -/
def HexDigest : Prop := ∀ content, sha256 content ≠ []

/-- The same bytes, or two contents that the hash does not tell apart. -/
def SameUpToCollision (a b : Bytes) : Prop := a = b ∨ a ≠ b ∧ sha256 a = sha256 b

/-- An image called current was built from this target, in a tree that was clean at the commit
of now from the first sample to the second, and its bytes are those of that build, unless the
hash collides on the two. -/
def Honest (repr : PyVal → Str) (w : World) : Prop :=
  ∀ git, cmakeStatus sha256 repr w.target (sourceState (w.tree.answers git)) w.stage = none →
    ∃ facts sha, w.recorded = some facts ∧ facts.target = w.target ∧ w.tree.sha = some sha ∧
      facts.began.clean sha ∧ facts.moved = [] ∧
      (∃ file, w.stage.file .uf2 = some file ∧ SameUpToCollision sha256 file.content facts.uf2) ∧
      ∀ file side, w.stage.file .bin = some file → w.stage.sidecar = some side →
        recordsKind side .bin →
          ∃ bin, facts.bin = some bin ∧ SameUpToCollision sha256 file.content bin

end Model

theorem same_of_hash {sha256 : Bytes → Str} {a b : Bytes} (h : sha256 a = sha256 b) :
    SameUpToCollision sha256 a b :=
  (em (a = b)).imp_right fun hne => ⟨hne, h⟩

/-! What the record says. -/

section Record
variable {sha256 : Bytes → Str} {repr : PyVal → Str} {target : Str} {state : SourceState}
  {time : PyFloat} {uf2 : File} {bin : Option File} {digest : Option DigestFields}

@[simp] theorem cmakeRecord_provider : (cmakeRecord sha256 target state time uf2 bin digest).get
    "provider" = .str "cmake".toList := rfl
@[simp] theorem cmakeRecord_sha : (cmakeRecord sha256 target state time uf2 bin digest).get
    "sha" = textOrNone state.sha := rfl
@[simp] theorem cmakeRecord_dirty : (cmakeRecord sha256 target state time uf2 bin digest).get
    "dirty" = .bool state.dirty := rfl
@[simp] theorem cmakeRecord_target : (cmakeRecord sha256 target state time uf2 bin digest).get
    "cmake_target" = .str target := rfl
@[simp] theorem cmakeRecord_hash : (cmakeRecord sha256 target state time uf2 bin digest).get
    "bin_sha256" = .str (sha256 uf2.content) := rfl

theorem cmakeRecord_item (kind : Kind) :
    ((cmakeRecord sha256 target state time uf2 bin digest).get "artifacts").item kind.key =
      (((Kind.uf2, PyVal.str (sha256 uf2.content)) ::
        match bin with
        | some file => [(Kind.bin, PyVal.str (sha256 file.content))]
        | none => []).find? fun h => h.1 = kind).map fun h => hashEntry h.2 :=
  item_sidecarField _ kind

/-- The hash recorded for the `.bin` is that of the one that was staged. -/
theorem cmakeRecord_bin (hhash : HexDigest sha256) :
    recordedSha256 repr (cmakeRecord sha256 target state time uf2 bin digest) .bin .uf2 =
      bin.map fun file => sha256 file.content := by
  rw [recordedSha256, cmakeRecord_item]
  cases bin with
  | none => simp
  | some file =>
    have htruthy : (PyVal.str (sha256 file.content)).truthy := by
      cases hc : sha256 file.content with
      | nil => exact absurd hc (hhash _)
      | cons c s => rfl
    simp [htruthy, text]

theorem cmakeRecord_recordsKind :
    recordsKind (cmakeRecord sha256 target state time uf2 bin digest) .bin = bin.isSome := by
  rw [recordsKind, cmakeRecord_item]
  cases bin <;> simp

end Record

/-! What every careful run keeps. -/

/-- Where the first sample was clean, no tree came in between, or the present one is not clean
at that commit. -/
def Attempt.Sound (a : Attempt) (t : Tree) : Prop :=
  a.before.dirty = false → ∀ sha, a.before.sha = some sha →
    (a.began.clean sha ∧ a.moved = []) ∨ ¬ t.clean sha

/-- A state recorded as clean is that of the tree all through the build. -/
def BuiltClean (began : Tree) (moved : List Tree) (built : SourceState) : Prop :=
  built.dirty = false → ∀ sha, built.sha = some sha → began.clean sha ∧ moved = []

/-- A staged file, where there is one, has these bytes. -/
def Holds (stage : Stage) (kind : Kind) (content : Option Bytes) : Prop :=
  ∀ file, stage.file kind = some file → content = some file.content

def PhaseInv (stage : Stage) (tree : Tree) : Phase → Prop
  | .idle => True
  | .compiling a => a.Sound tree
  | .linked a uf2 => a.Sound tree ∧ Holds stage .uf2 (some uf2.content)
  | .copied a uf2 bin => a.Sound tree ∧ Holds stage .uf2 (some uf2.content) ∧
    Holds stage .bin (bin.map File.content)
  | .sampled a built uf2 bin => BuiltClean a.began a.moved built ∧
    Holds stage .uf2 (some uf2.content) ∧ Holds stage .bin (bin.map File.content)

/-- A record is the one of the build it was made by. -/
def RecordOf (sha256 : Bytes → Str) (facts : Facts) (record : Mapping) : Prop :=
  ∃ built time uf2 bin digest, record = cmakeRecord sha256 facts.target built time uf2 bin digest ∧
    uf2.content = facts.uf2 ∧ (∀ file, bin = some file → facts.bin = some file.content) ∧
    BuiltClean facts.began facts.moved built

structure Inv (sha256 : Bytes → Str) (w : World) : Prop where
  record : ∀ record, readRecord w.stage = some record → ∃ facts, w.recorded = some facts ∧
    RecordOf sha256 facts record ∧
    ∀ file, w.stage.file .uf2 = some file → untouched record file → file.content = facts.uf2
  phase : PhaseInv w.stage w.tree w.phase

variable {sha256 : Bytes → Str} {repr : PyVal → Str} {w w' : World}

theorem nonEmpty_eq {o : Option Str} {s : Str} (h : nonEmpty o = some s) : o = some s := by
  unfold nonEmpty at h
  split at h
  · exact h
  · cases h

theorem status_answers (t : Tree) (git : Answers) :
    (nonEmpty (t.answers git).status).isSome = (git.status && t.dirty) := by
  unfold Tree.answers
  cases git.status <;> cases t.dirty <;> rfl

theorem sourceState_answers {t : Tree} {git : Answers} {sha : Str}
    (h : (sourceState (t.answers git)).sha = some sha) :
    t.sha = some sha ∧ (sourceState (t.answers git)).dirty = (git.status && t.dirty) := by
  unfold sourceState at h ⊢
  rw [show (t.answers git).isDir = true from rfl] at h ⊢
  cases hlog : nonEmpty (t.answers git).log with
  | none =>
    rw [hlog] at h
    cases h
  | some sha' =>
    rw [hlog] at h
    cases h
    refine ⟨?_, status_answers t git⟩
    have hsome : (if git.log then t.sha else none) = some sha := nonEmpty_eq hlog
    split at hsome
    · exact hsome
    · cases hsome

theorem Attempt.Sound.moves {a : Attempt} {t' : Tree}
    (h : ∀ sha, a.before.sha = some sha → ¬ t'.clean sha) : (a.moves t').Sound t' :=
  fun _ sha hsha => .inr (h sha hsha)

/-- The second sample: both were clean at one commit, so the tree was all along. -/
theorem Attempt.Sound.built {a : Attempt} {t : Tree} {git : Answers} (h : a.Sound t)
    (hstatus : t.dirty → git.status) :
    BuiltClean a.began a.moved (builtState a.before (sourceState (t.answers git))) := by
  intro hclean sha hsha
  simp only [builtState, Bool.or_eq_false_iff, bne_eq_false_iff_eq] at hclean
  obtain ⟨⟨hbefore, hafter⟩, hsame⟩ := hclean
  have hsha' : (sourceState (t.answers git)).sha = some sha := hsha
  obtain ⟨htree, hdirty⟩ := sourceState_answers hsha'
  rw [hafter] at hdirty
  have hnot : t.dirty = false := by
    cases hd : t.dirty with
    | false => rfl
    | true => simp [hd, hstatus hd] at hdirty
  rcases h hbefore sha (hsame ▸ hsha') with hfound | hnotclean
  · exact hfound
  · exact absurd ⟨htree, hnot⟩ hnotclean

/-- The first sample of a tree whose status answers. -/
theorem Attempt.Sound.began {t : Tree} {git : Answers} {target : Str}
    (hstatus : t.dirty → git.status) :
    Attempt.Sound { target, before := sourceState (t.answers git), began := t } t := by
  intro hbefore sha hsha
  obtain ⟨htree, hdirty⟩ := sourceState_answers hsha
  rw [hbefore] at hdirty
  refine .inl ⟨⟨htree, ?_⟩, rfl⟩
  cases hd : t.dirty with
  | false => rfl
  | true => simp [hd, hstatus hd] at hdirty

@[simp] theorem readRecord_put (stage : Stage) (kind : Kind) (file : Option File) :
    readRecord (stage.put kind file) = readRecord stage := rfl

theorem Holds.put_of_ne {stage : Stage} {kind kind' : Kind} {content : Option Bytes}
    {file : Option File} (h : Holds stage kind content) (hne : kind ≠ kind') :
    Holds (stage.put kind' file) kind content := by
  intro f hf
  rw [Stage.put_of_ne _ hne] at hf
  exact h f hf

theorem Holds.put_self (stage : Stage) (kind : Kind) (file : Option File) :
    Holds (stage.put kind file) kind (file.map File.content) := by
  intro f hf
  rw [Stage.put_self] at hf
  rw [hf, Option.map_some]

theorem Inv.put_record (h : Inv sha256 w) (kind : Kind) (file : Option File)
    (hnew : ∀ f, kind = .uf2 → file = some f → NewStat w f) :
    ∀ record, readRecord (w.stage.put kind file) = some record → ∃ facts,
      w.recorded = some facts ∧ RecordOf sha256 facts record ∧
      ∀ f, (w.stage.put kind file).file .uf2 = some f → untouched record f →
        f.content = facts.uf2 := by
  intro record hrecord
  obtain ⟨facts, hfacts, hof, huntouched⟩ := h.record record hrecord
  refine ⟨facts, hfacts, hof, fun f hf hsame => ?_⟩
  by_cases hkind : kind = .uf2
  · subst hkind
    rw [Stage.put_self] at hf
    rw [hnew f rfl hf record hrecord] at hsame
    cases hsame
  · rw [Stage.put_of_ne _ (Ne.symm hkind)] at hf
    exact huntouched f hf hsame

theorem Inv.tree (h : Inv sha256 w) {t : Tree} (hc : Careful w (.tree t)) :
    Inv sha256 { w with tree := t, phase := w.phase.moves t } := by
  refine ⟨h.record, ?_⟩
  have hphase := h.phase
  cases hp : w.phase with
  | idle => exact trivial
  | compiling a =>
    exact .moves (hc a (by rw [hp]; rfl))
  | linked a uf2 =>
    rw [hp] at hphase
    exact ⟨.moves (hc a (by rw [hp]; rfl)), hphase.2⟩
  | copied a uf2 bin =>
    rw [hp] at hphase
    exact ⟨.moves (hc a (by rw [hp]; rfl)), hphase.2⟩
  | sampled a built uf2 bin =>
    rw [hp] at hphase
    exact hphase

theorem Inv.replace (h : Inv sha256 w) {kind : Kind} {file : Option File}
    (hc : Careful w (.replace kind file)) :
    Inv sha256 { w with stage := w.stage.put kind file } := by
  refine ⟨h.put_record kind file ?_, ?_⟩
  · rintro f rfl rfl
    exact hc.2
  · have hphase := h.phase
    have hholds : ∀ kind' content, Holds w.stage kind' content → (kind = kind' → file = none) →
        Holds (w.stage.put kind file) kind' content := by
      intro kind' content hk hnone
      by_cases hkind : kind = kind'
      · subst hkind
        intro f hf
        rw [Stage.put_self, hnone rfl] at hf
        cases hf
      · exact hk.put_of_ne (Ne.symm hkind)
    have hnone : ¬ w.phase.unstaged → (kind = .uf2 → file = none) ∧ (kind = .bin → file = none) := by
      intro hstaged
      constructor
      · rintro rfl
        cases file with
        | none => rfl
        | some f => exact absurd hc.1 hstaged
      · rintro rfl
        cases file with
        | none => rfl
        | some f => exact absurd hc hstaged
    cases hp : w.phase with
    | idle => exact trivial
    | compiling a =>
      rw [hp] at hphase
      exact hphase
    | linked a uf2 =>
      rw [hp] at hphase hnone
      exact ⟨hphase.1, hholds _ _ hphase.2 (hnone id).1⟩
    | copied a uf2 bin =>
      rw [hp] at hphase hnone
      exact ⟨hphase.1, hholds _ _ hphase.2.1 (hnone id).1, hholds _ _ hphase.2.2 (hnone id).2⟩
    | sampled a built uf2 bin =>
      rw [hp] at hphase hnone
      exact ⟨hphase.1, hholds _ _ hphase.2.1 (hnone id).1, hholds _ _ hphase.2.2 (hnone id).2⟩

theorem Inv.filed {a : Attempt} {built : SourceState} {uf2 file : File}
    {bin : Option File} {time : PyFloat} {digest : Option DigestFields}
    (hphase : PhaseInv w.stage w.tree (.sampled a built uf2 bin))
    (hfile : w.stage.file .uf2 = some file) :
    Inv sha256 (w.filed
      (cmakeRecord sha256 a.target built time file (w.stage.file .bin) digest)
      (a.facts uf2 bin)) := by
  obtain ⟨hclean, huf2, hbin⟩ := hphase
  have hcontent : file.content = uf2.content := (Option.some.inj (huf2 file hfile)).symm
  refine ⟨?_, trivial⟩
  intro record hrecord
  obtain ⟨hsidecar, -⟩ := Option.filter_eq_some_iff.mp hrecord
  cases hsidecar
  refine ⟨_, rfl, ⟨built, time, file, w.stage.file .bin, digest, rfl, hcontent, hbin, hclean⟩, ?_⟩
  intro f hf _
  obtain rfl : file = f := Option.some.inj (hfile.symm.trans hf)
  exact hcontent

theorem Inv.step {action : Step} (h : Inv sha256 w) (hc : Careful w action)
    (hs : Provenance.step sha256 w action = some w') : Inv sha256 w' := by
  have hphase := h.phase
  cases action with
  | tree t =>
    cases hs
    exact h.tree hc
  | retarget target =>
    cases hs
    exact ⟨h.record, h.phase⟩
  | replace kind file =>
    cases hs
    exact h.replace hc
  | begin git =>
    rw [Provenance.step] at hs
    split at hs
    · cases hs
      exact ⟨h.record, .began hc⟩
    · cases hs
  | stageUf2 file =>
    rw [Provenance.step] at hs
    split at hs
    next a hp =>
      cases hs
      rw [hp] at hphase
      refine ⟨h.put_record .uf2 (some file) ?_, hphase, Holds.put_self _ _ _⟩
      rintro f - hf
      cases hf
      exact hc
    · cases hs
  | stageBin file =>
    rw [Provenance.step] at hs
    split at hs
    next a uf2 hp =>
      cases hs
      rw [hp] at hphase
      refine ⟨h.put_record .bin file ?_, hphase.1, hphase.2.put_of_ne (by decide),
        Holds.put_self _ _ _⟩
      intro f hkind
      cases hkind
    · cases hs
  | sample git =>
    rw [Provenance.step] at hs
    split at hs
    next a uf2 bin hp =>
      cases hs
      rw [hp] at hphase
      exact ⟨h.record, hphase.1.built hc, hphase.2⟩
    · cases hs
  | record time digest =>
    rw [Provenance.step] at hs
    split at hs
    next a built uf2 bin hp =>
      rw [hp] at hphase
      split at hs
      · cases hs
        exact ⟨h.record, trivial⟩
      next file hfile =>
        cases hs
        exact .filed hphase hfile
    · cases hs
  | fail =>
    cases hs
    exact ⟨h.record, trivial⟩

/-- What `artifact_status` has found where it says current. -/
theorem cmakeStatus_current {target : Str} {now : SourceState} {stage : Stage}
    (h : cmakeStatus sha256 repr target now stage = none) :
    ∃ file record head, stage.file .uf2 = some file ∧ readRecord stage = some record ∧
      describesImage sha256 record file ∧ (record.get "dirty").truthy = false ∧
      record.get "cmake_target" = .str target ∧ now.sha = some head ∧
      record.get "sha" = .str head ∧ ∀ f, stage.file .bin = some f →
        accuses sha256 stage .bin (recordedSha256 repr record .bin .uf2) = false := by
  unfold cmakeStatus at h
  cases hfile : stage.file .uf2 with
  | none => simp [hfile] at h
  | some file =>
    cases hrecord : readRecord stage with
    | none => simp [hfile, hrecord] at h
    | some record =>
      simp only [hfile, hrecord] at h
      split_ifs at h with hdescribes hforeign hbin hdirty htarget
      cases hnow : now.sha with
      | none => simp [hnow] at h
      | some head =>
        simp only [hnow] at h
        split_ifs at h with hblank hsha
        refine ⟨file, record, head, rfl, rfl, by simpa using hdescribes, by simpa using hdirty,
          by simpa using htarget, rfl, by simpa using hsha, fun f hf => ?_⟩
        simpa [hf] using hbin

theorem Inv.honest (h : Inv sha256 w) (hhash : HexDigest sha256) : Honest sha256 repr w := by
  intro git hcurrent
  obtain ⟨file, record, head, hfile, hrecord, hdescribes, hdirty, htarget, hnow, hsha, hbin⟩ :=
    cmakeStatus_current hcurrent
  obtain ⟨facts, hfacts, ⟨built, time, uf2, bin, digest, rfl, huf2, hbins, hclean⟩, hsame⟩ :=
    h.record record hrecord
  rw [cmakeRecord_dirty] at hdirty
  rw [cmakeRecord_sha] at hsha
  rw [cmakeRecord_target] at htarget
  have hbuilt : built.sha = some head := by
    cases hb : built.sha with
    | none => simp [hb, textOrNone] at hsha
    | some s => simpa [hb, textOrNone] using hsha
  obtain ⟨hbegan, hmoved⟩ := hclean hdirty head hbuilt
  refine ⟨facts, head, hfacts, by simpa using htarget, (sourceState_answers hnow).1, hbegan,
    hmoved, ?_, ?_⟩
  · refine ⟨file, hfile, ?_⟩
    unfold describesImage at hdescribes
    split_ifs at hdescribes with huntouched htruthy
    · exact Or.inl (hsame file hfile huntouched)
    · rw [cmakeRecord_hash, PyVal.eqStr_iff, PyVal.str.injEq] at hdescribes
      rw [← huf2]
      exact same_of_hash hdescribes.symm
  · intro f side hf hside hlisted
    obtain ⟨hsidecar, -⟩ := Option.filter_eq_some_iff.mp hrecord
    rw [hsidecar] at hside
    cases hside
    rw [cmakeRecord_recordsKind] at hlisted
    obtain ⟨b, hb⟩ := Option.isSome_iff_exists.mp hlisted
    have haccuses := hbin f hf
    rw [cmakeRecord_bin hhash, hb] at haccuses
    have hequal : sha256 f.content = sha256 b.content := by
      simpa [accuses, Stage.sha256File, hf] using haccuses
    exact ⟨b.content, hbins b hb, same_of_hash hequal⟩

def Fresh (w : World) : Prop :=
  w.phase = .idle ∧ w.stage.sidecar = none

/-- In every run whose steps are all careful, an image called current is one of a build of this
target, in a tree that stayed clean at the commit of now. -/
theorem provenance_honest (hhash : HexDigest sha256)
    (h : Reach (Provenance.step sha256) Careful Fresh w) : Honest sha256 repr w := by
  have hinv : Inv sha256 w := by
    refine h.invariant ?_ fun w action w' hw hc hs => hw.step hc hs
    intro w hfresh
    refine ⟨?_, ?_⟩
    · intro record hrecord
      obtain ⟨hsidecar, -⟩ := Option.filter_eq_some_iff.mp hrecord
      rw [hfresh.2] at hsidecar
      cases hsidecar
    · rw [hfresh.1]
      exact trivial
  exact hinv.honest hhash

theorem hexDigest_spelled : HexDigest spelled := fun _ => by simp [spelled]

/-- A checkout of a commit, or with changes on top of it. -/
def checkout (dirty : Bool) : World where
  tree := { sha := some ['a', '1'], dirty }
  target := ['f', 'w']
  stage := {}

/-- A whole build, whose two samples of the tree go as `git` says. -/
def wholeBuild (git : Answers) : List Step :=
  [.begin git, .stageUf2 ⟨[1, 2], .finite 5 0⟩, .stageBin none, .sample git,
    .record (.finite 6 0) none]

/-- Built in a clean checkout: called current, and it is. -/
theorem provenance_honest_checkout : ∃ w, Honest spelled (fun _ => []) w ∧
    cmakeStatus spelled (fun _ => []) w.target (sourceState (w.tree.answers {})) w.stage = none := by
  have start : Reach (Provenance.step spelled) Careful Fresh (checkout false) := .start ⟨rfl, rfl⟩
  have began := start.next (a := Step.begin ({} : Answers)) (fun _ => rfl) rfl
  have linked := began.next (a := Step.stageUf2 ⟨[1, 2], .finite 5 0⟩) (fun _ h => by cases h) rfl
  have copied := linked.next (a := Step.stageBin none) trivial rfl
  have sampled := copied.next (a := Step.sample ({} : Answers)) (fun _ => rfl) rfl
  have recorded := sampled.next (a := Step.record (.finite 6 0) none) trivial rfl
  exact ⟨_, provenance_honest hexDigest_spelled recorded, by decide⟩

/-- Git's status of a changed tree takes too long, at both samples: the image is called current
although the tree was not clean. -/
theorem unanswered_status_current : ¬ ∀ w, Reach (Provenance.step spelled) anyStep Fresh w →
    Honest spelled (fun _ => []) w := by
  intro h
  have start : Reach (Provenance.step spelled) anyStep Fresh (checkout true) := .start ⟨rfl, rfl⟩
  have recorded := start.extend (l := wholeBuild { status := false }) (fun _ _ _ => trivial) rfl
  obtain ⟨facts, sha, hfacts, -, -, hbegan, -⟩ := h _ recorded {} (by decide)
  cases hfacts
  cases hbegan.2

end McuUpdater.Build.Provenance
