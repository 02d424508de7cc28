import McuUpdater.Profiles.Answers
import Mathlib.Logic.Function.Basic

/-! `profiles.py`: the profiles of one type, and what writes its `.config` from one of
them. Moving a written file into place succeeds; the `.bak` copies are left out. -/
namespace McuUpdater.Profiles
open PyText

/-- `CUSTOM_PROFILE` -/
def customProfile : Str := "config.custom".toList

/-- `PARENT_TAG` -/
def parentTag : Str := "# forked-from:".toList

/-- `BASE_TAG` -/
def baseTag : Str := "# base:".toList

def derivedTag : Str := "derived:".toList

/-- What `write_record` notes of a seeding; a digest is absent when its file was. -/
structure Record (δ : Type) where
  profile : Option Str
  sourceSha : Option δ
  configSha : Option δ
  answers : List Str

/-- The files of one type for one family. -/
structure Files (δ : Type) where
  config : Option File := none
  custom : Option File := none
  record : Option (Record δ) := none

/-- The files of one type, by family. -/
abbrev TypeFiles (δ : Type) := Str → Files δ

structure Seed where
  name : Str
  file : File
  custom : Bool

inductive ProfileReason
  | unmanaged
  | customised
  | seedMoved
  deriving DecidableEq

structure ProfileStatus where
  reason : Option ProfileReason := none
  profile : Option Str := none

inductive ProfileError
  | noTree
  | notFound
  | customised
  | noConfig
  | captureFailed
  | kconfig
  | offsetMismatch

/-- A step that may raise. A record that cannot be written is given up silently. -/
inductive Stage
  | capture
  | save
  | record

/-- The steps that fail, and the time of day, of one operation. -/
structure Conditions where
  fails : Stage → Bool
  time : Str

/-- The firmware trees by family, with the seed files they ship, and the type's name. -/
structure Env where
  mcuType : Str
  tree : Str → Option KconfigTree
  vendor : Str → List (Str × File)

/-- `_read_header`, with what was read before. -/
def readHeaderFrom (parent : Option Str) (base : List Str) : File → Option Str × List Str
  | [] => (parent, base)
  | line :: file =>
    if (parseAnswer line).isSome then (parent, base)
    else
      match after parentTag (strip line), after baseTag (strip line) with
      | some rest, _ => readHeaderFrom (if strip rest = [] then none else some (strip rest)) base file
      | none, some rest =>
        readHeaderFrom parent (if strip rest = [] then base else base ++ [strip rest]) file
      | none, none => readHeaderFrom parent base file

def readHeader (file : File) : Option Str × List Str := readHeaderFrom none [] file

/-- `valid_seed_name`, on the stripped name. -/
def validSeedName (name : Str) : Bool :=
  name ≠ [] && !name.contains '/' && (after "config.".toList name).isSome

section Model
variable {δ : Type} [DecidableEq δ] (sha : File → δ) (env : Env)

/-- `_forked_from` -/
def forkedFrom (files : Files δ) (parent : Option Str) : Option Str × List Str :=
  let recorded := files.record.bind (·.profile)
  let existing := files.custom.map readHeader
  let resolved := parent.filter fun p => p ≠ [] && p ≠ customProfile
  match resolved, existing with
  | none, some header => header
  | _, _ =>
    match resolved <|> recorded.filter (· ≠ customProfile) with
    | none => (none, [])
    | some resolved =>
      match existing with
      | some (some forked, b :: base) =>
        if forked = resolved then (some resolved, b :: base)
        else if recorded = some resolved then
          (some resolved, (files.record.map (·.answers)).getD [])
        else (some resolved, [])
      | _ =>
        if recorded = some resolved then
          (some resolved, (files.record.map (·.answers)).getD [])
        else (some resolved, [])

/-- The lines above the answers in a captured profile. -/
def captureHeader (fw time : Str) (resolved : Option Str) (base : List Str) : List Str :=
  [["# ".toList, env.mcuType, "'s own ".toList, fw, " answers, saved by mcu-updater.".toList].flatten,
    match resolved with
    | some (c :: name) => parentTag ++ ' ' :: c :: name
    | _ => parentTag,
    "# captured: ".toList ++ time] ++
  base.map fun line => baseTag ++ ' ' :: line

/-- What `capture_custom` writes. -/
def captured (tree : KconfigTree) (fw time : Str) (parent : Option Str) (files : Files δ)
    (config : File) : File :=
  let (resolved, base) := forkedFrom files parent
  captureHeader env fw time resolved base ++ minimalAnswers tree (tree.load config)

/-- `capture_custom` without `answers`. -/
def captureCustom (c : Conditions) (tree : KconfigTree) (fw : Str) (parent : Option Str)
    (files : Files δ) : Except ProfileError (Files δ) :=
  match files.config with
  | none => .error .noConfig
  | some config =>
    if c.fails .capture then .error .captureFailed
    else .ok { files with custom := some (captured env tree fw c.time parent files config) }

/-- `find` -/
def find (fw name : Str) (files : Files δ) : Option Seed :=
  let wanted := strip name
  if !validSeedName wanted then none
  else if wanted = customProfile then files.custom.map (⟨wanted, ·, true⟩)
  else ((env.vendor fw).lookup wanted).map (⟨wanted, ·, false⟩)

/-- `_current_source_sha` -/
def currentSourceSha (fw : Str) (profile : Option Str) (s : TypeFiles δ) : Option δ :=
  match profile with
  | none | some [] => none
  | some name =>
    match after derivedTag name with
    | some app => (s app).config.map sha
    | none => (find env fw name (s fw)).map (sha ·.file)

/-- `status` -/
def status (fw : Str) (s : TypeFiles δ) : ProfileStatus :=
  match (s fw).record with
  | none => { reason := some .unmanaged }
  | some record =>
    if (s fw).config.map sha ≠ record.configSha then
      { reason := some .customised, profile := record.profile }
    else
      match record.sourceSha, currentSourceSha sha env fw record.profile s with
      | some seeded, some source =>
        { reason := if seeded ≠ source then some .seedMoved else none, profile := record.profile }
      | _, _ => { profile := record.profile }

/-- Whether `refuse_if_customised` raises. -/
def refuses (fw : Str) (force : Bool) (s : TypeFiles δ) : Bool :=
  !force && (s fw).config.isSome &&
    ((status sha env fw s).reason ≠ none && (status sha env fw s).reason ≠ some .seedMoved)

/-- `_keep_current_answers` -/
def keepCurrentAnswers (c : Conditions) (tree : KconfigTree) (fw : Str) (s : TypeFiles δ) :
    Except ProfileError (Files δ) :=
  let state := status sha env fw s
  if state.reason ≠ some .customised then .ok (s fw)
  else captureCustom env c tree fw state.profile (s fw)

/-- `save_config` and `write_record`. -/
def writeSeeded (c : Conditions) (tree : KconfigTree) (config : tree.Config) (profile : Str)
    (source : Option File) (files : Files δ) : Files δ :=
  let target := tree.writeConfig config
  { files with
    config := some target
    record :=
      if c.fails .record then files.record
      else some ⟨some profile, source.map sha, some (sha target), minimalAnswers tree config⟩ }

/-- `apply_seed` -/
def applySeed (c : Conditions) (fw name : Str) (force : Bool) (s : TypeFiles δ) :
    TypeFiles δ × Option ProfileError :=
  match env.tree fw, find env fw name (s fw) with
  | none, _ => (s, some .noTree)
  | some _, none => (s, some .notFound)
  | some tree, some seed =>
    if refuses sha env fw force s then (s, some .customised)
    else
      match if seed.custom then .ok (s fw) else keepCurrentAnswers sha env c tree fw s with
      | .error e => (s, some e)
      | .ok files =>
        if c.fails .save then (Function.update s fw files, some .kconfig)
        else
          (Function.update s fw
            (writeSeeded sha c tree (tree.load seed.file) seed.name (some seed.file) files), none)

/-- `_check_addresses`, as whether it raises. -/
def addressesAgree (app launch : Option Nat) : Bool := app = launch

/-- The answers of the application that the bootloader's tree takes. -/
def carriedAnswers (boot : KconfigTree) (answers : List Str) : List Str :=
  answers.filter fun line =>
    match parseAnswer line with
    | some (name, _) => boot.defines name
    | none => false

/-- `derive_bootloader` -/
def deriveBootloader (c : Conditions) (app fw : Str) (force : Bool) (s : TypeFiles δ) :
    TypeFiles δ × Option ProfileError :=
  match env.tree app, (s app).config, env.tree fw with
  | none, _, _ | some _, some _, none => (s, some .noTree)
  | some _, none, _ => (s, some .noConfig)
  | some appTree, some appConfig, some bootTree =>
    if refuses sha env fw force s then (s, some .customised)
    else
      let appLoaded := appTree.load appConfig
      let bootLoaded := bootTree.load (carriedAnswers bootTree (minimalAnswers appTree appLoaded))
      if !addressesAgree (appTree.address appLoaded "FLASH_APPLICATION_ADDRESS".toList)
          (bootTree.address bootLoaded "LAUNCH_APP_ADDRESS".toList) then (s, some .offsetMismatch)
      else if c.fails .save then (s, some .kconfig)
      else
        (Function.update s fw
          (writeSeeded sha c bootTree bootLoaded (derivedTag ++ app) (some appConfig) (s fw)), none)

/-- `reseed_if_moved` -/
def reseedIfMoved (c : Conditions) (fw : Str) (s : TypeFiles δ) :
    TypeFiles δ × Option ProfileError :=
  match (status sha env fw s).reason, (status sha env fw s).profile with
  | some .seedMoved, some (x :: name) =>
    match after derivedTag (x :: name) with
    | some app => deriveBootloader sha env c app fw false s
    | none => applySeed sha env c fw (x :: name) false s
  | _, _ => (s, none)

/-- What an operation on a family's `.config` is asked to do. -/
inductive Operation
  | applySeed (name : Str) (force : Bool)
  | deriveBootloader (app : Str) (force : Bool)
  | reseedIfMoved

def Operation.force : Operation → Bool
  | .applySeed _ force | .deriveBootloader _ force => force
  | .reseedIfMoved => false

/-- Going back to one's own profile discards what is not in it. -/
def Operation.SeedIsCustom : Operation → Prop
  | .applySeed name _ => strip name = customProfile
  | .deriveBootloader _ _ | .reseedIfMoved => False

def Operation.run (op : Operation) (c : Conditions) (fw : Str) (s : TypeFiles δ) :
    TypeFiles δ × Option ProfileError :=
  match op with
  | .applySeed name force => Profiles.applySeed sha env c fw name force s
  | .deriveBootloader app force => Profiles.deriveBootloader sha env c app fw force s
  | .reseedIfMoved => Profiles.reseedIfMoved sha env c fw s

/-- The record vouches for the bytes of the `.config`. -/
def Ours (files : Files δ) : Prop :=
  ∃ config record, files.config = some config ∧ files.record = some record ∧
    record.configSha = some (sha config)

/-- The user's own profile gives this configuration. -/
def Holds (tree : KconfigTree) (custom : Option File) (config : File) : Prop :=
  ∃ file, custom = some file ∧ tree.load file = tree.load config

/-- This `.config`, not ours, is replaced by another seed than the user's own profile. -/
structure Replaced (op : Operation) (c : Conditions) (fw : Str) (s : TypeFiles δ)
    (tree : KconfigTree) (config : File) : Prop where
  isTree : env.tree fw = some tree
  isConfig : (s fw).config = some config
  notOurs : ¬Ours sha (s fw)
  replaced : ((op.run sha env c fw s).1 fw).config ≠ some config
  notCustom : ¬op.SeedIsCustom

/-- The answers of the user's own `.config` are held by the user's own profile after it is
replaced, and it is not replaced without force. -/
structure AnswersKept (op : Operation) (c : Conditions) (fw : Str) (s : TypeFiles δ) : Prop where
  held : ∀ tree config, Replaced sha env op c fw s tree config →
    Holds tree ((op.run sha env c fw s).1 fw).custom config
  refused : op.force = false → ¬Ours sha (s fw) → ∀ config, (s fw).config = some config →
    ((op.run sha env c fw s).1 fw).config = some config

/-- The `.config` a forced operation writes, its inputs being there. -/
def Operation.target (op : Operation) (fw : Str) (s : TypeFiles δ) : Option File :=
  match op with
  | .applySeed name _ =>
    match env.tree fw, find env fw name (s fw) with
    | some tree, some seed => some (tree.writeConfig (tree.load seed.file))
    | _, _ => none
  | .deriveBootloader app _ =>
    match env.tree app, (s app).config, env.tree fw with
    | some appTree, some appConfig, some bootTree =>
      let appLoaded := appTree.load appConfig
      let bootLoaded := bootTree.load (carriedAnswers bootTree (minimalAnswers appTree appLoaded))
      if addressesAgree (appTree.address appLoaded "FLASH_APPLICATION_ADDRESS".toList)
          (bootTree.address bootLoaded "LAUNCH_APP_ADDRESS".toList) then
        some (bootTree.writeConfig bootLoaded)
      else none
    | _, _, _ => none
  | .reseedIfMoved => none

/-- Force is given over a `.config` that is not ours, and another file is to be written. -/
structure Endangered (op : Operation) (c : Conditions) (fw : Str) (s : TypeFiles δ)
    (tree : KconfigTree) (config : File) : Prop where
  isTree : env.tree fw = some tree
  isConfig : (s fw).config = some config
  notOurs : ¬Ours sha (s fw)
  forced : op.force = true
  notCustom : ¬op.SeedIsCustom
  written : ∃ file, op.target env fw s = some file ∧ file ≠ config
  saved : c.fails .save = false

/-- The answers are captured whole, or the user's own profile holds them already. -/
def Recoverable (op : Operation) (c : Conditions) (tree : KconfigTree) (config : File)
    (files : Files δ) : Prop :=
  match op, files.record with
  | .applySeed _ _, some _ =>
    c.fails .capture = true ∨ ∀ line ∈ tree.minConfig (tree.load config), isUnset line = false
  | _, _ => Holds tree files.custom config

end Model

section Facts
variable {δ : Type} [DecidableEq δ] {sha : File → δ} {env : Env} {c : Conditions}
  {fw name app : Str} {force : Bool} {s : TypeFiles δ} {tree : KconfigTree} {config : File}

theorem prefix_of_notMem {p w t : Str} {x : Char} (hp : x ∉ p) (h : p <+: w ++ x :: t) :
    p <+: w := by
  induction p generalizing w with
  | nil => exact List.nil_prefix
  | cons a p ih =>
    obtain ⟨ha, hp⟩ : ¬x = a ∧ x ∉ p := by simpa using hp
    cases w with
    | nil =>
      rw [List.nil_append] at h
      exact absurd (List.cons_prefix_cons.mp h).1.symm ha
    | cons b w =>
      rw [List.cons_append] at h
      obtain ⟨rfl, htail⟩ := List.cons_prefix_cons.mp h
      exact List.cons_prefix_cons.mpr ⟨rfl, ih hp htail⟩

theorem isUnset_owner {w t : Str} (hw : ' ' ∉ w) (ht : ¬"is not set".toList <+: t) :
    isUnset ("# ".toList ++ (w ++ ' ' :: t)) = false := by
  unfold isUnset after
  by_cases hp : "# CONFIG_".toList <+: "# ".toList ++ (w ++ ' ' :: t)
  · have hp' : "CONFIG_".toList <+: w ++ ' ' :: t := by simpa using hp
    obtain ⟨v, rfl⟩ := prefix_of_notMem (by decide) hp'
    have hv : ∀ x ∈ v, decide (x ≠ ' ') = true := fun x hx => by
      simpa using fun he : x = ' ' => hw (List.mem_append_right _ (he ▸ hx))
    rw [if_pos hp]
    have hdrop : ("# ".toList ++ ("CONFIG_".toList ++ v ++ ' ' :: t)).drop
        "# CONFIG_".toList.length = v ++ ' ' :: t := by simp
    have hrest : (v ++ ' ' :: t).dropWhile (fun x => decide (x ≠ ' ')) = ' ' :: t := by
      rw [List.dropWhile_append_of_pos hv]
      simp
    have hno : ¬" is not set".toList <+: ' ' :: t := by simpa using ht
    simp only [hdrop, hrest, if_neg hno]
    simp
  · rw [if_neg hp]

theorem isSet_hash (s : Str) : isSet ('#' :: s) = false := by
  have h : ¬"CONFIG_".toList <+: '#' :: s := by simp
  rw [isSet, after, if_neg h]

theorem isAnswer_tag {x : Char} {tag rest : Str} (htag : tag = '#' :: ' ' :: x :: rest)
    (hx : x ≠ 'C') (s : Str) : isAnswer (tag ++ s) = false := by
  subst htag
  have h : ¬"# CONFIG_".toList <+: '#' :: ' ' :: x :: rest ++ s := by
    simp [List.cons_prefix_cons, hx.symm]
  rw [isAnswer, isUnset, after, if_neg h, Bool.or_false]
  exact isSet_hash _

theorem isAnswer_parentTag (s : Str) : isAnswer (parentTag ++ s) = false :=
  have htag : parentTag = '#' :: ' ' :: 'f' :: "orked-from:".toList := by decide
  isAnswer_tag htag (by decide) s

theorem isAnswer_owner {w : Str} (hw : ' ' ∉ w) (fw : Str) :
    isAnswer ["# ".toList, w, "'s own ".toList, fw,
      " answers, saved by mcu-updater.".toList].flatten = false := by
  have howner : ' ' ∉ w ++ "'s".toList := by simpa using hw
  have hno : ¬"is not set".toList <+: "own ".toList ++ (fw ++
      " answers, saved by mcu-updater.".toList) := by simp
  have hshape : ["# ".toList, w, "'s own ".toList, fw,
      " answers, saved by mcu-updater.".toList].flatten = "# ".toList ++
      ((w ++ "'s".toList) ++ ' ' :: ("own ".toList ++ (fw ++
        " answers, saved by mcu-updater.".toList))) := by simp
  rw [hshape, isAnswer, isUnset_owner howner hno, Bool.or_false]
  exact isSet_hash _

theorem isAnswer_captureHeader (hname : ' ' ∉ env.mcuType) (fw time : Str) (resolved : Option Str)
    (base : List Str) : ∀ line ∈ captureHeader env fw time resolved base, isAnswer line = false := by
  intro line hl
  unfold captureHeader at hl
  rw [List.mem_append, List.mem_map] at hl
  rcases hl with hl | ⟨b, -, rfl⟩
  · simp only [List.mem_cons, List.not_mem_nil, or_false] at hl
    rcases hl with rfl | rfl | rfl
    · exact isAnswer_owner hname fw
    · split
      · exact isAnswer_parentTag _
      · rw [← List.append_nil parentTag]
        exact isAnswer_parentTag []
    · have htag : "# captured: ".toList = '#' :: ' ' :: 'c' :: "aptured: ".toList := by decide
      exact isAnswer_tag htag (by decide) _
  · have htag : baseTag = '#' :: ' ' :: 'b' :: "ase:".toList := by decide
    exact isAnswer_tag htag (by decide) _

omit [DecidableEq δ] in
theorem load_captured (hname : ' ' ∉ env.mcuType) (tree : KconfigTree) (fw time : Str)
    (parent : Option Str) (files : Files δ) (config : File) :
    tree.load (captured env tree fw time parent files config) =
      tree.load (minimalAnswers tree (tree.load config)) := by
  have hheader : (captureHeader env fw time (forkedFrom files parent).1
      (forkedFrom files parent).2).filter isAnswer = [] :=
    List.filter_eq_nil_iff.mpr fun line hl => by
      simp [isAnswer_captureHeader hname fw time _ _ line hl]
  rw [← tree.load_isAnswer, captured, List.filter_append, hheader, List.nil_append,
    tree.load_isAnswer]

omit [DecidableEq δ] in
theorem find_customProfile (env : Env) (fw : Str) (files : Files δ) :
    find env fw customProfile files = files.custom.map (⟨customProfile, ·, true⟩) := by
  have hstrip : strip customProfile = customProfile := by decide
  have hvalid : validSeedName customProfile = true := by decide
  simp [find, hstrip, hvalid]

omit [DecidableEq δ] in
theorem captureCustom_ok {parent : Option Str} {files kept : Files δ}
    (h : captureCustom env c tree fw parent files = .ok kept) (hconfig : files.config = some config) :
    c.fails .capture = false ∧
      kept = { files with custom := some (captured env tree fw c.time parent files config) } := by
  unfold captureCustom at h
  rw [hconfig] at h
  dsimp only at h
  split_ifs at h with hfails
  cases h
  exact ⟨by simpa using hfails, by rw [hconfig]⟩

omit [DecidableEq δ] in
theorem captureCustom_config {parent : Option Str} {files kept : Files δ}
    (h : captureCustom env c tree fw parent files = .ok kept) : kept.config = files.config := by
  unfold captureCustom at h
  split at h
  · cases h
  · split_ifs at h
    cases h
    rfl

theorem seeding_config {seed : Seed} {files : Files δ}
    (h : (if seed.custom then .ok (s fw) else keepCurrentAnswers sha env c tree fw s) = .ok files) :
    files.config = (s fw).config := by
  split_ifs at h with hcustom
  · cases h
    rfl
  · unfold keepCurrentAnswers at h
    dsimp only at h
    split_ifs at h
    · cases h
      rfl
    · exact captureCustom_config h

/-- A seed that was found is written over the `.config`, or the operation stops and leaves
the `.config` alone. -/
theorem applySeed_cases (sha : File → δ) (env : Env) (c : Conditions) (fw name : Str)
    (force : Bool) (s : TypeFiles δ) :
    (∃ e, (applySeed sha env c fw name force s).2 = some e ∧
      ((applySeed sha env c fw name force s).1 fw).config = (s fw).config) ∨
    ∃ tree seed files, env.tree fw = some tree ∧ find env fw name (s fw) = some seed ∧
      refuses sha env fw force s = false ∧
      (if seed.custom then .ok (s fw) else keepCurrentAnswers sha env c tree fw s) = .ok files ∧
      c.fails .save = false ∧
      applySeed sha env c fw name force s = (Function.update s fw
        (writeSeeded sha c tree (tree.load seed.file) seed.name (some seed.file) files), none) := by
  unfold applySeed
  cases htree : env.tree fw with
  | none => exact .inl ⟨_, rfl, rfl⟩
  | some tree =>
    cases hseed : find env fw name (s fw) with
    | none => exact .inl ⟨_, rfl, rfl⟩
    | some seed =>
      by_cases hrefuses : refuses sha env fw force s = true
      · simp [hrefuses]
      · have hrefuses : refuses sha env fw force s = false := by simpa using hrefuses
        dsimp only
        rw [hrefuses, if_neg (by decide)]
        cases hfiles : (if seed.custom then .ok (s fw) else keepCurrentAnswers sha env c tree fw s) with
        | error e => exact .inl ⟨e, rfl, rfl⟩
        | ok files =>
          dsimp only
          cases hsave : c.fails .save with
          | true =>
            refine .inl ⟨_, rfl, ?_⟩
            rw [if_pos rfl]
            dsimp only
            rw [Function.update_self]
            exact seeding_config hfiles
          | false => exact .inr ⟨tree, seed, files, rfl, rfl, rfl, hfiles, rfl, if_neg (by decide)⟩

/-- What was captured as the user's own profile and applied later gives every symbol the
value it had exactly when no line of the minimal config turns a boolean off. -/
theorem custom_round_trip_iff (hname : ' ' ∉ env.mcuType) {c' : Conditions} {parent : Option Str}
    {files kept : Files δ} (htree : env.tree fw = some tree) (hconfig : files.config = some config)
    (hcaptured : captureCustom env c tree fw parent files = .ok kept)
    (hcustom : (s fw).custom = kept.custom)
    (happlied : (applySeed sha env c' fw customProfile force s).2 = none) :
    ∃ file, ((applySeed sha env c' fw customProfile force s).1 fw).config = some file ∧
      (tree.load file = tree.load config ↔
        ∀ line ∈ tree.minConfig (tree.load config), isUnset line = false) := by
  obtain ⟨-, rfl⟩ := captureCustom_ok hcaptured hconfig
  obtain ⟨e, he, -⟩ | ⟨tree', seed, files', htree', hseed, -, -, -, hrun⟩ :=
    applySeed_cases sha env c' fw customProfile force s
  · rw [he] at happlied
    cases happlied
  · rw [htree] at htree'
    cases htree'
    rw [find_customProfile, hcustom] at hseed
    cases hseed
    refine ⟨tree.writeConfig (tree.load (captured env tree fw c.time parent files config)), ?_, ?_⟩
    · rw [hrun]
      simp [writeSeeded]
    · rw [tree.load_writeConfig, load_captured hname, load_minimalAnswers_iff]

/-- A type whose trees have one boolean; nothing of it is shipped as a seed but one file. -/
def boardEnv : Env where
  mcuType := "board".toList
  tree _ := some oneBool
  vendor _ := [("config.board".toList, ["CONFIG_A=y".toList])]

def calm : Conditions := ⟨fun _ => false, []⟩

def onFile : File := ["CONFIG_A=y".toList]

/-- The same type with the boolean off by default, and a seed that says nothing of it. -/
def offEnv : Env where
  mcuType := "board".toList
  tree _ := some (oneBoolOf false)
  vendor _ := [("config.board".toList, ["# the defaults".toList])]

/-- The files after `onFile` was captured, and then replaced. -/
def capturedFiles : Files File where
  config := some [offLine]
  custom := some (captured offEnv (oneBoolOf false) [] [] none
    ({ config := some onFile } : Files File) onFile)

/-- An answer off its default, which no line turns off, is captured and applied. -/
theorem custom_round_trip_iff_on :
    (oneBoolOf false).minConfig ((oneBoolOf false).load onFile) = onFile ∧
    ∃ file, ((applySeed id offEnv calm [] customProfile true fun _ => capturedFiles).1 []).config =
        some file ∧
      ((oneBoolOf false).load file = (oneBoolOf false).load onFile ↔
        ∀ line ∈ (oneBoolOf false).minConfig ((oneBoolOf false).load onFile),
          isUnset line = false) :=
  ⟨rfl, @custom_round_trip_iff _ _ id offEnv calm [] true (fun _ => capturedFiles) (oneBoolOf false)
    onFile (by decide) calm none { config := some onFile } { capturedFiles with config := some onFile }
    rfl rfl rfl rfl rfl⟩

/-- A boolean the user turned off is on again once the user's own profile is applied. -/
theorem off_turns_on :
    (captureCustom boardEnv calm oneBool [] none
        ({ config := some [offLine] } : Files File)).map (fun kept =>
      (((applySeed id boardEnv calm [] customProfile true fun _ => kept).1 []).config.map
        oneBool.load)) = .ok (some true) ∧
      oneBool.load [offLine] = false :=
  ⟨rfl, rfl⟩

theorem deriveBootloader_cases (sha : File → δ) (env : Env) (c : Conditions) (app fw : Str)
    (force : Bool) (s : TypeFiles δ) :
    (∃ e, deriveBootloader sha env c app fw force s = (s, some e)) ∨
    ∃ appTree bootTree answers appConfig, env.tree app = some appTree ∧
      env.tree fw = some bootTree ∧ refuses sha env fw force s = false ∧
      (Operation.deriveBootloader app force).target env fw s =
        some (bootTree.writeConfig (bootTree.load answers)) ∧
      c.fails .save = false ∧
      deriveBootloader sha env c app fw force s = (Function.update s fw
        (writeSeeded sha c bootTree (bootTree.load answers) (derivedTag ++ app) (some appConfig)
          (s fw)), none) := by
  unfold deriveBootloader Operation.target
  cases htree : env.tree app with
  | none => exact .inl ⟨_, rfl⟩
  | some appTree =>
    cases hconfig : (s app).config with
    | none => exact .inl ⟨_, rfl⟩
    | some appConfig =>
      cases hboot : env.tree fw with
      | none => exact .inl ⟨_, rfl⟩
      | some bootTree =>
        dsimp only
        split_ifs with hrefuses haddress hsave
        · exact .inl ⟨_, rfl⟩
        · exact .inl ⟨_, rfl⟩
        · exact .inl ⟨_, rfl⟩
        · simp only [Bool.not_eq_true', Bool.not_eq_false] at haddress
          refine .inr ⟨appTree, bootTree, _, appConfig, rfl, rfl, by simpa using hrefuses, ?_,
            by simpa using hsave, rfl⟩
          rw [htree, hconfig]
          exact if_pos haddress

theorem status_not_ours (env : Env) (hours : ¬Ours sha (s fw)) (hconfig : (s fw).config = some config) :
    status sha env fw s = match (s fw).record with
      | none => { reason := some .unmanaged }
      | some record => { reason := some .customised, profile := record.profile } := by
  unfold status
  cases hrecord : (s fw).record with
  | none => rfl
  | some record =>
    have hsha : (s fw).config.map sha ≠ record.configSha := fun h =>
      hours ⟨config, record, hconfig, hrecord, by rw [← h, hconfig]; rfl⟩
    simp [hsha]

/-- Without force an operation on a `.config` that is not ours is refused. -/
theorem refuses_not_ours (env : Env) (hours : ¬Ours sha (s fw)) (hconfig : (s fw).config = some config) :
    refuses sha env fw false s = true := by
  rw [refuses, status_not_ours env hours hconfig, hconfig]
  cases (s fw).record <;> rfl

theorem config_unforced {op : Operation} (hforce : op.force = false) (hours : ¬Ours sha (s fw))
    (hconfig : (s fw).config = some config) :
    ((op.run sha env c fw s).1 fw).config = some config := by
  have hrefuses := refuses_not_ours env hours hconfig
  cases op with
  | applySeed name force =>
    obtain rfl : force = false := hforce
    obtain ⟨e, -, hsame⟩ | ⟨_, _, _, _, _, hgo, _⟩ := applySeed_cases sha env c fw name false s
    · exact hsame.trans hconfig
    · rw [hrefuses] at hgo
      cases hgo
  | deriveBootloader app force =>
    obtain rfl : force = false := hforce
    obtain ⟨e, hsame⟩ | ⟨_, _, _, _, _, _, hgo, _⟩ :=
      deriveBootloader_cases sha env c app fw false s
    · rw [Operation.run, hsame]
      exact hconfig
    · rw [hrefuses] at hgo
      cases hgo
  | reseedIfMoved =>
    have hstatus := status_not_ours env hours hconfig
    have hstay : reseedIfMoved sha env c fw s = (s, none) := by
      unfold reseedIfMoved
      rw [hstatus]
      cases (s fw).record <;> rfl
    rw [Operation.run, hstay]
    exact hconfig

omit [DecidableEq δ] in
theorem find_custom {files : Files δ} {seed : Seed} (h : find env fw name files = some seed) :
    seed.custom = true ↔ strip name = customProfile := by
  unfold find at h
  dsimp only at h
  split_ifs at h with hvalid hname
  · obtain ⟨_, -, rfl⟩ := Option.map_eq_some_iff.mp h
    exact iff_of_true rfl hname
  · obtain ⟨_, -, rfl⟩ := Option.map_eq_some_iff.mp h
    exact iff_of_false nofun hname

omit [DecidableEq δ] in
theorem custom_eq_false {files : Files δ} {seed : Seed} (h : find env fw name files = some seed)
    (hcustom : ¬(Operation.applySeed name force).SeedIsCustom) : seed.custom = false := by
  rw [← Bool.not_eq_true, find_custom h]
  exact hcustom

/-- Before another seed is written over a `.config` that is not ours its answers are captured
when there is a record of a seeding, and only then. -/
theorem seeding_not_ours {seed : Seed} (hseed : seed.custom = false) (hours : ¬Ours sha (s fw))
    (hconfig : (s fw).config = some config) :
    (if seed.custom then .ok (s fw) else keepCurrentAnswers sha env c tree fw s) =
      match (s fw).record with
      | none => .ok (s fw)
      | some record => captureCustom env c tree fw record.profile (s fw) := by
  have hstatus := status_not_ours env hours hconfig
  rw [hseed, if_neg nofun, keepCurrentAnswers, hstatus]
  cases (s fw).record <;> rfl

/-- The user's own profile after a `.config` that is not ours was replaced. -/
def customAfter (env : Env) (op : Operation) (c : Conditions) (tree : KconfigTree) (fw : Str)
    (files : Files δ) (config : File) : Option File :=
  match op, files.record with
  | .applySeed _ _, some record => some (captured env tree fw c.time record.profile files config)
  | _, _ => files.custom

def CaptureStops (op : Operation) (c : Conditions) (files : Files δ) : Prop :=
  match op, files.record with
  | .applySeed _ _, some _ => c.fails .capture = true
  | _, _ => False

/-- What was replaced was endangered, and the user's own profile is then as `customAfter` has
it. -/
theorem custom_of_replaced {op : Operation} (h : Replaced sha env op c fw s tree config) :
    ((op.run sha env c fw s).1 fw).custom = customAfter env op c tree fw (s fw) config ∧
      Endangered sha env op c fw s tree config ∧ ¬CaptureStops op c (s fw) := by
  obtain ⟨htree, hconfig, hours, hreplaced, hcustom⟩ := h
  have hforced : op.force = true := by
    by_contra hforce
    exact hreplaced (config_unforced (by simpa using hforce) hours hconfig)
  cases op with
  | applySeed name force =>
    obtain ⟨e, -, hsame⟩ | ⟨tree', seed, files, htree', hseed, -, hfiles, hsave, hrun⟩ :=
      applySeed_cases sha env c fw name force s
    · exact absurd (hsame.trans hconfig) hreplaced
    · obtain rfl : tree = tree' := Option.some.inj (htree.symm.trans htree')
      have hother := custom_eq_false hseed hcustom
      rw [seeding_not_ours hother hours hconfig] at hfiles
      rw [Operation.run, hrun] at hreplaced ⊢
      simp only [Function.update_self] at hreplaced ⊢
      have hwritten : tree.writeConfig (tree.load seed.file) ≠ config := fun he =>
        hreplaced (congrArg some he)
      have htarget : (Operation.applySeed name force).target env fw s =
          some (tree.writeConfig (tree.load seed.file)) := by
        rw [Operation.target, htree, hseed]
      have hkept : files.custom = customAfter env (.applySeed name force) c tree fw (s fw) config ∧
          ¬CaptureStops (.applySeed name force) c (s fw) := by
        unfold customAfter CaptureStops
        cases hrecord : (s fw).record with
        | none =>
          rw [hrecord] at hfiles
          cases hfiles
          exact ⟨rfl, id⟩
        | some record =>
          rw [hrecord] at hfiles
          obtain ⟨hfails, rfl⟩ := captureCustom_ok hfiles hconfig
          exact ⟨rfl, by simp [hfails]⟩
      exact ⟨hkept.1, ⟨htree, hconfig, hours, hforced, hcustom, ⟨_, htarget, hwritten⟩, hsave⟩,
        hkept.2⟩
  | deriveBootloader app force =>
    obtain ⟨e, hsame⟩ | ⟨-, bootTree, answers, appConfig, -, htree', -, htarget, hsave, hrun⟩ :=
      deriveBootloader_cases sha env c app fw force s
    · rw [Operation.run, hsame] at hreplaced
      exact absurd hconfig hreplaced
    · obtain rfl : tree = bootTree := Option.some.inj (htree.symm.trans htree')
      rw [Operation.run, hrun] at hreplaced ⊢
      simp only [Function.update_self] at hreplaced ⊢
      have hwritten : tree.writeConfig (tree.load answers) ≠ config := fun he =>
        hreplaced (congrArg some he)
      exact ⟨rfl, ⟨htree, hconfig, hours, hforced, hcustom, ⟨_, htarget, hwritten⟩, hsave⟩, id⟩
  | reseedIfMoved => cases hforced

omit [DecidableEq δ] in
theorem captureCustom_of_not_fails {parent : Option Str} {files : Files δ}
    (hconfig : files.config = some config) (hfails : ¬c.fails .capture = true) :
    ∃ kept, captureCustom env c tree fw parent files = .ok kept := by
  unfold captureCustom
  rw [hconfig]
  exact ⟨_, if_neg hfails⟩

/-- An endangered `.config` is replaced unless the capture stops the operation. -/
theorem replaced_of_endangered {op : Operation} (h : Endangered sha env op c fw s tree config)
    (hgo : ¬CaptureStops op c (s fw)) : Replaced sha env op c fw s tree config := by
  obtain ⟨htree, hconfig, hours, hforced, hcustom, ⟨file, htarget, hwritten⟩, hsave⟩ := h
  refine ⟨htree, hconfig, hours, ?_, hcustom⟩
  have hwritten : some file ≠ some config := fun h => hwritten (Option.some.inj h)
  have hsave : ¬c.fails .save = true := by simp [hsave]
  have hgoes : ¬refuses sha env fw true s = true := nofun
  cases op with
  | applySeed name force =>
    obtain rfl : force = true := hforced
    rw [Operation.target, htree] at htarget
    cases hseed : find env fw name (s fw) with
    | none =>
      rw [hseed] at htarget
      cases htarget
    | some seed =>
      rw [hseed] at htarget
      obtain rfl := Option.some.inj htarget
      have hfiles : ∃ files, (if seed.custom then .ok (s fw)
          else keepCurrentAnswers sha env c tree fw s) = .ok files := by
        rw [seeding_not_ours (custom_eq_false hseed hcustom) hours hconfig]
        unfold CaptureStops at hgo
        cases hrecord : (s fw).record with
        | none => exact ⟨_, rfl⟩
        | some record =>
          rw [hrecord] at hgo
          exact captureCustom_of_not_fails hconfig hgo
      obtain ⟨files, hfiles⟩ := hfiles
      rw [Operation.run, applySeed, htree, hseed]
      simp only [if_neg hgoes, hfiles, if_neg hsave, Function.update_self]
      exact hwritten
  | deriveBootloader app force =>
    obtain rfl : force = true := hforced
    rw [Operation.target, htree] at htarget
    rw [Operation.run, deriveBootloader, htree]
    cases happ : env.tree app with
    | none =>
      rw [happ] at htarget
      cases htarget
    | some appTree =>
      cases hfile : (s app).config with
      | none =>
        rw [happ, hfile] at htarget
        cases htarget
      | some appConfig =>
        rw [happ, hfile] at htarget
        dsimp only at htarget ⊢
        split_ifs at htarget with haddress
        obtain rfl := Option.some.inj htarget
        have hagree : ¬(!true) = true := nofun
        simp only [haddress, if_neg hgoes, if_neg hagree, if_neg hsave, Function.update_self]
        exact hwritten
  | reseedIfMoved => cases hforced

omit [DecidableEq δ] in
theorem holds_customAfter (hname : ' ' ∉ env.mcuType) {op : Operation} :
    Holds tree (customAfter env op c tree fw (s fw) config) config ∨ CaptureStops op c (s fw) ↔
      Recoverable op c tree config (s fw) := by
  unfold customAfter CaptureStops Recoverable
  cases op with
  | applySeed name force =>
    cases (s fw).record with
    | none => simp
    | some record =>
      simp only [Holds, Option.some.injEq, exists_eq_left']
      rw [load_captured hname, load_minimalAnswers_iff, or_comm]
  | deriveBootloader app force => simp
  | reseedIfMoved => simp

/-- The user's answers survive exactly when those under a forced overwrite are captured whole,
or were in the user's own profile already: a `.config` never seeded and a derivation are not
captured. -/
theorem answers_kept_iff (hname : ' ' ∉ env.mcuType) (op : Operation) :
    AnswersKept sha env op c fw s ↔
      ∀ tree config, Endangered sha env op c fw s tree config →
        Recoverable op c tree config (s fw) := by
  constructor
  · rintro ⟨held, -⟩ tree config h
    rw [← holds_customAfter hname]
    by_cases hstops : CaptureStops op c (s fw)
    · exact .inr hstops
    · have hreplaced := replaced_of_endangered h hstops
      exact .inl ((custom_of_replaced hreplaced).1 ▸ held tree config hreplaced)
  · intro h
    refine ⟨fun tree config hreplaced => ?_, fun hforce hours config hconfig =>
      config_unforced hforce hours hconfig⟩
    obtain ⟨hcustom, hendangered, hstops⟩ := custom_of_replaced hreplaced
    have hholds := (holds_customAfter hname).mpr (h tree config hendangered)
    exact hcustom ▸ hholds.resolve_right hstops

/-- A type that was seeded from `config.board`, with its boolean turned on by the user since. -/
def customisedFiles : Files File where
  config := some onFile
  record := some ⟨some "config.board".toList, some ["# the defaults".toList], some [offLine], []⟩

/-- The vendor's seed is forced over the user's answer, which is captured first. -/
theorem answers_kept_iff_on :
    Replaced id offEnv (.applySeed "config.board".toList true) calm [] (fun _ => customisedFiles)
      (oneBoolOf false) onFile ∧
    AnswersKept id offEnv (.applySeed "config.board".toList true) calm []
      (fun _ => customisedFiles) := by
  have hours : ¬Ours id customisedFiles := by
    rintro ⟨config, record, hconfig, hrecord, hsha⟩
    cases hconfig
    cases hrecord
    exact absurd hsha (by decide)
  refine ⟨⟨rfl, rfl, hours, by decide, by unfold Operation.SeedIsCustom; decide⟩,
    (answers_kept_iff (by decide) (.applySeed "config.board".toList true)).mpr ?_⟩
  rintro tree config ⟨htree, hconfig, -⟩
  cases htree
  cases hconfig
  refine .inr fun line hline => ?_
  obtain rfl : line = "CONFIG_A=y".toList := List.mem_singleton.mp hline
  decide

/-- A `.config` made by hand is replaced under force and its answers are nowhere. -/
theorem unmanaged_answers_lost :
    ¬AnswersKept id boardEnv (.applySeed "config.board".toList true) calm []
      (fun _ => { config := some [offLine] }) := by
  intro h
  have hours : ¬Ours id ({ config := some [offLine] } : Files File) :=
    fun ⟨_, _, _, hrecord, _⟩ => nomatch hrecord
  have hreplaced : ((applySeed id boardEnv calm [] "config.board".toList true
      fun _ => { config := some [offLine] }).1 []).config ≠ some [offLine] := by decide
  obtain ⟨file, hfile, -⟩ := h.held oneBool [offLine] ⟨rfl, rfl, hours, hreplaced, by
    unfold Operation.SeedIsCustom
    decide⟩
  have hnone : ((applySeed id boardEnv calm [] "config.board".toList true
      fun _ => { config := some [offLine] }).1 []).custom = none := rfl
  exact nomatch hnone.symm.trans hfile

end Facts

end McuUpdater.Profiles
