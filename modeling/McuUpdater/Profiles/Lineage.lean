import McuUpdater.Profiles.Seeding
import McuUpdater.Lib.PyLines
import McuUpdater.Lib.Transition

/-! `profiles.py`: which profile a type's own one says that it was forked from, through seedings,
edits and captures. -/
namespace McuUpdater.Profiles
open PyText Transition

/-- A profile, and what it answered when another was forked from it. -/
abbrev ForkPoint := Option Str × List Str

/-- The text `capture_custom` writes of these lines. -/
def captureText (lines : File) : Str := joinWith ['\n'] lines ++ ['\n']

/-- `read_custom`, as the parent and the base -/
def readCustom {δ : Type} (files : Files δ) : Option ForkPoint :=
  files.custom.map fun lines => readHeader (fileLines (captureText lines))

/-- A stripped word on a line. -/
structure Plain (s : Str) : Prop where
  ne : s ≠ []
  trimmed : Trimmed s
  unbroken : Unbroken s

structure ForkPoint.Plain (point : ForkPoint) : Prop where
  parent : ∀ name, point.1 = some name → Profiles.Plain name
  base : ∀ line ∈ point.2, Profiles.Plain line

/-- The files of a type, with what their captures recorded and how the configurations came about. -/
structure History (δ : Type) where
  files : TypeFiles δ
  /-- what the last `capture_custom` returned, by family -/
  recorded : Str → Option ForkPoint := fun _ => none
  /-- where the user's own profile was forked that the configuration is made of, with later edits -/
  fork : Str → Option ForkPoint := fun _ => none

inductive ProfileStep
  | run (op : Operation)
  /-- `forget` -/
  | forget
  /-- of the `.config`, by hand -/
  | edit (config : Option File)
  /-- `kconfig_save`, of a session that has this configuration -/
  | save (edited : File)
  /-- `capture_custom`, with the parent that its callers give it -/
  | capture

/-- A step for one family, with the trees as they are then. -/
structure ProfileCall where
  env : Env
  conditions : Conditions
  fw : Str
  step : ProfileStep

section Model
variable {δ : Type} [DecidableEq δ] (sha : File → δ) (env : Env)

/-- Whether `_capture_answers` gets to `capture_custom`. -/
def capturesSaved (fw : Str) (answers : List Str) (s : TypeFiles δ) : Bool :=
  !answers.isEmpty &&
    match (status sha env fw s).reason with
    | some .customised => true
    | some .unmanaged => (s fw).custom.isSome || (env.vendor fw).any (·.1 ≠ customProfile)
    | _ => false

namespace History

def setFiles (fw : Str) (files : Files δ) (h : History δ) : History δ :=
  { h with files := Function.update h.files fw files }

def capture (c : Conditions) (tree : KconfigTree) (fw : Str) (h : History δ) :
    Except ProfileError (History δ) :=
  let parent := (status sha env fw h.files).profile
  (captureCustom env c tree fw parent (h.files fw)).map fun files =>
    let point := forkedFrom (h.files fw) parent
    { files := Function.update h.files fw files
      recorded := Function.update h.recorded fw (some point)
      fork := Function.update h.fork fw ((h.fork fw).or (some point)) }

/-- The end of `apply_seed` -/
def writeSeed (c : Conditions) (tree : KconfigTree) (fw : Str) (seed : Seed) (h : History δ) :
    History δ :=
  if c.fails .save then h
  else
    { h with
      files := Function.update h.files fw
        (writeSeeded sha c tree (tree.load seed.file) seed.name (some seed.file) (h.files fw))
      fork := Function.update h.fork fw (if seed.custom then h.recorded fw else none) }

/-- `apply_seed` -/
def applySeed (c : Conditions) (fw name : Str) (force : Bool) (h : History δ) : History δ :=
  match env.tree fw, find env fw name (h.files fw) with
  | some tree, some seed =>
    if refuses sha env fw force h.files then h
    else
      match if seed.custom || (status sha env fw h.files).reason ≠ some .customised then .ok h
        else h.capture sha env c tree fw with
      | .error _ => h
      | .ok kept => kept.writeSeed sha c tree fw seed
  | _, _ => h

/-- `derive_bootloader` -/
def deriveBootloader (c : Conditions) (app fw : Str) (force : Bool) (h : History δ) : History δ :=
  let (files, error) := Profiles.deriveBootloader sha env c app fw force h.files
  { h with
    files
    fork := if error.isSome then h.fork else Function.update h.fork fw none }

/-- `reseed_if_moved` -/
def reseedIfMoved (c : Conditions) (fw : Str) (h : History δ) : History δ :=
  match (status sha env fw h.files).reason, (status sha env fw h.files).profile with
  | some .seedMoved, some (x :: name) =>
    match after derivedTag (x :: name) with
    | some app => h.deriveBootloader sha env c app fw false
    | none => h.applySeed sha env c fw (x :: name) false
  | _, _ => h

/-- `kconfig_save`; what is captured are the answers of the file it writes. -/
def save (c : Conditions) (fw : Str) (edited : File) (h : History δ) : History δ :=
  match env.tree fw with
  | none => h
  | some tree =>
    if c.fails .save then h
    else
      let config := tree.writeConfig (tree.load edited)
      let saved := h.setFiles fw { h.files fw with config := some config }
      if capturesSaved sha env fw (minimalAnswers tree (tree.load edited)) saved.files then
        (saved.capture sha env c tree fw).toOption.getD saved
      else saved

def step (h : History δ) (call : ProfileCall) : Option (History δ) :=
  let { env, conditions, fw, step } := call
  some <| match step with
    | .run (.applySeed name force) => h.applySeed sha env conditions fw name force
    | .run (.deriveBootloader app force) => h.deriveBootloader sha env conditions app fw force
    | .run .reseedIfMoved => h.reseedIfMoved sha env conditions fw
    | .forget =>
      if conditions.fails .record then h else h.setFiles fw { h.files fw with record := none }
    | .edit config => h.setFiles fw { h.files fw with config }
    | .save edited => h.save sha env conditions fw edited
    | .capture =>
      match env.tree fw with
      | none => h
      | some tree => (h.capture sha env conditions tree fw).toOption.getD h

def Fresh (h : History δ) : Prop :=
  (∀ fw, (h.files fw).custom = none ∧ (h.files fw).record = none) ∧
    (∀ fw, h.recorded fw = none) ∧ ∀ fw, h.fork fw = none

/-- The user's own profile reads as it was recorded, was not forked from itself, and keeps its fork
point while the configuration is made of it. -/
structure KeepsLineage (h : History δ) : Prop where
  read : ∀ fw, readCustom (h.files fw) = h.recorded fw
  parent : ∀ fw point, readCustom (h.files fw) = some point → point.1 ≠ some customProfile
  kept : ∀ fw point, h.fork fw = some point → h.recorded fw = some point

end History

/-- The names are of one line, and the type's is not read as a tag. -/
structure Env.Plain (env : Env) : Prop where
  name : Unbroken env.mcuType
  untagged : ¬"base:".toList <+: env.mcuType
  family : ∀ fw tree, env.tree fw = some tree → Unbroken fw ∧ Trimmed fw
  lines : ∀ fw tree, env.tree fw = some tree → ∀ f, ∀ line ∈ tree.minConfig (tree.load f), Unbroken line
  vendor : ∀ fw, ∀ seed ∈ env.vendor fw, Unbroken seed.1

/-- The record names the user's own profile or its fork point. -/
def Record.Traces (point : ForkPoint) (record : Record δ) : Prop :=
  record.profile = some customProfile ∨
    record.profile = point.1 ∧ (point.2 = [] → record.answers = [])

/-- Where the user's own profile is applied, its record is written, or the one left in place names
that profile or its fork point. -/
def Traceable (h : History δ) (call : ProfileCall) : Prop :=
  call.env.Plain ∧ Unbroken call.conditions.time ∧
    match call.step with
    | .run (.applySeed name _) =>
      strip name = customProfile → call.conditions.fails .record = true →
        ∀ record point, (h.files call.fw).record = some record →
          readCustom (h.files call.fw) = some point → record.Traces point
    | _ => True

end Model

/-- What a comment of the header starts with. -/
def IsTag (tag : Str) : Prop := ∃ x rest, tag = '#' :: ' ' :: x :: rest ∧ x ≠ 'C'

section Header
variable {env : Env} {fw time line name tag p s : Str} {parent : Option Str} {base names : List Str}
  {rest answers : File} {point : ForkPoint}

theorem parentTag_eq : parentTag = '#' :: ' ' :: 'f' :: "orked-from:".toList := by decide

theorem baseTag_eq : baseTag = '#' :: ' ' :: 'b' :: "ase:".toList := by decide

theorem isTag_parentTag : IsTag parentTag := ⟨_, _, parentTag_eq, by decide⟩

theorem isTag_baseTag : IsTag baseTag := ⟨_, _, baseTag_eq, by decide⟩

theorem after_append (p s : Str) : after p (p ++ s) = some s := by
  rw [after, if_pos (List.prefix_append p s), List.drop_left]

theorem strip_blank_cons (s : Str) : strip (' ' :: s) = strip s := by
  have hblank : isSpace ' ' = true := by decide
  rw [strip, strip, lstrip, lstrip, List.dropWhile_cons, if_pos hblank]

theorem strip_hash (s : Str) : ∃ t, strip ('#' :: s) = '#' :: t ∧ t <+: s := by
  have hl : lstrip ('#' :: s) = '#' :: s := lstrip_cons_of_not_space (by decide)
  have hp : strip ('#' :: s) <+: '#' :: s := by
    rw [strip, hl]
    exact List.rdropWhile_prefix isSpace _
  cases ht : strip ('#' :: s) with
  | nil =>
    have hspace := strip_eq_nil_iff.mp ht '#' (List.mem_cons_self ..)
    exact absurd hspace (by decide)
  | cons c t =>
    rw [ht] at hp
    obtain ⟨rfl, htail⟩ := List.cons_prefix_cons.mp hp
    exact ⟨t, rfl, htail⟩

theorem parseAnswer_hash (h : ¬("# CONFIG_".toList <+: strip ('#' :: s) ∧
    " is not set".toList <:+ strip ('#' :: s))) : parseAnswer ('#' :: s) = none := by
  obtain ⟨t, ht, -⟩ := strip_hash s
  have hset : after "CONFIG_".toList ('#' :: t) = none := if_neg (by simp)
  rw [ht] at h
  rw [parseAnswer, ht, hset]
  by_cases hp : "# CONFIG_".toList <+: '#' :: t
  · rw [after, if_pos hp]
    refine if_neg fun hsuffix => h ⟨hp, ?_⟩
    exact hsuffix.trans (List.drop_suffix ..)
  · rw [after, if_neg hp]

theorem Plain.strip_blank (hs : Plain s) : strip (' ' :: s) = s :=
  (strip_blank_cons s).trans (strip_of_trimmed hs.trimmed)

theorem strip_tagged (htag : IsTag tag) (hs : Plain s) :
    strip (tag ++ ' ' :: s) = tag ++ ' ' :: s := by
  obtain ⟨x, rest, rfl, -⟩ := htag
  have hlast : ('#' :: ' ' :: x :: rest ++ ' ' :: s).getLast? = s.getLast? := by
    rw [List.getLast?_append_of_ne_nil _ (List.cons_ne_nil ' ' s), ← List.singleton_append,
      List.getLast?_append_of_ne_nil _ hs.ne]
  refine strip_of_trimmed ⟨fun c hc => ?_, fun c hc => hs.trimmed.2 c (hlast ▸ hc)⟩
  cases hc
  decide

theorem parseAnswer_tagged (htag : IsTag tag) (s : Str) : parseAnswer (tag ++ s) = none := by
  obtain ⟨x, rest, rfl, hx⟩ := htag
  refine parseAnswer_hash fun h => ?_
  obtain ⟨t, ht, htail⟩ := strip_hash (' ' :: x :: rest ++ s)
  have hline := (ht ▸ h.1).trans (List.cons_prefix_cons.mpr ⟨rfl, htail⟩)
  simp [List.cons_prefix_cons, hx.symm] at hline

theorem after_parentTag_base (s : Str) : after parentTag (baseTag ++ s) = none := by
  rw [parentTag_eq, baseTag_eq]
  exact if_neg (by simp)

theorem readHeaderFrom_parent (hname : Plain name) :
    readHeaderFrom parent base ((parentTag ++ ' ' :: name) :: rest) =
      readHeaderFrom (some name) base rest := by
  rw [readHeaderFrom, parseAnswer_tagged isTag_parentTag, strip_tagged isTag_parentTag hname,
    after_append]
  dsimp only
  rw [hname.strip_blank, if_neg hname.ne]
  rfl

theorem readHeaderFrom_noParent :
    readHeaderFrom parent base (parentTag :: rest) = readHeaderFrom none base rest := by
  have hstrip : strip parentTag = parentTag := by decide
  have hanswer := parseAnswer_tagged isTag_parentTag []
  have hafter := after_append parentTag []
  rw [List.append_nil] at hanswer hafter
  rw [readHeaderFrom, hanswer, hstrip, hafter]
  rfl

theorem readHeaderFrom_base (hname : Plain name) :
    readHeaderFrom parent base ((baseTag ++ ' ' :: name) :: rest) =
      readHeaderFrom parent (base ++ [name]) rest := by
  rw [readHeaderFrom, parseAnswer_tagged isTag_baseTag, strip_tagged isTag_baseTag hname,
    after_parentTag_base, after_append]
  dsimp only
  rw [hname.strip_blank, if_neg hname.ne]
  rfl

theorem readHeaderFrom_bases (hnames : ∀ name ∈ names, Plain name) :
    readHeaderFrom parent base ((names.map fun name => baseTag ++ ' ' :: name) ++ rest) =
      readHeaderFrom parent (base ++ names) rest := by
  induction names generalizing base with
  | nil => rw [List.map_nil, List.nil_append, List.append_nil]
  | cons name names ih =>
    rw [List.forall_mem_cons] at hnames
    rw [List.map_cons, List.cons_append, readHeaderFrom_base hnames.1, ih hnames.2,
      List.append_assoc, List.singleton_append]

theorem after_strip_hash (h : ¬p <+: '#' :: s) : after p (strip ('#' :: s)) = none := by
  obtain ⟨t, ht, htail⟩ := strip_hash s
  rw [ht]
  exact if_neg fun hp => h (hp.trans (List.cons_prefix_cons.mpr ⟨rfl, htail⟩))

theorem readHeaderFrom_skip (hanswer : parseAnswer line = none)
    (hparent : after parentTag (strip line) = none) (hbase : after baseTag (strip line) = none) :
    readHeaderFrom parent base (line :: rest) = readHeaderFrom parent base rest := by
  rw [readHeaderFrom, hanswer, hparent, hbase]
  rfl

theorem readHeaderFrom_time (time : Str) :
    readHeaderFrom parent base (("# captured: ".toList ++ time) :: rest) =
      readHeaderFrom parent base rest := by
  have hline : "# captured: ".toList = '#' :: ' ' :: 'c' :: "aptured: ".toList := by decide
  have hanswer := parseAnswer_tagged ⟨_, _, hline, by decide⟩ time
  rw [hline] at hanswer ⊢
  refine readHeaderFrom_skip hanswer (after_strip_hash ?_) (after_strip_hash ?_)
  · rw [parentTag_eq]
    simp
  · rw [baseTag_eq]
    simp

def ownerLine (env : Env) (fw : Str) : Str :=
  ["# ".toList, env.mcuType, "'s own ".toList, fw, " answers, saved by mcu-updater.".toList].flatten

theorem ownerLine_eq (env : Env) (fw : Str) : ownerLine env fw =
    '#' :: (" ".toList ++ env.mcuType ++ "'s own ".toList ++ fw ++
      " answers, saved by mcu-updater".toList ++ ['.']) := by
  simp [ownerLine]

theorem strip_ownerLine (env : Env) (fw : Str) : strip (ownerLine env fw) = ownerLine env fw := by
  refine strip_of_trimmed ⟨fun c hc => ?_, fun c hc => ?_⟩
  · rw [ownerLine_eq] at hc
    cases hc
    decide
  · rw [ownerLine_eq, ← List.cons_append, List.getLast?_concat] at hc
    cases hc
    decide

theorem parseAnswer_ownerLine (env : Env) (fw : Str) : parseAnswer (ownerLine env fw) = none := by
  have hstrip := strip_ownerLine env fw
  rw [ownerLine_eq] at hstrip ⊢
  refine parseAnswer_hash fun h => ?_
  obtain ⟨front, hfront⟩ := hstrip ▸ h.2
  have hlast := congrArg List.getLast? hfront
  rw [← List.cons_append, List.getLast?_concat] at hlast
  simp at hlast

theorem not_baseTag_ownerLine (hname : ¬"base:".toList <+: env.mcuType) (fw : Str) :
    ¬baseTag <+: ownerLine env fw := by
  intro h
  have hbase : baseTag = "# ".toList ++ "base:".toList := by decide
  have hline : ownerLine env fw = "# ".toList ++
      (env.mcuType ++ Char.ofNat 39 :: ("s own ".toList ++ (fw ++
        " answers, saved by mcu-updater.".toList))) := by
    simp [ownerLine]
  rw [hbase, hline, List.prefix_append_right_inj] at h
  exact hname (prefix_of_notMem (by decide) h)

/-- The first line names the type; what it may be read as is not heeded. -/
theorem readHeaderFrom_owner (hname : ¬"base:".toList <+: env.mcuType) :
    ∃ other, readHeaderFrom parent base (ownerLine env fw :: rest) =
      readHeaderFrom other base rest := by
  have hbase : after baseTag (ownerLine env fw) = none := if_neg (not_baseTag_ownerLine hname fw)
  rw [readHeaderFrom, parseAnswer_ownerLine, strip_ownerLine, hbase]
  cases after parentTag (ownerLine env fw) with
  | none => exact ⟨parent, rfl⟩
  | some other => exact ⟨_, rfl⟩

theorem readHeaderFrom_answers (h : ∀ line ∈ answers, (parseAnswer line).isSome = true) :
    readHeaderFrom parent base answers = (parent, base) := by
  cases answers with
  | nil => rfl
  | cons line answers => rw [readHeaderFrom, if_pos (h line (List.mem_cons_self ..))]

def parentLine : Option Str → Str
  | some (c :: name) => parentTag ++ ' ' :: c :: name
  | _ => parentTag

theorem captureHeader_eq (env : Env) (fw time : Str) (point : ForkPoint) :
    captureHeader env fw time point.1 point.2 =
      ownerLine env fw :: parentLine point.1 :: ("# captured: ".toList ++ time) ::
        point.2.map fun line => baseTag ++ ' ' :: line := by
  obtain ⟨parent, base⟩ := point
  match parent with
  | none => rfl
  | some [] => rfl
  | some (c :: name) => rfl

theorem readHeaderFrom_parentLine {other : Option Str} (h : ∀ name, parent = some name → Plain name) :
    readHeaderFrom other base (parentLine parent :: rest) = readHeaderFrom parent base rest := by
  match parent with
  | none => exact readHeaderFrom_noParent
  | some [] => exact absurd rfl (h [] rfl).ne
  | some (c :: name) => exact readHeaderFrom_parent (h (c :: name) rfl)

theorem readHeader_capture (hname : ¬"base:".toList <+: env.mcuType) (hpoint : point.Plain)
    (hanswers : ∀ line ∈ answers, (parseAnswer line).isSome = true) :
    readHeader (captureHeader env fw time point.1 point.2 ++ answers) = point := by
  rw [captureHeader_eq, readHeader, List.cons_append]
  obtain ⟨other, howner⟩ := readHeaderFrom_owner hname
  rw [howner, List.cons_append, readHeaderFrom_parentLine hpoint.parent, List.cons_append,
    readHeaderFrom_time, readHeaderFrom_bases hpoint.base, readHeaderFrom_answers hanswers,
    List.nil_append]

theorem unbroken_captureHeader (hname : Unbroken env.mcuType) (hfw : Unbroken fw)
    (htime : Unbroken time) (hpoint : point.Plain) :
    ∀ line ∈ captureHeader env fw time point.1 point.2, Unbroken line := by
  have hparent : Unbroken parentTag := by decide
  have hbase : Unbroken baseTag := by decide
  have hblank : ¬(' ' = '\n' ∨ ' ' = '\r') := by decide
  rw [captureHeader_eq]
  intro line hl
  simp only [List.mem_cons, List.mem_map] at hl
  rcases hl with rfl | rfl | rfl | ⟨answer, hanswer, rfl⟩
  · simp only [ownerLine, List.flatten_cons, List.flatten_nil, List.append_nil, unbroken_append]
    exact ⟨by decide, hname, by decide, hfw, by decide⟩
  · unfold parentLine
    split
    · have hnamed := (hpoint.parent _ ‹_›).unbroken
      exact unbroken_append.mpr ⟨hparent, unbroken_cons.mpr ⟨hblank, hnamed⟩⟩
    · exact hparent
  · exact unbroken_append.mpr ⟨by decide, htime⟩
  · exact unbroken_append.mpr ⟨hbase, unbroken_cons.mpr ⟨hblank, (hpoint.base _ hanswer).unbroken⟩⟩

end Header

section Answers
variable {tree : KconfigTree} {f : File} {line : Str}

theorem parseAnswer_isSome (hset : isSet line = true) (hstrip : strip line = line) :
    (parseAnswer line).isSome = true := by
  rw [isSet] at hset
  split at hset
  · rename_i rest hrest
    rw [after] at hrest
    split_ifs at hrest with hp
    cases hrest
    have hunset : after "# CONFIG_".toList line = none := by
      obtain ⟨tail, rfl⟩ := hp
      exact if_neg (by simp)
    have hmem : '=' ∈ line.drop "CONFIG_".toList.length := by
      simp only [Bool.and_eq_true, List.contains_iff_mem] at hset
      exact hset.2
    rw [parseAnswer, hstrip, hunset, after, if_pos hp]
    dsimp only
    rw [if_pos hmem]
    rfl
  · cases hset

theorem strip_minimalAnswers : ∀ line ∈ minimalAnswers tree (tree.load f), strip line = line := by
  intro line hl
  rw [minimalAnswers, List.mem_map] at hl
  obtain ⟨raw, -, rfl⟩ := hl
  exact strip_strip raw

theorem plain_minimalAnswers (h : ∀ line ∈ tree.minConfig (tree.load f), Unbroken line) :
    ∀ line ∈ minimalAnswers tree (tree.load f), Plain line := by
  intro line hl
  rw [minimalAnswers, List.mem_map] at hl
  obtain ⟨raw, hraw, rfl⟩ := hl
  obtain ⟨hmem, hkeeps⟩ := List.mem_filter.mp hraw
  have hne : strip raw ≠ [] := by
    intro he
    simp [he] at hkeeps
  exact ⟨hne, trimmed_strip raw, (h raw hmem).sublist (strip_sublist raw)⟩

theorem parseAnswer_minimalAnswers (tree : KconfigTree) (f : File) :
    ∀ line ∈ minimalAnswers tree (tree.load f), (parseAnswer line).isSome = true := by
  intro line hl
  have hstrip := strip_minimalAnswers line hl
  rw [minimalAnswers_eq] at hl
  exact parseAnswer_isSome (List.mem_filter.mp hl).2 hstrip

end Answers

/-- What holds of the files of one family, with what was recorded of them. -/
structure Consistent {δ : Type} (files : Files δ) (recorded fork : Option ForkPoint) : Prop where
  unbroken : ∀ lines, files.custom = some lines → lines ≠ [] ∧ ∀ line ∈ lines, Unbroken line
  read : files.custom.map readHeader = recorded
  plain : ∀ point, recorded = some point → point.Plain ∧ point.1 ≠ some customProfile
  record : ∀ record, files.record = some record →
    (∃ name, record.profile = some name ∧ Plain name) ∧ ∀ line ∈ record.answers, Plain line
  kept : ∀ point, fork = some point → recorded = some point
  traced : ∀ point record, fork = some point → files.record = some record → record.Traces point

section Captures
variable {δ : Type} {files : Files δ} {recorded fork : Option ForkPoint} {record : Record δ}
  {point : ForkPoint} {name : Str}

theorem readCustom_eq (h : Consistent files recorded fork) : readCustom files = recorded := by
  rw [← h.read, readCustom]
  cases hcustom : files.custom with
  | none => rfl
  | some lines =>
    obtain ⟨hne, hlines⟩ := h.unbroken lines hcustom
    rw [Option.map_some, Option.map_some, captureText, fileLines_joinWith hlines hne]

/-- From a record that names the user's own profile, or without one, the fork point is kept. -/
theorem forkedFrom_own (h : ∀ record, files.record = some record →
    record.profile = some customProfile) :
    forkedFrom files (files.record.bind (·.profile)) =
      (files.custom.map readHeader).getD (none, []) := by
  cases hrecord : files.record with
  | none => cases hcustom : files.custom <;> simp [forkedFrom, hrecord, hcustom]
  | some record =>
    cases hcustom : files.custom <;>
      simp [forkedFrom, hrecord, hcustom, h record hrecord, Option.filter_some]

/-- From a record that names another profile, the fork point is that profile, with the record's
answers unless a fork of it was kept before. -/
theorem forkedFrom_other (hrecord : files.record = some record) (hname : record.profile = some name)
    (hne : name ≠ []) (hother : name ≠ customProfile) :
    forkedFrom files (files.record.bind (·.profile)) =
      match files.custom.map readHeader with
      | some (some forked, b :: base) =>
        if forked = name then (some name, b :: base) else (some name, record.answers)
      | _ => (some name, record.answers) := by
  cases hcustom : files.custom with
  | none => simp [forkedFrom, hrecord, hname, hcustom, hne, hother, Option.filter_some]
  | some lines =>
    rcases hheader : readHeader lines with ⟨_ | forked, _ | ⟨b, base⟩⟩ <;>
      simp [forkedFrom, hrecord, hname, hcustom, hne, hother, hheader, Option.filter_some]

def nextFork (files : Files δ) : ForkPoint := forkedFrom files (files.record.bind (·.profile))

theorem Consistent.own_or_other (h : Consistent files recorded fork) :
    (∀ record, files.record = some record → record.profile = some customProfile) ∨
      ∃ record name, files.record = some record ∧ record.profile = some name ∧
        name ≠ customProfile ∧ Plain name ∧ ∀ line ∈ record.answers, Plain line := by
  cases hrecord : files.record with
  | none => exact .inl nofun
  | some record =>
    obtain ⟨⟨name, hname, hplain⟩, hanswers⟩ := h.record record hrecord
    by_cases hown : name = customProfile
    · left
      intro record' hsame
      cases hsame
      rw [hname, hown]
    · exact .inr ⟨record, name, rfl, hname, hown, hplain, hanswers⟩

theorem nextFork_other (hrecord : files.record = some record) (hname : record.profile = some name)
    (hother : name ≠ customProfile) (hplain : Plain name) :
    nextFork files = (some name, record.answers) ∨
      ∃ b base, nextFork files = (some name, b :: base) ∧
        files.custom.map readHeader = some (some name, b :: base) := by
  rw [nextFork, forkedFrom_other hrecord hname hplain.ne hother]
  split
  · rename_i forked b base hheader
    split_ifs with hsame
    · rw [hsame] at hheader
      exact .inr ⟨b, base, rfl, hheader⟩
    · exact .inl rfl
  · exact .inl rfl

theorem Consistent.plain_nextFork (h : Consistent files recorded fork) :
    (nextFork files).Plain ∧ (nextFork files).1 ≠ some customProfile := by
  rcases h.own_or_other with hown | ⟨record, name, hrecord, hname, hother, hplain, hanswers⟩
  · rw [nextFork, forkedFrom_own hown, h.read]
    cases hpoint : recorded with
    | none => exact ⟨⟨nofun, nofun⟩, nofun⟩
    | some point => exact h.plain point hpoint
  · have hnamed : ∀ other, some name = some other → Plain other := by
      intro other hsame
      cases hsame
      exact hplain
    have hne : some name ≠ some customProfile := fun hsame => hother (Option.some.inj hsame)
    rcases nextFork_other hrecord hname hother hplain with hnext | ⟨b, base, hnext, hkept⟩
    · rw [hnext]
      exact ⟨⟨hnamed, hanswers⟩, hne⟩
    · rw [hnext]
      exact ⟨⟨hnamed, (h.plain _ (h.read ▸ hkept)).1.base⟩, hne⟩

theorem Consistent.traces_nextFork (h : Consistent files recorded fork)
    (hrecord : files.record = some record) : record.Traces (nextFork files) := by
  rcases h.own_or_other with hown | ⟨record', name, hrecord', hname, hother, hplain, -⟩
  · exact .inl (hown record hrecord)
  · cases hrecord.symm.trans hrecord'
    right
    rcases nextFork_other hrecord hname hother hplain with hnext | ⟨b, base, hnext, -⟩
    · rw [hnext]
      exact ⟨hname, id⟩
    · rw [hnext]
      exact ⟨hname, nofun⟩

theorem Consistent.nextFork_eq (h : Consistent files recorded fork) (hfork : fork = some point) :
    nextFork files = point := by
  have hkept : files.custom.map readHeader = some point := h.read.trans (h.kept point hfork)
  rcases h.own_or_other with hown | ⟨record, name, hrecord, hname, hother, hplain, -⟩
  · rw [nextFork, forkedFrom_own hown, hkept]
    rfl
  · rcases h.traced point record hfork hrecord with hown | ⟨hparent, hbase⟩
    · rw [hname] at hown
      exact absurd (Option.some.inj hown) hother
    · obtain ⟨parent, base⟩ := point
      rw [hname] at hparent
      cases hparent
      rw [nextFork, forkedFrom_other hrecord hname hplain.ne hother, hkept]
      cases base with
      | nil => exact congrArg (some name, ·) (hbase rfl)
      | cons b base => exact if_pos rfl

variable {env : Env} {c : Conditions} {fw time profile : Str} {tree : KconfigTree} {config f : File}
  {source : Option File} {sha : File → δ} {fork' : Option ForkPoint}

theorem Consistent.withConfig (h : Consistent files recorded fork) (config : Option File) :
    Consistent { files with config } recorded fork :=
  ⟨h.unbroken, h.read, h.plain, h.record, h.kept, h.traced⟩

theorem Consistent.forget (h : Consistent files recorded fork) :
    Consistent ({ files with record := none } : Files δ) recorded fork :=
  ⟨h.unbroken, h.read, h.plain, nofun, h.kept, nofun⟩

theorem readHeader_captured (henv : env.Plain) (h : Consistent files recorded fork) :
    readHeader (captured env tree fw time (files.record.bind (·.profile)) files config) =
      nextFork files :=
  readHeader_capture henv.untagged h.plain_nextFork.1 (parseAnswer_minimalAnswers tree config)

theorem unbroken_captured (henv : env.Plain) (htree : env.tree fw = some tree)
    (htime : Unbroken time) (h : Consistent files recorded fork) :
    ∀ line ∈ captured env tree fw time (files.record.bind (·.profile)) files config,
      Unbroken line := by
  intro line hl
  rcases List.mem_append.mp hl with hheader | hanswer
  · exact unbroken_captureHeader henv.name (henv.family fw tree htree).1 htime h.plain_nextFork.1
      line hheader
  · exact (plain_minimalAnswers (henv.lines fw tree htree config) line hanswer).unbroken

theorem Consistent.captured (h : Consistent files recorded fork) (henv : env.Plain)
    (htree : env.tree fw = some tree) (htime : Unbroken time) :
    Consistent { files with
        custom := some (captured env tree fw time (files.record.bind (·.profile)) files config) }
      (some (nextFork files)) (fork.or (some (nextFork files))) := by
  have hfork : ∀ point, fork.or (some (nextFork files)) = some point → nextFork files = point := by
    intro point hp
    cases hold : fork with
    | none =>
      rw [hold] at hp
      exact Option.some.inj hp
    | some old =>
      rw [hold] at hp
      cases hp
      exact h.nextFork_eq hold
  refine ⟨fun lines hl => ?_, congrArg some (readHeader_captured henv h), fun point hp => ?_,
    h.record, fun point hp => congrArg some (hfork point hp), fun point record hp hr => ?_⟩
  · cases hl
    exact ⟨List.cons_ne_nil _ _, unbroken_captured henv htree htime h⟩
  · cases hp
    exact h.plain_nextFork
  · exact hfork point hp ▸ h.traces_nextFork hr

theorem Consistent.seeded (h : Consistent files recorded fork) (hprofile : Plain profile)
    (hlines : ∀ line ∈ tree.minConfig (tree.load f), Unbroken line)
    (hfork : ∀ point, fork' = some point → recorded = some point ∧ profile = customProfile ∧
      (c.fails .record = true → ∀ record, files.record = some record → record.Traces point)) :
    Consistent (writeSeeded sha c tree (tree.load f) profile source files) recorded fork' := by
  have hrecord : ∀ record, (writeSeeded sha c tree (tree.load f) profile source files).record =
      some record → c.fails .record = true ∧ files.record = some record ∨
        record.profile = some profile ∧ record.answers = minimalAnswers tree (tree.load f) := by
    intro record hr
    rw [writeSeeded] at hr
    dsimp only at hr
    split_ifs at hr with hfails
    · exact .inl ⟨hfails, hr⟩
    · cases hr
      exact .inr ⟨rfl, rfl⟩
  refine ⟨h.unbroken, h.read, h.plain, fun record hr => ?_, fun point hp => (hfork point hp).1,
    fun point record hp hr => ?_⟩
  · rcases hrecord record hr with ⟨-, hold⟩ | ⟨hname, hanswers⟩
    · exact h.record record hold
    · rw [hname, hanswers]
      exact ⟨⟨profile, rfl, hprofile⟩, plain_minimalAnswers hlines⟩
  · obtain ⟨-, hown, hleft⟩ := hfork point hp
    rcases hrecord record hr with ⟨hfails, hold⟩ | ⟨hname, -⟩
    · exact hleft hfails record hold
    · exact .inl (hown ▸ hname)

end Captures

namespace History

def Sound {δ : Type} (h : History δ) : Prop :=
  ∀ fw, Consistent (h.files fw) (h.recorded fw) (h.fork fw)

section Steps
variable {δ : Type} [DecidableEq δ] {sha : File → δ} {env : Env} {c : Conditions} {fw name app : Str}
  {force : Bool} {h t kept : History δ} {files : Files δ} {recorded fork : Option ForkPoint}
  {tree : KconfigTree}

omit [DecidableEq δ] in
theorem Sound.update (hs : h.Sound) (fw : Str) (hfw : Consistent files recorded fork) :
    Sound ⟨Function.update h.files fw files, Function.update h.recorded fw recorded,
      Function.update h.fork fw fork⟩ := by
  intro v
  rcases eq_or_ne v fw with rfl | hne
  · simpa using hfw
  · simpa [hne] using hs v

omit [DecidableEq δ] in
theorem Sound.written (hs : h.Sound) (hfw : Consistent files (h.recorded fw) fork) :
    Sound { h with
      files := Function.update h.files fw files
      fork := Function.update h.fork fw fork } := by
  have hupdate := hs.update fw hfw
  rwa [Function.update_eq_self] at hupdate

omit [DecidableEq δ] in
theorem Sound.setFiles (hs : h.Sound) (hfw : Consistent files (h.recorded fw) (h.fork fw)) :
    (h.setFiles fw files).Sound := by
  have hwritten := hs.written hfw
  rwa [Function.update_eq_self] at hwritten

theorem status_profile (sha : File → δ) (env : Env) (fw : Str) (s : TypeFiles δ) :
    (status sha env fw s).profile = (s fw).record.bind (·.profile) := by
  unfold status
  cases hrecord : (s fw).record with
  | none => rfl
  | some record =>
    dsimp only
    split_ifs
    · rfl
    · split <;> rfl

omit [DecidableEq δ] in
theorem captureCustom_custom {parent : Option Str} {kept : Files δ}
    (h : captureCustom env c tree fw parent files = .ok kept) : ∃ config,
      kept = { files with custom := some (captured env tree fw c.time parent files config) } := by
  unfold captureCustom at h
  split at h
  · cases h
  · rename_i config _
    split_ifs at h
    cases h
    exact ⟨config, rfl⟩

theorem Sound.capture (hs : h.Sound) (henv : env.Plain) (htree : env.tree fw = some tree)
    (htime : Unbroken c.time) (ht : h.capture sha env c tree fw = .ok t) : t.Sound := by
  rw [History.capture, status_profile] at ht
  dsimp only at ht
  cases hcustom : captureCustom env c tree fw ((h.files fw).record.bind (·.profile))
      (h.files fw) with
  | error e =>
    rw [hcustom] at ht
    cases ht
  | ok files =>
    rw [hcustom] at ht
    cases ht
    obtain ⟨config, rfl⟩ := captureCustom_custom hcustom
    exact hs.update fw ((hs fw).captured henv htree htime)

theorem Sound.capture_or (hs : h.Sound) (henv : env.Plain) (htree : env.tree fw = some tree)
    (htime : Unbroken c.time) : ((h.capture sha env c tree fw).toOption.getD h).Sound := by
  cases ht : h.capture sha env c tree fw with
  | error e => exact hs
  | ok t => exact hs.capture henv htree htime ht

omit [DecidableEq δ] in
theorem find_plain {seed : Seed} (henv : env.Plain) (h : find env fw name files = some seed) :
    Plain seed.name ∧ (seed.custom = true → seed.name = customProfile) := by
  unfold find at h
  dsimp only at h
  split_ifs at h with hvalid hname
  · obtain ⟨file, -, rfl⟩ := Option.map_eq_some_iff.mp h
    have hplain : Plain customProfile := ⟨by decide, by decide, by decide⟩
    exact ⟨hname ▸ hplain, fun _ => hname⟩
  · obtain ⟨file, hfile, rfl⟩ := Option.map_eq_some_iff.mp h
    have hne : strip name ≠ [] := by
      intro he
      simp [validSeedName, he] at hvalid
    obtain ⟨before, after, hvendor, -⟩ := List.lookup_eq_some_iff.mp hfile
    have hunbroken := henv.vendor fw (strip name, file) (by simp [hvendor])
    exact ⟨⟨hne, trimmed_strip name, hunbroken⟩, nofun⟩

theorem Sound.save {edited : File} (hs : h.Sound) (henv : env.Plain) (htime : Unbroken c.time) :
    (h.save sha env c fw edited).Sound := by
  unfold History.save
  cases htree : env.tree fw with
  | none => exact hs
  | some tree =>
    dsimp only
    have hsaved := hs.setFiles ((hs fw).withConfig (some (tree.writeConfig (tree.load edited))))
    split_ifs
    · exact hs
    · exact hsaved.capture_or henv htree htime
    · exact hsaved

omit [DecidableEq δ] in
theorem Sound.writeSeed {seed : Seed} (hs : h.Sound) (hseed : Plain seed.name)
    (hown : seed.custom = true → seed.name = customProfile)
    (hlines : ∀ line ∈ tree.minConfig (tree.load seed.file), Unbroken line)
    (hleft : seed.custom = true → c.fails .record = true → ∀ record point,
      (h.files fw).record = some record → h.recorded fw = some point → record.Traces point) :
    (h.writeSeed sha c tree fw seed).Sound := by
  unfold History.writeSeed
  split_ifs with hsave hcustom
  · exact hs
  · exact hs.written ((hs fw).seeded hseed hlines fun point hp => ⟨hp, hown hcustom,
      fun hfails record hr => hleft hcustom hfails record point hr hp⟩)
  · exact hs.written ((hs fw).seeded hseed hlines (by simp))

theorem Sound.applySeed (hs : h.Sound) (henv : env.Plain) (htime : Unbroken c.time)
    (hleft : strip name = customProfile → c.fails .record = true → ∀ record point,
      (h.files fw).record = some record → h.recorded fw = some point → record.Traces point) :
    (h.applySeed sha env c fw name force).Sound := by
  unfold History.applySeed
  cases htree : env.tree fw with
  | none => exact hs
  | some tree =>
    cases hseed : find env fw name (h.files fw) with
    | none => exact hs
    | some seed =>
      obtain ⟨hplain, hown⟩ := find_plain henv hseed
      have hlines := henv.lines fw tree htree seed.file
      dsimp only
      split_ifs with hrefuses hkeeps
      · exact hs
      · refine hs.writeSeed hplain hown hlines fun hcustom => hleft ((find_custom hseed).mp hcustom)
      · cases hkept : h.capture sha env c tree fw with
        | error e => exact hs
        | ok kept =>
          have hother : ¬seed.custom = true := by
            intro hcustom
            simp [hcustom] at hkeeps
          exact (hs.capture henv htree htime hkept).writeSeed hplain hown hlines
            fun hcustom => absurd hcustom hother

theorem plain_derived (henv : env.Plain) (htree : env.tree app = some tree) :
    Plain (derivedTag ++ app) := by
  obtain ⟨hunbroken, htrimmed⟩ := henv.family app tree htree
  have hderived : Plain derivedTag := ⟨by decide, by decide, by decide⟩
  refine ⟨List.append_ne_nil_of_left_ne_nil hderived.ne app, ⟨fun c hc => ?_, fun c hc => ?_⟩,
    unbroken_append.mpr ⟨hderived.unbroken, hunbroken⟩⟩
  · rw [List.head?_append_of_ne_nil _ hderived.ne] at hc
    exact hderived.trimmed.1 c hc
  · cases app with
    | nil =>
      rw [List.append_nil] at hc
      exact hderived.trimmed.2 c hc
    | cons x app =>
      rw [List.getLast?_append_of_ne_nil _ (List.cons_ne_nil x app)] at hc
      exact htrimmed.2 c hc

theorem Sound.deriveBootloader (hs : h.Sound) (henv : env.Plain) :
    (h.deriveBootloader sha env c app fw force).Sound := by
  unfold History.deriveBootloader
  obtain ⟨e, hsame⟩ | ⟨appTree, bootTree, answers, appConfig, happ, hboot, -, -, -, hrun⟩ :=
    deriveBootloader_cases sha env c app fw force h.files
  · rw [hsame]
    exact hs
  · rw [hrun]
    have hseeded : Consistent (writeSeeded sha c bootTree (bootTree.load answers) (derivedTag ++ app)
        (some appConfig) (h.files fw)) (h.recorded fw) none :=
      (hs fw).seeded (plain_derived henv happ) (henv.lines fw bootTree hboot answers) (by simp)
    exact hs.written hseeded

theorem Sound.reseedIfMoved (hs : h.Sound) (henv : env.Plain) (htime : Unbroken c.time) :
    (h.reseedIfMoved sha env c fw).Sound := by
  unfold History.reseedIfMoved
  split
  · rename_i x name _ hprofile
    split
    · exact hs.deriveBootloader henv
    · refine hs.applySeed henv htime fun hown _ record _ hr _ => .inl ?_
      rw [status_profile, hr, Option.bind_some] at hprofile
      obtain ⟨⟨name', hname', hplain⟩, -⟩ := (hs fw).record record hr
      rw [hprofile] at hname' ⊢
      cases hname'
      rw [← hown, strip_of_trimmed hplain.trimmed]
  · exact hs

theorem Sound.step {call : ProfileCall} (hs : h.Sound) (hg : Traceable h call)
    (ht : h.step sha call = some t) : t.Sound := by
  obtain ⟨env, c, fw, step⟩ := call
  obtain ⟨henv, htime, hleft⟩ := hg
  cases ht
  cases step with
  | run op =>
    cases op with
    | applySeed name force =>
      refine hs.applySeed henv htime fun hown hfails record point hr hp => ?_
      exact hleft hown hfails record point hr ((readCustom_eq (hs fw)).trans hp)
    | deriveBootloader app force => exact hs.deriveBootloader henv
    | reseedIfMoved => exact hs.reseedIfMoved henv htime
  | forget =>
    dsimp only
    split_ifs
    · exact hs
    · exact hs.setFiles (hs fw).forget
  | edit config => exact hs.setFiles ((hs fw).withConfig config)
  | save edited => exact hs.save henv htime
  | capture =>
    cases htree : env.tree fw with
    | none => exact hs
    | some tree => exact hs.capture_or henv htree htime

omit [DecidableEq δ] in
theorem Sound.fresh (h : History δ) (hf : h.Fresh) : h.Sound := by
  obtain ⟨hfiles, hrecorded, hfork⟩ := hf
  intro fw
  obtain ⟨hcustom, hrecord⟩ := hfiles fw
  rw [hrecorded, hfork]
  refine ⟨fun lines hl => ?_, by rw [hcustom]; rfl, nofun, fun record hr => ?_, nofun, nofun⟩
  · rw [hcustom] at hl
    cases hl
  · rw [hrecord] at hr
    cases hr

omit [DecidableEq δ] in
theorem Sound.keepsLineage (hs : h.Sound) : h.KeepsLineage where
  read fw := readCustom_eq (hs fw)
  parent fw point hp := ((hs fw).plain point ((readCustom_eq (hs fw)).symm.trans hp)).2
  kept fw point := (hs fw).kept point

omit [DecidableEq δ] in
theorem writeSeed_files (sha : File → δ) (c : Conditions) (tree : KconfigTree) (fw : Str)
    (seed : Seed) (h : History δ) : (h.writeSeed sha c tree fw seed).files =
      if c.fails .save then h.files
      else Function.update h.files fw (writeSeeded sha c tree (tree.load seed.file) seed.name
        (some seed.file) (h.files fw)) := by
  unfold History.writeSeed
  split_ifs <;> rfl

/-- What a capture before a seeding leaves is what `apply_seed` goes on with. -/
theorem kept_files (sha : File → δ) (env : Env) (c : Conditions) (tree : KconfigTree) (fw : Str)
    (custom : Bool) (h : History δ) :
    (if custom || (status sha env fw h.files).reason ≠ some .customised then .ok h
      else h.capture sha env c tree fw).map (·.files) =
      (if custom then .ok (h.files fw) else keepCurrentAnswers sha env c tree fw h.files).map
        (Function.update h.files fw) := by
  have hsame : Function.update h.files fw (h.files fw) = h.files := Function.update_eq_self _ _
  cases custom with
  | true => exact congrArg Except.ok hsame.symm
  | false =>
    have hcustom : ¬false = true := nofun
    rw [if_neg hcustom, Bool.false_or]
    unfold keepCurrentAnswers
    dsimp only
    by_cases hreason : (status sha env fw h.files).reason ≠ some .customised
    · rw [if_pos (decide_eq_true hreason), if_pos hreason]
      exact congrArg Except.ok hsame.symm
    · rw [if_neg (by simpa using hreason), if_neg hreason, History.capture]
      dsimp only
      cases captureCustom env c tree fw (status sha env fw h.files).profile (h.files fw) <;> rfl

theorem applySeed_files (sha : File → δ) (env : Env) (c : Conditions) (fw name : Str) (force : Bool)
    (h : History δ) : (h.applySeed sha env c fw name force).files =
      (Profiles.applySeed sha env c fw name force h.files).1 := by
  unfold History.applySeed Profiles.applySeed
  cases htree : env.tree fw with
  | none => rfl
  | some tree =>
    cases hseed : find env fw name (h.files fw) with
    | none => rfl
    | some seed =>
      have hkept := kept_files sha env c tree fw seed.custom h
      dsimp only
      by_cases hrefuses : refuses sha env fw force h.files = true
      · rw [if_pos hrefuses, if_pos hrefuses]
      · rw [if_neg hrefuses, if_neg hrefuses]
        revert hkept
        generalize (if seed.custom || (status sha env fw h.files).reason ≠ some .customised then
          .ok h else h.capture sha env c tree fw) = kept
        generalize (if seed.custom then .ok (h.files fw)
          else keepCurrentAnswers sha env c tree fw h.files) = files
        intro hkept
        cases kept with
        | error e =>
          cases files with
          | error e' => rfl
          | ok files => cases hkept
        | ok kept =>
          cases files with
          | error e => cases hkept
          | ok files =>
            have hfiles : kept.files = Function.update h.files fw files := Except.ok.inj hkept
            dsimp only
            rw [writeSeed_files, hfiles]
            split_ifs
            · rfl
            · rw [Function.update_idem, Function.update_self]

theorem run_files {op : Operation} (ht : h.step sha ⟨env, c, fw, .run op⟩ = some t) :
    t.files = (op.run sha env c fw h.files).1 := by
  cases ht
  cases op with
  | applySeed name force => exact applySeed_files sha env c fw name force h
  | deriveBootloader app force => rfl
  | reseedIfMoved =>
    dsimp only
    unfold History.reseedIfMoved Operation.run Profiles.reseedIfMoved
    generalize (status sha env fw h.files).reason = reason
    generalize (status sha env fw h.files).profile = profile
    rcases reason with _ | _ | _ | _
    case some.seedMoved =>
      rcases profile with _ | _ | ⟨x, name⟩
      case some.cons =>
        dsimp only
        cases after derivedTag (x :: name) with
        | some app => rfl
        | none => exact applySeed_files sha env c fw (x :: name) false h
      all_goals rfl
    all_goals rfl

end Steps

end History

/-- In every run whose steps are traceable the user's own profile reads as it was recorded, is not
forked from itself, and keeps its fork point. -/
theorem lineage_kept {δ : Type} [DecidableEq δ] (sha : File → δ) (h : History δ)
    (hr : Reach (History.step sha) Traceable History.Fresh h) : h.KeepsLineage :=
  (hr.invariant History.Sound.fresh fun _ _ _ hs hg ht => hs.step hg ht).keepsLineage

def klipper : Str := "klipper".toList

/-- A type with one family, whose tree ships two profiles -/
def shippedEnv (mcuType : Str) : Env where
  mcuType
  tree fw := if fw = klipper then some oneBool else none
  vendor _ := [("config.a".toList, onFile), ("config.b".toList, onFile)]

def shipped (step : ProfileStep) : ProfileCall :=
  ⟨shippedEnv "board".toList, calm, klipper, step⟩

theorem tree_shippedEnv {mcuType fw : Str} {tree : KconfigTree}
    (h : (shippedEnv mcuType).tree fw = some tree) : fw = klipper ∧ tree = oneBool := by
  rw [shippedEnv] at h
  dsimp only at h
  split_ifs at h with hfw
  cases h
  exact ⟨hfw, rfl⟩

theorem plain_shippedEnv : (shippedEnv "board".toList).Plain where
  name := by decide
  untagged := by decide
  family fw tree htree := by
    obtain ⟨rfl, -⟩ := tree_shippedEnv htree
    decide
  lines fw tree htree f line hl := by
    obtain ⟨-, rfl⟩ := tree_shippedEnv htree
    have hoff : Unbroken offLine := by decide
    cases hload : oneBool.load f with
    | true =>
      rw [hload] at hl
      cases hl
    | false =>
      rw [hload] at hl
      exact List.mem_singleton.mp hl ▸ hoff
  vendor fw seed hseed := by
    rcases List.mem_cons.mp hseed with rfl | hseed
    · decide
    · rw [List.mem_singleton.mp hseed]
      decide

theorem traceable_shipped (step : ProfileStep) (h : History File) : Traceable h (shipped step) := by
  have hcalm : Unbroken calm.time := by decide
  refine ⟨plain_shippedEnv, hcalm, ?_⟩
  cases step with
  | run op =>
    cases op with
    | applySeed name force => exact fun _ hfails => Bool.noConfusion hfails
    | deriveBootloader | reseedIfMoved => trivial
  | forget | edit | save | capture => trivial

def nothing : History File := { files := fun _ => {} }

theorem nothing_fresh : nothing.Fresh :=
  ⟨fun _ => ⟨rfl, rfl⟩, fun _ => rfl, fun _ => rfl⟩

/-- A profile is applied, edited and captured, and so again from there. -/
def recaptured : List ProfileCall :=
  [shipped (.run (.applySeed "config.a".toList false)), shipped (.edit (some [offLine])),
    shipped .capture, shipped (.run (.applySeed customProfile true)),
    shipped (.edit (some [offLine])), shipped .capture]

theorem lineage_kept_recaptured :
    ∃ h, run (History.step id) recaptured nothing = some h ∧ h.KeepsLineage := by
  refine ⟨_, rfl, lineage_kept id _ (Reach.extend (l := recaptured) (.start nothing_fresh) ?_ rfl)⟩
  intro call hcall h
  simp only [recaptured, List.mem_cons, List.not_mem_nil, or_false] at hcall
  rcases hcall with rfl | rfl | rfl | rfl | rfl | rfl <;> exact traceable_shipped _ h

def unrecorded : Conditions := ⟨fun | .record => true | _ => false, []⟩

/-- A profile is captured, another applied and then the captured one, whose record is not written;
the one in its place still names the other. -/
def misrecorded : List ProfileCall :=
  [shipped (.run (.applySeed "config.a".toList false)), shipped (.edit (some [offLine])),
    shipped .capture, shipped (.run (.applySeed "config.b".toList true)),
    { shipped (.run (.applySeed customProfile true)) with conditions := unrecorded },
    shipped (.edit (some [offLine])), shipped .capture]

/-- The edits made on top of the captured profile are captured as forked from the other. -/
theorem fork_point_lost : ¬∀ h, Reach (History.step id) anyStep History.Fresh h →
    h.KeepsLineage := by
  intro hall
  have hr := (Reach.start nothing_fresh : Reach (History.step id) anyStep History.Fresh
    nothing).extend (l := misrecorded) (fun _ _ _ => trivial) rfl
  have hkept := (hall _ hr).kept klipper (some "config.a".toList, []) rfl
  cases hkept

/-- The first line of a capture is read as an answer of the base where the type's name begins so,
though nothing fails. -/
theorem owner_read_as_base : ¬∀ h, Reach (History.step id)
    (fun _ call => call.conditions = calm) History.Fresh h → h.KeepsLineage := by
  intro hall
  have hr : Reach (History.step id) (fun _ call => call.conditions = calm) History.Fresh _ :=
    Reach.extend (l := [⟨shippedEnv "base:x".toList, calm, klipper, .edit (some onFile)⟩,
      ⟨shippedEnv "base:x".toList, calm, klipper, .capture⟩]) (.start nothing_fresh) (by simp) rfl
  have hread := (hall _ hr).read klipper
  revert hread
  decide

end McuUpdater.Profiles
