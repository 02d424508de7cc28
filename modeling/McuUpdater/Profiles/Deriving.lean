import McuUpdater.Profiles.Seeding
import McuUpdater.Kconfig.Session
import McuUpdater.Lib.Numbers
import McuUpdater.Lib.PyJson
import McuUpdater.Lib.PyLines

/-! `profiles.py`: `derive_bootloader`, with the answers it carries over and those it drops. What
kconfiglib works out is read through a `SymbolTree`. -/
namespace McuUpdater.Profiles
open PyText Kconfig PyJson Numbers

/-- An entry of `kconf.syms`; one that is only referred to has no defining node. -/
structure Symbol where
  type : SymbolType
  defined : Bool

/-- kconfiglib's `escape` -/
def escapeText (value : Str) : Str :=
  value.flatMap fun c => if c = backslash ∨ c = quote then [backslash, c] else [c]

/-- The value in a `CONFIG_X=` line -/
def answerText (type : SymbolType) (value : Str) : Str :=
  match type with
  | .string | .unknown => quote :: escapeText value ++ [quote]
  | _ => value

/-- kconfiglib's `config_string`, without the line break -/
def configString (type : SymbolType) (name value : Str) : Str :=
  if (type = .bool ∨ type = .tristate) ∧ value = ['n'] then
    "# CONFIG_".toList ++ (name ++ " is not set".toList)
  else "CONFIG_".toList ++ (name ++ '=' :: answerText type value)

/-- `_unquote` -/
def unquote (value : Str) : Str :=
  match value.head?, value.getLast? with
  | some first, some last =>
    if 2 ≤ value.length ∧ first = last ∧ (first = quote ∨ first = Char.ofNat 39) then
      (value.drop 1).dropLast
    else value
  | _, _ => value

section Model
-- `int(text, base)`
variable (int : Nat → Str → Option Int)

/-- `_address`, of a symbol and its `str_value` -/
def addressOf (sym : Option Symbol) (text : Str) : Option Int :=
  match sym with
  | none => none
  | some sym =>
    if !sym.defined then none
    else if strip text = [] then none
    else int 16 (strip text)

/-- A tree with its symbols, their values and what kconfiglib's documentation says of them. -/
structure SymbolTree extends KconfigTree where
  syms : Str → Option Symbol
  /-- `str_value` -/
  value : Config → Str → Str
  /-- the value that `write_min_config` compares it with -/
  default : Config → Str → Str
  /-- a name is a word -/
  name_word : ∀ name, (syms name).isSome → name ≠ [] ∧ '=' ∉ name ∧ ∀ c ∈ name, isSpace c = false
  defines_eq : ∀ name, defines name = ((syms name).map Symbol.defined).getD false
  /-- a hex value is not negative -/
  address_eq : ∀ c name, (address c name).map Int.ofNat = addressOf int (syms name) (value c name)
  /-- a minimal configuration leaves out the symbols whose value is their default -/
  minConfig_answer : ∀ f line, (line ∈ minConfig (load f) ∧ isAnswer line = true) ↔
    ∃ name sym, syms name = some sym ∧ sym.defined = true ∧
      value (load f) name ≠ default (load f) name ∧
        line = configString sym.type name (value (load f) name)

variable {int}

def SymbolTree.addressIn (tree : SymbolTree int) (c : tree.Config) (name : Str) : Option Int :=
  addressOf int (tree.syms name) (tree.value c name)

/-- `_partition` -/
def partition (boot : SymbolTree int) : List Str → List Str × List Str
  | [] => ([], [])
  | line :: answers =>
    let (carried, dropped) := partition boot answers
    match parseAnswer line with
    | none => (carried, dropped)
    | some (name, _) =>
      if ((boot.syms name).map Symbol.defined).getD false then (line :: carried, dropped)
      else (carried, line :: dropped)

/-- Whether `_refused` has this line. -/
def isRefused (boot : SymbolTree int) (c : boot.Config) (line : Str) : Bool :=
  match parseAnswer line with
  | none => false
  | some (name, wanted) =>
    match boot.syms name with
    | none => true
    | some sym => !sameValue int sym.type (unquote wanted) (boot.value c name)

/-- `_refused` -/
def refusedAnswers (boot : SymbolTree int) (c : boot.Config) (carried : List Str) : List Str :=
  carried.filter (isRefused boot c)

def appAddressSymbol : Str := "FLASH_APPLICATION_ADDRESS".toList
def launchAddressSymbol : Str := "LAUNCH_APP_ADDRESS".toList

/-- `OffsetMismatchError` -/
inductive OffsetMismatch
  /-- the application's tree, or else the bootloader's, has no address -/
  | unverifiable (app : Bool)
  | differs (app launch : Int)

/-- `_check_addresses` -/
def checkAddresses (app launch : Option Int) : Option OffsetMismatch :=
  match app, launch with
  | none, none => none
  | none, some _ => some (.unverifiable true)
  | some _, none => some (.unverifiable false)
  | some app, some launch => if app ≠ launch then some (.differs app launch) else none

/-- What can raise in a derivation besides its own checks, up to and after the save. -/
inductive DeriveStep
  | app
  | probe
  | load
  | save
  | answers
  deriving DecidableEq

inductive DeriveError
  | refused (e : ProfileError)
  | offset (mismatch : OffsetMismatch)
  | raised (step : DeriveStep)

/-- How the steps end, and what a save that fails leaves at the path. -/
structure DeriveConditions extends Conditions where
  raises : DeriveStep → Bool
  left : Option File

/-- `SeedResult`, but for its paths -/
structure Derived (δ : Type) where
  type : Str
  fw : Str
  profile : Str
  answers : List Str
  sourceSha : Option δ
  configSha : Option δ
  backup : Bool
  carried : List Str
  dropped : List Str
  appAddress : Option Int

/-- The trees by family, and the rest of `Env`. -/
structure SymbolEnv (int : Nat → Str → Option Int) where
  mcuType : Str
  tree : Str → Option (SymbolTree int)
  vendor : Str → List (Str × File)

def SymbolEnv.toEnv (env : SymbolEnv int) : Env where
  mcuType := env.mcuType
  tree fw := (env.tree fw).map SymbolTree.toKconfigTree
  vendor := env.vendor

variable {δ : Type} [DecidableEq δ]

/-- `derive_bootloader` -/
def derive (sha : File → δ) (env : SymbolEnv int) (c : DeriveConditions) (app fw : Str) (force : Bool)
    (s : TypeFiles δ) : TypeFiles δ × Except DeriveError (Derived δ) :=
  match env.tree app, (s app).config, env.tree fw with
  | none, _, _ | some _, some _, none => (s, .error (.refused .noTree))
  | some _, none, _ => (s, .error (.refused .noConfig))
  | some appTree, some appConfig, some bootTree =>
    if refuses sha env.toEnv fw force s then (s, .error (.refused .customised))
    else if c.raises .app then (s, .error (.raised .app))
    else
      let appLoaded := appTree.load appConfig
      let answers := minimalAnswers appTree.toKconfigTree appLoaded
      let appAddress := appTree.addressIn appLoaded appAddressSymbol
      if c.raises .probe then (s, .error (.raised .probe))
      else
        let (carried, dropped) := partition bootTree answers
        if c.raises .load then (s, .error (.raised .load))
        else
          let bootLoaded := bootTree.load carried
          let refused := refusedAnswers bootTree bootLoaded carried
          let launch := bootTree.addressIn bootLoaded launchAddressSymbol
          match checkAddresses appAddress launch with
          | some mismatch => (s, .error (.offset mismatch))
          | none =>
            if c.fails .save then
              (Function.update s fw { s fw with config := c.left }, .error (.raised .save))
            else if c.raises .answers then
              (Function.update s fw { s fw with config := some (bootTree.writeConfig bootLoaded) },
                .error (.raised .answers))
            else
              (Function.update s fw (writeSeeded sha c.toConditions bootTree.toKconfigTree bootLoaded
                (derivedTag ++ app) (some appConfig) (s fw)),
                .ok {
                  type := env.mcuType
                  fw
                  profile := derivedTag ++ app
                  answers := minimalAnswers bootTree.toKconfigTree bootLoaded
                  sourceSha := some (sha appConfig)
                  configSha := some (sha (bootTree.writeConfig bootLoaded))
                  backup := (s fw).config.isSome
                  carried := carried.filter fun line => !refused.contains line
                  dropped := dropped ++ refused
                  appAddress })

end Model

/-! ## The answers on their way -/

/-- The answer is that a boolean is off, which has a spelling of its own. -/
def IsOff (type : SymbolType) (value : Str) : Prop :=
  (type = .bool ∨ type = .tristate) ∧ value = ['n']

section Lines
variable {type : SymbolType} {name value line : Str}

theorem configString_off (h : IsOff type value) :
    ∃ rest, configString type name value = '#' :: rest := by
  have hoff : (type = .bool ∨ type = .tristate) ∧ value = ['n'] := h
  rw [configString, if_pos hoff]
  exact ⟨_, rfl⟩

theorem configString_set (h : ¬IsOff type value) :
    configString type name value = "CONFIG_".toList ++ (name ++ '=' :: answerText type value) := by
  have hset : ¬((type = .bool ∨ type = .tristate) ∧ value = ['n']) := h
  rw [configString, if_neg hset]

theorem isSet_assignment (hne : name ≠ []) (heq : '=' ∉ name) (text : Str) :
    isSet ("CONFIG_".toList ++ (name ++ '=' :: text)) = true := by
  cases name with
  | nil => exact absurd rfl hne
  | cons c name =>
    have hc : c ≠ '=' := fun h => heq (h ▸ List.mem_cons_self)
    rw [isSet, after_eq_some.mpr rfl]
    simp [hc]

theorem parseAnswer_assignment (hword : ∀ c ∈ name, isSpace c = false) (heq : '=' ∉ name)
    {text : Str} (hline : line = "CONFIG_".toList ++ (name ++ '=' :: text))
    (hstrip : strip line = line) : parseAnswer line = some (name, strip text) := by
  have hhash : after "# CONFIG_".toList line = none := by
    rw [hline, after, if_neg]
    simp
  have hne : ∀ c ∈ name, decide (c ≠ '=') = true := by
    intro c hc
    simpa using ne_of_mem_of_not_mem hc heq
  have hname : (name ++ '=' :: text).takeWhile (· ≠ '=') = name := by
    rw [List.takeWhile_append_of_pos hne]
    simp
  have htext : (name ++ '=' :: text).dropWhile (· ≠ '=') = '=' :: text := by
    rw [List.dropWhile_append_of_pos hne]
    simp
  have hstripName : strip name = name := by
    refine strip_of_trimmed ⟨fun c hc => hword c ?_, fun c hc => hword c ?_⟩
    · exact List.mem_of_mem_head? hc
    · exact List.mem_of_mem_getLast? hc
  rw [parseAnswer]
  simp only [hstrip, hhash]
  rw [after_eq_some.mpr hline]
  dsimp only
  rw [if_pos (by simp), hname, htext, hstripName]
  rfl

end Lines

section Answers
variable {int : Nat → Str → Option Int} {tree boot : SymbolTree int} {f : File} {line name : Str}

/-- What the application answers of a symbol, as a line that is no comment. -/
def Answers (tree : SymbolTree int) (f : File) (line name : Str) : Prop :=
  ∃ sym, tree.syms name = some sym ∧ sym.defined = true ∧
    tree.value (tree.load f) name ≠ tree.default (tree.load f) name ∧
    ¬IsOff sym.type (tree.value (tree.load f) name) ∧
    line = configString sym.type name (tree.value (tree.load f) name)

/-- The answers taken are those of the symbols that differ from their defaults and are not off. -/
theorem mem_minimalAnswers : line ∈ minimalAnswers tree.toKconfigTree (tree.load f) ↔
    ∃ name, Answers tree f line name := by
  rw [minimalAnswers_eq, List.mem_filter]
  constructor
  · rintro ⟨hmem, hset⟩
    have hanswer : isAnswer line = true := by rw [isAnswer, hset, Bool.true_or]
    obtain ⟨name, sym, hsym, hdefined, hvalue, rfl⟩ := (tree.minConfig_answer f line).mp ⟨hmem, hanswer⟩
    refine ⟨name, sym, hsym, hdefined, hvalue, fun hoff => ?_, rfl⟩
    obtain ⟨rest, hrest⟩ := @configString_off _ name _ hoff
    rw [hrest, isSet_hash] at hset
    cases hset
  · rintro ⟨name, sym, hsym, hdefined, hvalue, hoff, rfl⟩
    obtain ⟨hne, heq, -⟩ := tree.name_word name (by rw [hsym]; rfl)
    refine ⟨((tree.minConfig_answer f _).mpr ⟨name, sym, hsym, hdefined, hvalue, rfl⟩).1, ?_⟩
    rw [configString_set hoff]
    exact isSet_assignment hne heq _

theorem Answers.parse (h : Answers tree f line name) : ∃ sym, tree.syms name = some sym ∧
    parseAnswer line =
      some (name, strip (answerText sym.type (tree.value (tree.load f) name))) := by
  obtain ⟨sym, hsym, hdefined, hvalue, hoff, rfl⟩ := h
  obtain ⟨hne, heq, hword⟩ := tree.name_word name (by rw [hsym]; rfl)
  have hmem := (tree.minConfig_answer f _).mpr ⟨name, sym, hsym, hdefined, hvalue, rfl⟩
  have hset : isSet (configString sym.type name (tree.value (tree.load f) name)) = true := by
    rw [configString_set hoff]
    exact isSet_assignment hne heq _
  have hstrip : strip (configString sym.type name (tree.value (tree.load f) name)) =
      configString sym.type name (tree.value (tree.load f) name) := by
    have hkeep := keeps_line (tree.minConfig_lines f _ hmem.1)
    exact hkeep.2 hset
  exact ⟨sym, hsym, parseAnswer_assignment hword heq (configString_set hoff) hstrip⟩

theorem Answers.unique {other : Str} (h : Answers tree f line name) (h' : Answers tree f other name) :
    line = other := by
  obtain ⟨sym, hsym, -, -, -, rfl⟩ := h
  obtain ⟨sym', hsym', -, -, -, rfl⟩ := h'
  rw [hsym] at hsym'
  cases hsym'
  rfl

def isForeign (boot : KconfigTree) (line : Str) : Bool :=
  match parseAnswer line with
  | some (name, _) => !boot.defines name
  | none => false

theorem partition_eq (boot : SymbolTree int) (answers : List Str) : partition boot answers =
    (carriedAnswers boot.toKconfigTree answers, answers.filter (isForeign boot.toKconfigTree)) := by
  induction answers with
  | nil => rfl
  | cons line answers ih =>
    cases hparse : parseAnswer line with
    | none =>
      rw [partition, ih, carriedAnswers, carriedAnswers]
      simp [isForeign, hparse]
    | some answer =>
      rw [partition, ih, carriedAnswers, carriedAnswers]
      simp only [List.filter_cons, isForeign, hparse, ← boot.defines_eq]
      cases boot.defines answer.1 <;> rfl

theorem mem_carried {text : Str} (hparse : parseAnswer line = some (name, text))
    {answers : List Str} : line ∈ carriedAnswers boot.toKconfigTree answers ↔
      line ∈ answers ∧ boot.defines name = true := by
  rw [carriedAnswers, List.mem_filter, hparse]

end Answers

/-! ## A derivation up to its check -/

def DeriveError.isEarly : DeriveError → Bool
  | .refused _ | .offset _ | .raised .app | .raised .probe | .raised .load => true
  | .raised .save | .raised .answers => false

section Deriving
variable {int : Nat → Str → Option Int} {δ : Type} [DecidableEq δ] {sha : File → δ}
  {env : SymbolEnv int} {c : DeriveConditions} {app fw : Str} {force : Bool} {s : TypeFiles δ}
  {appTree bootTree : SymbolTree int} {appConfig : File}

/-- The derivation gets as far as the check of the addresses. -/
structure Proceeds (sha : File → δ) (env : SymbolEnv int) (c : DeriveConditions) (app fw : Str)
    (force : Bool) (s : TypeFiles δ) (appTree bootTree : SymbolTree int) (appConfig : File) : Prop where
  app_tree : env.tree app = some appTree
  app_config : (s app).config = some appConfig
  boot_tree : env.tree fw = some bootTree
  free : refuses sha env.toEnv fw force s = false
  raises_app : c.raises .app = false
  raises_probe : c.raises .probe = false
  raises_load : c.raises .load = false

/-- The answers of the application that the bootloader's tree defines -/
def carriedOf (appTree bootTree : SymbolTree int) (appConfig : File) : List Str :=
  carriedAnswers bootTree.toKconfigTree
    (minimalAnswers appTree.toKconfigTree (appTree.load appConfig))

/-- The list of the answers that were not carried, or were not taken -/
def droppedOf (appTree bootTree : SymbolTree int) (appConfig : File) : List Str :=
  (minimalAnswers appTree.toKconfigTree (appTree.load appConfig)).filter
    (isForeign bootTree.toKconfigTree) ++
  refusedAnswers bootTree (bootTree.load (carriedOf appTree bootTree appConfig))
    (carriedOf appTree bootTree appConfig)

def appAddressOf (appTree : SymbolTree int) (appConfig : File) : Option Int :=
  appTree.addressIn (appTree.load appConfig) appAddressSymbol

def launchAddressOf (bootTree : SymbolTree int) (config : File) : Option Int :=
  bootTree.addressIn (bootTree.load config) launchAddressSymbol

theorem proceeds_or_early (sha : File → δ) (env : SymbolEnv int) (c : DeriveConditions) (app fw : Str)
    (force : Bool) (s : TypeFiles δ) :
    (∃ appTree bootTree appConfig, Proceeds sha env c app fw force s appTree bootTree appConfig) ∨
    ∃ e, e.isEarly = true ∧ derive sha env c app fw force s = (s, .error e) := by
  unfold derive
  cases happ : env.tree app with
  | none => exact .inr ⟨_, rfl, rfl⟩
  | some appTree =>
    cases hconfig : (s app).config with
    | none => exact .inr ⟨_, rfl, rfl⟩
    | some appConfig =>
      cases hboot : env.tree fw with
      | none => exact .inr ⟨_, rfl, rfl⟩
      | some bootTree =>
        cases hrefuses : refuses sha env.toEnv fw force s with
        | true => exact .inr ⟨_, rfl, rfl⟩
        | false =>
          cases hparse : c.raises .app with
          | true => exact .inr ⟨_, rfl, rfl⟩
          | false =>
            cases hprobe : c.raises .probe with
            | true => exact .inr ⟨_, rfl, rfl⟩
            | false =>
              cases hload : c.raises .load with
              | true => exact .inr ⟨_, rfl, rfl⟩
              | false =>
                exact .inl ⟨appTree, bootTree, appConfig, happ, hconfig, hboot, hrefuses, hparse, hprobe,
                  hload⟩

theorem derive_of_proceeds (h : Proceeds sha env c app fw force s appTree bootTree appConfig) :
    derive sha env c app fw force s =
      (let carried := carriedOf appTree bootTree appConfig
      let bootLoaded := bootTree.load carried
      let refused := refusedAnswers bootTree bootLoaded carried
      match checkAddresses (appAddressOf appTree appConfig) (launchAddressOf bootTree carried) with
      | some mismatch => (s, .error (.offset mismatch))
      | none =>
        if c.fails .save then
          (Function.update s fw { s fw with config := c.left }, .error (.raised .save))
        else if c.raises .answers then
          (Function.update s fw { s fw with config := some (bootTree.writeConfig bootLoaded) },
            .error (.raised .answers))
        else
          (Function.update s fw (writeSeeded sha c.toConditions bootTree.toKconfigTree bootLoaded
            (derivedTag ++ app) (some appConfig) (s fw)),
            .ok {
              type := env.mcuType
              fw
              profile := derivedTag ++ app
              answers := minimalAnswers bootTree.toKconfigTree bootLoaded
              sourceSha := some (sha appConfig)
              configSha := some (sha (bootTree.writeConfig bootLoaded))
              backup := (s fw).config.isSome
              carried := carried.filter fun line => !refused.contains line
              dropped := (minimalAnswers appTree.toKconfigTree (appTree.load appConfig)).filter
                (isForeign bootTree.toKconfigTree) ++ refused
              appAddress := appAddressOf appTree appConfig })) := by
  unfold derive
  rw [h.app_tree, h.app_config, h.boot_tree]
  dsimp only
  rw [h.free, h.raises_app, h.raises_probe, h.raises_load, partition_eq]
  rfl

/-- The `.config` is there: the derivation returns, or it fails only afterwards. -/
def wrote : Except DeriveError (Derived δ) → Bool
  | .ok _ | .error (.raised .answers) => true
  | _ => false

theorem wrote_early {ε : Type} {e : DeriveError} (h : e.isEarly = true) :
    wrote (.error e : Except DeriveError (Derived ε)) = false := by
  cases e with
  | refused e => rfl
  | offset mismatch => rfl
  | raised step =>
    cases step with
    | answers => cases h
    | _ => rfl

/-- A refused derivation has written nothing. Where one writes, the launch address of the file it
writes is the application's address, or neither tree defines such a symbol. -/
def InStep (sha : File → δ) (env : SymbolEnv int) (c : DeriveConditions) (app fw : Str) (force : Bool)
    (s : TypeFiles δ) : Prop :=
  (∀ e, (derive sha env c app fw force s).2 = .error e → e.isEarly = true →
    (derive sha env c app fw force s).1 = s) ∧
  (wrote (derive sha env c app fw force s).2 = true →
    ∀ appTree bootTree appConfig config, env.tree app = some appTree → env.tree fw = some bootTree →
      (s app).config = some appConfig →
      ((derive sha env c app fw force s).1 fw).config = some config →
        (∃ address, appAddressOf appTree appConfig = some address ∧
          launchAddressOf bootTree config = some address) ∨
        (appTree.defines appAddressSymbol = false ∧ bootTree.defines launchAddressSymbol = false))

/-- The check has nothing to compare, although one of the trees has an address symbol, and the
bootloader's configuration can be saved. -/
structure Unchecked (sha : File → δ) (env : SymbolEnv int) (c : DeriveConditions) (app fw : Str)
    (force : Bool) (s : TypeFiles δ) (appTree bootTree : SymbolTree int) (appConfig : File) : Prop
    extends Proceeds sha env c app fw force s appTree bootTree appConfig where
  saves : c.fails .save = false
  app_none : appAddressOf appTree appConfig = none
  launch_none : launchAddressOf bootTree (carriedOf appTree bootTree appConfig) = none
  defined : appTree.defines appAddressSymbol = true ∨ bootTree.defines launchAddressSymbol = true

theorem checkAddresses_none {a b : Option Int} : checkAddresses a b = none ↔ a = b := by
  cases a with
  | none => cases b <;> simp [checkAddresses]
  | some x => cases b <;> simp [checkAddresses]

theorem launchAddressOf_written (bootTree : SymbolTree int) (carried : File) :
    launchAddressOf bootTree (bootTree.writeConfig (bootTree.load carried)) =
      launchAddressOf bootTree carried := by
  rw [launchAddressOf, bootTree.load_writeConfig, launchAddressOf]

theorem derive_outcome (h : Proceeds sha env c app fw force s appTree bootTree appConfig) :
    (appAddressOf appTree appConfig ≠ launchAddressOf bootTree (carriedOf appTree bootTree appConfig) ∧
      ∃ mismatch, derive sha env c app fw force s = (s, .error (.offset mismatch))) ∨
    (appAddressOf appTree appConfig = launchAddressOf bootTree (carriedOf appTree bootTree appConfig) ∧
      c.fails .save = true ∧ (derive sha env c app fw force s).2 = .error (.raised .save)) ∨
    (appAddressOf appTree appConfig = launchAddressOf bootTree (carriedOf appTree bootTree appConfig) ∧
      c.fails .save = false ∧ wrote (derive sha env c app fw force s).2 = true ∧
      ((derive sha env c app fw force s).1 fw).config =
        some (bootTree.writeConfig (bootTree.load (carriedOf appTree bootTree appConfig))) ∧
      ∀ result, (derive sha env c app fw force s).2 = .ok result →
        result.dropped = droppedOf appTree bootTree appConfig) := by
  rw [derive_of_proceeds h]
  dsimp only
  cases hcheck : checkAddresses (appAddressOf appTree appConfig)
      (launchAddressOf bootTree (carriedOf appTree bootTree appConfig)) with
  | some mismatch =>
    refine .inl ⟨fun hsame => ?_, mismatch, rfl⟩
    rw [checkAddresses_none.mpr hsame] at hcheck
    cases hcheck
  | none =>
    have hsame := checkAddresses_none.mp hcheck
    cases hsave : c.fails .save with
    | true => exact .inr (.inl ⟨hsame, rfl, rfl⟩)
    | false =>
      cases hanswers : c.raises .answers with
      | true =>
        refine .inr (.inr ⟨hsame, rfl, rfl, by simp, fun result hok => ?_⟩)
        cases hok
      | false =>
        refine .inr (.inr ⟨hsame, rfl, rfl, by simp [writeSeeded], fun result hok => ?_⟩)
        cases hok
        rfl

theorem not_inStep (h : Unchecked sha env c app fw force s appTree bootTree appConfig) :
    ¬InStep sha env c app fw force s := by
  rintro ⟨-, hwritten⟩
  have hsame := h.app_none.trans h.launch_none.symm
  rcases derive_outcome h.toProceeds with ⟨hne, -⟩ | ⟨-, hsave, -⟩ | ⟨-, -, hwrote, hconfig, -⟩
  · exact hne hsame
  · rw [h.saves] at hsave
    cases hsave
  · rcases hwritten hwrote appTree bootTree appConfig _ h.app_tree h.boot_tree h.app_config hconfig with
      ⟨address, haddress, -⟩ | ⟨happ, hboot⟩
    · rw [h.app_none] at haddress
      cases haddress
    · rcases h.defined with hdefined | hdefined
      · rw [happ] at hdefined
        cases hdefined
      · rw [hboot] at hdefined
        cases hdefined

/-- The error of `deriveBootloader` -/
def DeriveError.toProfileError : DeriveError → ProfileError
  | .refused e => e
  | .offset _ => .offsetMismatch
  | .raised _ => .kconfig

def profileError : Except DeriveError (Derived δ) → Option ProfileError
  | .ok _ => none
  | .error e => some e.toProfileError

theorem addressIn_eq (tree : SymbolTree int) (config : tree.Config) (name : Str) :
    tree.addressIn config name = (tree.address config name).map Int.ofNat :=
  (tree.address_eq config name).symm

theorem checkAddresses_map (a b : Option Nat) :
    (checkAddresses (a.map Int.ofNat) (b.map Int.ofNat)).isNone = addressesAgree a b := by
  rw [Bool.eq_iff_iff, Option.isNone_iff_eq_none, checkAddresses_none, addressesAgree,
    decide_eq_true_iff]
  exact ⟨fun h => Option.map_injective (fun _ _ => Int.ofNat.inj) h, congrArg _⟩

theorem toEnv_tree (env : SymbolEnv int) (fw : Str) :
    env.toEnv.tree fw = (env.tree fw).map SymbolTree.toKconfigTree :=
  rfl

theorem deriveBootloader_of_proceeds
    (h : Proceeds sha env c app fw force s appTree bootTree appConfig) :
    deriveBootloader sha env.toEnv c.toConditions app fw force s =
      if (checkAddresses (appAddressOf appTree appConfig)
          (launchAddressOf bootTree (carriedOf appTree bootTree appConfig))).isSome then
        (s, some .offsetMismatch)
      else if c.fails .save then (s, some .kconfig)
      else
        (Function.update s fw (writeSeeded sha c.toConditions bootTree.toKconfigTree
          (bootTree.load (carriedOf appTree bootTree appConfig)) (derivedTag ++ app) (some appConfig)
          (s fw)), none) := by
  have hchecked := checkAddresses_map
    (appTree.address (appTree.load appConfig) appAddressSymbol)
    (bootTree.address (bootTree.load (carriedOf appTree bootTree appConfig)) launchAddressSymbol)
  unfold deriveBootloader
  rw [toEnv_tree, toEnv_tree, h.app_tree, h.app_config, h.boot_tree]
  dsimp only [Option.map_some]
  rw [h.free, appAddressOf, launchAddressOf, addressIn_eq, addressIn_eq, ← Option.not_isNone, hchecked]
  rfl

/-- Where its trees can be read, a derivation does what `deriveBootloader` says of the files. -/
theorem derive_eq_deriveBootloader (hraises : ∀ step, c.raises step = false)
    (hleft : c.left = (s fw).config) :
    ((derive sha env c app fw force s).1, profileError (derive sha env c app fw force s).2) =
      deriveBootloader sha env.toEnv c.toConditions app fw force s := by
  by_cases hgo : ∃ appTree bootTree appConfig,
      Proceeds sha env c app fw force s appTree bootTree appConfig
  · obtain ⟨appTree, bootTree, appConfig, h⟩ := hgo
    rw [derive_of_proceeds h, deriveBootloader_of_proceeds h, hleft, hraises .answers]
    dsimp only
    cases checkAddresses (appAddressOf appTree appConfig)
        (launchAddressOf bootTree (carriedOf appTree bootTree appConfig)) with
    | some mismatch => rfl
    | none =>
      cases c.fails .save with
      | true => exact Prod.ext (Function.update_eq_self fw s) rfl
      | false => rfl
  · unfold derive deriveBootloader
    rw [toEnv_tree, toEnv_tree]
    cases happ : env.tree app with
    | none => rfl
    | some appTree =>
      cases hconfig : (s app).config with
      | none => rfl
      | some appConfig =>
        cases hboot : env.tree fw with
        | none => rfl
        | some bootTree =>
          cases hrefuses : refuses sha env.toEnv fw force s with
          | true => simp [profileError, DeriveError.toProfileError]
          | false =>
            exact absurd ⟨appTree, bootTree, appConfig, happ, hconfig, hboot, hrefuses, hraises _,
              hraises _, hraises _⟩ hgo

/-! ## The shared answers -/

/-- One value, as a symbol of this type has it: numbers may be written in several ways. -/
def SameValue (int : Nat → Str → Option Int) (type : SymbolType) (a b : Str) : Prop :=
  a = b ∨ ((type = .hex ∨ type = .int) ∧
    ∃ n, int (baseOf type) a = some n ∧ int (baseOf type) b = some n)

/-- An answer of the application to a symbol that the bootloader's tree defines as well. -/
structure Shared (appTree bootTree : SymbolTree int) (appConfig : File) (name : Str)
    (app boot : Symbol) : Prop where
  app_symbol : appTree.syms name = some app
  app_defined : app.defined = true
  answered : appTree.value (appTree.load appConfig) name ≠ appTree.default (appTree.load appConfig) name
  boot_symbol : bootTree.syms name = some boot
  boot_defined : boot.defined = true

/-- Every shared answer has its value in this configuration, or a line of it is in this list. -/
def AllCarried (appTree bootTree : SymbolTree int) (appConfig config : File) (dropped : List Str) : Prop :=
  ∀ name app boot, Shared appTree bootTree appConfig name app boot →
    SameValue int boot.type (appTree.value (appTree.load appConfig) name)
      (bootTree.value (bootTree.load config) name) ∨
    ∃ line ∈ dropped, ∃ text, parseAnswer line = some (name, text)

/-- What a shared answer that is off, and one that is not, need of the value that the symbol has in
the bootloader's tree once the other answers are loaded: that it is off there; and that it is not
taken for the answer, when it is not, by a comparison that strips blanks, does not read escapes and
reads hex digits in either case. -/
structure Comparable (appTree bootTree : SymbolTree int) (appConfig : File) : Prop where
  off : ∀ name app boot, Shared appTree bootTree appConfig name app boot →
    IsOff app.type (appTree.value (appTree.load appConfig) name) →
      SameValue int boot.type ['n']
        (bootTree.value (bootTree.load (carriedOf appTree bootTree appConfig)) name)
  told : ∀ name app boot, Shared appTree bootTree appConfig name app boot →
    ¬IsOff app.type (appTree.value (appTree.load appConfig) name) →
      sameValue int boot.type
        (unquote (strip (answerText app.type (appTree.value (appTree.load appConfig) name))))
        (bootTree.value (bootTree.load (carriedOf appTree bootTree appConfig)) name) = true →
      SameValue int boot.type (appTree.value (appTree.load appConfig) name)
        (bootTree.value (bootTree.load (carriedOf appTree bootTree appConfig)) name)

theorem derive_ok {result : Derived δ} (h : (derive sha env c app fw force s).2 = .ok result)
    (happ : env.tree app = some appTree) (hboot : env.tree fw = some bootTree)
    (hconfig : (s app).config = some appConfig) :
    result.dropped = droppedOf appTree bootTree appConfig ∧
    ((derive sha env c app fw force s).1 fw).config =
      some (bootTree.writeConfig (bootTree.load (carriedOf appTree bootTree appConfig))) := by
  rcases proceeds_or_early sha env c app fw force s with ⟨appTree', bootTree', appConfig', hgo⟩ | ⟨e, -, hs⟩
  · obtain rfl : appTree' = appTree := Option.some.inj (hgo.app_tree.symm.trans happ)
    obtain rfl : bootTree' = bootTree := Option.some.inj (hgo.boot_tree.symm.trans hboot)
    obtain rfl : appConfig' = appConfig := Option.some.inj (hgo.app_config.symm.trans hconfig)
    rcases derive_outcome hgo with ⟨-, mismatch, hs⟩ | ⟨-, -, hs⟩ | ⟨-, -, -, hwritten, hdropped⟩
    · rw [hs] at h
      cases h
    · rw [hs] at h
      cases h
    · exact ⟨hdropped result h, hwritten⟩
  · rw [hs] at h
    cases h

theorem named_dropped_iff {name : Str} {boot : Symbol} (hsym : bootTree.syms name = some boot)
    (hdefined : boot.defined = true) :
    (∃ line ∈ droppedOf appTree bootTree appConfig, ∃ text, parseAnswer line = some (name, text)) ↔
      ∃ line, Answers appTree appConfig line name ∧
        isRefused bootTree (bootTree.load (carriedOf appTree bootTree appConfig)) line = true := by
  have hdefines : bootTree.defines name = true := by
    rw [bootTree.defines_eq, hsym]
    exact hdefined
  have hnamed : ∀ {line other : Str} {text : Str}, Answers appTree appConfig line other →
      parseAnswer line = some (name, text) → other = name := by
    intro line other text hanswer hparse
    obtain ⟨sym, -, hother⟩ := hanswer.parse
    rw [hparse] at hother
    cases hother
    rfl
  constructor
  · rintro ⟨line, hline, text, hparse⟩
    rcases List.mem_append.mp hline with hforeign | hrefused
    · have hout := (List.mem_filter.mp hforeign).2
      rw [isForeign, hparse] at hout
      simp [hdefines] at hout
    · obtain ⟨hcarried, hrefused⟩ := List.mem_filter.mp hrefused
      obtain ⟨hanswers, -⟩ := (mem_carried hparse).mp hcarried
      obtain ⟨other, hanswer⟩ := mem_minimalAnswers.mp hanswers
      obtain rfl := hnamed hanswer hparse
      exact ⟨line, hanswer, hrefused⟩
  · rintro ⟨line, hanswer, hrefused⟩
    obtain ⟨sym, -, hparse⟩ := hanswer.parse
    have hcarried : line ∈ carriedOf appTree bootTree appConfig :=
      (mem_carried hparse).mpr ⟨mem_minimalAnswers.mpr ⟨name, hanswer⟩, hdefines⟩
    exact ⟨line, List.mem_append_right _ (List.mem_filter.mpr ⟨hcarried, hrefused⟩), _, hparse⟩

theorem not_named_off {name : Str} {app boot : Symbol}
    (h : Shared appTree bootTree appConfig name app boot)
    (hoff : IsOff app.type (appTree.value (appTree.load appConfig) name)) :
    ¬∃ line ∈ droppedOf appTree bootTree appConfig, ∃ text, parseAnswer line = some (name, text) := by
  rw [named_dropped_iff h.boot_symbol h.boot_defined]
  rintro ⟨line, ⟨sym, hsym, -, -, hset, -⟩, -⟩
  obtain rfl : sym = app := Option.some.inj (hsym.symm.trans h.app_symbol)
  exact hset hoff

theorem named_set_iff {name : Str} {app boot : Symbol}
    (h : Shared appTree bootTree appConfig name app boot)
    (hset : ¬IsOff app.type (appTree.value (appTree.load appConfig) name)) :
    (∃ line ∈ droppedOf appTree bootTree appConfig, ∃ text, parseAnswer line = some (name, text)) ↔
      sameValue int boot.type
        (unquote (strip (answerText app.type (appTree.value (appTree.load appConfig) name))))
        (bootTree.value (bootTree.load (carriedOf appTree bootTree appConfig)) name) = false := by
  have hrefused : ∀ line, Answers appTree appConfig line name →
      isRefused bootTree (bootTree.load (carriedOf appTree bootTree appConfig)) line =
        !sameValue int boot.type
          (unquote (strip (answerText app.type (appTree.value (appTree.load appConfig) name))))
          (bootTree.value (bootTree.load (carriedOf appTree bootTree appConfig)) name) := by
    intro line hanswer
    obtain ⟨sym, hsym, hparse⟩ := hanswer.parse
    obtain rfl : sym = app := Option.some.inj (hsym.symm.trans h.app_symbol)
    simp only [isRefused, hparse, h.boot_symbol]
  rw [named_dropped_iff h.boot_symbol h.boot_defined]
  constructor
  · rintro ⟨line, hanswer, hline⟩
    rw [hrefused line hanswer] at hline
    simpa using hline
  · intro hdiffers
    have hanswer : Answers appTree appConfig
        (configString app.type name (appTree.value (appTree.load appConfig) name)) name :=
      ⟨app, h.app_symbol, h.app_defined, h.answered, hset, rfl⟩
    refine ⟨_, hanswer, ?_⟩
    rw [hrefused _ hanswer, hdiffers]
    rfl

theorem allCarried_iff (appTree bootTree : SymbolTree int) (appConfig : File) :
    AllCarried appTree bootTree appConfig
        (bootTree.writeConfig (bootTree.load (carriedOf appTree bootTree appConfig)))
        (droppedOf appTree bootTree appConfig) ↔
      Comparable appTree bootTree appConfig := by
  rw [AllCarried, bootTree.load_writeConfig]
  constructor
  · intro hall
    constructor
    · intro name app boot h hoff
      have hsame := (hall name app boot h).resolve_right (not_named_off h hoff)
      rwa [hoff.2] at hsame
    · intro name app boot h hset htold
      refine (hall name app boot h).resolve_right fun hnamed => ?_
      rw [(named_set_iff h hset).mp hnamed] at htold
      cases htold
  · intro hcomparable name app boot h
    by_cases hoff : IsOff app.type (appTree.value (appTree.load appConfig) name)
    · left
      rw [hoff.2]
      exact hcomparable.off name app boot h hoff
    · rw [named_set_iff h hoff, ← Bool.not_eq_true]
      exact or_iff_not_imp_right.mpr fun hsame =>
        hcomparable.told name app boot h hoff (not_not.mp hsame)

end Deriving

/-! ## Deriving from a tree whose address has no value -/

/-- A tree in which at most this symbol is defined, a hex of no value. -/
def valueless (int : Nat → Str → Option Int) (symbol : Option Str)
    (hword : ∀ name ∈ symbol, name ≠ [] ∧ '=' ∉ name ∧ ∀ c ∈ name, isSpace c = false) :
    SymbolTree int where
  Config := Unit
  load _ := ()
  minConfig _ := []
  writeConfig _ := []
  defines name := decide (symbol = some name)
  address _ _ := none
  load_isAnswer _ := rfl
  load_writeConfig _ := rfl
  load_minConfig _ := rfl
  minimal f part _ _ line hline := by cases hline
  minConfig_lines f line hline := by cases hline
  syms name := if symbol = some name then some ⟨.hex, true⟩ else none
  value _ _ := []
  default _ _ := []
  name_word name h := by
    split_ifs at h with hsame
    · exact hword name hsame
    · cases h
  defines_eq name := by
    split_ifs with hsame <;> simp [hsame]
  address_eq c name := by
    split_ifs <;> rfl
  minConfig_answer f line := by simp

theorem appAddressSymbol_word : appAddressSymbol ≠ [] ∧ '=' ∉ appAddressSymbol ∧
    ∀ c ∈ appAddressSymbol, isSpace c = false := by
  refine ⟨by decide, by decide, fun c hc => ?_⟩
  have hall : appAddressSymbol.all (fun c => !isSpace c) = true := by decide
  simpa using List.all_eq_true.mp hall c hc

def addressTree : SymbolTree fun _ _ => none :=
  valueless _ (some appAddressSymbol) fun _ h => Option.some.inj h ▸ appAddressSymbol_word

def bareTree : SymbolTree fun _ _ => none := valueless _ none fun _ h => by cases h

/-- The application's tree has an address symbol, without a value in this configuration; the
bootloader's tree has none. -/
def valuelessEnv : SymbolEnv fun _ _ => none where
  mcuType := "board".toList
  tree fw := some (if fw = "klipper".toList then addressTree else bareTree)
  vendor _ := []

def allWell : DeriveConditions where
  toConditions := calm
  raises _ := false
  left := none

def configuredApp : TypeFiles File := fun fw =>
  { config := if fw = "klipper".toList then some [] else none }

def answerOf (value : Bool) : Str := if value then ['y'] else ['n']

def boolName : Str := ['A']

theorem configString_boolName (value : Bool) :
    configString .bool boolName (answerOf value) = if value then "CONFIG_A=y".toList else offLine := by
  cases value <;> rfl

theorem isAnswer_boolLine (value : Bool) :
    isAnswer (if value then "CONFIG_A=y".toList else offLine) = true := by
  cases value <;> decide

theorem answerOf_injective {a b : Bool} (h : answerOf a = answerOf b) : a = b := by
  cases a <;> cases b <;> first | rfl | cases h

theorem oneBool_answer (dflt a : Bool) (line : Str) :
    (line ∈ (if a = dflt then [] else [if a then "CONFIG_A=y".toList else offLine]) ∧
        isAnswer line = true) ↔
      ∃ name sym, (if name = boolName then some (⟨.bool, true⟩ : Symbol) else none) = some sym ∧
        sym.defined = true ∧
        (if name = boolName then answerOf a else []) ≠
          (if name = boolName then answerOf dflt else []) ∧
        line = configString sym.type name (if name = boolName then answerOf a else []) := by
  constructor
  · rintro ⟨hline, -⟩
    by_cases hsame : a = dflt
    · rw [if_pos hsame] at hline
      cases hline
    · rw [if_neg hsame] at hline
      obtain rfl := List.mem_singleton.mp hline
      refine ⟨boolName, ⟨.bool, true⟩, if_pos rfl, rfl, ?_, ?_⟩
      · rw [if_pos rfl, if_pos rfl]
        exact fun h => hsame (answerOf_injective h)
      · rw [if_pos rfl, configString_boolName]
  · rintro ⟨name, sym, hsym, -, hvalue, rfl⟩
    split_ifs at hsym hvalue with hname
    cases hsym
    rw [if_pos hname, hname, configString_boolName]
    refine ⟨?_, isAnswer_boolLine a⟩
    rw [if_neg fun h => hvalue (by rw [h])]
    exact List.mem_singleton.mpr rfl

/-- The tree with one boolean, and its entry of `kconf.syms`. -/
def boolTree (dflt : Bool) : SymbolTree fun _ _ => none where
  toKconfigTree := oneBoolOf dflt
  syms name := if name = boolName then some ⟨.bool, true⟩ else none
  value a name := if name = boolName then answerOf a else []
  default _ name := if name = boolName then answerOf dflt else []
  name_word name h := by
    split_ifs at h with hsame
    · rw [hsame]
      refine ⟨by decide, by decide, fun c hc => ?_⟩
      obtain rfl := List.mem_singleton.mp hc
      decide
    · cases h
  defines_eq name := by
    by_cases hsame : name = boolName
    · subst hsame
      rfl
    · rw [if_neg hsame]
      exact decide_eq_false hsame
  address_eq a name := by
    split_ifs with hname
    · cases a <;> rfl
    · rfl
  minConfig_answer f line := oneBool_answer dflt (f.foldl oneBoolLine dflt) line

/-- The application's tree and the bootloader's, with the booleans on by default or off. -/
def boolEnv (app boot : Bool) : SymbolEnv fun _ _ => none where
  mcuType := "board".toList
  tree fw := some (if fw = "klipper".toList then boolTree app else boolTree boot)
  vendor _ := []

def boolFiles (config : File) : TypeFiles File := fun fw =>
  { config := if fw = "klipper".toList then some config else none }

end McuUpdater.Profiles
