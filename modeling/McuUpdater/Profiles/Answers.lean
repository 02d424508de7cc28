import McuUpdater.Lib.PyText

/-! `providers/kconfig.py` and `profiles.py`: the three spellings of a line, and the
answers taken from a minimal config. -/
namespace McuUpdater.Profiles
open PyText

/-- The lines of a text file. -/
abbrev File := List Str

/-- A line kconfiglib reads as `CONFIG_X=value`. -/
def isSet (line : Str) : Bool :=
  match after "CONFIG_".toList line with
  | some rest => rest.head? ≠ some '=' && rest.contains '='
  | none => false

/-- A line kconfiglib reads as `# CONFIG_X is not set`. -/
def isUnset (line : Str) : Bool :=
  match after "# CONFIG_".toList line with
  | some rest =>
    !(rest.takeWhile (· ≠ ' ')).isEmpty &&
      (after " is not set".toList (rest.dropWhile (· ≠ ' '))).isSome
  | none => false

def isAnswer (line : Str) : Bool := isSet line || isUnset line

/-- `line.lstrip().startswith("#")` -/
def isComment (line : Str) : Bool := (lstrip line).head? = some '#'

/-- A firmware tree and its own kconfiglib: the values of all symbols after a config is
loaded, what is written of them, and the laws its documentation gives. -/
structure KconfigTree where
  Config : Type
  /-- `load_config` into a freshly parsed tree -/
  load : File → Config
  /-- `write_min_config` -/
  minConfig : Config → File
  /-- `write_config` -/
  writeConfig : Config → File
  /-- whether the tree defines a symbol -/
  defines : Str → Bool
  /-- `_address` -/
  address : Config → Str → Option Nat
  load_isAnswer : ∀ f, load (f.filter isAnswer) = load f
  load_writeConfig : ∀ f, load (writeConfig (load f)) = load f
  /-- A complete configuration can be derived from a minimal one by loading it. -/
  load_minConfig : ∀ f, load (minConfig (load f)) = load f
  /-- Symbols whose value matches their default are left out, so each answer is needed. -/
  minimal : ∀ f part, part.Sublist (minConfig (load f)) → load part = load f →
    ∀ line ∈ minConfig (load f), isAnswer line → line ∈ part
  minConfig_lines : ∀ f, ∀ line ∈ minConfig (load f),
    (isSet line ∧ strip line = line) ∨ isComment line ∨ strip line = []

/-- `minimal_answers` -/
def minimalAnswers (t : KconfigTree) (c : t.Config) : List Str :=
  ((t.minConfig c).filter fun line => strip line ≠ [] && !isComment line).map strip

/-- `parse_answer` -/
def parseAnswer (line : Str) : Option (Str × Str) :=
  let text := strip line
  match after "# CONFIG_".toList text, after "CONFIG_".toList text with
  | some rest, _ =>
    if " is not set".toList <:+ rest then
      some (strip (rest.take (rest.length - " is not set".length)), "n".toList)
    else none
  | none, some rest =>
    if '=' ∈ rest then
      some (strip (rest.takeWhile (· ≠ '=')), strip ((rest.dropWhile (· ≠ '=')).drop 1))
    else none
  | none, none => none

theorem lstrip_cons_of_not_space {c : Char} {s : Str} (h : isSpace c = false) :
    lstrip (c :: s) = c :: s := by
  simp [lstrip, h]

theorem isSet_shape {line : Str} (h : isSet line) : ∃ rest, line = 'C' :: rest := by
  unfold isSet after at h
  split at h
  · rename_i hafter
    split_ifs at hafter with hp
    obtain ⟨rest, rfl⟩ := hp
    exact ⟨_, rfl⟩
  · cases h

theorem not_isComment_of_isSet {line : Str} (h : isSet line) :
    isComment line = false ∧ lstrip line = line := by
  obtain ⟨rest, rfl⟩ := isSet_shape h
  have hl := lstrip_cons_of_not_space (s := rest) (show isSpace 'C' = false by decide)
  exact ⟨by simp [isComment, hl], hl⟩

theorem isUnset_shape {line : Str} (h : isUnset line) : ∃ rest, line = '#' :: rest := by
  unfold isUnset after at h
  split at h
  · rename_i hafter
    split_ifs at hafter with hp
    obtain ⟨rest, rfl⟩ := hp
    exact ⟨_, rfl⟩
  · cases h

theorem isSet_of_isUnset {line : Str} (h : isUnset line) : isSet line = false := by
  obtain ⟨rest, rfl⟩ := isUnset_shape h
  cases hs : isSet ('#' :: rest) with
  | false => rfl
  | true =>
    obtain ⟨rest', he⟩ := isSet_shape hs
    cases he

variable {t : KconfigTree} {f : File}

theorem keeps_line {line : Str} (h : (isSet line ∧ strip line = line) ∨ isComment line ∨
    strip line = []) :
    (strip line ≠ [] && !isComment line) = isSet line ∧ (isSet line → strip line = line) := by
  cases hset : isSet line with
  | true =>
    obtain ⟨hcomment, hl⟩ := not_isComment_of_isSet hset
    obtain ⟨rest, rfl⟩ := isSet_shape hset
    have hne : strip ('C' :: rest) ≠ [] := fun he => by
      rw [strip, hl, rstrip, List.rdropWhile_eq_nil_iff] at he
      have := he 'C' (by simp)
      exact absurd this (by decide)
    have hstrip : strip ('C' :: rest) = 'C' :: rest := by
      rcases h with ⟨-, h⟩ | h | h
      · exact h
      · rw [hcomment] at h
        cases h
      · exact absurd h hne
    exact ⟨by simp [hne, hcomment], fun _ => hstrip⟩
  | false =>
    rcases h with ⟨h, -⟩ | h | h
    · rw [hset] at h
      cases h
    · exact ⟨by simp [h], nofun⟩
    · exact ⟨by simp [h], nofun⟩

/-- The answers taken are the assignments of the minimal config: the lines that turn a
boolean off look like comments and are left out. -/
theorem minimalAnswers_eq (t : KconfigTree) (f : File) :
    minimalAnswers t (t.load f) = (t.minConfig (t.load f)).filter isSet := by
  have hkeep := fun line hl => keeps_line (t.minConfig_lines f line hl)
  have hfilter : (t.minConfig (t.load f)).filter (fun line => strip line ≠ [] && !isComment line) =
      (t.minConfig (t.load f)).filter isSet :=
    List.filter_congr fun line hl => (hkeep line hl).1
  rw [minimalAnswers, hfilter]
  have hfix : ∀ line ∈ (t.minConfig (t.load f)).filter isSet, strip line = id line := fun line hl => by
    obtain ⟨hl, hset⟩ := List.mem_filter.mp hl
    exact (hkeep line hl).2 hset
  rw [List.map_congr_left hfix, List.map_id]

/-- Loading the answers taken gives the configuration back exactly when no boolean was
turned off by a line of the minimal config. -/
theorem load_minimalAnswers_iff (t : KconfigTree) (f : File) :
    t.load (minimalAnswers t (t.load f)) = t.load f ↔
      ∀ line ∈ t.minConfig (t.load f), isUnset line = false := by
  rw [minimalAnswers_eq]
  constructor
  · intro h line hl
    by_contra hun
    have hun : isUnset line = true := by simpa using hun
    have hmem := t.minimal f _ List.filter_sublist h line hl (by simp [isAnswer, hun])
    have hset := (List.mem_filter.mp hmem).2
    rw [isSet_of_isUnset hun] at hset
    cases hset
  · intro h
    have heq : (t.minConfig (t.load f)).filter isSet = (t.minConfig (t.load f)).filter isAnswer :=
      List.filter_congr fun line hl => by simp [isAnswer, h line hl]
    rw [heq, t.load_isAnswer, t.load_minConfig]

/-- The line that turns this boolean off. -/
def offLine : Str := "# CONFIG_A is not set".toList

def oneBoolLine (value : Bool) (line : Str) : Bool :=
  if line = "CONFIG_A=y".toList then true
  else if line = "CONFIG_A=n".toList ∨ line = offLine then false
  else value

theorem oneBoolLine_of_not_isAnswer {line : Str} (h : isAnswer line = false) (value : Bool) :
    oneBoolLine value line = value := by
  unfold oneBoolLine
  split_ifs with hy hn
  · exact absurd h (by rw [hy]; decide)
  · rcases hn with rfl | rfl
    · exact absurd h (by decide)
    · exact absurd h (by decide)
  · rfl

/-- A tree with one boolean and this default. -/
def oneBoolOf (dflt : Bool) : KconfigTree where
  Config := Bool
  load f := f.foldl oneBoolLine dflt
  minConfig a := if a = dflt then [] else [if a then "CONFIG_A=y".toList else offLine]
  writeConfig a := [if a then "CONFIG_A=y".toList else offLine]
  defines name := name = "A".toList
  address _ _ := none
  load_isAnswer f := by
    rw [List.foldl_filter]
    congr 1
    funext value line
    split_ifs with h
    · rfl
    · exact (oneBoolLine_of_not_isAnswer (by simpa using h) value).symm
  load_writeConfig f := by cases f.foldl oneBoolLine dflt <;> cases dflt <;> decide
  load_minConfig f := by cases f.foldl oneBoolLine dflt <;> cases dflt <;> decide
  minimal f part := by
    by_cases hsame : f.foldl oneBoolLine dflt = dflt
    · simp [hsame]
    · simp only [if_neg hsame]
      intro hpart hload line hline _
      obtain rfl := List.mem_singleton.mp hline
      rcases List.sublist_singleton.mp hpart with rfl | rfl
      · exact absurd hload.symm hsame
      · exact hline
  minConfig_lines f line hline := by
    split_ifs at hline with hsame hon
    · cases hline
    · obtain rfl := List.mem_singleton.mp hline
      exact .inl (by decide)
    · obtain rfl := List.mem_singleton.mp hline
      exact .inr (.inl (by decide))

def oneBool : KconfigTree := oneBoolOf true

end McuUpdater.Profiles
