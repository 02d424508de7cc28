import McuUpdater.Lib.Disk
import McuUpdater.Lib.PyText

/-! `providers/kconfig.py`: `save_config`, stopped or failing at any of its file operations. -/
namespace McuUpdater.Kconfig
open PyText Disk Program

/-- How each file operation of a save ends, and what a write that does not come to its end leaves
of the temporary file. A kill after an operation is one at the next. -/
structure Fates where
  makedirs : Fate
  write : Fate
  left : Option Str
  unlink : Fate
  backup : Fate
  replace : Fate

def tmpOf (path : Str) : Str := path ++ ['.', 't', 'm', 'p']

def bakOf (path : Str) : Str := path ++ ['.', 'b', 'a', 'k']

/-- `os.makedirs`, and `write_config` into the temporary file. -/
def writeTmp (path text : Str) (fates : Fates) : Program Str Str Unit := do
  operation fates.makedirs id id
  attempt (Program.write (tmpOf path) text fates.left fates.write) do
    attempt (Program.unlink (tmpOf path) fates.unlink) (pure ())
    raise

/-- The file that was there is kept under another name, where it can be. -/
def keepBackup (path : Str) (fates : Fates) : Program Str Str (Option Str) := do
  if ← isfile path then
    attempt (do rename path (bakOf path) fates.backup; pure (some (bakOf path))) (pure none)
  else pure none

/-- `save_config`, over the text `write_config` writes. -/
def saveConfig (path text : Str) (fates : Fates) : Program Str Str (Option Str) := do
  writeTmp path text fates
  let backup ← keepBackup path fates
  rename (tmpOf path) path fates.replace
  pure backup

/-- Whole: what was there, if anything, or all of what is saved. -/
def Whole (path text : Str) (before after : Files Str Str) : Prop :=
  after path = before path ∨ after path = some text

/-- The file that was there is moved away, and the new one never takes its place. -/
structure Fates.Gap (fates : Fates) (old : Option Str) : Prop where
  existed : old ≠ none
  made : fates.makedirs = .succeeds
  written : fates.write = .succeeds
  moved : fates.backup = .succeeds
  stopped : fates.replace ≠ .succeeds

section Save
variable {path text : Str} {fates : Fates} {files : Files Str Str}

theorem ne_append_of_ne_nil {s t : Str} (h : t ≠ []) : s ≠ s ++ t :=
  fun heq => h (List.self_eq_append_right.1 heq)

theorem path_ne_tmpOf (path : Str) : path ≠ tmpOf path := ne_append_of_ne_nil (by decide)

theorem tmpOf_ne_bakOf (path : Str) : tmpOf path ≠ bakOf path :=
  fun h => absurd (List.append_cancel_left h) (by decide)

theorem leaves_writeTmp (path text : Str) (fates : Fates) : Leaves path (writeTmp path text fates) :=
  leaves_bind (leaves_operation (fun _ => rfl) fun _ => rfl) fun _ =>
    leaves_attempt (leaves_write (path_ne_tmpOf path) text fates.left)
      (leaves_bind (leaves_attempt (leaves_unlink (path_ne_tmpOf path)) fun _ => rfl)
        fun _ _ => rfl)

theorem writeTmp_spec (path text : Str) (fates : Fates) (files : Files Str Str) :
    (fates.makedirs = .succeeds ∧ fates.write = .succeeds ∧ writeTmp path text fates files =
        (Function.update files (tmpOf path) (some text), .returned ())) ∨
      (¬(fates.makedirs = .succeeds ∧ fates.write = .succeeds) ∧
        ∀ value, (writeTmp path text fates files).2 ≠ .returned value) := by
  rw [writeTmp]
  cases hmake : fates.makedirs with
  | fails | killed => exact .inr ⟨fun h => (by cases h.1), fun _ h => by cases h⟩
  | succeeds =>
    by_cases hwrite : fates.write = .succeeds
    · refine .inl ⟨rfl, hwrite, ?_⟩
      rw [hwrite]
      rfl
    · refine .inr ⟨fun h => hwrite h.2, fun value h => hwrite ?_⟩
      exact succeeds_of_operation (returned_of_attempt h fun _ => bind_raise_ne value)

theorem keepBackup_absent (h : files path = none) :
    keepBackup path fates files = (files, .returned none) := by
  have hisfile : isfile path files = (files, .returned false) := by rw [isfile, h]; rfl
  exact bind_returned hisfile

theorem keepBackup_present {old : Str} (h : files path = some old) : keepBackup path fates files =
    match fates.backup with
    | .succeeds => (Function.update (Function.update files (bakOf path) (some old)) path none,
        .returned (some (bakOf path)))
    | .fails => (files, .returned none)
    | .killed => (files, .killed) := by
  have hisfile : isfile path files = (files, .returned true) := by rw [isfile, h]; rfl
  refine (bind_returned hisfile).trans ?_
  rw [if_pos rfl, attempt]
  cases hfate : fates.backup with
  | succeeds | fails | killed => 
    simp [bind, andThen, rename, operation, h, pure]

theorem lastRename_path (htmp : files (tmpOf path) = some text) (backup : Option Str) :
    ((do rename (tmpOf path) path fates.replace; pure backup : Program Str Str (Option Str))
        files).1 path =
      if fates.replace = .succeeds then some text else files path := by
  cases hfate : fates.replace with
  | succeeds | fails | killed =>
    simp [bind, andThen, rename, operation, htmp, pure, path_ne_tmpOf]

theorem renames_whole_iff (htmp : files (tmpOf path) = some text) (hmake : fates.makedirs = .succeeds)
    (hwrite : fates.write = .succeeds) :
    Whole path text files ((do
      let backup ← keepBackup path fates
      rename (tmpOf path) path fates.replace
      pure backup : Program Str Str (Option Str)) files).1 ↔ ¬fates.Gap (files path) := by
  cases hold : files path with
  | none =>
    refine iff_of_true ?_ fun hgap => hgap.existed rfl
    rw [bind_returned (keepBackup_absent hold), Whole, lastRename_path htmp, hold]
    split
    · exact .inr rfl
    · exact .inl rfl
  | some old =>
    have hkeep : keepBackup path fates files = _ := keepBackup_present hold
    cases hbackup : fates.backup with
    | succeeds =>
      rw [hbackup] at hkeep
      have hmoved : Function.update (Function.update files (bakOf path) (some old)) path none
          (tmpOf path) = some text := by
        rw [Function.update_of_ne (path_ne_tmpOf path).symm,
          Function.update_of_ne (tmpOf_ne_bakOf path), htmp]
      rw [bind_returned hkeep, Whole, lastRename_path hmoved, Function.update_self, hold]
      split_ifs with hreplace
      · exact iff_of_true (.inr rfl) fun hgap => hgap.stopped hreplace
      · refine iff_of_false ?_ fun hgap => hgap ⟨Option.some_ne_none old, hmake, hwrite, hbackup, hreplace⟩
        rintro (h | h) <;> cases h
    | fails =>
      rw [hbackup] at hkeep
      refine iff_of_true ?_ fun hgap => by cases hbackup.symm.trans hgap.moved
      rw [bind_returned hkeep, Whole, lastRename_path htmp]
      split
      · exact .inr rfl
      · exact .inl rfl
    | killed =>
      rw [hbackup] at hkeep
      refine iff_of_true (.inl ?_) fun hgap => by cases hbackup.symm.trans hgap.moved
      have hstops : ∀ value, (keepBackup path fates files).2 ≠ .returned value := by
        intro value h
        rw [hkeep] at h
        cases h
      rw [bind_stopped hstops, hkeep]

theorem saveConfig_whole_iff (files : Files Str Str) (path text : Str) (fates : Fates) :
    Whole path text files (saveConfig path text fates files).1 ↔ ¬fates.Gap (files path) := by
  rcases writeTmp_spec path text fates files with ⟨hmake, hwrite, htmp⟩ | ⟨hnot, hstops⟩
  · have hold : Function.update files (tmpOf path) (some text) path = files path :=
      Function.update_of_ne (path_ne_tmpOf path) ..
    have hnew : Function.update files (tmpOf path) (some text) (tmpOf path) = some text :=
      Function.update_self ..
    have hwhole := renames_whole_iff hnew hmake hwrite
    rw [Whole, hold] at hwhole
    rw [saveConfig, bind_returned htmp]
    exact hwhole
  · refine iff_of_true (.inl ?_) fun hgap => hnot ⟨hgap.made, hgap.written⟩
    rw [saveConfig, bind_stopped hstops, leaves_writeTmp path text fates files]

def savedBefore : Files Str Str := fun path => if path = ['c'] then some ['o', 'l', 'd'] else none

/-- Killed between the two renames: nothing is there, where the old file was. -/
theorem saveConfig_loses_config :
    savedBefore ['c'] = some ['o', 'l', 'd'] ∧
      (saveConfig ['c'] ['n', 'e', 'w']
        ⟨.succeeds, .succeeds, none, .succeeds, .succeeds, .killed⟩ savedBefore).1 ['c'] = none := by
  decide

end Save
end McuUpdater.Kconfig
