import Mathlib.Logic.Function.Iterate
import McuUpdater.Registry.CfgDoc

/-! Opening a file and saving it again: `CfgDocument(text).render()`, and the same around any
number of splices. -/
namespace McuUpdater.CfgDoc
open PyText

def fileText (lines : List Str) : Str := lines.flatMap (· ++ ['\n'])

/-- Lines a reopened file has again: no other character ends one, and the last is not empty. -/
def Kept (lines : List Str) : Prop := (∀ line ∈ lines, OneLine line) ∧ lines.getLast? ≠ some []

structure Splice where
  start : Nat
  stop : Nat
  replacement : List Str

/-- `self.lines[start:end] = replacement` -/
def Splice.apply (s : Splice) (lines : List Str) : List Str :=
  lines.take s.start ++ s.replacement ++ lines.drop (max s.start s.stop)

/-- `_splice` -/
def CfgDocument.splice (doc : CfgDocument) (s : Splice) : CfgDocument := ⟨s.apply doc.lines⟩

/-- Every text saved on the way is kept. -/
def KeptThrough : List Str → List Splice → Prop
  | lines, [] => Kept lines
  | lines, s :: splices => Kept lines ∧ KeptThrough (s.apply lines) splices

def reopen (text : Str) : Str := (CfgDocument.ofText text).render

def spliced (text : Str) (s : Splice) : Str := ((CfgDocument.ofText text).splice s).render

variable {rows lines : List Str} {text : Str}

@[simp] theorem fileText_nil : fileText [] = [] := rfl

@[simp] theorem fileText_cons (row : Str) (rows : List Str) :
    fileText (row :: rows) = row ++ '\n' :: fileText rows := by
  simp [fileText]

theorem fileText_append (xs ys : List Str) : fileText (xs ++ ys) = fileText xs ++ fileText ys := by
  simp [fileText]

theorem splitlines_fileText (h : ∀ row ∈ rows, OneLine row) : splitlines (fileText rows) = rows := by
  induction rows with
  | nil => rfl
  | cons row rows ih =>
    rw [List.forall_mem_cons] at h
    rw [fileText_cons, splitlines_append_newline h.1, ih h.2]

/-- The one line end `render` leaves out is that of an empty last line. -/
theorem textOf_eq_fileText (h : ∀ row ∈ rows, OneLine row) :
    textOf rows = if rows.getLast? = some [] then fileText rows.dropLast else fileText rows := by
  induction rows with
  | nil => rfl
  | cons row rows ih =>
    rw [List.forall_mem_cons] at h
    cases rows with
    | nil =>
      have hlast : row.getLast? ≠ some '\n' := fun he =>
        h.1.newline_notMem (List.mem_of_getLast? he)
      by_cases hrow : row = [] <;> simp [textOf, joinWith, hrow, hlast]
    | cons next rows =>
      rw [textOf_cons_cons, ih h.2, List.getLast?_cons_cons]
      split_ifs <;> simp

theorem render_eq_fileText_iff (h : ∀ row ∈ rows, OneLine row) :
    textOf rows = fileText rows ↔ rows.getLast? ≠ some [] := by
  rw [textOf_eq_fileText h]
  split_ifs with hlast
  · obtain ⟨front, rfl⟩ := List.getLast?_eq_some_iff.1 hlast
    simp [hlast, fileText_append]
  · simp [hlast]

theorem eq_newline_of_mem_textOf {c : Char} (hc : c ∈ textOf lines) (hb : isBreak c = true)
    (h : ∀ line ∈ lines, OneLine line) : c = '\n' := by
  rw [textOf_eq_fileText h] at hc
  have hraw : ∀ rows : List Str, (∀ row ∈ rows, OneLine row) → c ∈ fileText rows → c = '\n' := by
    intro rows hrows hmem
    obtain ⟨row, hrow, hmem⟩ := List.mem_flatMap.1 hmem
    rcases List.mem_append.1 hmem with hmem | hmem
    · exact absurd hb (by simp [hrows row hrow c hmem])
    · exact List.mem_singleton.1 hmem
  split_ifs at hc
  · exact hraw _ (fun row hrow => h row (List.dropLast_subset _ hrow)) hc
  · exact hraw _ h hc

theorem reopen_fileText_iff (ended : ∀ row ∈ rows, '\n' ∉ row) :
    reopen (fileText rows) = fileText rows ↔ Kept rows := by
  constructor
  · intro same
    have oneLine : ∀ row ∈ rows, OneLine row := by
      intro row hrow c hc
      by_contra hb
      rw [Bool.not_eq_false] at hb
      have mem : c ∈ fileText rows := List.mem_flatMap.2 ⟨row, hrow, by simp [hc]⟩
      rw [← same] at mem
      exact ended row hrow (eq_newline_of_mem_textOf mem hb (oneLine_of_mem_splitlines _) ▸ hc)
    refine ⟨oneLine, ?_⟩
    rw [← render_eq_fileText_iff oneLine]
    simpa [reopen, CfgDocument.render, CfgDocument.ofText, splitlines_fileText oneLine] using same
  · rintro ⟨oneLine, hlast⟩
    have read := splitlines_fileText oneLine
    simpa [reopen, CfgDocument.render, CfgDocument.ofText, read] using
      (render_eq_fileText_iff oneLine).2 hlast

/-- One save around a splice changes the text where the lines are spliced. -/
theorem spliced_fileText {s : Splice} (before : Kept rows) (after : Kept (s.apply rows)) :
    spliced (fileText rows) s = fileText (s.apply rows) := by
  have read := splitlines_fileText before.1
  simpa [spliced, CfgDocument.render, CfgDocument.splice, CfgDocument.ofText, read] using
    (render_eq_fileText_iff after.1).2 after.2

theorem KeptThrough.head {splices : List Splice} (h : KeptThrough rows splices) : Kept rows := by
  cases splices with
  | nil => exact h
  | cons => exact h.1

theorem foldl_spliced {splices : List Splice} (h : KeptThrough rows splices) :
    splices.foldl spliced (fileText rows) =
      fileText (splices.foldl (fun lines s => s.apply lines) rows) := by
  induction splices generalizing rows with
  | nil => rfl
  | cons s splices ih =>
    rw [List.foldl_cons, List.foldl_cons, spliced_fileText h.1 h.2.head, ih h.2]

theorem reopened_unchanged_iff (rows : List Str) (ended : ∀ row ∈ rows, '\n' ∉ row) :
    (reopen (fileText rows) = fileText rows ↔ Kept rows) ∧
    ((∀ n, reopen^[n] (fileText rows) = fileText rows) ↔ Kept rows) ∧
    ∀ splices, KeptThrough rows splices → splices.foldl spliced (fileText rows) =
      fileText (splices.foldl (fun lines s => s.apply lines) rows) := by
  have once := reopen_fileText_iff ended
  refine ⟨once, ⟨fun h => once.1 (h 1), fun h n => ?_⟩, fun splices h => foldl_spliced h⟩
  exact Function.iterate_fixed (once.2 h) n

/-- The blank line between two sections, with the second one taken away. -/
theorem reopened_unchanged_iff_twoSections :
    reopen (fileText ["[a]".toList, [], "[b]".toList]) = fileText ["[a]".toList, [], "[b]".toList] :=
  (reopened_unchanged_iff ["[a]".toList, [], "[b]".toList] (by decide)).1.2
    ⟨by decide, by decide⟩

/-- A blank line at the end is lost, and a form feed becomes a line feed. -/
theorem reopened_changed :
    ¬(∀ rows : List Str, (∀ row ∈ rows, '\n' ∉ row) → reopen (fileText rows) = fileText rows) ∧
    reopen "[a]\n\n".toList = "[a]\n".toList ∧
    reopen "# a\x0cb\n".toList = "# a\nb\n".toList := by
  refine ⟨fun all => ?_, by decide, by decide⟩
  have := all ["[a]".toList, []] (by decide)
  exact absurd this (by decide)

end McuUpdater.CfgDoc
