import Mathlib.Data.List.Infix
import Mathlib.Data.List.Basic

/-! The lines of a text over any alphabet with a line end: what a line is made of, and
what appending a line adds. Nothing here names a program. -/
namespace McuUpdater.Lines
variable {α : Type*} [DecidableEq α] {eol : α} {c l x : List α}

/-- `x` on a line of its own at the end, after a line end that is supplied when missing. -/
def appendLine (eol : α) (c x : List α) : List α :=
  (if c.getLast? = some eol then c else c ++ [eol]) ++ (x ++ [eol])

theorem splitOn_spec (eol : α) (c : List α) :
    ∃ h t, c.splitOn eol = h :: t ∧ (h <+: c ∧ eol ∉ h) ∧ ∀ l ∈ t, l <:+: c ∧ eol ∉ l := by
  induction c with
  | nil => exact ⟨[], [], by simp, by simp, by simp⟩
  | cons b c ih =>
    obtain ⟨h, t, he, ⟨hp, hh⟩, ht⟩ := ih
    rw [List.splitOn_cons_eq_if_modifyHead, he]
    by_cases hb : b = eol
    · refine ⟨[], h :: t, by simp [hb], by simp, fun l hl => ?_⟩
      rcases List.mem_cons.mp hl with rfl | hl
      · exact ⟨hp.isInfix.trans (List.infix_cons (List.infix_refl c)), hh⟩
      · exact ⟨(ht l hl).1.trans (List.infix_cons (List.infix_refl c)), (ht l hl).2⟩
    · refine ⟨b :: h, t, by simp [hb], ⟨List.cons_prefix_cons.mpr ⟨rfl, hp⟩, ?_⟩, fun l hl => ?_⟩
      · simp [hh, Ne.symm hb]
      · exact ⟨(ht l hl).1.trans (List.infix_cons (List.infix_refl c)), (ht l hl).2⟩

theorem isInfix_of_mem_splitOn (h : l ∈ c.splitOn eol) : l <:+: c := by
  obtain ⟨h', t, he, hh, ht⟩ := splitOn_spec eol c
  rw [he] at h
  rcases List.mem_cons.mp h with rfl | h
  · exact hh.1.isInfix
  · exact (ht l h).1

theorem eol_notMem_of_mem_splitOn (h : l ∈ c.splitOn eol) : eol ∉ l := by
  obtain ⟨h', t, he, hh, ht⟩ := splitOn_spec eol c
  rw [he] at h
  rcases List.mem_cons.mp h with rfl | h
  · exact hh.2
  · exact (ht l h).2

theorem splitOn_concat (eol : α) (c : List α) :
    (c ++ [eol]).splitOn eol = c.splitOn eol ++ [[]] := by
  rw [List.splitOn_append_cons_self, List.splitOn_nil]

/-- The lines after an append: the old ones and those of what was appended. -/
theorem mem_splitOn_appendLine (hl : l ≠ []) :
    l ∈ (appendLine eol c x).splitOn eol ↔ l ∈ c.splitOn eol ∨ l ∈ x.splitOn eol := by
  have hmid : ∀ d : List α, (d ++ [eol] ++ (x ++ [eol])).splitOn eol =
      d.splitOn eol ++ (x.splitOn eol ++ [[]]) := fun d => by
    rw [List.append_assoc, List.singleton_append, List.splitOn_append_cons_self, splitOn_concat]
  by_cases hc : c.getLast? = some eol
  · obtain ⟨d, rfl⟩ := List.getLast?_eq_some_iff.mp hc
    rw [appendLine, if_pos hc, hmid, splitOn_concat]
    simp [hl]
  · rw [appendLine, if_neg hc, hmid]
    simp [hl]

theorem prefix_appendLine (eol : α) (c x : List α) : c <+: appendLine eol c x := by
  unfold appendLine
  split_ifs
  · exact List.prefix_append _ _
  · rw [List.append_assoc]
    exact List.prefix_append _ _

theorem isInfix_appendLine (eol : α) (c x : List α) : x <:+: appendLine eol c x :=
  ⟨if c.getLast? = some eol then c else c ++ [eol], [eol], by simp [appendLine]⟩

theorem length_lt_appendLine (eol : α) (c x : List α) :
    c.length < (appendLine eol c x).length := by
  unfold appendLine
  split_ifs <;> simp

end McuUpdater.Lines
