import Mathlib.Data.List.Basic
import Mathlib.Data.List.Induction
import Mathlib.Data.List.Nodup
import Mathlib.Logic.Function.Basic
import Mathlib.Order.Basic

/-! A memory that erases a whole sector when a write moves into it. Nothing here names a
program. -/
namespace McuUpdater.Sectors
variable {ι κ α : Type*} [DecidableEq ι] [DecidableEq κ]

/-- The cells, and the sectors erased so far, the last of them last. -/
structure Store (ι κ α : Type*) where
  cells : ι → α
  erased : List κ := []

/-- A write moves into the sector of its cell: it is erased unless it was the last one. -/
def moveTo (sector : ι → κ) (blank : α) (s : Store ι κ α) (k : κ) : Store ι κ α :=
  if s.erased.getLast? = some k then s
  else ⟨fun x => if sector x = k then blank else s.cells x, s.erased ++ [k]⟩

def write (sector : ι → κ) (blank : α) (s : Store ι κ α) (w : ι × α) : Store ι κ α :=
  let s := moveTo sector blank s (sector w.1)
  ⟨Function.update s.cells w.1 w.2, s.erased⟩

def run (sector : ι → κ) (blank : α) (cells : ι → α) (writes : List (ι × α)) : Store ι κ α :=
  writes.foldl (write sector blank) ⟨cells, []⟩

variable {sector : ι → κ} {blank : α} {cells : ι → α} {s : Store ι κ α} {writes : List (ι × α)}
  {w : ι × α} {x : ι} {v : α} {k : κ}

theorem run_concat : run sector blank cells (writes ++ [w]) =
    write sector blank (run sector blank cells writes) w := by
  simp [run]

/-! ## One write -/

@[simp] theorem write_self : (write sector blank s w).cells w.1 = w.2 := by
  simp [write]

theorem write_other_sector (h : sector x ≠ sector w.1) :
    (write sector blank s w).cells x = s.cells x := by
  have hx : x ≠ w.1 := fun he => h (by rw [he])
  unfold write moveTo
  dsimp only
  rw [Function.update_of_ne hx]
  split
  · rfl
  · simp [h]

theorem write_of_current (h : s.erased.getLast? = some (sector w.1)) (hx : x ≠ w.1) :
    (write sector blank s w).cells x = s.cells x := by
  simp [write, moveTo, h, hx]

theorem write_of_moved (h : s.erased.getLast? ≠ some (sector w.1)) (hx : x ≠ w.1)
    (hsector : sector x = sector w.1) : (write sector blank s w).cells x = blank := by
  simp [write, moveTo, h, hx, hsector]

theorem getLast?_erased_write :
    (write sector blank s w).erased.getLast? = some (sector w.1) := by
  unfold write moveTo
  dsimp only
  split
  · assumption
  · simp

theorem mem_erased_write :
    k ∈ (write sector blank s w).erased ↔ k ∈ s.erased ∨ k = sector w.1 := by
  unfold write moveTo
  dsimp only
  split
  · rename_i h
    constructor
    · exact Or.inl
    · rintro (hk | rfl)
      · exact hk
      · exact List.mem_of_getLast? h
  · simp

/-! ## A run of writes -/

theorem mem_erased_run :
    k ∈ (run sector blank cells writes).erased ↔ ∃ w ∈ writes, sector w.1 = k := by
  induction writes using List.reverseRecOn with
  | nil => simp [run]
  | append_singleton writes w ih =>
    rw [run_concat, mem_erased_write, ih]
    simp [or_and_right, exists_or, eq_comm]

/-- What lies in a sector that nothing is written to is kept. -/
theorem foldl_write_untouched (h : ∀ w ∈ writes, sector w.1 ≠ sector x) :
    (writes.foldl (write sector blank) s).cells x = s.cells x := by
  induction writes generalizing s with
  | nil => rfl
  | cons w writes ih =>
    have hw : sector x ≠ sector w.1 := (h w List.mem_cons_self).symm
    rw [List.foldl_cons, ih fun w' hw' => h w' (List.mem_cons_of_mem _ hw'),
      write_other_sector hw]

/-- What a touched sector held before is gone: a cell that is never written is blank. -/
theorem cells_of_gap (hx : ∀ w ∈ writes, w.1 ≠ x) (h : ∃ w ∈ writes, sector w.1 = sector x) :
    (run sector blank cells writes).cells x = blank := by
  induction writes using List.reverseRecOn with
  | nil => simp at h
  | append_singleton writes w ih =>
    have hne : x ≠ w.1 := (hx w (by simp)).symm
    have hbefore : ∀ w ∈ writes, w.1 ≠ x := fun w' hw' => hx w' (by simp [hw'])
    rw [run_concat]
    by_cases hsector : sector x = sector w.1
    · by_cases hcurrent : (run sector blank cells writes).erased.getLast? = some (sector w.1)
      · -- the sector was moved into by an earlier write
        have hmem := mem_erased_run.mp (List.mem_of_getLast? hcurrent)
        rw [write_of_current hcurrent hne]
        exact ih hbefore (hsector ▸ hmem)
      · exact write_of_moved hcurrent hne hsector
    · rw [write_other_sector hsector]
      refine ih hbefore ?_
      obtain ⟨w', hw', he⟩ := h
      rw [List.mem_append, List.mem_singleton] at hw'
      rcases hw' with hw' | rfl
      · exact ⟨w', hw', he⟩
      · exact absurd he.symm hsector

/-- A sector that only blanks are written to is blank throughout, in whatever order. -/
theorem cells_of_blank (h : ∃ w ∈ writes, sector w.1 = sector x)
    (hblank : ∀ w ∈ writes, sector w.1 = sector x → w.2 = blank) :
    (run sector blank cells writes).cells x = blank := by
  by_cases hx : ∀ w ∈ writes, w.1 ≠ x
  · exact cells_of_gap hx h
  · clear h
    push Not at hx
    induction writes using List.reverseRecOn with
    | nil => simp at hx
    | append_singleton writes w ih =>
      rw [run_concat]
      by_cases hw : w.1 = x
      · rw [← hw, write_self]
        exact hblank w (by simp) (by rw [hw])
      · obtain ⟨w', hw', he⟩ := hx
        have hin : w' ∈ writes := by
          rw [List.mem_append, List.mem_singleton] at hw'
          rcases hw' with hw' | rfl
          · exact hw'
          · exact absurd he hw
        have hrest := ih (fun w hw => hblank w (by simp [hw])) ⟨w', hin, he⟩
        by_cases hsector : sector x = sector w.1
        · by_cases hcurrent : (run sector blank cells writes).erased.getLast? = some (sector w.1)
          · rw [write_of_current hcurrent (Ne.symm hw), hrest]
          · exact write_of_moved hcurrent (Ne.symm hw) hsector
        · rw [write_other_sector hsector, hrest]

theorem getLast?_erased_run :
    (run sector blank cells writes).erased.getLast? = writes.getLast?.map (sector ·.1) := by
  induction writes using List.reverseRecOn with
  | nil => rfl
  | append_singleton writes w _ =>
    rw [run_concat, getLast?_erased_write, List.getLast?_concat]
    rfl

/-! ## Writes in the order of their sectors -/

variable [PartialOrder κ]

/-- A sector written to before is still the last one when it is written to again. -/
theorem current_of_ordered (h : (writes ++ [w]).Pairwise fun a b => sector a.1 ≤ sector b.1)
    {w' : ι × α} (hw' : w' ∈ writes) (hsector : sector w'.1 = sector w.1) :
    (run sector blank cells writes).erased.getLast? = some (sector w.1) := by
  obtain ⟨before, last, rfl⟩ := (List.eq_nil_or_concat writes).resolve_left
    (List.ne_nil_of_mem hw')
  rw [List.concat_eq_append] at h hw' ⊢
  rw [List.pairwise_append, List.pairwise_append] at h
  have hle : sector last.1 ≤ sector w.1 := h.2.2 last (by simp) w (by simp)
  have hge : sector w.1 ≤ sector last.1 := by
    rw [← hsector]
    rw [List.mem_append, List.mem_singleton] at hw'
    rcases hw' with hw' | rfl
    · exact h.1.2.2 w' hw' last (by simp)
    · exact le_refl _
  rw [getLast?_erased_run, List.getLast?_concat, Option.map_some, le_antisymm hle hge]

/-- Nothing moves back into a sector it has left, so that each is erased once. -/
theorem nodup_erased_run (h : writes.Pairwise fun a b => sector a.1 ≤ sector b.1) :
    (run sector blank cells writes).erased.Nodup := by
  induction writes using List.reverseRecOn with
  | nil => exact List.nodup_nil
  | append_singleton writes w ih =>
    have hbefore := ih (List.pairwise_append.mp h).1
    by_cases hcurrent : (run sector blank cells writes).erased.getLast? = some (sector w.1)
    · rw [run_concat, write, moveTo, if_pos hcurrent]
      exact hbefore
    · have hfresh : sector w.1 ∉ (run sector blank cells writes).erased := by
        intro hmem
        obtain ⟨w', hw', he⟩ := mem_erased_run.mp hmem
        exact hcurrent (current_of_ordered h hw' he)
      rw [run_concat, write, moveTo, if_neg hcurrent]
      exact List.nodup_append.mpr ⟨hbefore, List.nodup_singleton _, fun a ha b hb he =>
        hfresh (by rw [← List.mem_singleton.mp hb, ← he]; exact ha)⟩

/-- Where no cell is written twice, each holds what was written to it. -/
theorem cells_of_ordered (h : writes.Pairwise fun a b => sector a.1 ≤ sector b.1)
    (hnodup : (writes.map Prod.fst).Nodup) (hw : (x, v) ∈ writes) :
    (run sector blank cells writes).cells x = v := by
  induction writes using List.reverseRecOn with
  | nil => cases hw
  | append_singleton writes w ih =>
    rw [List.map_append, List.map_singleton, List.nodup_append] at hnodup
    rw [run_concat]
    rcases List.mem_append.mp hw with hin | hlast
    · have hne : x ≠ w.1 := hnodup.2.2 x (List.mem_map_of_mem hin) w.1 (by simp)
      have hkept := ih (List.pairwise_append.mp h).1 hnodup.1 hin
      by_cases hsector : sector x = sector w.1
      · rw [write_of_current (current_of_ordered h hin hsector) hne, hkept]
      · rw [write_other_sector hsector, hkept]
    · obtain rfl := List.mem_singleton.mp hlast
      exact write_self

end McuUpdater.Sectors
