import Mathlib.Data.List.Basic

/-! What a history that grows at its end says of the time since some mark in it. Nothing here names
a program. -/
namespace McuUpdater.History
variable {α : Type*} {keep : α → Prop} {mark : List α → α → Prop} {history : List α} {x : α}

/-- Some entry was a mark, in view of those before it, and every later one was to be kept. -/
def Since (keep : α → Prop) (mark : List α → α → Prop) (history : List α) : Prop :=
  ∃ before x after, history = before ++ x :: after ∧ mark before x ∧ ∀ y ∈ after, keep y

@[simp] theorem not_since_nil : ¬Since keep mark [] := by
  rintro ⟨before, x, after, h, -⟩
  exact List.append_ne_nil_of_right_ne_nil before (List.cons_ne_nil x after) h.symm

@[simp] theorem since_append_one :
    Since keep mark (history ++ [x]) ↔ mark history x ∨ Since keep mark history ∧ keep x := by
  constructor
  · rintro ⟨before, y, after, h, hmark, hkeep⟩
    rcases List.eq_nil_or_concat after with rfl | ⟨after, z, rfl⟩
    · obtain ⟨rfl, hsame⟩ := List.append_inj' h rfl
      cases hsame
      exact .inl hmark
    · have hsplit : history ++ [x] = (before ++ y :: after) ++ [z] := by simp [h]
      obtain ⟨rfl, hsame⟩ := List.append_inj' hsplit rfl
      cases hsame
      exact .inr ⟨⟨before, y, after, rfl, hmark, fun w hw => hkeep w (by simp [hw])⟩,
        hkeep x (by simp)⟩
  · rintro (hmark | ⟨⟨before, y, after, rfl, hmark, hkeep⟩, hx⟩)
    · exact ⟨history, x, [], rfl, hmark, by simp⟩
    · refine ⟨before, y, after ++ [x], by simp, hmark, fun w hw => ?_⟩
      rcases List.mem_append.mp hw with hw | hw
      · exact hkeep w hw
      · cases List.mem_singleton.mp hw
        exact hx

end McuUpdater.History
