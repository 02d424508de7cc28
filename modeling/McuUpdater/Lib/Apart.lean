import Mathlib.Data.List.Nodup

/-! Lists kept under keys, no element of which occurs twice, be it under one key or under two.
Nothing here names a program. -/
namespace McuUpdater.Lib
variable {ι α : Type*} {l l' : ι → List α} {i : ι} {x : α}

structure Apart (l : ι → List α) : Prop where
  once : ∀ i, (l i).Nodup
  apart : ∀ i j, i ≠ j → List.Disjoint (l i) (l j)

theorem Apart.of_sublist (h : Apart l) (hsub : ∀ i, (l' i).Sublist (l i)) : Apart l' :=
  ⟨fun i => (hsub i).nodup (h.once i), fun i j hne _ hx hx' =>
    h.apart i j hne ((hsub i).subset hx) ((hsub j).subset hx')⟩

theorem Apart.congr (h : Apart l) (heq : ∀ i, l' i = l i) : Apart l' :=
  h.of_sublist fun i => heq i ▸ List.Sublist.refl _

/-- An element that is nowhere may be put under any key. -/
theorem Apart.concat (h : Apart l) (hx : ∀ j, x ∉ l j) (hi : l' i = l i ++ [x])
    (hothers : ∀ j, j ≠ i → l' j = l j) : Apart l' := by
  have hnew : ∀ j, j ≠ i → List.Disjoint (l' i) (l' j) := by
    intro j hj y hy hy'
    rw [hothers j hj] at hy'
    rw [hi] at hy
    rcases List.mem_append.mp hy with hy | hy
    · exact h.apart i j hj.symm hy hy'
    · exact hx j (List.mem_singleton.mp hy ▸ hy')
  refine ⟨fun j => ?_, fun j k hne => ?_⟩
  · by_cases hj : j = i
    · subst hj
      rw [hi, List.nodup_append']
      refine ⟨h.once j, by simp, fun y hy hy' => hx j ?_⟩
      rwa [← List.mem_singleton.mp hy']
    · rw [hothers j hj]
      exact h.once j
  · by_cases hj : j = i
    · subst hj
      exact hnew k hne.symm
    · by_cases hk : k = i
      · subst hk
        exact List.disjoint_symm (hnew j hj)
      · rw [hothers j hj, hothers k hk]
        exact h.apart j k hne

end McuUpdater.Lib
