import Mathlib.Data.List.Perm.Basic
import Mathlib.Data.List.Induction

/-! A dict as an ordered set and as an ordered map of lists: first occurrences of a
list, and its elements grouped by a key in first-seen order. Nothing here names a
program. -/
namespace McuUpdater.Grouping
variable {α κ : Type*} [DecidableEq κ]

/-- `seen.setdefault(x)` -/
def addSeen (seen : List κ) (x : κ) : List κ := if x ∈ seen then seen else seen ++ [x]

def firstSeen (xs : List κ) : List κ := xs.foldl addSeen []

/-- Append `x` to the list under `k`, which is made last when it is new. -/
def addTo (groups : List (κ × List α)) (k : κ) (x : α) : List (κ × List α) :=
  if k ∈ groups.map Prod.fst then
    groups.map fun g => if g.1 = k then (g.1, g.2 ++ [x]) else g
  else groups ++ [(k, [x])]

def groupOn (key : α → κ) (xs : List α) : List (κ × List α) :=
  xs.foldl (fun groups x => addTo groups (key x) x) []

theorem firstSeen_append_singleton (xs : List κ) (x : κ) :
    firstSeen (xs ++ [x]) = addSeen (firstSeen xs) x := by
  simp [firstSeen]

@[simp] theorem mem_firstSeen {xs : List κ} {x : κ} : x ∈ firstSeen xs ↔ x ∈ xs := by
  induction xs using List.reverseRecOn with
  | nil => simp [firstSeen]
  | append_singleton xs y ih =>
    rw [firstSeen_append_singleton, addSeen]
    split_ifs with hy
    · rw [ih, List.mem_append, List.mem_singleton]
      constructor
      · exact Or.inl
      · rintro (h | rfl)
        · exact h
        · exact ih.mp hy
    · simp [ih]

/-- The order is that of the first occurrences. -/
theorem firstSeen_pairwise (xs : List κ) :
    (firstSeen xs).Pairwise fun u v => xs.idxOf u < xs.idxOf v := by
  induction xs using List.reverseRecOn with
  | nil => simp [firstSeen]
  | append_singleton xs y ih =>
    have keep : (firstSeen xs).Pairwise fun u v => (xs ++ [y]).idxOf u < (xs ++ [y]).idxOf v := by
      refine ih.imp_of_mem fun {u v} hu hv h => ?_
      rw [List.idxOf_append_of_mem (mem_firstSeen.mp hu),
        List.idxOf_append_of_mem (mem_firstSeen.mp hv)]
      exact h
    rw [firstSeen_append_singleton, addSeen]
    split_ifs with hy
    · exact keep
    · refine List.pairwise_append.mpr ⟨keep, by simp, fun u hu v hv => ?_⟩
      obtain rfl : v = y := by simpa using hv
      rw [mem_firstSeen] at hu hy
      rw [List.idxOf_append_of_mem hu, List.idxOf_append_of_notMem hy]
      have := List.idxOf_lt_length_iff.mpr hu
      omega

theorem firstSeen_nodup (xs : List κ) : (firstSeen xs).Nodup :=
  (firstSeen_pairwise xs).imp fun h he => by simp [he] at h

/-- Every group holds the elements of its key in their order. -/
theorem groupOn_eq (key : α → κ) (xs : List α) :
    groupOn key xs = (firstSeen (xs.map key)).map fun k => (k, xs.filter (key · = k)) := by
  induction xs using List.reverseRecOn with
  | nil => rfl
  | append_singleton xs x ih =>
    have hstep : groupOn key (xs ++ [x]) = addTo (groupOn key xs) (key x) x := by
      simp [groupOn]
    have hkeys : (groupOn key xs).map Prod.fst = firstSeen (xs.map key) := by
      simp [ih, Function.comp_def]
    rw [hstep, addTo, hkeys, List.map_append, List.map_singleton, firstSeen_append_singleton,
      addSeen]
    split_ifs with hk
    · rw [ih, List.map_map]
      refine List.map_congr_left fun k _ => ?_
      by_cases he : key x = k
      · simp [he]
      · simp [he, Ne.symm he]
    · rw [ih, List.map_append]
      congr 1
      · refine List.map_congr_left fun k hm => ?_
        have he : key x ≠ k := fun he => hk (he ▸ hm)
        simp [he]
      · have hnone : xs.filter (key · = key x) = [] := by
          refine List.filter_eq_nil_iff.mpr fun y hy => ?_
          rw [mem_firstSeen] at hk
          simpa using fun he : key y = key x => hk (he ▸ List.mem_map_of_mem hy)
        simp [hnone]

theorem groupOn_keys (key : α → κ) (xs : List α) :
    (groupOn key xs).map Prod.fst = firstSeen (xs.map key) := by
  simp [groupOn_eq, Function.comp_def]

theorem groupOn_group {key : α → κ} {xs : List α} {g : κ × List α} (h : g ∈ groupOn key xs) :
    g.2 = xs.filter (key · = g.1) := by
  rw [groupOn_eq] at h
  obtain ⟨k, -, rfl⟩ := List.mem_map.mp h
  rfl

/-- Grouping only reorders. -/
theorem groupOn_perm (key : α → κ) (xs : List α) :
    ((groupOn key xs).flatMap Prod.snd).Perm xs := by
  have hflat (ks : List κ) (hn : ks.Nodup) :
      (ks.flatMap fun k => xs.filter (key · = k)).Perm (xs.filter (key · ∈ ks)) := by
    induction ks with
    | nil => simp
    | cons k ks ih =>
      obtain ⟨hk, hn⟩ := List.nodup_cons.mp hn
      rw [List.flatMap_cons]
      refine ((ih hn).append_left _).trans ?_
      have hsplit := List.filter_append_perm (fun x => decide (key x = k))
        (xs.filter (key · ∈ k :: ks))
      rw [List.filter_filter, List.filter_filter] at hsplit
      refine (List.Perm.append (.of_eq ?_) (.of_eq ?_)).trans hsplit
      · refine List.filter_congr fun x _ => ?_
        by_cases he : key x = k <;> simp [he]
      · refine List.filter_congr fun x _ => ?_
        by_cases he : key x = k <;> simp [he, hk]
  have hall : xs.filter (fun x => decide (key x ∈ firstSeen (xs.map key))) = xs := by
    refine List.filter_eq_self.mpr fun x hx => ?_
    simpa using ⟨x, hx, rfl⟩
  have h := hflat _ (firstSeen_nodup (xs.map key))
  rw [hall] at h
  simpa [groupOn_eq, List.flatMap_map] using h

end McuUpdater.Grouping
