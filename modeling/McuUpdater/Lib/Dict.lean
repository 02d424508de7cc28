import Mathlib.Data.List.Nodup

/-! Python dicts as lists in insertion order: filling one in turn, and keeping the first of
each repeated element. Nothing here names a program. -/
namespace McuUpdater.Dict
variable {α β κ : Type*} [DecidableEq κ]

/-- A key seen before keeps its place and takes the new value. -/
def dictPut (name : β → κ) (dict : List β) (b : β) : List β :=
  if dict.any (name · = name b) then dict.map fun x => if name x = name b then b else x
  else dict ++ [b]

variable {name : β → κ} {dict l : List β} {b x : β}

theorem dictPut_of_notMem (h : name b ∉ dict.map name) : dictPut name dict b = dict ++ [b] := by
  rw [dictPut, if_neg]
  simpa [List.mem_map] using h

theorem mem_dictPut_ne (h : x ∈ dictPut name dict b) : x = b ∨ x ∈ dict ∧ name x ≠ name b := by
  unfold dictPut at h
  split_ifs at h with hany
  · obtain ⟨y, hy, rfl⟩ := List.mem_map.mp h
    split_ifs with hname
    · exact .inl rfl
    · exact .inr ⟨hy, hname⟩
  · rcases List.mem_append.mp h with h | h
    · exact .inr ⟨h, fun hname => hany (List.any_eq_true.mpr ⟨x, h, by simpa using hname⟩)⟩
    · exact .inl (List.mem_singleton.mp h)

theorem mem_dictPut (h : x ∈ dictPut name dict b) : x = b ∨ x ∈ dict :=
  (mem_dictPut_ne h).imp id And.left

theorem map_dictPut (name : β → κ) (dict : List β) (b : β) : (dictPut name dict b).map name =
    if name b ∈ dict.map name then dict.map name else dict.map name ++ [name b] := by
  by_cases h : name b ∈ dict.map name
  · have hany : dict.any (name · = name b) = true := by simpa using h
    rw [if_pos h, dictPut, if_pos hany, List.map_map]
    refine List.map_congr_left fun x _ => ?_
    simp only [Function.comp_apply]
    split_ifs with hx
    · exact hx.symm
    · rfl
  · rw [if_neg h, dictPut_of_notMem h]
    simp

theorem nodup_dictPut (h : (dict.map name).Nodup) (b : β) : ((dictPut name dict b).map name).Nodup := by
  rw [map_dictPut]
  split_ifs with hb
  · exact h
  · rw [List.nodup_append']
    refine ⟨h, by simp, fun k hk hk' => hb ?_⟩
    rwa [← List.mem_singleton.mp hk']

theorem nodup_foldl_dictPut (h : (dict.map name).Nodup) (l : List β) :
    ((l.foldl (dictPut name) dict).map name).Nodup := by
  induction l generalizing dict with
  | nil => exact h
  | cons b l ih => exact ih (nodup_dictPut h b)

theorem mem_foldl_dictPut (h : x ∈ l.foldl (dictPut name) dict) : x ∈ l ∨ x ∈ dict := by
  induction l generalizing dict with
  | nil => exact .inr h
  | cons b l ih =>
    rcases ih h with h | h
    · exact .inl (List.mem_cons_of_mem _ h)
    · rcases mem_dictPut h with rfl | h
      · exact .inl (by simp)
      · exact .inr h

theorem map_subset_dictPut (name : β → κ) (dict : List β) (b : β) :
    dict.map name ⊆ (dictPut name dict b).map name := by
  rw [map_dictPut]
  split_ifs
  · exact List.Subset.refl _
  · exact List.subset_append_left _ _

/-- Every key put is there in the end. -/
theorem mem_map_foldl_dictPut (h : b ∈ l) : name b ∈ (l.foldl (dictPut name) dict).map name := by
  have hkeeps : ∀ (l dict : List β), dict.map name ⊆ (l.foldl (dictPut name) dict).map name := by
    intro l
    induction l with
    | nil => exact fun dict => List.Subset.refl _
    | cons b l ih => exact fun dict => List.Subset.trans (map_subset_dictPut name dict b) (ih _)
  induction l generalizing dict with
  | nil => cases h
  | cons b' l ih =>
    rcases List.mem_cons.mp h with rfl | h
    · refine hkeeps l _ ?_
      rw [map_dictPut]
      split_ifs with hmem
      · exact hmem
      · simp
    · exact ih h

/-- `dict.setdefault(name(b), b)`: a key seen before keeps its value. -/
def setDefault (name : β → κ) (dict : List β) (b : β) : List β :=
  if name b ∈ dict.map name then dict else dict ++ [b]

theorem mem_foldl_setDefault (h : x ∈ l.foldl (setDefault name) dict) : x ∈ l ∨ x ∈ dict := by
  induction l generalizing dict with
  | nil => exact Or.inr h
  | cons b l ih =>
    rcases ih h with h | h
    · exact Or.inl (List.mem_cons_of_mem _ h)
    · unfold setDefault at h
      split_ifs at h with hb
      · exact Or.inr h
      · rcases List.mem_append.mp h with h | h
        · exact Or.inr h
        · exact Or.inl (by simp [List.mem_singleton.mp h])

/-- Every key put in is there in the end. -/
theorem map_foldl_setDefault {k : κ} : k ∈ (l.foldl (setDefault name) dict).map name ↔
    k ∈ dict.map name ∨ k ∈ l.map name := by
  induction l generalizing dict with
  | nil => simp
  | cons b l ih =>
    rw [List.foldl_cons, ih, List.map_cons, List.mem_cons]
    unfold setDefault
    split_ifs with hb
    · constructor
      · rintro (h | h)
        · exact Or.inl h
        · exact Or.inr (Or.inr h)
      · rintro (h | rfl | h)
        · exact Or.inl h
        · exact Or.inl hb
        · exact Or.inr h
    · rw [List.map_append, List.mem_append, List.map_singleton, List.mem_singleton, or_assoc]

theorem find?_of_mem (h : (dict.map name).Nodup) (hx : x ∈ dict) :
    dict.find? (name · = name x) = some x := by
  induction dict with
  | nil => exact nomatch hx
  | cons b dict ih =>
    rw [List.map_cons, List.nodup_cons] at h
    rcases List.mem_cons.mp hx with rfl | hx
    · simp
    · have hne : name b ≠ name x := fun he => h.1 (he ▸ List.mem_map_of_mem hx)
      rw [List.find?_cons_of_neg (by simpa using hne), ih h.2 hx]

omit [DecidableEq κ] in
theorem lookup_of_mem [BEq κ] [LawfulBEq κ] {dict : List (κ × α)} {x : κ × α}
    (h : (dict.map Prod.fst).Nodup) (hx : x ∈ dict) : dict.lookup x.1 = some x.2 := by
  induction dict with
  | nil => cases hx
  | cons b dict ih =>
    rw [List.map_cons, List.nodup_cons] at h
    rcases List.mem_cons.mp hx with rfl | hx
    · exact List.lookup_cons_self
    · have hne : (x.1 == b.1) = false :=
        beq_false_of_ne fun he => h.1 (he ▸ List.mem_map_of_mem hx)
      rw [List.lookup_cons, hne]
      exact ih h.2 hx

theorem lookup_dictPut [BEq κ] [LawfulBEq κ] {v : α} (dict : List (κ × α)) (k key : κ) :
    (dictPut Prod.fst dict (k, v)).lookup key = if key = k then some v else dict.lookup key := by
  have hmap : ∀ l : List (κ × α), (l.map fun x => if x.1 = k then (k, v) else x).lookup key =
      if key = k ∧ k ∈ l.map Prod.fst then some v else l.lookup key := by
    intro l
    induction l with
    | nil => simp
    | cons x l ih =>
      rw [List.map_cons, List.lookup_cons, List.lookup_cons, ih]
      by_cases hk : key = k
      · subst hk
        by_cases hx : x.1 = key
        · simp [hx]
        · have hne : (key == x.1) = false := beq_false_of_ne (Ne.symm hx)
          have hkeys : key ∈ (x :: l).map Prod.fst ↔ key ∈ l.map Prod.fst := by
            rw [List.map_cons, List.mem_cons]
            exact or_iff_right (Ne.symm hx)
          simp only [if_neg hx, hne, hkeys]
      · have hne : (key == k) = false := beq_false_of_ne hk
        by_cases hx : x.1 = k
        · simp [hx, hk, hne]
        · simp only [if_neg hx, hk, false_and, if_false]
  by_cases hmem : k ∈ dict.map Prod.fst
  · have hany : dict.any (·.1 = k) = true := by simpa using hmem
    rw [dictPut, if_pos hany, hmap]
    simp [hmem]
  · rw [dictPut_of_notMem hmem, List.lookup_append, List.lookup_cons, List.lookup_nil]
    by_cases hk : key = k
    · subst hk
      have hnone : dict.lookup key = none := List.lookup_eq_none_iff.mpr fun x hx =>
        bne_iff_ne.mpr fun he => hmem (List.mem_map.mpr ⟨x, hx, he.symm⟩)
      simp [hnone]
    · have hne : (key == k) = false := beq_false_of_ne hk
      rw [if_neg hk, hne, Option.or_none]

omit [DecidableEq κ] in
theorem lookup_map_snd {γ : Type*} [BEq κ] [LawfulBEq κ] (f : κ × α → γ) (dict : List (κ × α))
    (key : κ) : (dict.map fun x => (x.1, f x)).lookup key =
      (dict.lookup key).map fun v => f (key, v) := by
  induction dict with
  | nil => rfl
  | cons x dict ih =>
    rw [List.map_cons, List.lookup_cons, List.lookup_cons, ih]
    cases hk : key == x.1 with
    | false => rfl
    | true =>
      rw [eq_of_beq hk]
      rfl

/-- Of the values put under a key, the last is what is there. -/
theorem lookup_foldl_dictPut [BEq κ] [LawfulBEq κ] (entries dict : List (κ × α)) (key : κ) :
    (entries.foldl (dictPut Prod.fst) dict).lookup key =
      (((entries.filter (·.1 = key)).getLast?).map Prod.snd).or (dict.lookup key) := by
  induction entries generalizing dict with
  | nil => simp
  | cons x entries ih =>
    rw [List.foldl_cons, ih, lookup_dictPut, List.filter_cons]
    by_cases hx : x.1 = key
    · simp only [hx, decide_true, if_true, List.getLast?_cons]
      cases (entries.filter (·.1 = key)).getLast? <;> simp
    · simp [hx, Ne.symm hx]

theorem nodup_eraseDups [BEq α] [LawfulBEq α] (l : List α) : l.eraseDups.Nodup := by
  induction hn : l.length using Nat.strongRecOn generalizing l with
  | ind n ih =>
    cases l with
    | nil => simp
    | cons a l =>
      have hlt : (l.filter fun b => !b == a).length < n := by
        subst hn
        exact Nat.lt_succ_of_le (List.length_filter_le _ _)
      rw [List.eraseDups_cons, List.nodup_cons]
      refine ⟨fun hm => ?_, ih _ hlt _ rfl⟩
      have hm := List.of_mem_filter (List.mem_eraseDups.mp hm)
      simp at hm

theorem eraseDups_of_nodup [BEq α] [LawfulBEq α] {l : List α} (h : l.Nodup) : l.eraseDups = l := by
  induction l with
  | nil => rfl
  | cons a l ih =>
    rw [List.nodup_cons] at h
    have hfilter : l.filter (fun b => !b == a) = l := by
      refine List.filter_eq_self.mpr fun b hb => ?_
      simpa using fun he : b = a => h.1 (he ▸ hb)
    rw [List.eraseDups_cons, hfilter, ih h.2]

theorem filter_eraseDups [BEq α] [LawfulBEq α] (p : α → Bool) (l : List α) :
    l.eraseDups.filter p = (l.filter p).eraseDups := by
  induction hn : l.length using Nat.strongRecOn generalizing l with
  | ind n ih =>
    cases l with
    | nil => rfl
    | cons a l =>
      have hlt : (l.filter fun b => !b == a).length < n := by
        subst hn
        exact Nat.lt_succ_of_le (List.length_filter_le _ _)
      have hswap : (l.filter fun b => !b == a).filter p = (l.filter p).filter fun b => !b == a := by
        simp only [List.filter_filter, Bool.and_comm]
      rw [List.eraseDups_cons, List.filter_cons, ih _ hlt _ rfl, hswap, List.filter_cons]
      by_cases ha : p a = true
      · simp only [ha, if_true, List.eraseDups_cons]
      · have hnot : ∀ b ∈ l.filter p, (!b == a) = true := fun b hb => by
          have hne : b ≠ a := fun he => ha (he ▸ List.of_mem_filter hb)
          simpa using hne
        simp only [ha, Bool.false_eq_true, if_false, List.filter_eq_self.mpr hnot]

/-- A new element comes last. -/
theorem getLast?_eraseDups_concat [BEq α] [LawfulBEq α] {l : List α} {a : α} (h : a ∉ l) :
    (l ++ [a]).eraseDups.getLast? = some a := by
  have hnew : [a].removeAll l = [a] := by simp [List.removeAll, h]
  rw [List.eraseDups_append, hnew, List.getLast?_append]
  simp [List.eraseDups_cons]

end McuUpdater.Dict
