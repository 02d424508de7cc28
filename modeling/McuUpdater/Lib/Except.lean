import Mathlib.Data.List.Basic

/-! The results of an action that may raise, taken over a list. Nothing here names a
program. -/
namespace McuUpdater.ExceptList
variable {ε : Type*} {α β : Type*} {f : α → Except ε β} {a : α} {l : List α} {out : List β}

theorem bind_ok {α β : Type _} {x : Except ε α} {g : α → Except ε β} {b : β}
    (h : x >>= g = .ok b) : ∃ a, x = .ok a ∧ g a = .ok b := by
  cases x with
  | error e => cases h
  | ok a => exact ⟨a, rfl, h⟩

/-- A check that raises was passed. -/
theorem check_ok {α β : Type _} {p : Prop} [Decidable p] {e : ε} {g : α → Except ε β}
    {x : Except ε β} {b : β} (h : (if p then .error e >>= g else x) = .ok b) : ¬p ∧ x = .ok b := by
  split_ifs at h with hp
  · obtain ⟨_, he, -⟩ := bind_ok h
    cases he
  · exact ⟨hp, h⟩

theorem map_ok {α β : Type _} {x : Except ε α} {g : α → β} {b : β} (h : x.map g = .ok b) :
    ∃ a, x = .ok a ∧ g a = b := by
  cases x with
  | error e => cases h
  | ok a =>
    cases h
    exact ⟨a, rfl, rfl⟩

theorem mapM_cons_ok (h : (a :: l).mapM f = .ok out) :
    ∃ b rest, f a = .ok b ∧ l.mapM f = .ok rest ∧ out = b :: rest := by
  rw [List.mapM_cons] at h
  obtain ⟨b, hb, h⟩ := bind_ok h
  obtain ⟨rest, hrest, h⟩ := bind_ok h
  cases h
  exact ⟨b, rest, hb, hrest, rfl⟩

/-- Where no element raises, the results are those of the elements. -/
theorem mem_mapM (h : l.mapM f = .ok out) (b : β) : b ∈ out ↔ ∃ a ∈ l, f a = .ok b := by
  induction l generalizing out with
  | nil =>
    cases h
    simp
  | cons a l ih =>
    obtain ⟨b', rest, ha, hl, rfl⟩ := mapM_cons_ok h
    rw [List.mem_cons, ih hl]
    simp [ha, eq_comm]

theorem ok_of_mapM (h : l.mapM f = .ok out) (ha : a ∈ l) : ∃ b, f a = .ok b := by
  induction l generalizing out with
  | nil => cases ha
  | cons a' l ih =>
    obtain ⟨b, rest, hb, hl, rfl⟩ := mapM_cons_ok h
    rcases List.mem_cons.mp ha with rfl | ha
    · exact ⟨b, hb⟩
    · exact ih hl ha

theorem exists_mapM_ok (h : ∀ a ∈ l, ∃ b, f a = .ok b) : ∃ out, l.mapM f = .ok out := by
  induction l with
  | nil => exact ⟨[], rfl⟩
  | cons a l ih =>
    rw [List.forall_mem_cons] at h
    obtain ⟨⟨b, hb⟩, h⟩ := h
    obtain ⟨out, hout⟩ := ih h
    rw [List.mapM_cons, hb, hout]
    exact ⟨_, rfl⟩

theorem mapM_ok {g : α → β} (h : ∀ a ∈ l, f a = .ok (g a)) : l.mapM f = .ok (l.map g) := by
  induction l with
  | nil => rfl
  | cons a l ih =>
    rw [List.mapM_cons, h a List.mem_cons_self,
      show l.mapM f = .ok (l.map g) from ih fun a' h' => h a' (List.mem_cons_of_mem _ h')]
    rfl

theorem mapM_map {γ : Type _} (g : β → γ) (l : List α) :
    l.mapM (fun a => (f a).map g) = (l.mapM f).map (List.map g) := by
  induction l with
  | nil => rfl
  | cons a l ih =>
    rw [List.mapM_cons, List.mapM_cons, ih]
    cases f a with
    | error e => rfl
    | ok b =>
      cases l.mapM f with
      | error e => rfl
      | ok bs => rfl

/-- What the elements give where none raises is a map, when each gives what `g` says. -/
theorem eq_map_of_mapM {g : α → β} (h : l.mapM f = .ok out)
    (hg : ∀ a ∈ l, ∀ b, f a = .ok b → b = g a) : out = l.map g := by
  induction l generalizing out with
  | nil =>
    cases h
    rfl
  | cons a l ih =>
    obtain ⟨b, rest, hb, hl, rfl⟩ := mapM_cons_ok h
    rw [hg a List.mem_cons_self b hb,
      ih hl fun a' h' => hg a' (List.mem_cons_of_mem _ h'), List.map_cons]

end McuUpdater.ExceptList
