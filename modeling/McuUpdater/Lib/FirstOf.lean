import Mathlib.Data.List.Basic

/-! Candidates tried in order until one of them settles the matter. Nothing here names a
program. -/
namespace McuUpdater.FirstOf
variable {α ε β : Type*}

/-- What trying one candidate comes to: the next is tried, or it ends with an error or
with an answer. -/
inductive Attempt (ε β : Type*)
  | next
  | stop (e : ε)
  | done (b : β)

/-- The candidates that were tried, and what came of it; `none` where none settled it. -/
structure Search (α ε β : Type*) where
  tried : List α
  outcome : Except ε (Option β)

def firstOf (attempt : α → Attempt ε β) : List α → Search α ε β
  | [] => ⟨[], .ok none⟩
  | a :: l =>
    match attempt a with
    | .next => ⟨a :: (firstOf attempt l).tried, (firstOf attempt l).outcome⟩
    | .stop e => ⟨[a], .error e⟩
    | .done b => ⟨[a], .ok (some b)⟩

variable {attempt : α → Attempt ε β} {l : List α}

/-- What the candidate that ended the search made of it. -/
def Settles (attempt : α → Attempt ε β) (a : α) (outcome : Except ε (Option β)) : Prop :=
  (∃ e, attempt a = .stop e ∧ outcome = .error e) ∨
  (∃ b, attempt a = .done b ∧ outcome = .ok (some b))

/-- Every candidate was passed over, or the last one tried settled it after the others
were. -/
theorem firstOf_cases (attempt : α → Attempt ε β) (l : List α) :
    ((firstOf attempt l).tried = l ∧ (firstOf attempt l).outcome = .ok none ∧
      ∀ a ∈ l, attempt a = .next) ∨
    (∃ before a after, l = before ++ a :: after ∧ (firstOf attempt l).tried = before ++ [a] ∧
      (∀ x ∈ before, attempt x = .next) ∧ Settles attempt a (firstOf attempt l).outcome) := by
  induction l with
  | nil => exact Or.inl ⟨rfl, rfl, by simp⟩
  | cons a l ih =>
    cases ha : attempt a with
    | stop e =>
      exact Or.inr ⟨[], a, l, rfl, by simp [firstOf, ha], by simp,
        Or.inl ⟨e, ha, by simp [firstOf, ha]⟩⟩
    | done b =>
      exact Or.inr ⟨[], a, l, rfl, by simp [firstOf, ha], by simp,
        Or.inr ⟨b, ha, by simp [firstOf, ha]⟩⟩
    | next =>
      rcases ih with ⟨htried, hout, hall⟩ | ⟨before, x, after, rfl, htried, hbefore, hx⟩
      · exact Or.inl ⟨by simp [firstOf, ha, htried], by simp [firstOf, ha, hout], by
          simpa [ha] using hall⟩
      · exact Or.inr ⟨a :: before, x, after, rfl, by simp [firstOf, ha, htried], by
          simpa [ha] using hbefore, by simpa [firstOf, ha] using hx⟩

theorem tried_isPrefix (attempt : α → Attempt ε β) (l : List α) :
    (firstOf attempt l).tried <+: l := by
  rcases firstOf_cases attempt l with ⟨h, -⟩ | ⟨before, a, after, hl, h, -⟩
  · exact ⟨[], by rw [h, List.append_nil]⟩
  · exact ⟨after, by rw [h, hl]; simp⟩

/-- An answer is that of the last candidate tried. -/
theorem of_done {b : β} (h : (firstOf attempt l).outcome = .ok (some b)) :
    ∃ before a, (firstOf attempt l).tried = before ++ [a] ∧ a ∈ l ∧ attempt a = .done b ∧
      ∀ x ∈ before, attempt x = .next := by
  rcases firstOf_cases attempt l with ⟨-, hout, -⟩ | ⟨before, a, after, hl, ht, hb, hs⟩
  · rw [hout] at h
    cases h
  · rcases hs with ⟨e, -, hout⟩ | ⟨b', ha, hout⟩
    · rw [hout] at h
      cases h
    · rw [hout] at h
      cases h
      exact ⟨before, a, ht, by simp [hl], ha, hb⟩

/-- Where none settled it, every candidate was tried and passed over. -/
theorem of_none (h : (firstOf attempt l).outcome = .ok none) :
    (firstOf attempt l).tried = l ∧ ∀ a ∈ l, attempt a = .next := by
  rcases firstOf_cases attempt l with ⟨ht, -, hall⟩ | ⟨before, a, after, -, -, -, hs⟩
  · exact ⟨ht, hall⟩
  · rcases hs with ⟨e, -, hout⟩ | ⟨b, -, hout⟩ <;> rw [hout] at h <;> cases h

/-- A candidate that was tried and not passed over is the last, and its outcome is that of
the search. -/
theorem of_tried {a : α} (ha : a ∈ (firstOf attempt l).tried) (hne : attempt a ≠ .next) :
    Settles attempt a (firstOf attempt l).outcome := by
  rcases firstOf_cases attempt l with ⟨ht, -, hall⟩ | ⟨before, x, after, -, ht, hb, hs⟩
  · exact absurd (hall a (ht ▸ ha)) hne
  · rw [ht, List.mem_append, List.mem_singleton] at ha
    rcases ha with ha | rfl
    · exact absurd (hb a ha) hne
    · exact hs

/-- Nothing is tried after a candidate that is not passed over. -/
theorem last_of_tried {before after : List α} {a : α}
    (h : (firstOf attempt l).tried = before ++ a :: after) (hne : attempt a ≠ .next) :
    after = [] := by
  induction l generalizing before with
  | nil => simp [firstOf] at h
  | cons x l ih =>
    cases hx : attempt x with
    | next =>
      rw [firstOf, hx] at h
      cases before with
      | nil =>
        rw [List.nil_append, List.cons.injEq] at h
        exact absurd (h.1 ▸ hx) hne
      | cons y before => exact ih (List.cons.inj h).2
    | stop e =>
      rw [firstOf, hx] at h
      cases before with
      | nil => exact (List.cons.inj h).2.symm
      | cons y before => simp at h
    | done b =>
      rw [firstOf, hx] at h
      cases before with
      | nil => exact (List.cons.inj h).2.symm
      | cons y before => simp at h

end McuUpdater.FirstOf
