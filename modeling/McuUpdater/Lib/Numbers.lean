import McuUpdater.Lib.PyText
import Mathlib.Data.List.Infix

/-! Numbers in base 10 with a separator between them, how such a text is split again, and how the
digits at the start of a text are taken off. Nothing here names a program. -/
namespace McuUpdater.Numbers
open PyText

/-- What follows one or more digits, `[0-9]+`. -/
def digits (s : Str) : Option Str :=
  if (s.head?.map Char.isDigit).getD false then some (s.dropWhile Char.isDigit) else none

/-- `joinWith` of numbers -/
def numbers (sep : Char) (ns : List Nat) : Str := joinWith [sep] (ns.map (Nat.toDigits 10))

variable {s t : Str} {c : Char} {n : Nat} {ns : List Nat} {parts : List Str}

theorem isDigit_toDigits (h : c ∈ Nat.toDigits 10 n) : c.isDigit = true :=
  Nat.isDigit_of_mem_toDigits (by decide) (by decide) h

theorem notMem_toDigits (hc : c.isDigit = false) : c ∉ Nat.toDigits 10 n := fun h => by
  rw [isDigit_toDigits h] at hc
  cases hc

theorem toDigits_injective : Function.Injective (Nat.toDigits 10) := fun m n h => by
  rw [← @Nat.ofDigitChars_ten_toDigits m, h, Nat.ofDigitChars_ten_toDigits]

/-- The parts of a joined text. -/
theorem splitOn_joinWith (hne : parts ≠ []) (h : ∀ part ∈ parts, c ∉ part) :
    (joinWith [c] parts).splitOn c = parts := by
  induction parts with
  | nil => exact absurd rfl hne
  | cons part parts ih =>
    rw [List.forall_mem_cons] at h
    cases hparts : parts with
    | nil => exact List.splitOn_eq_singleton h.1
    | cons next rest =>
      rw [hparts] at ih
      have hjoin : joinWith [c] (part :: next :: rest) = part ++ c :: joinWith [c] (next :: rest) := by
        rw [joinWith, List.append_assoc, List.singleton_append]
        simp
      rw [hjoin, List.splitOn_append_cons_self, List.splitOn_eq_singleton h.1,
        ih (by simp) (by rw [← hparts]; exact h.2)]
      rfl

theorem splitOn_numbers (hc : c.isDigit = false) (hne : ns ≠ []) :
    (numbers c ns).splitOn c = ns.map (Nat.toDigits 10) := by
  refine splitOn_joinWith (by simpa using hne) fun part hpart => ?_
  obtain ⟨n, -, rfl⟩ := List.mem_map.mp hpart
  exact notMem_toDigits hc

theorem numbers_cons (m : Nat) : numbers c (n :: m :: ns) =
    Nat.toDigits 10 n ++ c :: numbers c (m :: ns) := by
  rw [numbers, List.map_cons, List.map_cons, joinWith, List.append_assoc, List.singleton_append]
  · rfl
  · simp

theorem mem_numbers {sep : Char} (h : c ∈ numbers sep ns) : c = sep ∨ c.isDigit = true := by
  induction ns with
  | nil => cases h
  | cons n ns ih =>
    cases hns : ns with
    | nil =>
      rw [hns] at h
      exact .inr (isDigit_toDigits h)
    | cons m rest =>
      rw [hns, numbers_cons, List.mem_append, List.mem_cons, ← hns] at h
      rcases h with hdigit | hsep | hrest
      · exact .inr (isDigit_toDigits hdigit)
      · exact .inl hsep
      · exact ih hrest

theorem numbers_ne_nil {sep : Char} (h : ns ≠ []) : numbers sep ns ≠ [] := by
  obtain ⟨n, ns, rfl⟩ := List.exists_cons_of_ne_nil h
  cases ns with
  | nil => exact Nat.toDigits_ne_nil
  | cons m ns =>
    rw [numbers_cons]
    simp

theorem numbers_append {ms : List Nat} (hn : ns ≠ []) (hm : ms ≠ []) :
    numbers c (ns ++ ms) = numbers c ns ++ c :: numbers c ms := by
  induction ns with
  | nil => exact absurd rfl hn
  | cons n ns ih =>
    cases hns : ns with
    | nil =>
      obtain ⟨m, ms, rfl⟩ := List.exists_cons_of_ne_nil hm
      exact numbers_cons m
    | cons k rest =>
      rw [hns] at ih
      rw [List.cons_append, List.cons_append, numbers_cons, ← List.cons_append, ih (by simp),
        numbers_cons, List.append_assoc, List.cons_append]

theorem after_eq_some {start rest : Str} : after start s = some rest ↔ s = start ++ rest := by
  rw [after]
  split_ifs with hpre
  · obtain ⟨more, rfl⟩ := hpre
    simp
  · refine iff_of_false (by simp) fun he => hpre ⟨rest, he.symm⟩

theorem digits_spec {rest : Str} (h : digits s = some rest) :
    ∃ ds, ds ≠ [] ∧ (∀ c ∈ ds, c.isDigit = true) ∧ s = ds ++ rest := by
  unfold digits at h
  split_ifs at h with hhead
  cases h
  refine ⟨s.takeWhile Char.isDigit, ?_, fun c hc => List.mem_takeWhile_imp hc,
    List.takeWhile_append_dropWhile.symm⟩
  cases s with
  | nil => cases hhead
  | cons c s =>
    have hc : c.isDigit = true := hhead
    simp [hc]

theorem digits_toDigits (h : ∀ c ∈ s.head?, c.isDigit = false) :
    digits (Nat.toDigits 10 n ++ s) = some s := by
  have hall : ∀ c ∈ Nat.toDigits 10 n, c.isDigit = true := fun c hc => isDigit_toDigits hc
  obtain ⟨d, ds, hds⟩ := List.exists_cons_of_ne_nil (@Nat.toDigits_ne_nil n 10)
  have hd : d.isDigit = true := hall d (by simp [hds])
  have hdrop : (Nat.toDigits 10 n ++ s).dropWhile Char.isDigit = s := by
    rw [List.dropWhile_append_of_pos hall]
    cases s with
    | nil => rfl
    | cons c s => exact List.dropWhile_cons_of_neg (by simp [h c rfl])
  rw [digits, hdrop, hds]
  simp [hd]

/-- The first word of a text that starts so. -/
theorem splitOn_append_of_notMem (h : c ∉ s) :
    ∃ first rest, (s ++ t).splitOn c = (s ++ first) :: rest := by
  induction s with
  | nil =>
    obtain ⟨first, rest, hsplit⟩ := List.exists_cons_of_ne_nil (List.splitOn_ne_nil c t)
    exact ⟨first, rest, hsplit⟩
  | cons d s ih =>
    rw [List.mem_cons, not_or] at h
    obtain ⟨first, rest, hsplit⟩ := ih h.2
    refine ⟨first, rest, ?_⟩
    rw [List.cons_append, List.splitOn_cons_eq_if_modifyHead, hsplit]
    simp [Ne.symm h.1]

end McuUpdater.Numbers
