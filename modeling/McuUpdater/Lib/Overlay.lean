import Mathlib.Data.List.Basic
import Mathlib.Data.List.Induction
import Mathlib.Data.List.Nodup
import Mathlib.Logic.Function.Basic

/-! A window of memory filled by writes at addresses, the last write of an address counting.
Where no address is written twice, the order of the writes does not matter. Nothing here
names a program. -/
namespace McuUpdater.Overlay
variable {α : Type*} {start : Int} {cells : List α} {writes writes' : List (Int × α)}

/-- One write, in the window that begins at `start`; an address outside it is let go. -/
def put (start : Int) (cells : List α) (w : Int × α) : List α :=
  if 0 ≤ w.1 - start ∧ w.1 - start < cells.length then cells.set (w.1 - start).toNat w.2
  else cells

@[simp] theorem length_put (w : Int × α) : (put start cells w).length = cells.length := by
  unfold put
  split <;> simp

@[simp] theorem length_foldl_put (writes : List (Int × α)) (cells : List α) :
    (writes.foldl (put start) cells).length = cells.length := by
  induction writes generalizing cells with
  | nil => rfl
  | cons w writes ih => rw [List.foldl_cons, ih, length_put]

theorem getElem?_put_self {i : Nat} {a : α} (hi : i < cells.length) :
    (put start cells (start + i, a))[i]? = some a := by
  have hslot : start + (i : Int) - start = i := by omega
  rw [put, if_pos (by simp only [hslot]; omega), hslot]
  simp [hi]

theorem getElem?_put_of_ne {i : Nat} {w : Int × α} (h : w.1 ≠ start + i) :
    (put start cells w)[i]? = cells[i]? := by
  unfold put
  split
  · rw [List.getElem?_set_ne (by omega)]
  · rfl

/-- What no write addresses keeps what it held. -/
theorem getElem?_foldl_put_of_ne {i : Nat} (h : ∀ w ∈ writes, w.1 ≠ start + i) :
    (writes.foldl (put start) cells)[i]? = cells[i]? := by
  induction writes generalizing cells with
  | nil => rfl
  | cons w writes ih =>
    rw [List.foldl_cons, ih fun w hw => h w (List.mem_cons_of_mem _ hw),
      getElem?_put_of_ne (h w List.mem_cons_self)]

theorem getElem?_foldl_put {i : Nat} {a : α} (hnodup : (writes.map Prod.fst).Nodup)
    (hi : i < cells.length) (hw : (start + i, a) ∈ writes) :
    (writes.foldl (put start) cells)[i]? = some a := by
  induction writes generalizing cells with
  | nil => cases hw
  | cons w writes ih =>
    rw [List.map_cons, List.nodup_cons] at hnodup
    rw [List.foldl_cons]
    rcases List.mem_cons.mp hw with rfl | hw
    · rw [getElem?_foldl_put_of_ne, getElem?_put_self hi]
      rintro w hw heq
      exact hnodup.1 (List.mem_map.mpr ⟨w, hw, heq⟩)
    · exact ih hnodup.2 (by simpa using hi) hw

variable (start cells) in
/-- Two lists of writes that agree within the window fill it alike. -/
theorem foldl_put_congr (hnodup : (writes.map Prod.fst).Nodup)
    (hnodup' : (writes'.map Prod.fst).Nodup)
    (h : ∀ w : Int × α, start ≤ w.1 → w.1 < start + cells.length → (w ∈ writes ↔ w ∈ writes')) :
    writes.foldl (put start) cells = writes'.foldl (put start) cells := by
  apply List.ext_getElem?
  intro i
  by_cases hi : i < cells.length
  · by_cases hw : ∃ w ∈ writes, w.1 = start + i
    · obtain ⟨⟨_, a⟩, hw, rfl⟩ := hw
      rw [getElem?_foldl_put hnodup hi hw, getElem?_foldl_put hnodup' hi]
      exact (h _ (by simp only; omega) (by simp only; omega)).mp hw
    · have hw' : ∀ w ∈ writes', w.1 ≠ start + i := fun w hmem heq =>
        hw ⟨w, (h w (by omega) (by omega)).mpr hmem, heq⟩
      rw [getElem?_foldl_put_of_ne fun w hmem heq => hw ⟨w, hmem, heq⟩,
        getElem?_foldl_put_of_ne hw']
  · rw [List.getElem?_eq_none (by simpa using hi), List.getElem?_eq_none (by simpa using hi)]

/-! ## The addresses without a window -/

/-- What each address holds after the writes, where it held nothing before. -/
def memory (writes : List (Int × α)) : Int → Option α :=
  writes.foldl (fun m w => Function.update m w.1 (some w.2)) fun _ => none

theorem memory_concat (writes : List (Int × α)) (w : Int × α) :
    memory (writes ++ [w]) = Function.update (memory writes) w.1 (some w.2) := by
  simp [memory]

theorem memory_isSome {a : Int} : (memory writes a).isSome ↔ ∃ w ∈ writes, w.1 = a := by
  induction writes using List.reverseRecOn with
  | nil => simp [memory]
  | append_singleton writes w ih =>
    rw [memory_concat]
    by_cases h : a = w.1
    · subst h
      simp
    · rw [Function.update_of_ne h, ih]
      simp [Ne.symm h]

theorem memory_map {β : Type*} (f : α → β) (writes : List (Int × α)) (a : Int) :
    memory (writes.map fun w => (w.1, f w.2)) a = (memory writes a).map f := by
  induction writes using List.reverseRecOn with
  | nil => rfl
  | append_singleton writes w ih =>
    rw [List.map_append, List.map_singleton, memory_concat, memory_concat]
    by_cases h : a = w.1
    · subst h
      rw [Function.update_self, Function.update_self]
      rfl
    · rw [Function.update_of_ne h, Function.update_of_ne h, ih]

/-- A window shows what its addresses hold, over what it held itself. -/
theorem getElem?_foldl_put_memory {i : Nat} (hi : i < cells.length) :
    (writes.foldl (put start) cells)[i]? = some ((memory writes (start + i)).getD cells[i]) := by
  induction writes using List.reverseRecOn with
  | nil => simp [memory, hi]
  | append_singleton writes w ih =>
    obtain ⟨address, a⟩ := w
    rw [List.foldl_append, List.foldl_cons, List.foldl_nil, memory_concat]
    by_cases h : address = start + i
    · subst h
      rw [getElem?_put_self (by simpa using hi), Function.update_self]
      rfl
    · rw [getElem?_put_of_ne h, Function.update_of_ne (Ne.symm h), ih]

/-- What `n` addresses hold from `start` on, where each of them holds something. -/
def window (m : Int → Option α) (start : Int) : Nat → Option (List α)
  | 0 => some []
  | n + 1 => do
    let a ← m start
    let rest ← window m (start + 1) n
    return a :: rest

theorem window_eq_some {m : Int → Option α} {n : Nat} {out : List α} :
    window m start n = some out ↔ out.length = n ∧ ∀ i < n, m (start + (i : Nat)) = out[i]? := by
  induction n generalizing start out with
  | zero =>
    cases out <;> simp [window]
  | succ n ih =>
    rw [window]
    constructor
    · intro h
      obtain ⟨a, ha, h⟩ := Option.bind_eq_some_iff.mp h
      obtain ⟨rest, hrest, h⟩ := Option.bind_eq_some_iff.mp h
      obtain rfl := Option.some.inj h
      obtain ⟨hlength, hall⟩ := ih.mp hrest
      refine ⟨by rw [List.length_cons, hlength], fun i hi => ?_⟩
      cases i with
      | zero => simpa using ha
      | succ i =>
        have hi := hall i (by omega)
        rw [List.getElem?_cons_succ, ← hi]
        congr 1
        omega
    · rintro ⟨hlength, hall⟩
      cases out with
      | nil => simp at hlength
      | cons a rest =>
        have hhead : m start = some a := by simpa using hall 0 (by omega)
        have hrest : window m (start + 1) n = some rest := by
          refine ih.mpr ⟨by simpa using hlength, fun i hi => ?_⟩
          have hi := hall (i + 1) (by omega)
          rw [List.getElem?_cons_succ] at hi
          rw [← hi]
          congr 1
          omega
        rw [hhead, hrest]
        rfl

theorem window_eq_none {m : Int → Option α} {n : Nat} :
    window m start n = none ↔ ∃ i < n, m (start + (i : Nat)) = none := by
  induction n generalizing start with
  | zero => simp [window]
  | succ n ih =>
    have hstep : (∃ i < n + 1, m (start + (i : Nat)) = none) ↔
        m start = none ∨ ∃ i < n, m (start + 1 + (i : Nat)) = none := by
      constructor
      · rintro ⟨i, hi, h⟩
        cases i with
        | zero => exact .inl (by simpa using h)
        | succ i => exact .inr ⟨i, by omega, by rwa [show start + 1 + (i : Int) =
            start + ((i + 1 : Nat) : Int) by omega]⟩
      · rintro (h | ⟨i, hi, h⟩)
        · exact ⟨0, by omega, by simpa using h⟩
        · exact ⟨i + 1, by omega, by rwa [show start + ((i + 1 : Nat) : Int) =
            start + 1 + (i : Int) by omega]⟩
    rw [window, hstep, ← ih]
    cases m start with
    | none => simp
    | some a => cases window m (start + 1) n <;> simp

end McuUpdater.Overlay
