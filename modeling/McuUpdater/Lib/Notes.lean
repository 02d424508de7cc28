import Mathlib.Data.List.Pairwise
import Mathlib.Data.List.Sort

/-! Rows of a list with notes above and beside them, and the list written anew from a table that
has the last notes of each item: when the notes keep their order. Nothing here names a program. -/
namespace McuUpdater.Notes

structure Row (ι α : Type*) where
  above : List α
  item : ι
  beside : Option α

variable {ι α : Type*} {row : Row ι α} {rows : List (Row ι α)} {c : α} {i j : ι}

def Row.notes (row : Row ι α) : List α := row.above ++ row.beside.toList

def notesOf (rows : List (Row ι α)) : List α := rows.flatMap Row.notes

def lastAbove : List (Row ι α) → List α
  | [] => []
  | row :: rows => if lastAbove rows = [] then row.above else lastAbove rows

def lastBeside : List (Row ι α) → Option α
  | [] => none
  | row :: rows => (lastBeside rows).or row.beside

def kept (rows : List (Row ι α)) : List α := lastAbove rows ++ (lastBeside rows).toList

theorem lastAbove_eq_nil_iff : lastAbove rows = [] ↔ ∀ row ∈ rows, row.above = [] := by
  induction rows with
  | nil => simp [lastAbove]
  | cons row rows ih =>
    rw [lastAbove, List.forall_mem_cons, ← ih]
    split_ifs with h <;> simp [h]

theorem lastBeside_eq_none_iff : lastBeside rows = none ↔ ∀ row ∈ rows, row.beside = none := by
  induction rows with
  | nil => simp [lastBeside]
  | cons row rows ih =>
    rw [lastBeside, List.forall_mem_cons, ← ih, Option.or_eq_none_iff, and_comm]

theorem mem_notesOf_of_lastAbove (h : c ∈ lastAbove rows) : c ∈ notesOf rows := by
  induction rows with
  | nil => exact h
  | cons row rows ih =>
    rw [lastAbove] at h
    rw [notesOf, List.flatMap_cons, List.mem_append]
    split_ifs at h
    · exact .inl (List.mem_append_left _ h)
    · exact .inr (ih h)

theorem mem_notesOf_of_lastBeside (h : lastBeside rows = some c) : c ∈ notesOf rows := by
  induction rows with
  | nil => exact nomatch h
  | cons row rows ih =>
    rw [lastBeside, Option.or_eq_some_iff] at h
    rw [notesOf, List.flatMap_cons, List.mem_append]
    rcases h with h | ⟨-, h⟩
    · exact .inr (ih h)
    · exact .inl (List.mem_append_right _ (by simp [h]))

theorem mem_notesOf_of_kept (h : c ∈ kept rows) : c ∈ notesOf rows := by
  rcases List.mem_append.1 h with h | h
  · exact mem_notesOf_of_lastAbove h
  · exact mem_notesOf_of_lastBeside (by simpa using h)

/-- Of two rows the first has its notes above it and the second beside it. -/
def Split (rows : List (Row ι α)) : Prop :=
  rows.Pairwise fun first second => first.beside = none ∧ second.above = []

/-- With notes on every row, such rows are at most two, and the table has all of them. -/
theorem kept_of_split (noted : ∀ row ∈ rows, row.notes ≠ []) (h : Split rows) :
    kept rows = notesOf rows := by
  match rows, noted, h with
  | [], _, _ => rfl
  | [row], _, _ => simp [kept, lastAbove, lastBeside, notesOf, Row.notes]
  | [first, second], _, h =>
    obtain ⟨hfirst, hsecond⟩ := List.rel_of_pairwise_cons h (List.mem_singleton_self second)
    simp [kept, lastAbove, lastBeside, notesOf, Row.notes, hfirst, hsecond]
  | first :: second :: third :: rows, noted, h =>
    obtain ⟨-, hsecond⟩ := List.rel_of_pairwise_cons h List.mem_cons_self
    obtain ⟨hbeside, -⟩ := List.rel_of_pairwise_cons h.of_cons List.mem_cons_self
    exact absurd (by simp [Row.notes, hsecond, hbeside]) (noted second (by simp))

section Sorted
variable [Preorder α]

/-- Where the table has every note in order, no row's notes were replaced by a later row's. -/
theorem split_of_kept (sorted : (notesOf rows).Pairwise (· < ·))
    (noted : ∀ row ∈ rows, row.notes ≠ []) (all : ∀ c ∈ notesOf rows, c ∈ kept rows)
    (inOrder : (kept rows).Pairwise (· < ·)) : Split rows := by
  induction rows with
  | nil => exact .nil
  | cons row rows ih =>
    rw [notesOf, List.flatMap_cons, List.pairwise_append] at sorted
    obtain ⟨hrow, hrows, hbefore⟩ := sorted
    rw [List.forall_mem_cons] at noted
    simp only [notesOf, List.flatMap_cons, List.mem_append, or_imp, forall_and] at all
    have later : ∀ c ∈ row.notes, c ∉ notesOf rows := fun c hc hmem => lt_irrefl c (hbefore c hc c hmem)
    by_cases habove : lastAbove rows = []
    · cases hbeside : lastBeside rows with
      | none =>
        -- no later row has a note, so there is none
        cases rows with
        | nil => exact List.pairwise_singleton _ _
        | cons next rest =>
          refine absurd ?_ (noted.2 next List.mem_cons_self)
          have h := lastAbove_eq_nil_iff.1 habove next List.mem_cons_self
          have h' := lastBeside_eq_none_iff.1 hbeside next List.mem_cons_self
          simp [Row.notes, h, h']
      | some b =>
        have hkept : kept (row :: rows) = row.above ++ [b] := by
          simp [kept, lastAbove, lastBeside, habove, hbeside]
        have hb := mem_notesOf_of_lastBeside hbeside
        have hnone : row.beside = none := by
          by_contra hne
          obtain ⟨d, hd⟩ := Option.ne_none_iff_exists'.1 hne
          have hmem : d ∈ row.notes := by simp [Row.notes, hd]
          have := all.1 d hmem
          rw [hkept, List.mem_append, List.mem_singleton] at this
          rcases this with h | rfl
          · rw [Row.notes, List.pairwise_append] at hrow
            exact lt_irrefl d (hrow.2.2 d h d (by simp [hd]))
          · exact later d hmem hb
        refine List.pairwise_cons.2
          ⟨fun next hnext => ⟨hnone, lastAbove_eq_nil_iff.1 habove next hnext⟩, ?_⟩
        have hown : kept rows = [b] := by simp [kept, habove, hbeside]
        refine ih hrows noted.2 (fun c hc => ?_) (hown ▸ List.pairwise_singleton _ _)
        have := all.2 c hc
        rw [hkept, List.mem_append] at this
        rw [hown]
        exact this.resolve_left fun h => later c (List.mem_append_left _ h) hc
    · -- the notes above a later row are the table's, so this row has at most one, beside it
      exfalso
      have hkept : kept (row :: rows) =
          lastAbove rows ++ ((lastBeside rows).or row.beside).toList := by
        simp [kept, lastAbove, lastBeside, habove]
      obtain ⟨c, hc⟩ := List.exists_mem_of_ne_nil _ noted.1
      have hcmem := all.1 c hc
      rw [hkept] at hcmem inOrder
      have hlast : (lastBeside rows).or row.beside = some c := by
        rcases List.mem_append.1 hcmem with h | h
        · exact absurd (mem_notesOf_of_lastAbove h) (later c hc)
        · simpa using h
      obtain ⟨a, ha⟩ := List.exists_mem_of_ne_nil _ habove
      have hac : a < c := (List.pairwise_append.1 inOrder).2.2 a ha c (by simp [hlast])
      have hca : c < a := hbefore c hc a (mem_notesOf_of_lastAbove ha)
      exact lt_irrefl a (hac.trans hca)

end Sorted

theorem notesOf_sublist (p : Row ι α → Bool) : (notesOf (rows.filter p)).Sublist (notesOf rows) := by
  induction rows with
  | nil => exact .slnil
  | cons row rows ih =>
    rw [List.filter_cons, notesOf, notesOf]
    split_ifs
    · exact (List.Sublist.refl _).append ih
    · exact ih.trans (List.sublist_append_right _ _)

/-! ## The list written anew -/

section Rewritten
variable [DecidableEq ι]

/-- The rows of one item that have notes. -/
def noted (rows : List (Row ι α)) (i : ι) : List (Row ι α) :=
  rows.filter fun row => row.item = i && row.notes ≠ []

theorem noted_cons (row : Row ι α) (rows : List (Row ι α)) (i : ι) : noted (row :: rows) i =
    if row.item = i ∧ row.notes ≠ [] then row :: noted rows i else noted rows i := by
  simp [noted, List.filter_cons]

theorem lastAbove_noted_cons (row : Row ι α) (rows : List (Row ι α)) (i : ι) :
    lastAbove (noted (row :: rows) i) =
      if lastAbove (noted rows i) = [] then if row.item = i then row.above else []
      else lastAbove (noted rows i) := by
  rw [noted_cons]
  by_cases hitem : row.item = i
  · by_cases hnotes : row.notes = []
    · have habove : row.above = [] := (List.append_eq_nil_iff.1 hnotes).1
      split_ifs <;> simp_all
    · rw [if_pos ⟨hitem, hnotes⟩, lastAbove, if_pos hitem]
  · rw [if_neg fun h => hitem h.1, if_neg hitem]
    split_ifs with h <;> simp [h]

theorem lastBeside_noted_cons (row : Row ι α) (rows : List (Row ι α)) (i : ι) :
    lastBeside (noted (row :: rows) i) =
      (lastBeside (noted rows i)).or (if row.item = i then row.beside else none) := by
  rw [noted_cons]
  by_cases hitem : row.item = i
  · by_cases hnotes : row.notes = []
    · have hbeside : row.beside = none := by simpa using (List.append_eq_nil_iff.1 hnotes).2
      simp [hnotes, hitem, hbeside]
    · rw [if_pos ⟨hitem, hnotes⟩, lastBeside, if_pos hitem]
  · rw [if_neg fun h => hitem h.1, if_neg hitem, Option.or_none]

/-- The notes of the list written anew with these items. -/
def rewritten (rows : List (Row ι α)) (trailing : List α) (items : List ι) : List α :=
  items.flatMap (fun i => kept (noted rows i)) ++ trailing

/-- The notes of the items still there, and those of none. -/
def owed (rows : List (Row ι α)) (trailing : List α) (present : List ι) : List α :=
  notesOf (rows.filter (·.item ∈ present)) ++ trailing

/-- The items with notes are written once and in their old order, and no note gave way to a later
one of the same item. -/
structure Follows [Preorder α] (rows : List (Row ι α)) (present items : List ι) : Prop where
  there : ∀ row ∈ rows, row.notes ≠ [] → row.item ∈ present → row.item ∈ items
  once : ∀ i ∈ items, Split (noted rows i)
  order : items.Pairwise fun i j =>
    ∀ a ∈ notesOf (noted rows i), ∀ b ∈ notesOf (noted rows j), a < b

theorem mem_notesOf_noted : c ∈ notesOf (noted rows i) ↔
    ∃ row ∈ rows, row.item = i ∧ c ∈ row.notes := by
  simp only [notesOf, List.mem_flatMap, noted, List.mem_filter, Bool.and_eq_true, decide_eq_true_eq]
  constructor
  · rintro ⟨row, ⟨hrow, hitem, -⟩, hc⟩
    exact ⟨row, hrow, hitem, hc⟩
  · rintro ⟨row, hrow, hitem, hc⟩
    exact ⟨row, ⟨hrow, hitem, List.ne_nil_of_mem hc⟩, hc⟩

variable {trailing : List α} {present items : List ι}

theorem mem_of_mem_rewritten (h : c ∈ rewritten rows trailing items) :
    c ∈ notesOf rows ++ trailing := by
  rcases List.mem_append.1 h with h | h
  · obtain ⟨i, -, h⟩ := List.mem_flatMap.1 h
    exact List.mem_append_left _ ((notesOf_sublist _).subset (mem_notesOf_of_kept h))
  · exact List.mem_append_right _ h

variable [Preorder α]

/-- A note stands at one item. -/
theorem item_unique (sorted : (notesOf rows).Pairwise (· < ·)) (hi : c ∈ notesOf (noted rows i))
    (hj : c ∈ notesOf (noted rows j)) : i = j := by
  obtain ⟨row, hrow, rfl, hc⟩ := mem_notesOf_noted.1 hi
  obtain ⟨row', hrow', rfl, hc'⟩ := mem_notesOf_noted.1 hj
  by_contra hne
  have apart : rows.Pairwise fun a b => ∀ x ∈ a.notes, x ∉ b.notes :=
    (List.pairwise_flatMap.1 sorted).2.imp fun h x hx hy => lt_irrefl x (h x hx x hy)
  have : Std.Symm fun a b : Row ι α => ∀ x ∈ a.notes, x ∉ b.notes :=
    ⟨fun a b h x hx hy => h x hy hx⟩
  exact apart.forall hrow hrow' (fun he => hne (congrArg Row.item he)) c hc hc'

theorem rewritten_iff (sorted : (notesOf rows ++ trailing).Pairwise (· < ·))
    (given : items ⊆ present) :
    ((owed rows trailing present).Sublist (rewritten rows trailing items) ∧
      (rewritten rows trailing items).Nodup) ↔ Follows rows present items := by
  obtain ⟨hrows, htrail, hbefore⟩ := List.pairwise_append.1 sorted
  have sortedOwed : (owed rows trailing present).Pairwise (· < ·) :=
    sorted.sublist ((notesOf_sublist _).append (.refl _))
  have noteds : ∀ i, ∀ row ∈ noted rows i, row.notes ≠ [] := fun i row hrow => by
    simpa using (Bool.and_eq_true_iff.1 (List.mem_filter.1 hrow).2).2
  have subset : ∀ c ∈ rewritten rows trailing items, c ∈ owed rows trailing present := by
    intro c hc
    rcases List.mem_append.1 hc with hc | hc
    · obtain ⟨i, hi, hc⟩ := List.mem_flatMap.1 hc
      obtain ⟨row, hrow, rfl, hnote⟩ := mem_notesOf_noted.1 (mem_notesOf_of_kept hc)
      refine List.mem_append_left _ (List.mem_flatMap.2 ⟨row, List.mem_filter.2 ⟨hrow, ?_⟩, hnote⟩)
      simpa using given hi
    · exact List.mem_append_right _ hc
  constructor
  · rintro ⟨keeps, nodup⟩
    have same : owed rows trailing present = rewritten rows trailing items :=
      keeps.eq_of_length_le (nodup.length_le_of_subset subset)
    have inOrder : (rewritten rows trailing items).Pairwise (· < ·) := same ▸ sortedOwed
    obtain ⟨hitems, -, hafter⟩ := List.pairwise_append.1 inOrder
    obtain ⟨hown, horder⟩ := List.pairwise_flatMap.1 hitems
    -- every note of an item that is still there was looked up under that item
    have found : ∀ row ∈ rows, row.item ∈ present → ∀ c ∈ row.notes,
        row.item ∈ items ∧ c ∈ kept (noted rows row.item) := by
      intro row hrow hpresent c hc
      have hmem : c ∈ rewritten rows trailing items := by
        rw [← same]
        exact List.mem_append_left _ (List.mem_flatMap.2
          ⟨row, List.mem_filter.2 ⟨hrow, by simpa using hpresent⟩, hc⟩)
      rcases List.mem_append.1 hmem with hmem | hmem
      · obtain ⟨i, hi, hkept⟩ := List.mem_flatMap.1 hmem
        obtain rfl : i = row.item := item_unique hrows (mem_notesOf_of_kept hkept)
          (mem_notesOf_noted.2 ⟨row, hrow, rfl, hc⟩)
        exact ⟨hi, hkept⟩
      · exact absurd (hbefore c (List.mem_flatMap.2 ⟨row, hrow, hc⟩) c hmem) (lt_irrefl c)
    have hsplit : ∀ i ∈ items, Split (noted rows i) := by
      intro i hi
      refine split_of_kept (hrows.sublist (notesOf_sublist _)) (noteds i) (fun c hc => ?_) (hown i hi)
      obtain ⟨row, hrow, rfl, hnote⟩ := mem_notesOf_noted.1 hc
      exact (found row hrow (given hi) c hnote).2
    refine ⟨fun row hrow hnotes hpresent => ?_, hsplit, ?_⟩
    · obtain ⟨c, hc⟩ := List.exists_mem_of_ne_nil _ hnotes
      exact (found row hrow hpresent c hc).1
    · refine horder.imp_of_mem fun {i j} hi hj h => ?_
      rwa [kept_of_split (noteds i) (hsplit i hi), kept_of_split (noteds j) (hsplit j hj)] at h
  · intro follows
    have table : ∀ i ∈ items, kept (noted rows i) = notesOf (noted rows i) :=
      fun i hi => kept_of_split (noteds i) (follows.once i hi)
    have inOrder : (rewritten rows trailing items).Pairwise (· < ·) := by
      refine List.pairwise_append.2 ⟨List.pairwise_flatMap.2 ⟨fun i hi => ?_, ?_⟩, htrail, ?_⟩
      · rw [table i hi]
        exact hrows.sublist (notesOf_sublist _)
      · refine follows.order.imp_of_mem fun {i j} hi hj h => ?_
        rwa [table i hi, table j hj]
      · intro c hc
        obtain ⟨i, hi, hc⟩ := List.mem_flatMap.1 hc
        exact hbefore c ((notesOf_sublist _).subset (mem_notesOf_of_kept hc))
    have same : owed rows trailing present = rewritten rows trailing items := by
      refine sortedOwed.eq_of_mem_iff inOrder fun c => ⟨fun hc => ?_, subset c⟩
      rcases List.mem_append.1 hc with hc | hc
      · obtain ⟨row, hrow, hc⟩ := List.mem_flatMap.1 hc
        obtain ⟨hrow, hpresent⟩ := List.mem_filter.1 hrow
        have hi := follows.there row hrow (List.ne_nil_of_mem hc) (by simpa using hpresent)
        refine List.mem_append_left _ (List.mem_flatMap.2 ⟨row.item, hi, ?_⟩)
        rw [table _ hi]
        exact mem_notesOf_noted.2 ⟨row, hrow, rfl, hc⟩
      · exact List.mem_append_right _ hc
    exact ⟨same ▸ .refl _, inOrder.nodup⟩

end Rewritten
end McuUpdater.Notes
