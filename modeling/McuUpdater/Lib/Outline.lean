import Mathlib.Data.List.Basic

/-! Lists cut at their headings: what stands before the first one, and a block for each
heading with what follows it. Cutting and joining are inverse on outlines that fit the
headings, so an edit of the blocks is an edit of the list. Nothing here names a program. -/
namespace McuUpdater.Outline
variable {α : Type*}

structure Block (α : Type*) where
  head : α
  body : List α
  deriving DecidableEq

def Block.lines (b : Block α) : List α := b.head :: b.body

structure Cut (α : Type*) where
  lead : List α
  blocks : List (Block α)

def Cut.lines (o : Cut α) : List α := o.lead ++ o.blocks.flatMap Block.lines

def cut (p : α → Bool) : List α → Cut α
  | [] => ⟨[], []⟩
  | x :: xs =>
    let o := cut p xs
    if p x then ⟨[], ⟨x, o.lead⟩ :: o.blocks⟩ else ⟨x :: o.lead, o.blocks⟩

/-- Only the heads are headings. -/
structure Block.Fits (p : α → Bool) (b : Block α) : Prop where
  head : p b.head = true
  body : ∀ x ∈ b.body, p x = false

structure Cut.Fits (p : α → Bool) (o : Cut α) : Prop where
  lead : ∀ x ∈ o.lead, p x = false
  blocks : ∀ b ∈ o.blocks, b.Fits p

variable {p : α → Bool} {l xs ys : List α} {o : Cut α}

theorem lines_cut (p : α → Bool) (l : List α) : (cut p l).lines = l := by
  induction l with
  | nil => rfl
  | cons x xs ih =>
    simp only [Cut.lines] at ih ⊢
    rw [cut]
    split_ifs <;> simp [Block.lines, ih]

theorem cut_fits (p : α → Bool) (l : List α) : (cut p l).Fits p := by
  induction l with
  | nil => exact ⟨by simp [cut], by simp [cut]⟩
  | cons x xs ih =>
    rw [cut]
    split_ifs with hx
    · exact ⟨by simp, List.forall_mem_cons.mpr ⟨⟨hx, ih.lead⟩, ih.blocks⟩⟩
    · exact ⟨List.forall_mem_cons.mpr ⟨by simpa using hx, ih.lead⟩, ih.blocks⟩

/-- Lines without a heading go to what stands before the first heading. -/
theorem cut_append (h : ∀ x ∈ xs, p x = false) (ys : List α) :
    cut p (xs ++ ys) = ⟨xs ++ (cut p ys).lead, (cut p ys).blocks⟩ := by
  induction xs with
  | nil => rfl
  | cons x xs ih =>
    rw [List.forall_mem_cons] at h
    rw [List.cons_append, cut, ih h.2]
    simp [h.1]

theorem cut_lines (h : o.Fits p) : cut p o.lines = o := by
  obtain ⟨lead, blocks⟩ := o
  obtain ⟨hlead, hblocks⟩ := h
  rw [Cut.lines, cut_append hlead]
  simp only at hblocks ⊢
  suffices hb : cut p (blocks.flatMap Block.lines) = ⟨[], blocks⟩ by simp [hb]
  clear hlead
  induction blocks with
  | nil => rfl
  | cons b bs ih =>
    rw [List.forall_mem_cons] at hblocks
    rw [List.flatMap_cons, Block.lines, List.cons_append, cut, cut_append hblocks.1.body,
      ih hblocks.2]
    simp [hblocks.1.head]

/-- The blocks of two parts follow each other where the second starts with a heading. -/
theorem cut_append_heading (h : (cut p ys).lead = []) :
    cut p (xs ++ ys) = ⟨(cut p xs).lead, (cut p xs).blocks ++ (cut p ys).blocks⟩ := by
  have hfits : Cut.Fits p ⟨(cut p xs).lead, (cut p xs).blocks ++ (cut p ys).blocks⟩ :=
    ⟨(cut_fits p xs).lead, fun b hb => (List.mem_append.mp hb).elim
      ((cut_fits p xs).blocks b) ((cut_fits p ys).blocks b)⟩
  rw [← cut_lines hfits]
  congr 1
  have hys := lines_cut p ys
  rw [Cut.lines, h, List.nil_append] at hys
  conv_lhs => rw [← lines_cut p xs, ← hys]
  simp [Cut.lines]

theorem mem_lines : ∀ {o : Cut α} {x : α}, x ∈ o.lines ↔
    x ∈ o.lead ∨ ∃ b ∈ o.blocks, x ∈ b.lines := by
  simp [Cut.lines, List.mem_flatMap]

/-! ## The first block of a kind -/

section First
variable {β γ : Type*} {q r : β → Bool} {f : β → List β} {bs : List β} {b : β}

/-- The first one `q` accepts gives way to what `f` makes of it. -/
def replaceFirst (q : β → Bool) (f : β → List β) : List β → List β
  | [] => []
  | b :: bs => if q b then f b ++ bs else b :: replaceFirst q f bs

theorem replaceFirst_of_find?_none (h : bs.find? q = none) : replaceFirst q f bs = bs := by
  induction bs with
  | nil => rfl
  | cons b bs ih =>
    simp only [List.find?_cons] at h
    split at h
    · exact nomatch h
    · next hb => simp [replaceFirst, hb, ih h]

/-- Where `q` accepts one, the list around the first of them. -/
theorem replaceFirst_of_find? (h : bs.find? q = some b) : ∃ before after, bs = before ++ b :: after ∧
    (∀ a ∈ before, q a = false) ∧ q b = true ∧ ∀ f, replaceFirst q f bs = before ++ f b ++ after := by
  induction bs with
  | nil => exact nomatch h
  | cons a bs ih =>
    simp only [List.find?_cons] at h
    split at h
    · next ha =>
      obtain rfl := Option.some.inj h
      exact ⟨[], bs, rfl, by simp, ha, fun f => by simp [replaceFirst, ha]⟩
    · next ha =>
      obtain ⟨before, after, rfl, hbefore, hb, hf⟩ := ih h
      refine ⟨a :: before, after, rfl, List.forall_mem_cons.mpr ⟨by simpa using ha, hbefore⟩, hb,
        fun f => ?_⟩
      simp [replaceFirst, ha, hf f]

theorem mem_replaceFirst {x : β} (h : x ∈ replaceFirst q f bs) :
    x ∈ bs ∨ ∃ b, bs.find? q = some b ∧ x ∈ f b := by
  cases hfind : bs.find? q with
  | none => exact .inl (replaceFirst_of_find?_none (f := f) hfind ▸ h)
  | some b =>
    obtain ⟨before, after, rfl, -, -, hf⟩ := replaceFirst_of_find? hfind
    rw [hf f] at h
    simp only [List.mem_append, List.mem_cons] at h ⊢
    rcases h with (h | h) | h
    · exact .inl (.inl h)
    · exact .inr ⟨b, rfl, h⟩
    · exact .inl (.inr (.inr h))

/-- What `r` selects stays when it selects neither the replaced one nor its replacement. -/
theorem filter_replaceFirst (hq : ∀ b, q b = true → r b = false)
    (hf : ∀ b, q b = true → ∀ x ∈ f b, r x = false) :
    (replaceFirst q f bs).filter r = bs.filter r := by
  induction bs with
  | nil => rfl
  | cons b bs ih =>
    rw [replaceFirst]
    split_ifs with hb
    · have hnil : (f b).filter r = [] :=
        List.filter_eq_nil_iff.mpr fun x hx => by simp [hf b hb x hx]
      simp [hnil, hq b hb]
    · simp only [List.filter_cons, ih]

/-- The replacement heads what `q` selects, when `q` selects all of it. -/
theorem filter_replaceFirst_self (hf : ∀ b, q b = true → ∀ x ∈ f b, q x = true) :
    (replaceFirst q f bs).filter q = match bs.filter q with
      | [] => []
      | b :: rest => f b ++ rest := by
  induction bs with
  | nil => rfl
  | cons b bs ih =>
    rw [replaceFirst]
    by_cases hb : q b = true
    · simp [hb, List.filter_eq_self.mpr (hf b hb)]
    · simp [hb, ih]

theorem map_replaceFirst {g : β → γ} (hf : ∀ b, q b = true → (f b).map g = [g b]) :
    (replaceFirst q f bs).map g = bs.map g := by
  induction bs with
  | nil => rfl
  | cons b bs ih =>
    rw [replaceFirst]
    split_ifs with hb
    · simp [hf b hb]
    · simp [ih]

end First

/-! ## Editing the list through its first block of a kind -/

section Edit
variable {q r : Block α → Bool} {f : Block α → List (Block α)} {b : Block α}

/-- The list with the first block `q` accepts replaced. -/
def editFirst (p : α → Bool) (q : Block α → Bool) (f : Block α → List (Block α)) (l : List α) :
    List α :=
  Cut.lines ⟨(cut p l).lead, replaceFirst q f (cut p l).blocks⟩

/-- Replacements that fit the headings are found again when the list is cut anew. -/
theorem cut_editFirst (hf : ∀ b ∈ (cut p l).blocks, q b = true → ∀ x ∈ f b, x.Fits p) :
    cut p (editFirst p q f l) = ⟨(cut p l).lead, replaceFirst q f (cut p l).blocks⟩ := by
  refine cut_lines ⟨(cut_fits p l).lead, fun b hb => ?_⟩
  rcases mem_replaceFirst hb with hb | ⟨a, ha, hb⟩
  · exact (cut_fits p l).blocks b hb
  · exact hf a (List.mem_of_find?_eq_some ha) (List.find?_some (p := q) ha) b hb

theorem mem_editFirst {x : α} (h : x ∈ editFirst p q f l) :
    x ∈ l ∨ ∃ b ∈ (cut p l).blocks, q b = true ∧ ∃ c ∈ f b, x ∈ c.lines := by
  rcases mem_lines.mp h with h | ⟨c, hc, h⟩
  · exact .inl (lines_cut p l ▸ mem_lines.mpr (.inl h))
  · rcases mem_replaceFirst hc with hc | ⟨b, hb, hc⟩
    · exact .inl (lines_cut p l ▸ mem_lines.mpr (.inr ⟨c, hc, h⟩))
    · exact .inr ⟨b, List.mem_of_find?_eq_some hb, List.find?_some (p := q) hb, c, hc, h⟩

/-- Where the first block `q` accepts starts in the list, and where it ends. -/
def firstSpan (p : α → Bool) (q : Block α → Bool) (l : List α) : Nat × Nat :=
  let before := (cut p l).lead ++ ((cut p l).blocks.takeWhile (!q ·)).flatMap Block.lines
  (before.length, before.length + ((cut p l).blocks.find? q).elim 0 (·.lines.length))

theorem head_of_lines {bs : List (Block α)} (h : ∀ b ∈ bs, b.Fits p) {x : α}
    (hx : (bs.flatMap Block.lines).head? = some x) : p x = true := by
  cases bs with
  | nil => exact nomatch hx
  | cons b bs =>
    obtain rfl : b.head = x := by simpa [Block.lines] using hx
    exact (h b List.mem_cons_self).head

/-- The list around the first block `q` accepts, and what an edit makes of it. -/
theorem editFirst_eq (h : (cut p l).blocks.find? q = some b) : ∃ before after,
    l = before ++ b.lines ++ after ∧ (∀ x, after.head? = some x → p x = true) ∧
    firstSpan p q l = (before.length, (before ++ b.lines).length) ∧
    ∀ f : Block α → List (Block α),
      editFirst p q f l = before ++ (f b).flatMap Block.lines ++ after := by
  obtain ⟨above, below, hbs, habove, hb, hf⟩ := replaceFirst_of_find? h
  have hfits : ∀ a ∈ below, a.Fits p := fun a ha => (cut_fits p l).blocks a (by simp [hbs, ha])
  have htake : (cut p l).blocks.takeWhile (!q ·) = above := by
    rw [hbs, List.takeWhile_append_of_pos fun a ha => by simp [habove a ha]]
    simp [hb]
  refine ⟨(cut p l).lead ++ above.flatMap Block.lines, below.flatMap Block.lines, ?_,
    fun x hx => head_of_lines hfits hx, ?_, fun f => ?_⟩
  · conv_lhs => rw [← lines_cut p l, Cut.lines, hbs]
    simp [List.append_assoc]
  · simp [firstSpan, htake, h, Nat.add_assoc]
  · simp [editFirst, Cut.lines, hf, List.append_assoc]

end Edit
end McuUpdater.Outline
