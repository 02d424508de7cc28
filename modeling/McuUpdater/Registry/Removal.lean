import McuUpdater.Registry.CfgEdits
import McuUpdater.Registry.Reopened
import McuUpdater.Registry.Typelist

/-! `remove_option` and `remove_section`: the lines they cut out, and what is left. -/
namespace McuUpdater.CfgDoc
open PyText Outline

namespace CfgDocument
variable (doc : CfgDocument) (name key : Str)

/-- `sec.header` and `sec.end`. -/
def sectionSpan : Nat × Nat := firstSpan isHeader (nameOf · = name) doc.lines

/-- `opt.start` and `opt.end`. -/
def optionSpan : Nat × Nat :=
  let under := (doc.sectionSpan name).1 + 1
  let inside := firstSpan startsItem (keyOf · = some key) (((doc.section? name).map (·.body)).getD [])
  (under + inside.1, under + inside.2)

/-- The comment on line `i` stands directly above a header: nothing but comments is between. -/
def StandsAbove (i : Nat) : Prop :=
  ∃ j, i < j ∧ (∃ line, doc.lines[j]? = some line ∧ isHeader line = true) ∧
    ∀ k, i ≤ k → k < j → ∃ line, doc.lines[k]? = some line ∧ isComment line = true

/-- The section's last line is a comment, and the document goes on after it. -/
def commentBelow : Bool :=
  doc.lines[(doc.sectionSpan name).2 - 1]?.any isComment &&
    (doc.sectionSpan name).2 < doc.lines.length

/-- What is promised of `remove_option` where it returns true. -/
structure OptionGone : Prop where
  gone : (doc.removeOption name key).get name key = none
  others : ∀ name' key', ¬(name' = name ∧ key' = key) →
    (doc.removeOption name key).get name' key' = doc.get name' key'
  only : doc.removeOption name key =
    doc.splice ⟨(doc.optionSpan name key).1, (doc.optionSpan name key).2, []⟩

/-- What is promised of `remove_section` where it returns true. -/
structure SectionGone : Prop where
  gone : (doc.removeSection name).hasSection name = false
  others : ∀ name', name' ≠ name →
    (doc.removeSection name).hasSection name' = doc.hasSection name' ∧
    ∀ key, (doc.removeSection name).writtenAt name' key = doc.writtenAt name' key
  only : doc.removeSection name =
    doc.splice ⟨(doc.sectionSpan name).1, (doc.sectionSpan name).2, []⟩
  comments : ∀ i, doc.StandsAbove i → i < (doc.sectionSpan name).1 ∨ (doc.sectionSpan name).2 ≤ i

variable {doc : CfgDocument} {name key : Str}

/-! ## Edits as splices -/

theorem splice_between {before old after : List Str} (h : doc.lines = before ++ old ++ after)
    (new : List Str) :
    doc.splice ⟨before.length, (before ++ old).length, new⟩ = ⟨before ++ new ++ after⟩ := by
  have hmax : max before.length (before ++ old).length = (before ++ old).length := by simp
  rw [splice, Splice.apply]
  simp only [hmax, h]
  rw [List.drop_left, List.append_assoc before old, List.take_left]

theorem removeSection_eq_splice (h : name ∈ doc.names) : doc.removeSection name =
    doc.splice ⟨(doc.sectionSpan name).1, (doc.sectionSpan name).2, []⟩ := by
  obtain ⟨sec, hsec⟩ := Option.isSome_iff_exists.1 (hasSection_iff.2 h)
  obtain ⟨before, after, hlines, -, hspan, hedit⟩ := editFirst_eq hsec
  rw [sectionSpan, hspan, splice_between hlines, removeSection, hedit]
  rfl

theorem edit_eq_splice {option : Block Str} (h : doc.option? name key = some option)
    (f : Block Str → List (Block Str)) :
    doc.edit name (editFirst startsItem (keyOf · = some key) f) =
      doc.splice ⟨(doc.optionSpan name key).1, (doc.optionSpan name key).2,
        (f option).flatMap Block.lines⟩ := by
  obtain ⟨sec, hsec, hopt⟩ := Option.bind_eq_some_iff.1 h
  rw [written, List.head?_filter] at hopt
  obtain ⟨before, after, hlines, -, hspan, hedit⟩ := editFirst_eq hsec
  obtain ⟨above, below, hbody, -, hinside, hitem⟩ := editFirst_eq hopt
  have hdoc : doc.lines = (before ++ sec.head :: above) ++ option.lines ++ (below ++ after) := by
    rw [hlines, Block.lines, hbody]
    simp
  have hat : doc.optionSpan name key = ((before ++ sec.head :: above).length,
      ((before ++ sec.head :: above) ++ option.lines).length) := by
    simp only [optionSpan, sectionSpan, hspan, hsec, Option.map_some, Option.getD_some, hinside,
      List.length_append, List.length_cons, Prod.mk.injEq]
    omega
  rw [hat, splice_between hdoc, edit, hedit, hitem]
  simp [Block.lines]

theorem removeOption_eq_splice (h : (doc.get name key).isSome) : doc.removeOption name key =
    doc.splice ⟨(doc.optionSpan name key).1, (doc.optionSpan name key).2, []⟩ := by
  rw [get, Option.isSome_map] at h
  obtain ⟨option, hopt⟩ := Option.isSome_iff_exists.1 h
  exact edit_eq_splice hopt fun _ => []

/-! ## What is left -/

theorem get_removeOption_eq_none_iff (h : (doc.get name key).isSome) :
    (doc.removeOption name key).get name key = none ↔ (doc.writtenAt name key).length = 1 := by
  rw [get_eq, Option.isSome_map, List.isSome_head?] at h
  rw [get_eq, writtenAt_removeOption, if_pos ⟨rfl, rfl⟩]
  cases hw : doc.writtenAt name key with
  | nil => simp [hw] at h
  | cons option rest => simp

theorem optionGone_iff (h : (doc.get name key).isSome) :
    doc.OptionGone name key ↔ (doc.writtenAt name key).length = 1 := by
  refine ⟨fun gone => (get_removeOption_eq_none_iff h).1 gone.gone, fun once => ?_⟩
  refine ⟨(get_removeOption_eq_none_iff h).2 once, fun name' key' hne => ?_,
    removeOption_eq_splice h⟩
  rw [get_eq, writtenAt_removeOption, if_neg hne, get_eq]

theorem comments_iff (h : name ∈ doc.names) :
    (∀ i, doc.StandsAbove i → i < (doc.sectionSpan name).1 ∨ (doc.sectionSpan name).2 ≤ i) ↔
      doc.commentBelow name = false := by
  obtain ⟨sec, hsec⟩ := Option.isSome_iff_exists.1 (hasSection_iff.2 h)
  have hfits := (cut_fits isHeader doc.lines).blocks sec (List.mem_of_find?_eq_some hsec)
  obtain ⟨before, after, hlines, hafter, hspan, -⟩ := editFirst_eq hsec
  have hheader : doc.lines[before.length]? = some sec.head := by
    simp [hlines, Block.lines]
  have hunder : ∀ i line, before.length < i → i < (before ++ sec.lines).length →
      doc.lines[i]? = some line → isHeader line = false := by
    intro i line hi hlt hline
    obtain ⟨n, rfl⟩ := Nat.exists_eq_add_of_lt hi
    refine hfits.body line (List.mem_of_getElem? (i := n) ?_)
    rw [hlines, List.getElem?_append_left hlt, List.getElem?_append_right (by omega)] at hline
    simpa [Block.lines, Nat.add_assoc] using hline
  have hlast : (doc.lines[(before ++ sec.lines).length]?) = after.head? := by
    rw [hlines, List.getElem?_append_right (le_refl _), Nat.sub_self, List.head?_eq_getElem?]
  have hlen : before.length < (before ++ sec.lines).length := by simp [Block.lines]
  rw [commentBelow, sectionSpan, hspan]
  generalize (before ++ sec.lines).length = stop at *
  generalize before.length = start at *
  constructor
  · -- the last line of the section would stand above the header after it
    intro outside
    by_contra hbelow
    simp only [Bool.not_eq_false, Bool.and_eq_true, decide_eq_true_eq, Option.any_eq_true] at hbelow
    obtain ⟨⟨line, hline, hcomment⟩, hmore⟩ := hbelow
    obtain ⟨next, hnext⟩ : ∃ next, doc.lines[stop]? = some next :=
      ⟨_, List.getElem?_eq_getElem hmore⟩
    have stands : doc.StandsAbove (stop - 1) := by
      refine ⟨stop, by omega, ⟨next, hnext, hafter next (hlast ▸ hnext)⟩, fun k hk hlt => ?_⟩
      obtain rfl : k = stop - 1 := by omega
      exact ⟨line, hline, hcomment⟩
    have := outside (stop - 1) stands
    omega
  · rintro hbelow i ⟨j, hij, ⟨header, hj, hhead⟩, hbetween⟩
    by_contra hinside
    have hjstop : stop ≤ j := by
      by_contra hlt
      have := hunder j header (by omega) (by omega) hj
      simp [hhead] at this
    have hjlen : j < doc.lines.length := (List.getElem?_eq_some_iff.1 hj).1
    obtain ⟨line, hline, hcomment⟩ := hbetween (stop - 1) (by omega) (by omega)
    simp [hline, hcomment] at hbelow
    omega

theorem sectionGone_iff (accepted : doc.NoDuplicates) (h : name ∈ doc.names) :
    doc.SectionGone name ↔ doc.commentBelow name = false := by
  refine ⟨fun gone => (comments_iff h).1 gone.comments, fun none_below => ?_⟩
  refine ⟨?_, fun name' hne => ⟨?_, fun key => writtenAt_removeSection_of_ne hne⟩,
    removeSection_eq_splice h, (comments_iff h).2 none_below⟩
  · rw [Bool.eq_false_iff, ne_eq, hasSection_iff, names_removeSection]
    exact List.Nodup.not_mem_erase accepted
  · rw [Bool.eq_iff_iff, hasSection_iff, hasSection_iff, names_removeSection,
      List.mem_erase_of_ne hne]

theorem removal_iff (doc : CfgDocument) (accepted : doc.NoDuplicates) (name : Str) :
    (∀ key, (doc.get name key).isSome →
      (doc.OptionGone name key ↔ (doc.writtenAt name key).length = 1)) ∧
    (doc.hasSection name → (doc.SectionGone name ↔ doc.commentBelow name = false)) :=
  ⟨fun _ h => optionGone_iff h, fun h => sectionGone_iff accepted (hasSection_iff.1 h)⟩

def twoTypes : CfgDocument := ⟨["[firmware klipper]".toList, "flashers: flashtool".toList,
  "[type a]".toList, "firmware: klipper".toList, "chipset: stm32".toList, "chipset: rp2040".toList,
  "# the toolhead".toList, "[type b]".toList, "firmware: klipper".toList]⟩

theorem removal_iff_twoTypes :
    twoTypes.OptionGone "type a".toList "firmware".toList ∧ twoTypes.SectionGone "type b".toList :=
  ⟨((removal_iff twoTypes (by decide) "type a".toList).1 "firmware".toList (by decide)).2 (by decide),
    ((removal_iff twoTypes (by decide) "type b".toList).2 (by decide)).2 (by decide)⟩

theorem removal_resurrects :
    (Typelist.readDoc (fileText twoTypes.lines) = .ok twoTypes ∧
      Typelist.validate twoTypes (Typelist.read twoTypes (Typelist.loadFromDoc twoTypes))
        (Typelist.loadFromDoc twoTypes) = .ok ()) ∧
    (twoTypes.removeOption "type a".toList "chipset".toList).get "type a".toList "chipset".toList =
      some "rp2040".toList ∧
    "# the toolhead".toList ∉ (twoTypes.removeSection "type a".toList).lines ∧
    ¬twoTypes.OptionGone "type a".toList "chipset".toList ∧
    ¬twoTypes.SectionGone "type a".toList := by
  refine ⟨⟨by decide, by decide⟩, by decide, by decide, fun h => ?_, fun h => ?_⟩
  · exact absurd h.gone (by decide)
  · have stands : twoTypes.StandsAbove 6 :=
      ⟨7, by decide, ⟨"[type b]".toList, by decide, by decide⟩, fun k hk hlt => by
        obtain rfl : k = 6 := by omega
        exact ⟨"# the toolhead".toList, by decide, by decide⟩⟩
    exact absurd (h.comments 6 stands) (by decide)

end CfgDocument
end McuUpdater.CfgDoc
