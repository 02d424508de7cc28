import McuUpdater.Registry.CfgDoc

/-! What an edit of a document does to its sections and options: `_splice` parses all lines
anew, and every section and option but the edited one is found as it was. -/
namespace McuUpdater.CfgDoc
open PyText Outline
variable {s t key key' name name' : Str} {c : Char} {body : List Str} {value : Value}
  {doc : CfgDocument} {item : Block Str} {existing : Option (Block Str)}

/-! ## Lines -/

theorem not_header_of_continuation {line : Str} (h : isContinuation line = true) : isHeader line = false := by
  cases line with
  | nil => rfl
  | cons c s =>
    have hc : c ≠ '[' := by
      rintro rfl
      simp [isContinuation] at h
    simp [isHeader, sectionName.eq_def, hc]

theorem isBlank_append_left (h : isBlank s = false) : isBlank (s ++ t) = false := by
  simp only [isBlank, decide_eq_false_iff_not, strip_eq_nil_iff, List.mem_append, not_forall] at *
  obtain ⟨c, hc, hsp⟩ := h
  exact ⟨c, .inl hc, hsp⟩

theorem isBlank_append_right (h : isBlank t = false) : isBlank (s ++ t) = false := by
  simp only [isBlank, decide_eq_false_iff_not, strip_eq_nil_iff, List.mem_append, not_forall] at *
  obtain ⟨c, hc, hsp⟩ := h
  exact ⟨c, .inr hc, hsp⟩

theorem isContinuation_indent (h : isBlank s = false) : isContinuation (indent ++ s) = true := by
  rw [isContinuation, isBlank_append_right h]
  rfl

theorem isBlank_of_ne_nil (h : strip s ≠ []) : isBlank s = false := by simpa [isBlank] using h

/-- A text that can head an item: it is not indented. -/
def Heads (s : Str) : Prop := ∃ c t, s = c :: t ∧ c ≠ ' ' ∧ c ≠ '\t'

theorem Heads.ne_nil (h : Heads s) : s ≠ [] := by
  obtain ⟨c, t, rfl, -, -⟩ := h
  simp

theorem Heads.startsItem (h : Heads s) : startsItem (s ++ t) = true := by
  obtain ⟨c, u, rfl, hsp, htab⟩ := h
  simp [CfgDoc.startsItem, isContinuation, hsp, htab]

theorem startsItem_of_isBlank {line : Str} (h : isBlank line = true) : startsItem line = true := by
  simp [startsItem, isContinuation, h]

theorem optionOf_of_isBlank {line : Str} (h : isBlank line = true) : optionOf line = none := by
  cases line with
  | nil => rfl
  | cons c s =>
    have hc : isSpace c = true := by
      simp only [isBlank, decide_eq_true_eq, strip_eq_nil_iff] at h
      exact h c (by simp)
    simp [optionOf, hc]

/-! ## Keys -/

/-- What `_OPTION_RE` reads back as the key it was written under. -/
structure KeySafe (key : Str) : Prop where
  head : ∀ c ∈ key.head?, isSpace c = false ∧ isCommentStart c = false
  ne_nil : key ≠ []
  trimmed : Trimmed key
  noSep : ∀ c ∈ key, c ≠ ':' ∧ c ≠ '='

theorem keySafe_of_check {key : Str} (h : (key ≠ [] && key.all fun c =>
    !isSpace c && !isCommentStart c && c ≠ ':' && c ≠ '=') = true) : KeySafe key := by
  simp only [Bool.and_eq_true, List.all_eq_true, Bool.not_eq_true', decide_eq_true_eq] at h
  obtain ⟨hne, hall⟩ := h
  exact ⟨fun c hc => (hall c (List.mem_of_head? hc)).1.1, hne,
    ⟨fun c hc => (hall c (List.mem_of_head? hc)).1.1.1,
      fun c hc => (hall c (List.mem_of_getLast? hc)).1.1.1⟩,
    fun c hc => ⟨(hall c hc).1.2, (hall c hc).2⟩⟩

theorem KeySafe.heads (h : KeySafe key) : Heads key := by
  obtain ⟨c, t, rfl⟩ := List.exists_cons_of_ne_nil h.ne_nil
  have hc := (h.head c rfl).1
  refine ⟨c, t, rfl, ?_, ?_⟩
  · rintro rfl
    exact absurd hc (by decide)
  · rintro rfl
    exact absurd hc (by decide)

theorem optionOf_key (h : KeySafe key) (hs : toEnd s = true) :
    optionOf (key ++ ':' :: s) = some (key, stripInlineComment (strip s)) := by
  obtain ⟨c, t, rfl⟩ := List.exists_cons_of_ne_nil h.ne_nil
  obtain ⟨hc, hc'⟩ := h.head c rfl
  have hsep := h.noSep
  rw [List.forall_mem_cons] at hsep
  have ht : ∀ d ∈ t, (d ≠ ':' && d ≠ '=') = true := fun d hd => by simpa using hsep.2 d hd
  rw [List.cons_append, optionOf]
  rw [if_neg (by simp [hc, hc', hsep.1.1, hsep.1.2])]
  rw [List.dropWhile_append_of_pos ht, List.takeWhile_append_of_pos ht]
  simp [hs, strip_of_trimmed h.trimmed]

theorem keySafe_of_optionOf {line value : Str} (h : optionOf line = some (key, value)) : KeySafe key := by
  cases line with
  | nil => exact nomatch h
  | cons c s =>
    rw [optionOf] at h
    split_ifs at h with hc
    simp only [Bool.or_eq_true, decide_eq_true_eq, not_or, Bool.not_eq_true] at hc
    split at h
    · exact nomatch h
    · split_ifs at h
      obtain ⟨rfl, -⟩ := Prod.mk.inj (Option.some.inj h)
      have hl : ∀ u, lstrip (c :: u) = c :: u := fun u => by simp [lstrip, hc.1.1.1]
      have hhead : ∀ d ∈ (strip (c :: s.takeWhile fun d => d ≠ ':' && d ≠ '=')).head?, d = c := by
        intro d hd
        rw [strip, hl, rstrip] at hd
        obtain ⟨u, hu⟩ := List.rdropWhile_prefix isSpace
          (c :: s.takeWhile fun d => d ≠ ':' && d ≠ '=')
        have := congrArg List.head? hu
        rw [List.head?_append, Option.mem_def.mp hd] at this
        exact Option.some.inj this
      refine ⟨fun d hd => ?_, fun hnil => ?_, trimmed_strip _, fun d hd => ?_⟩
      · obtain rfl := hhead d hd
        exact ⟨hc.1.1.1, hc.2⟩
      · have := strip_eq_nil_iff.mp hnil c (by simp)
        simp [hc.1.1.1] at this
      · have hmem := (strip_sublist _).subset hd
        rcases List.mem_cons.mp hmem with rfl | hmem
        · exact ⟨hc.1.1.2, hc.1.2⟩
        · simpa using List.mem_takeWhile_imp hmem

/-! ## Rendering -/

/-- Every text a decoration holds can stand on an indented line of its own. -/
structure Decoration.Nonblank (d : Decoration) : Prop where
  before : ∀ entry ∈ d.before, ∀ text ∈ entry.2, isBlank text = false
  pending : ∀ text ∈ d.pending, isBlank text = false

theorem isBlank_strip (s : Str) : isBlank (strip s) = isBlank s := by
  simp [isBlank, strip_strip]

theorem Decoration.Nonblank.line {d : Decoration} (h : d.Nonblank) (raw : Str) :
    (d.line raw).Nonblank := by
  unfold Decoration.line
  by_cases htext : strip raw = []
  · simpa [htext] using h
  · have hraw : isBlank (strip raw) = false := by
      rw [isBlank_strip]
      exact isBlank_of_ne_nil htext
    simp only [htext, if_false]
    split_ifs
    · exact ⟨h.before, by simpa [or_imp, forall_and, hraw] using h.pending⟩
    · exact h
    all_goals
      refine ⟨?_, by simp⟩
      first
      | exact h.before
      | exact List.forall_mem_cons.mpr ⟨h.pending, h.before⟩

theorem decoration_nonblank (existing : Option (Block Str)) : (decoration existing).Nonblank := by
  have hfold : ∀ (lines : List Str) (d : Decoration), d.Nonblank →
      (lines.foldl Decoration.line d).Nonblank := by
    intro lines
    induction lines with
    | nil => exact fun d h => h
    | cons raw lines ih => exact fun d h => ih _ (h.line raw)
  have hempty : Decoration.Nonblank {} := ⟨by simp, by simp⟩
  cases existing with
  | none => exact hempty
  | some existing => exact hfold _ _ hempty

theorem Decoration.Nonblank.lookup {d : Decoration} (h : d.Nonblank) (item : Str) :
    ∀ text ∈ (d.before.lookup item).getD [], isBlank text = false := by
  cases hl : d.before.lookup item with
  | none => simp
  | some texts =>
    obtain ⟨l₁, l₂, heq, -⟩ := List.lookup_eq_some_iff.mp hl
    exact h.before (item, texts) (heq ▸ by simp)

theorem Decoration.Nonblank.itemLines {d : Decoration} (h : d.Nonblank) {item : Str}
    (hitem : isBlank item = false) : ∀ line ∈ d.itemLines item, isContinuation line = true := by
  intro line hline
  simp only [Decoration.itemLines, List.mem_append, List.mem_map, List.mem_singleton] at hline
  rcases hline with ⟨text, htext, rfl⟩ | rfl
  · exact isContinuation_indent (h.lookup item text htext)
  · rw [List.append_assoc]
    exact isContinuation_indent (isBlank_append_left hitem)

theorem renderBlock_body {d : Decoration} (h : d.Nonblank) {items : List Str}
    (hitems : ∀ item ∈ items, isBlank item = false) :
    ∀ line ∈ (renderBlock key d items).body, isContinuation line = true := by
  intro line hline
  unfold renderBlock at hline
  split_ifs at hline with hnil
  · exact absurd hline (by simp)
  · simp only [List.mem_append, List.mem_flatMap, List.mem_map] at hline
    rcases hline with ⟨item, hitem, hline⟩ | ⟨text, htext, rfl⟩
    · exact h.itemLines (hitems item hitem) line hline
    · exact isContinuation_indent (h.pending text htext)

theorem afterFirst_suffix (sep : Char) (s : Str) : afterFirst sep s <:+ s := by
  unfold afterFirst
  split
  · exact List.suffix_refl s
  · next rest h => exact (List.suffix_cons _ rest).trans (h ▸ List.dropWhile_suffix _)

theorem afterFirst_append_of_mem {sep : Char} (h : sep ∉ s) (ht : sep ∈ t) :
    afterFirst sep (s ++ t) = afterFirst sep t := by
  have hs : ∀ c ∈ s, decide (c ≠ sep) = true := fun c hc => by
    simpa using fun he : c = sep => h (he ▸ hc)
  unfold afterFirst
  rw [List.dropWhile_append_of_pos hs]
  split
  · next hnil => exact absurd (List.dropWhile_eq_nil_iff.mp hnil sep ht) (by simp)
  · rfl

theorem afterFirst_of_notMem {sep : Char} (h : sep ∉ s) : afterFirst sep s = s := by
  have hs : s.dropWhile (fun c => decide (c ≠ sep)) = [] :=
    List.dropWhile_eq_nil_iff.mpr fun c hc => by simpa using fun he : c = sep => h (he ▸ hc)
  unfold afterFirst
  rw [hs]

theorem afterFirst_append {sep : Char} (h : sep ∉ s) (t : Str) :
    afterFirst sep (s ++ sep :: t) = t := by
  rw [afterFirst_append_of_mem h (by simp)]
  simp [afterFirst]

theorem option_line {line value : Str} (h : optionOf line = some (key, value)) :
    ∃ start sep rest, line = start ++ sep :: rest ∧ (sep = ':' ∨ sep = '=') ∧
      (∀ c ∈ start, c ≠ ':' ∧ c ≠ '=') ∧ toEnd rest = true ∧
      key = strip start ∧ value = stripInlineComment (strip rest) := by
  cases line with
  | nil => exact nomatch h
  | cons c s =>
    rw [optionOf] at h
    split_ifs at h with hc
    simp only [Bool.or_eq_true, decide_eq_true_eq, not_or, Bool.not_eq_true] at hc
    split at h
    · exact nomatch h
    · next sep rest hdrop =>
      split_ifs at h with hend
      obtain ⟨rfl, rfl⟩ := Prod.mk.inj (Option.some.inj h)
      have hs := List.takeWhile_append_dropWhile (p := fun d => d ≠ ':' && d ≠ '=') (l := s)
      have hsep := List.head?_dropWhile_not (fun d => d ≠ ':' && d ≠ '=') s
      rw [hdrop] at hsep
      simp only [List.head?_cons, Bool.and_eq_false_iff, decide_eq_false_iff_not, not_not] at hsep
      refine ⟨c :: s.takeWhile fun d => d ≠ ':' && d ≠ '=', sep, rest, ?_, hsep,
        List.forall_mem_cons.mpr ⟨⟨hc.1.1.2, hc.1.2⟩, fun d hd => by
          simpa using List.mem_takeWhile_imp hd⟩, hend, rfl, rfl⟩
      rw [List.cons_append, ← hdrop, hs]

theorem toEnd_of_suffix (h : s <:+ t) (ht : toEnd t = true) : toEnd s = true := by
  obtain ⟨u, rfl⟩ := h
  cases s with
  | nil => rfl
  | cons c s =>
    rw [toEnd, List.dropLast_append_of_ne_nil (by simp)] at ht
    simp only [toEnd, Bool.not_eq_true', List.contains_eq_mem, decide_eq_false_iff_not,
      List.mem_append, not_or] at ht ⊢
    exact ht.2

theorem newline_notMem_strip (h : toEnd s = true) : '\n' ∉ strip s := fun hm => by
  have hl : toEnd (lstrip s) = true := toEnd_of_suffix (List.dropWhile_suffix _) h
  obtain ⟨u, hu⟩ := List.rdropWhile_prefix isSpace (lstrip s)
  have htrim := trimmed_strip s
  simp only [toEnd, Bool.not_eq_true', List.contains_eq_mem, decide_eq_false_iff_not] at hl
  cases u with
  | nil =>
    rw [List.append_nil] at hu
    have hne : strip s ≠ [] := List.ne_nil_of_mem hm
    rw [← List.dropLast_append_getLast hne, List.mem_append] at hm
    rcases hm with hm | hm
    · refine hl ?_
      rwa [← hu]
    · have hlast := htrim.2 _ (List.getLast?_eq_some_getLast hne)
      rw [← List.mem_singleton.mp hm] at hlast
      exact absurd hlast (by decide)
  | cons c u =>
    rw [← hu, List.dropLast_append_of_ne_nil (by simp)] at hl
    exact hl (List.mem_append_left _ hm)

theorem newline_notMem_trailingComment (h : keyOf item = some key) :
    '\n' ∉ trailingComment (some item) := by
  obtain ⟨line, body⟩ := item
  cases body with
  | cons => simp [trailingComment]
  | nil =>
    obtain ⟨⟨_, value⟩, hopt, rfl⟩ := Option.map_eq_some_iff.mp h
    obtain ⟨start, sep, rest, rfl, hsep, hstart, hend, -, -⟩ := option_line hopt
    have hrest : afterFirst '=' (afterFirst ':' (start ++ sep :: rest)) <:+ rest := by
      rcases hsep with rfl | rfl
      · rw [afterFirst_append fun hm => (hstart _ hm).1 rfl]
        exact afterFirst_suffix _ _
      · by_cases hcolon : ':' ∈ rest
        · have hstart' : ':' ∉ start ++ ['='] := by
            simpa using fun hm => (hstart _ hm).1 rfl
          rw [List.append_cons, afterFirst_append_of_mem hstart' hcolon]
          exact (afterFirst_suffix _ _).trans (afterFirst_suffix _ _)
        · have hall : ':' ∉ start ++ '=' :: rest := by
            simp only [List.mem_append, List.mem_cons, not_or]
            exact ⟨fun hm => (hstart _ hm).1 rfl, by decide, hcolon⟩
          simp only [afterFirst_of_notMem hall, afterFirst_append fun hm => (hstart _ hm).2 rfl,
            List.suffix_refl]
    exact newline_notMem_strip (toEnd_of_suffix ((List.drop_suffix _ _).trans hrest) hend)

/-- An option is rendered as one line that starts with its key and indented lines after it. -/
theorem render_spec (key : Str) (value : Value)
    (h : ∀ item ∈ existing, ∃ key, keyOf item = some key) :
    (∃ s, (render key value existing).head = key ++ ':' :: s ∧ toEnd s = true) ∧
      ∀ line ∈ (render key value existing).body, isContinuation line = true := by
  have hblock : ∀ items : List Str, (∀ item ∈ items, isBlank item = false) →
      (∃ s, (renderBlock key (decoration existing) items).head = key ++ ':' :: s ∧
        toEnd s = true) ∧
      ∀ line ∈ (renderBlock key (decoration existing) items).body, isContinuation line = true :=
    fun items hitems => ⟨⟨[], rfl, rfl⟩, renderBlock_body (decoration_nonblank existing) hitems⟩
  cases value with
  | list items =>
    refine hblock _ fun item hitem => ?_
    have hne := List.of_mem_filter hitem
    exact isBlank_of_ne_nil (by simpa using hne)
  | text text =>
    rw [render]
    split_ifs with hbreak
    · refine hblock _ fun item hitem => ?_
      obtain ⟨hitem, hne⟩ := List.mem_filter.mp hitem
      obtain ⟨part, -, rfl⟩ := List.mem_map.mp hitem
      rw [isBlank_strip]
      exact isBlank_of_ne_nil (by simpa using hne)
    · refine ⟨⟨' ' :: text ++ (if trailingComment existing = [] then [] else
        "  ".toList ++ trailingComment existing), by simp, ?_⟩, by simp⟩
      have hcomment : '\n' ∉ trailingComment existing := by
        cases existing with
        | none => simp [trailingComment]
        | some item =>
          obtain ⟨key, hkey⟩ := h item rfl
          exact newline_notMem_trailingComment hkey
      simp only [toEnd, Bool.not_eq_true', List.contains_eq_mem, decide_eq_false_iff_not]
      refine fun hm => ?_
      have hm := List.dropLast_subset _ hm
      split_ifs at hm <;> simp [hbreak, hcomment] at hm

theorem render_fits (hkey : Heads key) (value : Value)
    (h : ∀ item ∈ existing, ∃ key, keyOf item = some key) :
    (render key value existing).Fits startsItem := by
  obtain ⟨⟨s, hs, -⟩, hbody⟩ := render_spec key value h
  exact ⟨hs ▸ hkey.startsItem, fun line hline => by simp [startsItem, hbody line hline]⟩

theorem keyOf_render (hkey : KeySafe key) (value : Value)
    (h : ∀ item ∈ existing, ∃ key, keyOf item = some key) :
    keyOf (render key value existing) = some key := by
  obtain ⟨⟨s, hs, hend⟩, -⟩ := render_spec key value h
  rw [keyOf, hs, optionOf_key hkey hend]
  rfl

/-! ## The options of a section -/

theorem keyOf_of_mem_written (h : item ∈ written body key) : keyOf item = some key := by
  simpa using (List.mem_filter.mp h).2

theorem keySafe_of_mem_written (h : item ∈ written body key) : KeySafe key := by
  obtain ⟨⟨_, value⟩, hopt, rfl⟩ := Option.map_eq_some_iff.mp (keyOf_of_mem_written h)
  exact keySafe_of_optionOf hopt

theorem cut_blank {blanks : List Str} (h : ∀ line ∈ blanks, isBlank line = true) :
    cut startsItem blanks = ⟨[], blanks.map (⟨·, []⟩)⟩ := by
  induction blanks with
  | nil => rfl
  | cons line blanks ih =>
    rw [List.forall_mem_cons] at h
    simp [cut, ih h.2, startsItem_of_isBlank h.1]

theorem cut_around (body : List Str) : ∃ lead above below,
    cut startsItem body = ⟨lead, above ++ below⟩ ∧
    (∀ b ∈ below, ∃ line, b = ⟨line, []⟩ ∧ isBlank line = true) ∧
    ∀ new : Block Str, new.Fits startsItem →
      cut startsItem (body.rdropWhile isBlank ++ new.lines ++ body.rtakeWhile isBlank) =
        ⟨lead, above ++ new :: below⟩ := by
  have hblank := cut_blank fun line (h : line ∈ body.rtakeWhile isBlank) => List.mem_rtakeWhile_imp h
  refine ⟨(cut startsItem (body.rdropWhile isBlank)).lead,
    (cut startsItem (body.rdropWhile isBlank)).blocks,
    (body.rtakeWhile isBlank).map (⟨·, []⟩), ?_, fun b hb => ?_, fun new hnew => ?_⟩
  · conv_lhs => rw [← List.rdropWhile_append_rtakeWhile (p := isBlank) (l := body)]
    rw [cut_append_heading (by rw [hblank]), hblank]
  · obtain ⟨line, hline, rfl⟩ := List.mem_map.mp hb
    exact ⟨line, rfl, List.mem_rtakeWhile_imp hline⟩
  · have hcut : cut startsItem (new.lines ++ body.rtakeWhile isBlank) =
        ⟨[], new :: (body.rtakeWhile isBlank).map (⟨·, []⟩)⟩ := by
      have hnil : cut startsItem new.lines = ⟨[], [new]⟩ := by
        simpa [Cut.lines] using cut_lines (o := ⟨[], [new]⟩) (p := startsItem)
          ⟨by simp, by simpa using hnew⟩
      rw [cut_append_heading (by rw [hblank]), hblank, hnil]
      rfl
    rw [List.append_assoc, cut_append_heading (by rw [hcut]), hcut]

theorem keyOf_blank {line : Str} (h : isBlank line = true) : keyOf ⟨line, []⟩ = none := by
  simp [keyOf, optionOf_of_isBlank h]

/-- What `setIn` makes of the items of a section. -/
theorem cut_setIn (hkey : Heads key) (value : Value) (body : List Str) :
    (written body key = [] ∧ ∃ lead above below, cut startsItem body = ⟨lead, above ++ below⟩ ∧
      (∀ b ∈ below, ∃ line, b = ⟨line, []⟩ ∧ isBlank line = true) ∧
      cut startsItem (setIn key value body) =
        ⟨lead, above ++ render key value none :: below⟩) ∨
    (written body key ≠ [] ∧ cut startsItem (setIn key value body) =
      ⟨(cut startsItem body).lead, replaceFirst (keyOf · = some key)
        (fun existing => [render key value (some existing)]) (items body)⟩) := by
  unfold setIn
  split_ifs with hnil
  · obtain ⟨lead, above, below, hcut, hbelow, hnew⟩ := cut_around body
    exact .inl ⟨hnil, lead, above, below, hcut, hbelow, hnew _ (render_fits hkey value (by simp))⟩
  · refine .inr ⟨hnil, cut_editFirst fun item _ hitem x hx => ?_⟩
    obtain rfl := List.mem_singleton.mp hx
    exact render_fits hkey value (by simpa using ⟨key, by simpa using hitem⟩)

theorem written_setIn_self (hkey : KeySafe key) (value : Value) (body : List Str) :
    written (setIn key value body) key = match written body key with
      | [] => [render key value none]
      | item :: rest => render key value (some item) :: rest := by
  rcases cut_setIn hkey.heads value body with ⟨hnil, lead, above, below, hcut, hbelow, hset⟩ |
    ⟨hne, hset⟩
  · have hnew : keyOf (render key value none) = some key := keyOf_render hkey value (by simp)
    rw [hnil]
    simp only [written, items, hcut, hset, List.filter_append, List.filter_cons, hnew] at hnil ⊢
    simp only [List.append_eq_nil_iff] at hnil
    simp [hnil]
  · rw [written, items, hset]
    simp only
    rw [filter_replaceFirst_self fun b hb x hx => ?_]
    · obtain ⟨item, rest, h⟩ := List.exists_cons_of_ne_nil hne
      rw [h, show (items body).filter (keyOf · = some key) = item :: rest from h]
      rfl
    · obtain rfl := List.mem_singleton.mp hx
      have hnew : keyOf (render key value (some b)) = some key :=
        keyOf_render hkey value (by simpa using ⟨key, by simpa using hb⟩)
      simpa using hnew

theorem filter_setIn {r : Block Str → Bool} (hkey : Heads key) (value : Value) (body : List Str)
    (hr : ∀ b, keyOf b = some key → r b = false)
    (hnew : ∀ existing : Option (Block Str), (∀ b ∈ existing, keyOf b = some key) →
      r (render key value existing) = false) :
    (items (setIn key value body)).filter r = (items body).filter r := by
  rcases cut_setIn hkey value body with ⟨-, lead, above, below, hcut, -, hset⟩ | ⟨-, hset⟩
  · simp [items, hcut, hset, List.filter_append, hnew none (by simp)]
  · rw [items, hset]
    refine filter_replaceFirst (fun b hb => hr b (by simpa using hb)) fun b hb x hx => ?_
    obtain rfl := List.mem_singleton.mp hx
    exact hnew (some b) (by simpa using hb)

theorem written_setIn_of_ne (hkey : KeySafe key) (value : Value) (body : List Str)
    (hne : key' ≠ key) : written (setIn key value body) key' = written body key' := by
  refine filter_setIn hkey.heads value body (fun b hb => ?_) fun existing hex => ?_
  · simpa [hb] using hne.symm
  · rw [keyOf_render hkey value fun b hb => ⟨key, hex b hb⟩]
    simpa using hne.symm

theorem written_setIn_isPrefix (hkey : Heads key) (value : Value) (body : List Str)
    (hne : key' ≠ key) : written body key' <+: written (setIn key value body) key' := by
  rcases cut_setIn hkey value body with ⟨-, lead, above, below, hcut, hbelow, hset⟩ | ⟨hold, -⟩
  · have hnil : below.filter (fun item => keyOf item = some key') = [] :=
      List.filter_eq_nil_iff.mpr fun b hb => by
        obtain ⟨line, rfl, hline⟩ := hbelow b hb
        simp [keyOf_blank hline]
    simp only [written, items, hcut, hset, List.filter_append, hnil, List.append_nil]
    exact List.prefix_append _ _
  · obtain ⟨item, hitem⟩ := List.exists_mem_of_ne_nil _ hold
    exact (written_setIn_of_ne (keySafe_of_mem_written hitem) value body hne).symm ▸
      List.prefix_refl _

theorem cut_removeIn (key : Str) (body : List Str) : cut startsItem (removeIn key body) =
    ⟨(cut startsItem body).lead, replaceFirst (keyOf · = some key) (fun _ => []) (items body)⟩ :=
  cut_editFirst (by simp)

theorem filter_removeIn {r : Block Str → Bool} (body : List Str)
    (hr : ∀ b, keyOf b = some key → r b = false) :
    (items (removeIn key body)).filter r = (items body).filter r := by
  rw [items, cut_removeIn]
  exact filter_replaceFirst (fun b hb => hr b (by simpa using hb)) (by simp)

theorem written_removeIn_of_ne (body : List Str) (hne : key' ≠ key) :
    written (removeIn key body) key' = written body key' :=
  filter_removeIn body fun b hb => by simpa [hb] using hne.symm

theorem written_removeIn_self (key : Str) (body : List Str) :
    written (removeIn key body) key = (written body key).tail := by
  rw [written, items, cut_removeIn]
  simp only
  rw [filter_replaceFirst_self (by simp), written]
  cases (items body).filter fun item => keyOf item = some key <;> rfl

/-! ## The sections of a document -/

def Headless (body : List Str) : Prop := ∀ line ∈ body, isHeader line = false

theorem headless_of_mem_sections {sec : Block Str} (h : sec ∈ doc.sections) : Headless sec.body :=
  ((cut_fits isHeader doc.lines).blocks sec h).body

theorem headless_render (hkey : key.head? ≠ some '[') (hne : key ≠ []) (value : Value)
    (h : ∀ item ∈ existing, ∃ key, keyOf item = some key) :
    Headless (render key value existing).lines := by
  obtain ⟨⟨s, hs, -⟩, hbody⟩ := render_spec key value h
  refine List.forall_mem_cons.mpr ⟨?_, fun line hline => not_header_of_continuation (hbody line hline)⟩
  obtain ⟨c, t, rfl⟩ := List.exists_cons_of_ne_nil hne
  have hc : c ≠ '[' := by simpa using hkey
  rw [hs]
  simp [isHeader, sectionName.eq_def, hc]

theorem Headless.setIn (h : Headless body) (hkey : key.head? ≠ some '[') (hne : key ≠ [])
    (value : Value) : Headless (setIn key value body) := by
  intro line hline
  unfold CfgDoc.setIn at hline
  split_ifs at hline
  · simp only [List.mem_append] at hline
    rcases hline with (hline | hline) | hline
    · exact h line ((List.rdropWhile_prefix _ _).subset hline)
    · exact headless_render hkey hne value (by simp) line hline
    · exact h line ((List.rtakeWhile_suffix _ _).subset hline)
  · rcases mem_editFirst hline with hline | ⟨b, -, hb, x, hx, hline⟩
    · exact h line hline
    · obtain rfl := List.mem_singleton.mp hx
      exact headless_render hkey hne value
        (by simpa using ⟨key, by simpa using hb⟩) line hline

theorem Headless.removeIn (h : Headless body) (key : Str) : Headless (removeIn key body) := by
  intro line hline
  rcases mem_editFirst hline with hline | ⟨b, -, -, x, hx, -⟩
  · exact h line hline
  · exact nomatch hx

namespace CfgDocument
variable {f : List Str → List Str}

def names (doc : CfgDocument) : List Str := doc.sections.map nameOf

/-- The options of one key in the first section of one name. -/
def writtenAt (doc : CfgDocument) (name key : Str) : List (Block Str) :=
  (doc.section? name).elim [] fun sec => written sec.body key

theorem option?_eq (doc : CfgDocument) (name key : Str) :
    doc.option? name key = (doc.writtenAt name key).head? := by
  cases h : doc.section? name <;> simp [option?, writtenAt, h]

theorem get_eq (doc : CfgDocument) (name key : Str) :
    doc.get name key = (doc.writtenAt name key).head?.map valueOf := by
  rw [get, option?_eq]

theorem hasSection_iff : doc.hasSection name = true ↔ name ∈ doc.names := by
  simp [hasSection, section?, names, List.find?_isSome]

theorem cut_edit (hf : ∀ sec ∈ doc.sections, nameOf sec = name → Headless (f sec.body)) :
    cut isHeader (doc.edit name f).lines = ⟨(cut isHeader doc.lines).lead,
      replaceFirst (nameOf · = name) (fun sec => [⟨sec.head, f sec.body⟩]) doc.sections⟩ := by
  refine cut_editFirst fun sec hsec hname x hx => ?_
  obtain rfl := List.mem_singleton.mp hx
  exact ⟨((cut_fits isHeader doc.lines).blocks sec hsec).head, hf sec hsec (by simpa using hname)⟩

theorem sections_edit (hf : ∀ sec ∈ doc.sections, nameOf sec = name → Headless (f sec.body)) :
    (doc.edit name f).sections =
      replaceFirst (nameOf · = name) (fun sec => [⟨sec.head, f sec.body⟩]) doc.sections := by
  rw [sections, cut_edit hf]

theorem names_edit (hf : ∀ sec ∈ doc.sections, nameOf sec = name → Headless (f sec.body)) :
    (doc.edit name f).names = doc.names := by
  rw [names, sections_edit hf, map_replaceFirst fun _ _ => rfl, names]

theorem not_named_of_ne (hne : name' ≠ name) (sec : Block Str)
    (hsec : decide (nameOf sec = name) = true) : decide (nameOf sec = name') = false := by
  rw [decide_eq_true_eq] at hsec
  simpa [hsec] using hne.symm

theorem section?_edit_of_ne
    (hf : ∀ sec ∈ doc.sections, nameOf sec = name → Headless (f sec.body)) (hne : name' ≠ name) :
    (doc.edit name f).section? name' = doc.section? name' := by
  have hfilter : ((doc.edit name f).sections).filter (nameOf · = name') =
      doc.sections.filter (nameOf · = name') := by
    rw [sections_edit hf]
    have hother := not_named_of_ne hne
    refine filter_replaceFirst hother fun sec hsec x hx => ?_
    obtain rfl := List.mem_singleton.mp hx
    exact hother sec hsec
  rw [section?, section?, ← List.head?_filter, ← List.head?_filter, hfilter]

theorem section?_edit_self
    (hf : ∀ sec ∈ doc.sections, nameOf sec = name → Headless (f sec.body)) :
    (doc.edit name f).section? name = (doc.section? name).map fun sec => ⟨sec.head, f sec.body⟩ := by
  rw [section?, sections_edit hf]
  cases h : doc.sections.find? (nameOf · = name) with
  | none => rw [replaceFirst_of_find?_none h, h, section?, h]; rfl
  | some sec =>
    obtain ⟨before, after, heq, hbefore, hsec, hreplace⟩ := replaceFirst_of_find? h
    rw [hreplace, section?, h, List.append_assoc, List.find?_append,
      List.find?_eq_none.mpr (by simpa using hbefore)]
    have hname : decide (nameOf ⟨sec.head, f sec.body⟩ = name) = true := hsec
    simp [hname]

theorem writtenAt_edit_of_ne
    (hf : ∀ sec ∈ doc.sections, nameOf sec = name → Headless (f sec.body)) (hne : name' ≠ name) :
    (doc.edit name f).writtenAt name' key = doc.writtenAt name' key := by
  rw [writtenAt, section?_edit_of_ne hf hne, writtenAt]

theorem writtenAt_edit_self
    (hf : ∀ sec ∈ doc.sections, nameOf sec = name → Headless (f sec.body)) :
    (doc.edit name f).writtenAt name key =
      (doc.section? name).elim [] fun sec => written (f sec.body) key := by
  rw [writtenAt, section?_edit_self hf]
  cases doc.section? name <;> rfl

theorem addSection_of_mem (h : name ∈ doc.names) : doc.addSection name = doc := by
  rw [addSection, if_pos (hasSection_iff.mpr h)]

theorem writtenAt_set (hkey : KeySafe key) (hhead : key.head? ≠ some '[') (h : name ∈ doc.names)
    (value : Value) (name' key' : Str) : (doc.set name key value).writtenAt name' key' =
      if name' = name ∧ key' = key then
        match doc.writtenAt name key with
        | [] => [CfgDoc.render key value none]
        | item :: rest => CfgDoc.render key value (some item) :: rest
      else doc.writtenAt name' key' := by
  have hf : ∀ sec ∈ doc.sections, nameOf sec = name → Headless (setIn key value sec.body) :=
    fun sec hsec _ => (headless_of_mem_sections hsec).setIn hhead hkey.ne_nil value
  rw [set, addSection_of_mem h]
  split_ifs with heq
  · obtain ⟨rfl, rfl⟩ := heq
    rw [writtenAt_edit_self hf, writtenAt]
    obtain ⟨sec, hsec⟩ := Option.isSome_iff_exists.mp (hasSection_iff.mpr h)
    rw [hsec]
    exact written_setIn_self hkey value sec.body
  · by_cases hname : name' = name
    · subst hname
      rw [writtenAt_edit_self hf, writtenAt]
      cases doc.section? name' with
      | none => rfl
      | some sec => exact written_setIn_of_ne hkey value sec.body fun hk => heq ⟨rfl, hk⟩
    · exact writtenAt_edit_of_ne hf hname

theorem writtenAt_set_of_ne (hkey : key ≠ []) (hhead : key.head? ≠ some '[') (h : name ∈ doc.names)
    (value : Value) (hne : name' ≠ name) :
    (doc.set name key value).writtenAt name' key' = doc.writtenAt name' key' := by
  rw [set, addSection_of_mem h]
  exact writtenAt_edit_of_ne
    (fun sec hsec _ => (headless_of_mem_sections hsec).setIn hhead hkey value) hne

theorem writtenAt_set_isPrefix (hkey : Heads key) (hhead : key.head? ≠ some '[')
    (h : name ∈ doc.names) (value : Value) (hne : key' ≠ key) :
    doc.writtenAt name key' <+: (doc.set name key value).writtenAt name key' := by
  rw [set, addSection_of_mem h, writtenAt_edit_self
    fun sec hsec _ => (headless_of_mem_sections hsec).setIn hhead hkey.ne_nil value, writtenAt]
  cases doc.section? name with
  | none => exact List.prefix_refl []
  | some sec => exact written_setIn_isPrefix hkey value sec.body hne

theorem names_set (hkey : key ≠ []) (hhead : key.head? ≠ some '[') (h : name ∈ doc.names)
    (value : Value) : (doc.set name key value).names = doc.names := by
  rw [set, addSection_of_mem h]
  exact names_edit fun sec hsec _ => (headless_of_mem_sections hsec).setIn hhead hkey value

theorem writtenAt_removeOption (doc : CfgDocument) (name key name' key' : Str) :
    (doc.removeOption name key).writtenAt name' key' =
      if name' = name ∧ key' = key then (doc.writtenAt name key).tail
      else doc.writtenAt name' key' := by
  have hf : ∀ sec ∈ doc.sections, nameOf sec = name → Headless (removeIn key sec.body) :=
    fun sec hsec _ => (headless_of_mem_sections hsec).removeIn key
  rw [removeOption]
  split_ifs with heq
  · obtain ⟨rfl, rfl⟩ := heq
    rw [writtenAt_edit_self hf, writtenAt]
    cases doc.section? name' with
    | none => rfl
    | some sec => exact written_removeIn_self key' sec.body
  · by_cases hname : name' = name
    · subst hname
      rw [writtenAt_edit_self hf, writtenAt]
      cases doc.section? name' with
      | none => rfl
      | some sec => exact written_removeIn_of_ne sec.body fun hk => heq ⟨rfl, hk⟩
    · exact writtenAt_edit_of_ne hf hname

theorem names_removeOption (doc : CfgDocument) (name key : Str) :
    (doc.removeOption name key).names = doc.names :=
  names_edit fun _ hsec _ => (headless_of_mem_sections hsec).removeIn key

/-! ### Taking a section away -/

theorem sections_removeSection (doc : CfgDocument) (name : Str) :
    (doc.removeSection name).sections =
      replaceFirst (nameOf · = name) (fun _ => []) doc.sections := by
  rw [removeSection, sections, cut_editFirst (by simp), sections]

theorem names_removeSection (doc : CfgDocument) (name : Str) :
    (doc.removeSection name).names = doc.names.erase name := by
  rw [names, sections_removeSection, names]
  induction doc.sections with
  | nil => rfl
  | cons sec secs ih =>
    rw [replaceFirst, List.map_cons, List.erase_cons]
    by_cases h : nameOf sec = name
    · simp [h]
    · simp [h, ih]

theorem writtenAt_removeSection_of_ne (hne : name' ≠ name) :
    (doc.removeSection name).writtenAt name' key = doc.writtenAt name' key := by
  rw [writtenAt, section?, ← List.head?_filter, sections_removeSection,
    filter_replaceFirst (not_named_of_ne hne) (by simp), List.head?_filter, ← section?, writtenAt]

/-! A blank line at the end of the document is none of its options. -/

def pad (doc : CfgDocument) : CfgDocument := ⟨doc.lines ++ [[]]⟩

/-- The same section, or with a blank line at its end. -/
def Padded (sec sec' : Block Str) : Prop :=
  sec' = sec ∨ sec' = ⟨sec.head, sec.body ++ [[]]⟩

theorem cut_pad (lines : List Str) :
    ((cut isHeader (lines ++ [[]])).lead = (cut isHeader lines).lead ∨
      (cut isHeader (lines ++ [[]])).lead = (cut isHeader lines).lead ++ [[]]) ∧
    List.Forall₂ Padded (cut isHeader lines).blocks (cut isHeader (lines ++ [[]])).blocks := by
  induction lines with
  | nil => exact ⟨.inr rfl, .nil⟩
  | cons line lines ih =>
    obtain ⟨hlead, hblocks⟩ := ih
    rw [List.cons_append, cut, cut]
    split_ifs
    · refine ⟨.inl rfl, .cons ?_ hblocks⟩
      rcases hlead with hlead | hlead
      · exact .inl (by simp [hlead])
      · exact .inr (by simp [hlead])
    · refine ⟨?_, hblocks⟩
      rcases hlead with hlead | hlead
      · exact .inl (by simp [hlead])
      · exact .inr (by simp [hlead])

theorem sections_pad (doc : CfgDocument) : List.Forall₂ Padded doc.sections doc.pad.sections :=
  (cut_pad doc.lines).2

theorem Padded.nameOf {sec sec' : Block Str} (h : Padded sec sec') : nameOf sec' = nameOf sec := by
  rcases h with rfl | rfl <;> rfl

theorem items_pad (body : List Str) :
    items (body ++ [[]]) = items body ++ [⟨[], []⟩] := by
  have hcut : cut startsItem [([] : Str)] = ⟨[], [⟨[], []⟩]⟩ := cut_blank (by decide)
  rw [items, cut_append_heading (by rw [hcut]), hcut, items]

theorem Padded.written {sec sec' : Block Str} (h : Padded sec sec') (key : Str) :
    written sec'.body key = written sec.body key := by
  rcases h with rfl | rfl
  · rfl
  · simp [CfgDoc.written, items_pad, keyOf, optionOf]

theorem names_pad (doc : CfgDocument) : doc.pad.names = doc.names := by
  have h := sections_pad doc
  rw [names, names]
  generalize doc.sections = old, doc.pad.sections = new at h
  induction h with
  | nil => rfl
  | cons hpad _ ih => rw [List.map_cons, List.map_cons, ih, hpad.nameOf]

theorem section?_pad (doc : CfgDocument) (name : Str) :
    Option.Rel Padded (doc.section? name) (doc.pad.section? name) := by
  have h := sections_pad doc
  rw [section?, section?]
  generalize doc.sections = old, doc.pad.sections = new at h
  induction h with
  | nil => exact .none
  | @cons sec sec' _ _ hpad _ ih =>
    by_cases hname : nameOf sec = name
    · simpa [List.find?_cons, hpad.nameOf, hname] using Option.Rel.some hpad
    · simpa [List.find?_cons, hpad.nameOf, hname] using ih

theorem writtenAt_pad (doc : CfgDocument) (name key : Str) :
    doc.pad.writtenAt name key = doc.writtenAt name key := by
  have h := section?_pad doc name
  rw [writtenAt, writtenAt]
  generalize doc.section? name = old, doc.pad.section? name = new at h
  cases h with
  | none => rfl
  | some hpad => exact hpad.written key

/-- A name that `add_section` writes as a header is read back. -/
structure NameSafe (name : Str) : Prop where
  ne_nil : name ≠ []
  noBracket : ']' ∉ name
  trimmed : Trimmed name

theorem sectionName_header (h : NameSafe name) : sectionName (headerLine name) = some name := by
  have hname : ∀ c ∈ name, decide (c ≠ ']') = true := fun c hc => by
    simpa using fun he : c = ']' => h.noBracket (he ▸ hc)
  rw [headerLine, sectionName]
  rw [List.dropWhile_append_of_pos hname, List.takeWhile_append_of_pos hname]
  simp [h.ne_nil, strip_of_trimmed h.trimmed]

theorem sections_addSection (hsafe : NameSafe name) (h : name ∉ doc.names) :
    (doc.addSection name).sections = doc.sections ++ [⟨headerLine name, []⟩] ∨
      (doc.addSection name).sections = doc.pad.sections ++ [⟨headerLine name, []⟩] := by
  have hhead : isHeader (headerLine name) = true := by
    rw [isHeader, sectionName_header hsafe]
    rfl
  have hcut : cut isHeader [headerLine name] = ⟨[], [⟨headerLine name, []⟩]⟩ := by
    simp [cut, hhead]
  rw [addSection, if_neg (by simpa [hasSection_iff] using h)]
  split_ifs
  · right
    rw [sections, cut_append_heading (by rw [hcut]), hcut]
    rfl
  · left
    rw [sections, List.append_nil, cut_append_heading (by rw [hcut]), hcut]
    rfl

theorem nameOf_headerLine (hsafe : NameSafe name) : nameOf ⟨headerLine name, []⟩ = name := by
  simpa [nameOf] using congrArg (Option.getD · []) (sectionName_header hsafe)

theorem names_addSection (hsafe : NameSafe name) (h : name ∉ doc.names) :
    (doc.addSection name).names = doc.names ++ [name] := by
  have hname := nameOf_headerLine hsafe
  have hpad := names_pad doc
  rw [names] at hpad ⊢
  rcases sections_addSection hsafe h with hsec | hsec <;> simp [hsec, hname, hpad, names]

theorem writtenAt_addSection (hsafe : NameSafe name) (h : name ∉ doc.names) (name' key : Str) :
    (doc.addSection name).writtenAt name' key = doc.writtenAt name' key := by
  have hname := nameOf_headerLine hsafe
  have hlast : ∀ doc' : CfgDocument, name ∉ doc'.names →
      (doc.addSection name).sections = doc'.sections ++ [⟨headerLine name, []⟩] →
      (doc.addSection name).writtenAt name' key = doc'.writtenAt name' key := by
    intro doc' hnot hsec
    rw [writtenAt, section?, hsec, List.find?_append, writtenAt, section?]
    cases hfind : doc'.sections.find? (nameOf · = name') with
    | some sec => rfl
    | none =>
      by_cases hn : name = name'
      · subst hn
        simp [hname, written, items, cut]
      · simp [hname, hn]
  rcases sections_addSection hsafe h with hsec | hsec
  · exact hlast doc h hsec
  · rw [hlast doc.pad (by rwa [names_pad]) hsec, writtenAt_pad]

theorem names_addSection_cases (h : name ∈ doc.names ∨ NameSafe name) :
    (doc.addSection name).names = if name ∈ doc.names then doc.names else doc.names ++ [name] := by
  split_ifs with hmem
  · rw [addSection_of_mem hmem]
  · exact names_addSection (h.resolve_left hmem) hmem

theorem mem_names_addSection (h : name ∈ doc.names ∨ NameSafe name) :
    name ∈ (doc.addSection name).names := by
  rw [names_addSection_cases h]
  split_ifs with hmem
  · exact hmem
  · simp

theorem writtenAt_addSection_cases (h : name ∈ doc.names ∨ NameSafe name) (name' key : Str) :
    (doc.addSection name).writtenAt name' key = doc.writtenAt name' key := by
  by_cases hmem : name ∈ doc.names
  · rw [addSection_of_mem hmem]
  · exact writtenAt_addSection (h.resolve_left hmem) hmem name' key

end CfgDocument
end McuUpdater.CfgDoc
