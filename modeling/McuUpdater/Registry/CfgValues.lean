import McuUpdater.Registry.CfgEdits

/-! What a value written by `set` is read back as: the comments kept beside it are cut off
again, and so is a part of the value itself that reads as a comment. -/
namespace McuUpdater.CfgDoc
open PyText Outline
variable {s t u key : Str} {c : Char} {lines items : List Str} {item : Block Str}

/-! ## Cutting comments -/

theorem toEnd_of_oneLine (h : OneLine s) : toEnd s = true := by
  simp only [toEnd, Bool.not_eq_true', List.contains_eq_mem, decide_eq_false_iff_not]
  exact fun hm => h.newline_notMem (List.dropLast_subset _ hm)

theorem cutComment_isPrefix (b : Bool) (s : Str) : cutComment b s <+: s := by
  induction s generalizing b with
  | nil => exact List.prefix_refl []
  | cons c s ih =>
    rw [cutComment]
    split_ifs
    · exact List.nil_prefix
    · exact List.cons_prefix_cons.mpr ⟨rfl, ih _⟩

/-- What a cut leaves out starts with the comment sign. -/
theorem cutComment_rest (b : Bool) (s : Str) : ∃ rest, s = cutComment b s ++ rest ∧
    ∀ c ∈ rest.head?, isCommentStart c = true := by
  induction s generalizing b with
  | nil => exact ⟨[], rfl, by simp⟩
  | cons c s ih =>
    rw [cutComment]
    split_ifs with hc
    · simp only [Bool.and_eq_true] at hc
      exact ⟨c :: s, rfl, by simpa using hc.1.2⟩
    · obtain ⟨rest, hrest, hhead⟩ := ih (isSpace c)
      exact ⟨rest, by rw [List.cons_append, ← hrest], hhead⟩

theorem rstrip_isPrefix (s : Str) : rstrip s <+: s := List.rdropWhile_prefix isSpace s

theorem stripInlineComment_isPrefix (s : Str) : stripInlineComment s <+: s :=
  (rstrip_isPrefix _).trans (cutComment_isPrefix true s)

theorem not_space_of_isCommentStart (h : isCommentStart c = true) : isSpace c = false := by
  simp only [isCommentStart, Bool.or_eq_true, decide_eq_true_eq] at h
  rcases h with rfl | rfl <;> decide

theorem rstrip_append_space (s : Str) : ∃ sp, s = rstrip s ++ sp ∧ ∀ c ∈ sp, isSpace c = true :=
  ⟨s.rtakeWhile isSpace, (List.rdropWhile_append_rtakeWhile ..).symm,
    fun _ hc => List.mem_rtakeWhile_imp hc⟩

theorem lstrip_append_of_space (hs : ∀ c ∈ s, isSpace c = true) (t : Str) :
    lstrip (s ++ t) = lstrip t := List.dropWhile_append_of_pos hs

theorem rstrip_append_of_space (ht : ∀ c ∈ t, isSpace c = true) (s : Str) :
    rstrip (s ++ t) = rstrip s := by
  rw [rstrip, List.rdropWhile, List.reverse_append, List.dropWhile_append_of_pos (by simpa using ht)]
  rfl

theorem rstrip_cons (c : Char) (s : Str) : rstrip (c :: s) =
    if rstrip s = [] then (if isSpace c then [] else [c]) else c :: rstrip s := by
  obtain ⟨sp, hs, hsp⟩ := rstrip_append_space s
  have hcs : rstrip (c :: s) = rstrip (c :: rstrip s) := by
    conv_lhs => rw [hs, ← List.cons_append, rstrip_append_of_space hsp]
  rw [hcs]
  split_ifs with hnil hc
  · rw [hnil]
    simp [rstrip, List.rdropWhile, hc]
  · rw [hnil]
    simp [rstrip, List.rdropWhile, hc]
  · rw [rstrip, List.rdropWhile_eq_self_iff]
    intro _
    rw [List.getLast_cons hnil]
    exact List.rdropWhile_last_not isSpace s hnil

theorem rstrip_cutComment_append (ht : ∀ b, rstrip (cutComment b t) = []) (h : OneLine (s ++ t))
    (b : Bool) : rstrip (cutComment b (s ++ t)) = rstrip (cutComment b s) := by
  induction s generalizing b with
  | nil => exact ht b
  | cons c s ih =>
    rw [List.cons_append, oneLine_cons] at h
    have hs : toEnd (c :: s) = true :=
      toEnd_of_oneLine (oneLine_cons.mpr ⟨h.1, (oneLine_append.mp h.2).1⟩)
    have hst : toEnd (c :: (s ++ t)) = true := toEnd_of_oneLine (oneLine_cons.mpr h)
    rw [List.cons_append, cutComment, cutComment, hs, hst]
    split_ifs
    · rfl
    · rw [rstrip_cons, ih h.2, rstrip_cons]

theorem rstrip_cutComment_space (hs : ∀ c ∈ s, isSpace c = true) (b : Bool) :
    rstrip (cutComment b s) = [] := by
  rw [rstrip, List.rdropWhile_eq_nil_iff]
  exact fun c hc => hs c ((cutComment_isPrefix b s).subset hc)

/-- What a text written into a document is read back as. -/
def reads (s : Str) : Str := stripInlineComment (strip s)

theorem reads_eq (h : OneLine s) : reads s = rstrip (cutComment true (lstrip s)) := by
  obtain ⟨sp, hs, hsp⟩ := rstrip_append_space (lstrip s)
  have hl : OneLine (lstrip s) := h.sublist (List.dropWhile_sublist _)
  rw [reads, stripInlineComment, strip]
  conv_rhs => rw [hs]
  rw [rstrip_cutComment_append (rstrip_cutComment_space hsp) (hs ▸ hl)]

theorem reads_isPrefix (s : Str) : reads s <+: strip s := stripInlineComment_isPrefix _

theorem trimmed_reads (s : Str) : Trimmed (reads s) := by
  refine trimmed_rstrip fun c hc => (trimmed_strip s).1 c ?_
  obtain ⟨u, hu⟩ := cutComment_isPrefix true (strip s)
  rw [← hu, List.head?_append, Option.mem_def.mp hc]
  rfl

theorem oneLine_reads (h : OneLine s) : OneLine (reads s) :=
  h.sublist ((reads_isPrefix s).sublist.trans (strip_sublist s))

theorem reads_append_space (hs : ∀ c ∈ s, isSpace c = true) (t : Str) :
    reads (s ++ t) = reads t := by
  rw [reads, strip, lstrip_append_of_space hs]
  rfl

theorem reads_append (ht : ∀ b, rstrip (cutComment b t) = []) (h : OneLine (s ++ t))
    (hs : isBlank s = false) : reads (s ++ t) = reads s := by
  have hl : lstrip (s ++ t) = lstrip s ++ t := by
    have hne : s.dropWhile isSpace ≠ [] := by
      rw [Ne, List.dropWhile_eq_nil_iff, ← strip_eq_nil_iff]
      simpa [isBlank] using hs
    rw [lstrip, List.dropWhile_append, if_neg (by simpa [List.isEmpty_iff] using hne)]
    rfl
  rw [reads_eq h, hl, rstrip_cutComment_append ht (hl ▸ h.sublist (List.dropWhile_sublist _)),
    reads_eq (oneLine_append.mp h).1]

theorem reads_of_isComment (h : OneLine s) (hc : isComment s = true) : reads s = [] := by
  rw [reads_eq h]
  have hl : OneLine (lstrip s) := h.sublist (List.dropWhile_sublist _)
  unfold isComment at hc
  unfold lstrip at hl ⊢
  cases hd : s.dropWhile isSpace with
  | nil => rfl
  | cons c t =>
    rw [hd] at hc hl
    have hstart : isCommentStart c = true := by simpa using hc
    simp [cutComment, hstart, toEnd_of_oneLine hl, rstrip]

/-- What `_strip_inline_comment` cuts off is a comment. -/
theorem comment_of_stripInlineComment (s : Str) :
    strip (s.drop (stripInlineComment s).length) = [] ∨
      ∃ c t, strip (s.drop (stripInlineComment s).length) = c :: t ∧ isCommentStart c = true := by
  obtain ⟨rest, hrest, hhead⟩ := cutComment_rest true s
  obtain ⟨sp, hsp, hspace⟩ := rstrip_append_space (cutComment true s)
  have hdrop : s.drop (stripInlineComment s).length = sp ++ rest := by
    have hs : s = stripInlineComment s ++ (sp ++ rest) := by
      rw [stripInlineComment, ← List.append_assoc, ← hsp, ← hrest]
    exact (congrArg (List.drop _) hs).trans List.drop_left
  rw [hdrop, strip, lstrip_append_of_space hspace]
  cases rest with
  | nil => exact .inl rfl
  | cons c t =>
    have hc := hhead c rfl
    have hns := not_space_of_isCommentStart hc
    have hl : lstrip (c :: t) = c :: t := by simp [lstrip, hns]
    rw [hl, rstrip_cons]
    by_cases hnil : rstrip t = []
    · exact .inr ⟨c, [], by simp [hnil, hns], hc⟩
    · exact .inr ⟨c, rstrip t, by simp [hnil], hc⟩

/-! ## Values -/

/-- A comment text, as a decoration keeps one. -/
def IsRemark (s : Str) : Prop := OneLine s ∧ ∃ c t, s = c :: t ∧ isCommentStart c = true

theorem remark_not_read (h : IsRemark s) (b : Bool) :
    rstrip (cutComment b ("  ".toList ++ s)) = [] := by
  obtain ⟨hline, c, t, rfl, hc⟩ := h
  have hcut : cutComment b ("  ".toList ++ c :: t) = [' ', ' '] := by
    have hsp : isCommentStart ' ' = false := by decide
    have hsp' : isSpace ' ' = true := by decide
    simp [cutComment, hsp, hsp', hc, toEnd_of_oneLine hline]
  rw [hcut]
  decide

theorem remark_reads (h : IsRemark s) : reads s = [] := by
  obtain ⟨hline, c, t, rfl, hc⟩ := h
  refine reads_of_isComment hline ?_
  simp [isComment, not_space_of_isCommentStart hc, hc]

theorem isRemark_strip (h : OneLine s) (hne : strip s ≠ []) (hc : isComment s = true) :
    IsRemark (strip s) := by
  refine ⟨h.sublist (strip_sublist s), ?_⟩
  obtain ⟨c, t, ht⟩ := List.exists_cons_of_ne_nil hne
  refine ⟨c, t, ht, ?_⟩
  obtain ⟨u, hu⟩ := rstrip_isPrefix (lstrip s)
  have hhead : (lstrip s).head? = some c := by
    rw [← hu, show rstrip (lstrip s) = c :: t from ht]
    rfl
  rw [isComment, ← lstrip, hhead] at hc
  simpa using hc

/-- The comments of a decoration, none of which breaks its line. -/
structure Decoration.Remarks (d : Decoration) : Prop where
  inline : ∀ entry ∈ d.inline, IsRemark entry.2
  before : ∀ entry ∈ d.before, ∀ text ∈ entry.2, IsRemark text
  pending : ∀ text ∈ d.pending, IsRemark text

theorem Decoration.Remarks.line {d : Decoration} {raw : Str} (h : d.Remarks) (hraw : OneLine raw) :
    (d.line raw).Remarks := by
  unfold Decoration.line
  by_cases htext : strip raw = []
  · simpa [htext] using h
  · simp only [htext, if_false]
    have hcomment : ∀ text : Str, OneLine text → strip (text.drop (stripInlineComment text).length) ≠ [] →
        IsRemark (strip (text.drop (stripInlineComment text).length)) := fun text hline hne =>
      ⟨hline.sublist ((strip_sublist _).trans (List.drop_sublist _ _)),
        (comment_of_stripInlineComment text).resolve_left hne⟩
    have hone : OneLine (strip raw) := hraw.sublist (strip_sublist raw)
    split_ifs with hc hitem hin
    · refine ⟨h.inline, h.before, fun text ht => ?_⟩
      rcases List.mem_append.mp ht with ht | ht
      · exact h.pending text ht
      · exact List.mem_singleton.mp ht ▸ isRemark_strip hraw htext hc
    · exact h
    all_goals
      refine ⟨?_, ?_, by simp⟩
      · first
        | exact h.inline
        | exact List.forall_mem_cons.mpr ⟨hcomment _ hone ‹_›, h.inline⟩
      · first
        | exact h.before
        | exact List.forall_mem_cons.mpr ⟨h.pending, h.before⟩

theorem decoration_remarks {existing : Option (Block Str)}
    (h : ∀ item ∈ existing, ∀ line ∈ item.lines, OneLine line) : (decoration existing).Remarks := by
  have hfold : ∀ (lines : List Str) (d : Decoration), (∀ line ∈ lines, OneLine line) → d.Remarks →
      (lines.foldl Decoration.line d).Remarks := by
    intro lines
    induction lines with
    | nil => exact fun d _ hd => hd
    | cons raw lines ih =>
      intro d hlines hd
      rw [List.forall_mem_cons] at hlines
      exact ih _ hlines.2 (hd.line hlines.1)
  have hempty : Decoration.Remarks {} := ⟨by simp, by simp, by simp⟩
  cases existing with
  | none => exact hempty
  | some item => exact hfold _ _ (fun line hline => h item rfl line (List.mem_cons_of_mem _ hline)) hempty

theorem mem_of_lookup {β : Type*} {l : List (Str × β)} {k : Str} {v : β} (h : l.lookup k = some v) :
    (k, v) ∈ l := by
  obtain ⟨l₁, l₂, heq, -⟩ := List.lookup_eq_some_iff.mp h
  exact heq ▸ by simp

theorem reads_indent (s : Str) : reads (indent ++ s) = reads s :=
  reads_append_space (by simp [indent, isSpace]) s

theorem reads_itemLines {d : Decoration} (hd : d.Remarks) {item : Str} (hitem : OneLine item)
    (hne : isBlank item = false) :
    ((d.itemLines item).map reads).filter (· ≠ []) = [reads item].filter (· ≠ []) := by
  have hbefore : (((d.before.lookup item).getD []).map (indent ++ ·)).map reads =
      ((d.before.lookup item).getD []).map fun _ => [] := by
    rw [List.map_map]
    refine List.map_congr_left fun text htext => ?_
    rw [Function.comp_apply, reads_indent]
    cases hl : d.before.lookup item with
    | none => simp [hl] at htext
    | some texts =>
      rw [hl] at htext
      exact remark_reads (hd.before _ (mem_of_lookup hl) text htext)
  have hown : reads (indent ++ item ++ ((d.inline.lookup item).map ("  ".toList ++ ·)).getD []) =
      reads item := by
    rw [List.append_assoc, reads_indent]
    cases hl : d.inline.lookup item with
    | none => simp
    | some comment =>
      have hc := hd.inline _ (mem_of_lookup hl)
      have hsp : OneLine "  ".toList := by decide
      exact reads_append (remark_not_read hc)
        (oneLine_append.mpr ⟨hitem, oneLine_append.mpr ⟨hsp, hc.1⟩⟩) hne
  rw [Decoration.itemLines, List.map_append, List.filter_append, hbefore, List.map_singleton, hown]
  have hnil : (((d.before.lookup item).getD []).map fun _ => ([] : Str)).filter (· ≠ []) = [] := by
    simp
  rw [hnil, List.nil_append]

theorem reads_renderBlock {d : Decoration} (hd : d.Remarks) {items : List Str}
    (h : ∀ item ∈ items, OneLine item ∧ isBlank item = false) :
    ((renderBlock key d items).body.map reads).filter (· ≠ []) = (items.map reads).filter (· ≠ []) := by
  have hpending : ((d.pending.map (indent ++ ·)).map reads).filter (· ≠ []) = [] := by
    simp only [List.filter_eq_nil_iff, List.mem_map, decide_not, Bool.not_eq_true',
      decide_eq_false_iff_not, not_not]
    rintro _ ⟨_, ⟨text, htext, rfl⟩, rfl⟩
    rw [reads_indent, remark_reads (hd.pending text htext)]
  rw [renderBlock]
  split_ifs with hnil
  · simp [hnil]
  · clear hnil
    rw [List.map_append, List.filter_append, hpending, List.append_nil]
    induction items with
    | nil => rfl
    | cons item items ih =>
      rw [List.forall_mem_cons] at h
      rw [List.flatMap_cons, List.map_append, List.filter_append,
        reads_itemLines hd h.1.1 h.1.2, ih h.2, ← List.filter_append]
      rfl

def Whole (item : Block Str) : Prop := ∀ line ∈ item.lines, OneLine line

def lineValue (item : Block Str) : Str := ((optionOf item.head).map Prod.snd).getD []

def texts (item : Block Str) : List Str := (lineValue item :: item.body.map reads).filter (· ≠ [])

theorem addItem_eq {value line : Str} (h : OneLine line) :
    addItem value line = if reads line = [] then value else value ++ '\n' :: reads line := by
  unfold addItem
  split_ifs with hc hr hr
  · rfl
  · exact absurd (reads_of_isComment h hc) hr
  · exact if_pos hr
  · exact if_neg hr

theorem foldl_addItem (h : ∀ line ∈ lines, OneLine line) (value : Str) :
    lines.foldl addItem value =
      value ++ ((lines.map reads).filter (· ≠ [])).flatMap ('\n' :: ·) := by
  induction lines generalizing value with
  | nil => simp
  | cons line lines ih =>
    rw [List.forall_mem_cons] at h
    rw [List.foldl_cons, ih h.2, addItem_eq h.1]
    split_ifs with hr <;> simp [hr]

theorem valueOf_eq (h : Whole item) : valueOf item =
    lineValue item ++ ((item.body.map reads).filter (· ≠ [])).flatMap ('\n' :: ·) :=
  foldl_addItem (fun line hline => h line (List.mem_cons_of_mem _ hline)) _

theorem listOf_join (hs : OneLine s ∧ Trimmed s) (h : ∀ t ∈ lines, OneLine t ∧ Trimmed t) :
    listOf (s ++ lines.flatMap ('\n' :: ·)) = (s :: lines).filter (· ≠ []) := by
  induction lines generalizing s with
  | nil =>
    by_cases hnil : s = []
    · simp [hnil, listOf, splitlines]
    · simp [listOf, splitlines_oneLine hs.1 hnil, strip_of_trimmed hs.2]
  | cons t lines ih =>
    rw [List.forall_mem_cons] at h
    have ht := ih h.1 h.2
    unfold listOf at ht ⊢
    rw [List.flatMap_cons, List.cons_append, splitlines_append_newline hs.1, List.map_cons,
      List.filter_cons, ht, strip_of_trimmed hs.2]
    conv_rhs => rw [List.filter_cons]

theorem lineValue_spec (h : Whole item) : OneLine (lineValue item) ∧ Trimmed (lineValue item) := by
  have hhead : OneLine item.head := h _ (by simp [Block.lines])
  cases ho : optionOf item.head with
  | none =>
    simp only [lineValue, ho]
    exact ⟨oneLine_nil, by decide⟩
  | some kv =>
    obtain ⟨key, value⟩ := kv
    obtain ⟨start, sep, rest, hline, -, -, -, -, rfl⟩ := option_line ho
    rw [hline, oneLine_append, oneLine_cons] at hhead
    simp only [lineValue, ho]
    exact ⟨oneLine_reads hhead.2.2, trimmed_reads rest⟩

theorem listOf_valueOf (h : Whole item) : listOf (valueOf item) = texts item := by
  have hbody : ∀ t ∈ (item.body.map reads).filter (· ≠ []), OneLine t ∧ Trimmed t := by
    intro t ht
    obtain ⟨line, hline, rfl⟩ := List.mem_map.mp (List.mem_filter.mp ht).1
    exact ⟨oneLine_reads (h line (List.mem_cons_of_mem _ hline)), trimmed_reads line⟩
  rw [valueOf_eq h, listOf_join (lineValue_spec h) hbody, texts, List.filter_cons, List.filter_cons,
    List.filter_filter]
  simp

theorem reads_of_isBlank (h : isBlank s = true) : reads s = [] := by
  simp only [isBlank, decide_eq_true_eq] at h
  rw [reads, h]
  rfl

theorem lineValue_render {key : Str} (hkey : KeySafe key) (t : Str)
    {body : List Str} (ht : toEnd t = true) :
    lineValue ⟨key ++ ':' :: t, body⟩ = reads t := by
  rw [lineValue, optionOf_key hkey ht]
  rfl

theorem valueOf_render_list (hkey : KeySafe key) {existing : Option (Block Str)}
    (hex : ∀ item ∈ existing, Whole item) (h : ∀ item ∈ items, OneLine item) :
    lineValue (render key (.list items) existing) = [] ∧
      ((render key (.list items) existing).body.map reads).filter (· ≠ []) =
        (items.map reads).filter (· ≠ []) := by
  refine ⟨lineValue_render hkey [] rfl, ?_⟩
  have hnb : ∀ item ∈ items.filter (strip · ≠ []), OneLine item ∧ isBlank item = false := by
    intro item hitem
    have := List.of_mem_filter hitem
    exact ⟨h item (List.mem_filter.mp hitem).1, isBlank_of_ne_nil (by simpa using this)⟩
  rw [render, reads_renderBlock (decoration_remarks hex) hnb]
  clear h hnb
  induction items with
  | nil => rfl
  | cons item items ih =>
    by_cases hb : strip item = []
    · have hr : reads item = [] := reads_of_isBlank (by simpa [isBlank] using hb)
      simpa [hb, hr] using ih
    · rw [List.filter_cons, if_pos (by simpa using hb), List.map_cons, List.map_cons,
        List.filter_cons, List.filter_cons, ih]

theorem texts_render_list (hkey : KeySafe key) {existing : Option (Block Str)}
    (hex : ∀ item ∈ existing, Whole item) (h : ∀ item ∈ items, OneLine item) :
    texts (render key (.list items) existing) = (items.map reads).filter (· ≠ []) := by
  obtain ⟨hline, hbody⟩ := valueOf_render_list hkey hex h
  rw [texts, hline, List.filter_cons, hbody]
  rfl

theorem trailingComment_spec {existing : Option (Block Str)} (hex : ∀ item ∈ existing, Whole item) :
    trailingComment existing = [] ∨ IsRemark (trailingComment existing) := by
  match existing, hex with
  | none, _ => exact .inl rfl
  | some ⟨line, _ :: _⟩, _ => exact .inl rfl
  | some ⟨line, []⟩, hex =>
    have hline : OneLine line := hex _ rfl line (by simp [Block.lines])
    rcases comment_of_stripInlineComment (afterFirst '=' (afterFirst ':' line)) with h | h
    · exact .inl h
    · refine .inr ⟨hline.sublist ((strip_sublist _).trans ((List.drop_sublist _ _).trans ?_)), h⟩
      exact (afterFirst_suffix _ _).sublist.trans (afterFirst_suffix _ _).sublist

theorem render_text (key : Str) {existing : Option (Block Str)} (h : '\n' ∉ t) :
    render key (.text t) existing = ⟨key ++ ':' :: ' ' :: (t ++
      if trailingComment existing = [] then [] else "  ".toList ++ trailingComment existing), []⟩ := by
  rw [render, if_neg h]
  simp

theorem valueOf_render_text (hkey : KeySafe key) {existing : Option (Block Str)}
    (hex : ∀ item ∈ existing, Whole item) (h : OneLine t) :
    valueOf (render key (.text t) existing) = reads t := by
  have htail : ∃ tail : Str, (tail = [] ∨ ∃ remark, IsRemark remark ∧ tail = "  ".toList ++ remark) ∧
      render key (.text t) existing = ⟨key ++ ':' :: ' ' :: (t ++ tail), []⟩ := by
    refine ⟨_, ?_, render_text key h.newline_notMem⟩
    rcases trailingComment_spec hex with hc | hc
    · exact .inl (if_pos hc)
    · have hne : trailingComment existing ≠ [] := by
        obtain ⟨-, c, u, he, -⟩ := hc
        simp [he]
      exact .inr ⟨_, hc, if_neg hne⟩
  obtain ⟨tail, htail, hrender⟩ := htail
  have hsp : OneLine "  ".toList := by decide
  have hone : OneLine tail := by
    rcases htail with rfl | ⟨remark, hr, rfl⟩
    · exact oneLine_nil
    · exact oneLine_append.mpr ⟨hsp, hr.1⟩
  have hall : OneLine (t ++ tail) := oneLine_append.mpr ⟨h, hone⟩
  have hspace : isBreak ' ' = false := by decide
  rw [hrender]
  change lineValue ⟨key ++ ':' :: ' ' :: (t ++ tail), []⟩ = reads t
  rw [lineValue_render hkey _ (toEnd_of_oneLine (oneLine_cons.mpr ⟨hspace, hall⟩))]
  rw [show ' ' :: (t ++ tail) = [' '] ++ (t ++ tail) from rfl, reads_append_space (by simp [isSpace])]
  rcases htail with rfl | ⟨remark, hr, rfl⟩
  · rw [List.append_nil]
  · cases hb : isBlank t with
    | false => exact reads_append (remark_not_read hr) hall hb
    | true =>
      have hspaces : ∀ c ∈ t ++ "  ".toList, isSpace c = true := by
        simp only [isBlank, decide_eq_true_eq, strip_eq_nil_iff] at hb
        simpa [or_imp, forall_and, isSpace] using hb
      rw [reads_of_isBlank hb, ← List.append_assoc, reads_append_space hspaces, remark_reads hr]

/-! ## Documents without a break in a line, as a file gives them -/

/-- A value whose lines in the file are those it is rendered as: a text with a line feed is
written as its lines, so only one without may hold no other end of a line. -/
def Value.Whole : Value → Prop
  | .text t => '\n' ∈ t ∨ OneLine t
  | .list items => ∀ item ∈ items, OneLine item

theorem oneLine_indent (h : OneLine s) : OneLine (indent ++ s) :=
  oneLine_append.mpr ⟨by simp [OneLine, indent, isBreak], h⟩

theorem Decoration.Remarks.itemLines {d : Decoration} (h : d.Remarks) {item : Str}
    (hitem : OneLine item) : ∀ line ∈ d.itemLines item, OneLine line := by
  have hsp : OneLine "  ".toList := by decide
  intro line hline
  simp only [Decoration.itemLines, List.mem_append, List.mem_map, List.mem_singleton] at hline
  rcases hline with ⟨text, htext, rfl⟩ | rfl
  · cases hl : d.before.lookup item with
    | none => simp [hl] at htext
    | some texts =>
      rw [hl] at htext
      exact oneLine_indent (h.before _ (mem_of_lookup hl) text htext).1
  · rw [List.append_assoc]
    refine oneLine_indent (oneLine_append.mpr ⟨hitem, ?_⟩)
    cases hl : d.inline.lookup item with
    | none => exact oneLine_nil
    | some remark => exact oneLine_append.mpr ⟨hsp, (h.inline _ (mem_of_lookup hl)).1⟩

theorem whole_render {key : Str} {value : Value} {existing : Option (Block Str)} (hkey : OneLine key)
    (hvalue : value.Whole) (hex : ∀ item ∈ existing, Whole item) :
    Whole (render key value existing) := by
  have hcolon : OneLine [':'] := by decide
  have hblock : ∀ items : List Str, (∀ item ∈ items, OneLine item) →
      Whole (renderBlock key (decoration existing) items) := by
    intro items hitems
    refine List.forall_mem_cons.mpr ⟨oneLine_append.mpr ⟨hkey, hcolon⟩, fun line hline => ?_⟩
    unfold renderBlock at hline
    split_ifs at hline
    · exact absurd hline (by simp)
    · simp only [List.mem_append, List.mem_flatMap, List.mem_map] at hline
      rcases hline with ⟨item, hitem, hline⟩ | ⟨text, htext, rfl⟩
      · exact (decoration_remarks hex).itemLines (hitems item hitem) line hline
      · exact oneLine_indent ((decoration_remarks hex).pending text htext).1
  cases value with
  | list items => exact hblock _ fun item hitem => hvalue item (List.mem_filter.mp hitem).1
  | text t =>
    by_cases hbreak : '\n' ∈ t
    · rw [render, if_pos hbreak]
      refine hblock _ fun item hitem => ?_
      obtain ⟨part, hpart, rfl⟩ := List.mem_map.mp (List.mem_filter.mp hitem).1
      exact (oneLine_of_mem_splitlines t part hpart).sublist (strip_sublist part)
    · have hsp : OneLine "  ".toList := by decide
      have hspace : isBreak ' ' = false := by decide
      have hcolon : isBreak ':' = false := by decide
      rw [render_text key hbreak]
      refine List.forall_mem_cons.mpr ⟨oneLine_append.mpr ⟨hkey, ?_⟩, by simp⟩
      refine oneLine_cons.mpr ⟨hcolon, oneLine_cons.mpr ⟨hspace,
        oneLine_append.mpr ⟨hvalue.resolve_left hbreak, ?_⟩⟩⟩
      split_ifs with hc
      · exact oneLine_nil
      · exact oneLine_append.mpr ⟨hsp, ((trailingComment_spec hex).resolve_left hc).1⟩

theorem whole_of_mem_items {body : List Str} (h : ∀ line ∈ body, OneLine line)
    (hitem : item ∈ CfgDoc.items body) : Whole item := fun line hline =>
  h line (lines_cut startsItem body ▸ mem_lines.mpr (.inr ⟨item, hitem, hline⟩))

theorem oneLine_setIn {key : Str} {value : Value} {body : List Str} (hkey : OneLine key)
    (hvalue : value.Whole) (h : ∀ line ∈ body, OneLine line) :
    ∀ line ∈ setIn key value body, OneLine line := by
  intro line hline
  unfold setIn at hline
  split_ifs at hline
  · simp only [List.mem_append] at hline
    rcases hline with (hline | hline) | hline
    · exact h line ((List.rdropWhile_prefix _ _).subset hline)
    · exact whole_render hkey hvalue (by simp) line hline
    · exact h line ((List.rtakeWhile_suffix _ _).subset hline)
  · rcases mem_editFirst hline with hline | ⟨b, hb, -, x, hx, hline⟩
    · exact h line hline
    · obtain rfl := List.mem_singleton.mp hx
      exact whole_render hkey hvalue (by simpa using whole_of_mem_items h hb) line hline

theorem oneLine_removeIn {key : Str} {body : List Str} (h : ∀ line ∈ body, OneLine line) :
    ∀ line ∈ removeIn key body, OneLine line := by
  intro line hline
  rcases mem_editFirst hline with hline | ⟨b, -, -, x, hx, -⟩
  · exact h line hline
  · exact nomatch hx

namespace CfgDocument
variable {doc : CfgDocument} {name : Str}

def Whole (doc : CfgDocument) : Prop := ∀ line ∈ doc.lines, OneLine line

theorem whole_ofText (text : Str) : (ofText text).Whole := oneLine_of_mem_splitlines text

theorem Whole.of_mem_sections (h : doc.Whole) {sec : Block Str} (hsec : sec ∈ doc.sections) :
    CfgDoc.Whole sec := fun line hline =>
  h line (lines_cut isHeader doc.lines ▸ mem_lines.mpr (.inr ⟨sec, hsec, hline⟩))

theorem Whole.body (h : doc.Whole) {sec : Block Str} (hsec : sec ∈ doc.sections) :
    ∀ line ∈ sec.body, OneLine line :=
  fun line hline => h.of_mem_sections hsec line (List.mem_cons_of_mem _ hline)

theorem Whole.of_mem_writtenAt (h : doc.Whole) {key : Str} (hitem : item ∈ doc.writtenAt name key) :
    CfgDoc.Whole item := by
  rw [writtenAt] at hitem
  cases hs : doc.section? name with
  | none => simp [hs] at hitem
  | some sec =>
    rw [hs] at hitem
    exact whole_of_mem_items (h.body (List.mem_of_find?_eq_some hs)) (List.mem_filter.mp hitem).1

theorem Whole.edit (h : doc.Whole) {f : List Str → List Str}
    (hf : ∀ sec ∈ doc.sections, ∀ line ∈ f sec.body, OneLine line) : (doc.edit name f).Whole := by
  intro line hline
  rcases mem_editFirst hline with hline | ⟨sec, hsec, -, x, hx, hline⟩
  · exact h line hline
  · obtain rfl := List.mem_singleton.mp hx
    rcases List.mem_cons.mp hline with rfl | hline
    · exact h.of_mem_sections hsec _ (by simp [Block.lines])
    · exact hf sec hsec line hline

theorem Whole.addSection (h : doc.Whole) (hname : OneLine name) : (doc.addSection name).Whole := by
  have hopen : isBreak '[' = false := by decide
  have hclose : OneLine [']'] := by decide
  have hheader : OneLine (headerLine name) :=
    oneLine_cons.mpr ⟨hopen, oneLine_append.mpr ⟨hname, hclose⟩⟩
  rw [CfgDocument.addSection]
  intro line hline
  split_ifs at hline
  · exact h line hline
  · simp only [List.mem_append, List.mem_singleton] at hline
    rcases hline with (hline | rfl) | rfl
    · exact h line hline
    · exact oneLine_nil
    · exact hheader
  · simp only [List.append_nil, List.mem_append, List.mem_singleton] at hline
    rcases hline with hline | rfl
    · exact h line hline
    · exact hheader

theorem Whole.set (h : doc.Whole) {key : Str} {value : Value} (hname : OneLine name)
    (hkey : OneLine key) (hvalue : value.Whole) : (doc.set name key value).Whole :=
  (h.addSection hname).edit fun _ hsec =>
    oneLine_setIn hkey hvalue ((h.addSection hname).body hsec)

theorem Whole.removeOption (h : doc.Whole) (key : Str) : (doc.removeOption name key).Whole :=
  h.edit fun _ hsec => oneLine_removeIn (h.body hsec)

theorem Whole.removeSection (h : doc.Whole) : (doc.removeSection name).Whole := by
  intro line hline
  rcases mem_editFirst hline with hline | ⟨b, -, -, x, hx, -⟩
  · exact h line hline
  · exact nomatch hx

def reload (doc : CfgDocument) : CfgDocument := ofText doc.render

theorem reload_spec (h : doc.Whole) : doc.reload = doc ∨ doc.reload.pad = doc := by
  have hread := splitlines_textOf h
  split_ifs at hread with hlast
  · right
    obtain ⟨front, hfront⟩ := List.getLast?_eq_some_iff.mp hlast
    have hlines : doc.reload.lines = front := by
      rw [reload, ofText, render, hread, hfront, List.dropLast_concat]
    rw [pad, hlines, ← hfront]
  · left
    rw [reload, ofText, render, hread]

theorem names_reload (h : doc.Whole) : doc.reload.names = doc.names := by
  rcases reload_spec h with hr | hr
  · rw [hr]
  · conv_rhs => rw [← hr, names_pad]

theorem writtenAt_reload (h : doc.Whole) (name key : Str) :
    doc.reload.writtenAt name key = doc.writtenAt name key := by
  rcases reload_spec h with hr | hr
  · rw [hr]
  · conv_rhs => rw [← hr, writtenAt_pad]

end CfgDocument
end McuUpdater.CfgDoc
