import McuUpdater.Registry.Tracked

/-! Texts of several lines and lists of words, as they are read back from the options they were
written to. -/
namespace McuUpdater.CfgDoc
open PyText Outline Config
variable {s t key : Str} {lines items : List Str} {item : Block Str} {existing : Option (Block Str)}

/-! ## Texts of several lines -/

def KeptLines (lines : List Str) : Prop := ∀ l ∈ lines, reads l = l ∧ OneLine l ∧ l ≠ []

theorem trimmed_of_reads (h : reads s = s) : Trimmed s := h ▸ trimmed_reads s

theorem joinWith_newline (l : Str) (lines : List Str) :
    joinWith ['\n'] (l :: lines) = l ++ lines.flatMap ('\n' :: ·) := by
  induction lines generalizing l with
  | nil => simp [joinWith]
  | cons m lines ih => rw [joinWith_cons_cons, ih, List.flatMap_cons]; simp

theorem trimmed_joinWith (h : KeptLines lines) : Trimmed (joinWith ['\n'] lines) := by
  induction lines with
  | nil => decide
  | cons l lines ih =>
    obtain ⟨⟨hreads, -, hne⟩, h⟩ := List.forall_mem_cons.mp h
    have hl := trimmed_of_reads hreads
    cases lines with
    | nil => exact hl
    | cons m lines =>
      have hrest := ih h
      have hm : m ≠ [] := (h m List.mem_cons_self).2.2
      have hjoin : joinWith ['\n'] (m :: lines) ≠ [] := by
        rw [joinWith_newline]
        simp [hm]
      rw [joinWith_cons_cons, List.append_assoc]
      refine ⟨fun c hc => hl.1 c ?_, fun c hc => hrest.2 c ?_⟩
      · rwa [List.head?_append_of_ne_nil _ hne] at hc
      · rwa [← List.append_assoc, List.getLast?_append_of_ne_nil _ hjoin] at hc

theorem keptLines_texts (h : Whole item) : KeptLines (texts item) :=
  fun _ => reads_of_mem_texts h

theorem strip_newline_cons (s : Str) : strip ('\n' :: s) = strip s := by
  have hspace : isSpace '\n' = true := by decide
  simp [strip, lstrip, hspace]

theorem strip_valueOf (h : Whole item) : strip (valueOf item) = joinWith ['\n'] (texts item) := by
  have htrim := strip_of_trimmed (trimmed_joinWith (keptLines_texts h))
  rw [valueOf_eq h]
  by_cases hvalue : lineValue item = []
  · have htexts : texts item = (item.body.map reads).filter (· ≠ []) := by simp [texts, hvalue]
    rw [← htexts, hvalue, List.nil_append]
    cases hlines : texts item with
    | nil => rfl
    | cons l lines =>
      rw [hlines, joinWith_newline] at htrim
      rw [List.flatMap_cons, List.cons_append, strip_newline_cons, htrim, joinWith_newline]
  · have htexts : texts item = lineValue item :: (item.body.map reads).filter (· ≠ []) := by
      simp [texts, hvalue]
    rw [← joinWith_newline, ← htexts, htrim]

theorem render_lines (h : '\n' ∈ t) : render key (.text t) existing = render key (.list (listOf t)) existing := by
  have hall : (listOf t).filter (strip · ≠ []) = listOf t := List.filter_eq_self.mpr fun l hl => by
    obtain ⟨-, htrim, hne⟩ := oneLine_of_mem_listOf hl
    simpa [strip_of_trimmed htrim] using hne
  rw [render, render, if_pos h, hall]

theorem listOf_joinWith (h : KeptLines lines) : listOf (joinWith ['\n'] lines) = lines := by
  cases lines with
  | nil => rfl
  | cons l lines =>
    have hkept : ∀ l' ∈ l :: lines, OneLine l' ∧ Trimmed l' := fun l' hl =>
      ⟨(h l' hl).2.1, trimmed_of_reads (h l' hl).1⟩
    rw [List.forall_mem_cons] at hkept
    rw [joinWith_newline, listOf_join hkept.1 hkept.2, List.filter_eq_self]
    exact fun l' hl => by simpa using (h l' hl).2.2

theorem filter_reads (h : KeptLines lines) : (lines.map reads).filter (· ≠ []) = lines := by
  have hmap : lines.map reads = lines := by
    conv_rhs => rw [← List.map_id lines]
    exact List.map_congr_left fun l hl => (h l hl).1
  rw [hmap, List.filter_eq_self]
  exact fun l hl => by simpa using (h l hl).2.2

theorem strip_valueOf_text (hkey : KeySafe key) (hline : OneLine key)
    (hex : ∀ item ∈ existing, Whole item) (h : KeptLines lines) :
    strip (valueOf (render key (.text (joinWith ['\n'] lines)) existing)) = joinWith ['\n'] lines := by
  by_cases hbreak : '\n' ∈ joinWith ['\n'] lines
  · have hone : (Value.list lines).Whole := fun l hl => (h l hl).2.1
    rw [render_lines hbreak, listOf_joinWith h, strip_valueOf (whole_render hline hone hex),
      texts_render_list hkey hex hone, filter_reads h]
  · have hone : OneLine (joinWith ['\n'] lines) ∧ reads (joinWith ['\n'] lines) = joinWith ['\n'] lines := by
      match lines, h with
      | [], _ => exact ⟨oneLine_nil, rfl⟩
      | [l], h => exact ⟨(h l List.mem_cons_self).2.1, (h l List.mem_cons_self).1⟩
      | l :: m :: lines, _ =>
        rw [joinWith_cons_cons] at hbreak
        simp at hbreak
    rw [valueOf_render_text hkey hex hone.1, hone.2, strip_of_trimmed (trimmed_of_reads hone.2)]

/-! ## Words -/

theorem cutComment_append_word (h : ∀ c ∈ s, isSpace c = false) (t : Str) :
    cutComment false (s ++ t) = s ++ cutComment false t := by
  induction s with
  | nil => rfl
  | cons c s ih =>
    rw [List.forall_mem_cons] at h
    rw [List.cons_append, cutComment, if_neg (by simp), h.1, ih h.2, List.cons_append]

theorem isComment_word {w : Str} (h : IsWord w) : isComment w = w.head?.any isCommentStart := by
  have hkeep : w.dropWhile isSpace = w := by
    obtain ⟨c, s, rfl⟩ := List.exists_cons_of_ne_nil h.ne_nil
    simp [(h.noSpace c List.mem_cons_self).1]
  rw [isComment, hkeep]

theorem cutComment_word {w : Str} (h : IsWord w) (hline : OneLine (w ++ t)) :
    cutComment true (w ++ t) = if isComment w then [] else w ++ cutComment false t := by
  obtain ⟨c, s, rfl⟩ := List.exists_cons_of_ne_nil h.ne_nil
  have hspace : ∀ d ∈ c :: s, isSpace d = false := fun d hd => (h.noSpace d hd).1
  rw [List.forall_mem_cons] at hspace
  have hc : isComment (c :: s) = isCommentStart c := isComment_word h
  have hend : toEnd (c :: (s ++ t)) = true := toEnd_of_oneLine hline
  rw [List.cons_append, cutComment, hend, hc]
  by_cases hcomment : isCommentStart c = true
  · simp [hcomment]
  · simp [hcomment, hspace.1, cutComment_append_word hspace.2]

theorem reads_word {w : Str} (h : IsWord w) : reads w = if isComment w then [] else w := by
  have hcut := cutComment_word (t := []) h (by simpa using h.oneLine)
  rw [List.append_nil] at hcut
  have hstrip : strip w = w := strip_of_trimmed h.trimmed
  rw [reads, hstrip, stripInlineComment, hcut]
  split_ifs
  · rfl
  · have hnil : cutComment false [] = [] := rfl
    have hr : rstrip w = w := List.rdropWhile_eq_self_iff.mpr fun hne => by
      simpa using h.trimmed.2 _ (List.getLast?_eq_some_getLast hne)
    rw [hnil, List.append_nil, hr]

theorem csv_of_word {w : Str} (h : IsWord w) : csv w = [w] :=
  csv_word (fun c hc => by simp [isSeparator, h.noSpace c hc]) h.ne_nil

theorem csv_words (h : ∀ w ∈ items, IsWord w) :
    ((items.map reads).filter (· ≠ [])).flatMap csv = items.filter (!isComment ·) := by
  induction items with
  | nil => rfl
  | cons w items ih =>
    rw [List.forall_mem_cons] at h
    rw [List.map_cons, reads_word h.1, List.filter_cons, List.filter_cons]
    by_cases hw : isComment w = true
    · simpa [hw] using ih h.2
    · simp only [hw, Bool.false_eq_true, if_false, ne_eq, h.1.ne_nil, not_false_eq_true, decide_true,
        if_true, Bool.not_false, List.flatMap_cons, csv_of_word h.1, List.singleton_append, ← ih h.2]

theorem csv_cutComment_joined (h : ∀ w ∈ items, IsWord w) :
    csv (cutComment true (joinWith commaSpace items)) = items.takeWhile (!isComment ·) := by
  induction items with
  | nil => rfl
  | cons w items ih =>
    have hcomma : OneLine commaSpace := by decide
    have hline := oneLine_joinWith hcomma fun w hw => (h w hw).oneLine
    rw [List.forall_mem_cons] at h
    rw [List.takeWhile_cons]
    cases items with
    | nil =>
      have hnil : cutComment false [] = [] := rfl
      have hcut := cutComment_word (t := []) h.1 (by simpa using h.1.oneLine)
      rw [List.append_nil, hnil, List.append_nil] at hcut
      rw [joinWith, hcut]
      by_cases hw : isComment w = true <;> simp [hw, csv_of_word h.1, csv_nil]
    | cons m items =>
      rw [joinWith_cons_cons, List.append_assoc] at hline
      rw [joinWith_cons_cons, List.append_assoc, cutComment_word h.1 hline]
      by_cases hw : isComment w = true
      · simp [hw, csv_nil]
      have hgap : cutComment false (commaSpace ++ joinWith commaSpace (m :: items)) =
          ',' :: ' ' :: cutComment true (joinWith commaSpace (m :: items)) := rfl
      have hsep : isSeparator ',' = true ∧ isSeparator ' ' = true := by decide
      have hblank (t : Str) : csv (' ' :: t) = csv t := csv_append_cons hsep.2 [] t
      rw [if_neg hw, hgap, csv_append_cons hsep.1, hblank, csv_of_word h.1, ih h.2]
      simp [hw]

theorem csv_reads_joined (h : ∀ w ∈ items, IsWord w) :
    csv (reads (joinWith commaSpace items)) = items.takeWhile (!isComment ·) := by
  have hcomma : OneLine commaSpace := by decide
  have hline := oneLine_joinWith hcomma fun w hw => (h w hw).oneLine
  have hstart : lstrip (joinWith commaSpace items) = joinWith commaSpace items := by
    cases items with
    | nil => rfl
    | cons w items =>
      have hw := h w List.mem_cons_self
      obtain ⟨c, s, rfl⟩ := List.exists_cons_of_ne_nil hw.ne_nil
      have hc : isSpace c = false := (hw.noSpace c List.mem_cons_self).1
      cases items <;> simp [joinWith, lstrip, hc]
  rw [reads_eq hline, csv_rstrip, hstart, csv_cutComment_joined h]

end McuUpdater.CfgDoc
