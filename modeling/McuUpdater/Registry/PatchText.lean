import McuUpdater.Registry.FieldText

/-! A makefile patch as one line of an option, and which patches are read back from theirs. -/
namespace McuUpdater.Config
open PyText CfgDoc McuUpdater.Registry
variable {s t a b sep raw : Str} {p : MakefilePatch}

/-! ## Comments in texts that are put together -/

theorem cutComment_append_kept {flag : Bool} (h : cutComment flag s = s) (hline : OneLine (s ++ t)) :
    cutComment flag (s ++ t) = s ++ cutComment (s.getLast?.elim flag isSpace) t := by
  induction s generalizing flag with
  | nil => rfl
  | cons c s ih =>
    rw [List.cons_append, oneLine_cons] at hline
    have hend : toEnd (c :: s) = true :=
      toEnd_of_oneLine (oneLine_cons.mpr ⟨hline.1, (oneLine_append.mp hline.2).1⟩)
    have hlast : (c :: s).getLast?.elim flag isSpace = s.getLast?.elim (isSpace c) isSpace := by
      cases s with
      | nil => rfl
      | cons d s =>
        rw [List.getLast?_cons_cons]
        cases hl : (d :: s).getLast? with
        | none => simp at hl
        | some e => rfl
    rw [cutComment, hend, Bool.and_true] at h
    split_ifs at h with hc
    rw [List.cons_append, cutComment, if_neg fun hx => hc (Bool.and_eq_true_iff.mp hx).1,
      ih (List.cons.inj h).2 hline.2, hlast, List.cons_append]

theorem cutComment_of_reads (h : reads s = s) : cutComment true s = s := by
  have hstrip : strip s = s := strip_of_trimmed (trimmed_of_reads h)
  have hle : (reads s).length ≤ (cutComment true s).length := by
    rw [reads, hstrip]
    exact (rstrip_isPrefix _).length_le
  refine (cutComment_isPrefix true s).eq_of_length_le ?_
  rwa [h] at hle

theorem reads_of_cutComment (htrim : Trimmed s) (h : cutComment true s = s) : reads s = s := by
  rw [reads, strip_of_trimmed htrim, stripInlineComment, h, rstrip, List.rdropWhile_eq_self_iff]
  exact fun hne => by simpa using htrim.2 _ (List.getLast?_eq_some_getLast hne)

/-- Whether a blank comes before a text matters only where it starts like a comment. -/
theorem cutComment_flag (hc : isComment s = false) (htrim : Trimmed s) (flag : Bool) :
    cutComment true s = cutComment flag s := by
  cases s with
  | nil => rfl
  | cons c s =>
    have hstart : isCommentStart c = false := by
      simpa [isComment, htrim.1 c rfl] using hc
    simp [cutComment, hstart]

/-! ## The separator -/

theorem partition_spec (hsep : sep ≠ []) (h : partition sep s = some (a, b)) :
    s = a ++ sep ++ b ∧ ¬sep <:+: a := by
  induction s generalizing a with
  | nil => cases h
  | cons c s ih =>
    rw [partition] at h
    split_ifs at h with hstart
    · obtain ⟨rfl, rfl⟩ := Prod.mk.inj (Option.some.inj h)
      obtain ⟨rest, hrest⟩ := hstart
      refine ⟨by rw [← hrest]; simp, fun hin => hsep (List.infix_nil.mp hin)⟩
    · obtain ⟨⟨a', b'⟩, hp, he⟩ := Option.map_eq_some_iff.mp h
      obtain ⟨rfl, rfl⟩ := Prod.mk.inj he
      obtain ⟨hs, hfirst⟩ := ih hp
      refine ⟨by rw [hs]; simp, fun hin => ?_⟩
      rcases List.infix_cons_iff.mp hin with hin | hin
      · refine hstart (hin.trans ?_)
        rw [hs, List.append_assoc]
        exact List.prefix_append (c :: a') _
      · exact hfirst hin

theorem separator_eq : separator = ['-', '>'] := rfl

theorem partition_arrow (h : ¬separator <:+: s) (t : Str) :
    partition separator (s ++ ' ' :: (separator ++ t)) = some (s ++ [' '], t) := by
  induction s with
  | nil => simp [partition, separator_eq]
  | cons c s ih =>
    have hnot : ¬separator <+: c :: (s ++ ' ' :: (separator ++ t)) := by
      intro hstart
      refine h ?_
      rw [separator_eq] at hstart ⊢
      obtain ⟨rfl, hnext⟩ := List.cons_prefix_cons.mp hstart
      cases s with
      | nil => simp at hnext
      | cons d s =>
        obtain ⟨rfl, -⟩ := List.cons_prefix_cons.mp hnext
        exact (List.prefix_append ['-', '>'] s).isInfix
    have hrest : ¬separator <:+: s := fun hin => h (List.infix_cons_iff.mpr (.inr hin))
    rw [List.cons_append, partition, if_neg hnot, ih hrest]
    rfl

/-! ## Patches -/

/-- A patch whose file and line are read as they are written, and whose file names no line. -/
structure KeptPatch (p : MakefilePatch) : Prop where
  texts : KeptLines [p.file, p.line]
  noArrow : ¬separator <:+: p.file

theorem KeptPatch.file (h : KeptPatch p) : reads p.file = p.file ∧ OneLine p.file ∧ p.file ≠ [] :=
  h.texts p.file (by simp)

theorem KeptPatch.line (h : KeptPatch p) : reads p.line = p.line ∧ OneLine p.line ∧ p.line ≠ [] :=
  h.texts p.line (by simp)

theorem KeptPatch.isValid (h : KeptPatch p) : p.isValid = true := by
  simp [MakefilePatch.isValid, h.file.2.2, h.line.2.2]

theorem oneLine_renderPatch (hfile : OneLine p.file) (hline : OneLine p.line) :
    OneLine (renderPatch p) := by
  have hsp : isBreak ' ' = false := by decide
  have hsep : OneLine separator := by decide
  exact oneLine_append.mpr ⟨hfile, oneLine_cons.mpr ⟨hsp, oneLine_append.mpr
    ⟨hsep, oneLine_cons.mpr ⟨hsp, hline⟩⟩⟩⟩

theorem cutComment_renderPatch (hfile : reads p.file = p.file) (hne : p.file ≠ [])
    (hone : OneLine (renderPatch p)) : cutComment true (renderPatch p) =
      p.file ++ ' ' :: (separator ++ ' ' :: cutComment true p.line) := by
  have hlast : p.file.getLast?.elim true isSpace = false := by
    rw [List.getLast?_eq_some_getLast hne]
    exact (trimmed_of_reads hfile).2 _ (List.getLast?_eq_some_getLast hne)
  have hgap : ∀ u : Str, cutComment false (' ' :: (separator ++ ' ' :: u)) =
      ' ' :: (separator ++ ' ' :: cutComment true u) := fun u => rfl
  rw [renderPatch, cutComment_append_kept (cutComment_of_reads hfile) hone, hlast, hgap]

theorem trimmed_renderPatch (hfile : Trimmed p.file ∧ p.file ≠ [])
    (hline : Trimmed p.line ∧ p.line ≠ []) : Trimmed (renderPatch p) := by
  refine ⟨fun c hc => hfile.1.1 c ?_, fun c hc => hline.1.2 c ?_⟩
  · rwa [renderPatch, List.head?_append_of_ne_nil _ hfile.2] at hc
  · have hsplit : renderPatch p = (p.file ++ ' ' :: (separator ++ [' '])) ++ p.line := by
      simp [renderPatch]
    rwa [hsplit, List.getLast?_append_of_ne_nil _ hline.2] at hc

theorem KeptPatch.reads (h : KeptPatch p) :
    reads (renderPatch p) = renderPatch p ∧ OneLine (renderPatch p) ∧ renderPatch p ≠ [] := by
  have hone := oneLine_renderPatch h.file.2.1 h.line.2.1
  refine ⟨reads_of_cutComment (trimmed_renderPatch ⟨trimmed_of_reads h.file.1, h.file.2.2⟩
    ⟨trimmed_of_reads h.line.1, h.line.2.2⟩) ?_, hone, by simp [renderPatch]⟩
  rw [cutComment_renderPatch h.file.1 h.file.2.2 hone, cutComment_of_reads h.line.1, renderPatch]

theorem parsePatch_arrow (h : ¬separator <:+: s) (t : Str) :
    parsePatch (s ++ ' ' :: (separator ++ t)) =
      if strip (s ++ [' ']) = [] ∨ strip t = [] then none
      else some ⟨strip (s ++ [' ']), strip t⟩ := by
  rw [parsePatch, partition_arrow h]
  by_cases hs : strip (s ++ [' ']) = []
  · simp [MakefilePatch.isValid, hs]
  · by_cases ht : strip t = [] <;> simp [MakefilePatch.isValid, hs, ht]

theorem blank_isSpace : ∀ c ∈ [' '], isSpace c = true :=
  List.forall_mem_singleton.mpr (by decide)

theorem strip_append_blank (h : Trimmed s) : strip (s ++ [' ']) = s := by
  cases s with
  | nil => rfl
  | cons c s =>
    have hstart : lstrip (c :: s ++ [' ']) = c :: s ++ [' '] := by
      simp [lstrip, h.1 c rfl]
    have hown : lstrip (c :: s) = c :: s := by simp [lstrip, h.1 c rfl]
    have hstrip := strip_of_trimmed h
    rw [strip, hown] at hstrip
    rw [strip, hstart, rstrip_append_of_space blank_isSpace, hstrip]

theorem strip_blank_cons (h : Trimmed s) : strip (' ' :: s) = s := by
  have hl : lstrip (' ' :: s) = lstrip s := lstrip_append_of_space blank_isSpace s
  rw [strip, hl, ← strip, strip_of_trimmed h]

theorem KeptPatch.parse (h : KeptPatch p) : parsePatch (renderPatch p) = some p := by
  have hfile := strip_append_blank (trimmed_of_reads h.file.1)
  have hline := strip_blank_cons (trimmed_of_reads h.line.1)
  rw [renderPatch, parsePatch_arrow h.noArrow, hfile, hline,
    if_neg (not_or.mpr ⟨h.file.2.2, h.line.2.2⟩)]

/-- What is known of a patch that was read. -/
structure ReadPatch (p : MakefilePatch) : Prop where
  file : reads p.file = p.file ∧ OneLine p.file ∧ p.file ≠ []
  line : Trimmed p.line ∧ OneLine p.line ∧ p.line ≠ []
  noArrow : ¬separator <:+: p.file
  uncut : ∃ flag, cutComment flag p.line = p.line

theorem readPatch_of_parse (hraw : reads raw = raw ∧ OneLine raw) (h : parsePatch raw = some p) :
    ReadPatch p := by
  have hsep : separator ≠ [] := by decide
  rw [parsePatch] at h
  split at h
  · cases h
  next before after hpart =>
  dsimp only at h
  split_ifs at h with hvalid
  obtain rfl := Option.some.inj h
  simp only [MakefilePatch.isValid, Bool.and_eq_true, Bool.not_eq_true', List.isEmpty_eq_false_iff]
    at hvalid
  obtain ⟨hfile, hline⟩ := hvalid
  obtain ⟨hsplit, hfirst⟩ := partition_spec hsep hpart
  have htrim := trimmed_of_reads hraw.1
  have hcut := cutComment_of_reads hraw.1
  have hbefore : before ≠ [] := by
    rintro rfl
    exact hfile rfl
  have hafter : after ≠ [] := by
    rintro rfl
    exact hline rfl
  -- the file starts the text, and the line ends it
  have hl : lstrip before = before := by
    obtain ⟨c, u, rfl⟩ := List.exists_cons_of_ne_nil hbefore
    have hc : isSpace c = false := htrim.1 c (by rw [hsplit]; rfl)
    simp [lstrip, hc]
  have hstripFile : strip before = rstrip before := by rw [strip, hl]
  obtain ⟨lead, hlead⟩ : lstrip after <:+ after := List.dropWhile_suffix _
  have hstripLine : strip after = lstrip after := by
    rw [strip, rstrip, List.rdropWhile_eq_self_iff]
    intro hne
    have hlast : after.getLast? = (lstrip after).getLast? := by
      conv_lhs => rw [← hlead]
      exact List.getLast?_append_of_ne_nil _ hne
    have hend : raw.getLast? = after.getLast? := by
      rw [hsplit, List.getLast?_append_of_ne_nil _ hafter]
    have hc := htrim.2 _ (hend.trans (hlast.trans (List.getLast?_eq_some_getLast hne)))
    simpa using hc
  have hone := hraw.2
  rw [hsplit, oneLine_append, oneLine_append] at hone
  refine ⟨⟨?_, hone.1.1.sublist (strip_sublist before), hfile⟩,
    ⟨trimmed_strip after, hone.2.sublist (strip_sublist after), hline⟩, fun hin => hfirst ?_, ?_⟩
  · refine reads_of_cutComment (trimmed_strip before) (cutComment_of_isPrefix hcut hraw.2 ?_)
    rw [hsplit, hstripFile, List.append_assoc]
    exact (rstrip_isPrefix before).trans (List.prefix_append _ _)
  · dsimp only at hin
    rw [hstripFile] at hin
    exact hin.trans (rstrip_isPrefix before).isInfix
  · have hwhole : raw = (before ++ separator ++ lead) ++ strip after := by
      rw [hstripLine, List.append_assoc, hlead, ← hsplit]
    have hstart : cutComment true (before ++ separator ++ lead) = before ++ separator ++ lead := by
      refine cutComment_of_isPrefix hcut hraw.2 ?_
      conv_rhs => rw [hwhole]
      exact List.prefix_append _ _
    have hline' := hraw.2
    rw [hwhole] at hcut hline'
    rw [cutComment_append_kept hstart hline'] at hcut
    exact ⟨_, List.append_cancel_left hcut⟩

theorem ReadPatch.kept (h : ReadPatch p) (hc : isComment p.line = false) : KeptPatch p := by
  obtain ⟨flag, hflag⟩ := h.uncut
  have hline : reads p.line = p.line :=
    reads_of_cutComment h.line.1 ((cutComment_flag hc h.line.1 flag).trans hflag)
  refine ⟨fun x hx => ?_, h.noArrow⟩
  simp only [List.mem_cons, List.not_mem_nil, or_false] at hx
  rcases hx with rfl | rfl
  · exact h.file
  · exact ⟨hline, h.line.2⟩

/-- A line that starts like a comment is cut off, and what is left is no patch. -/
theorem ReadPatch.lost (h : ReadPatch p) (hc : isComment p.line = true) :
    reads (renderPatch p) ≠ [] ∧ parsePatch (reads (renderPatch p)) = none := by
  have hone := oneLine_renderPatch h.file.2.1 h.line.2.1
  have htrim := trimmed_renderPatch ⟨trimmed_of_reads h.file.1, h.file.2.2⟩ ⟨h.line.1, h.line.2.2⟩
  have hcut : cutComment true p.line = [] := by
    obtain ⟨c, u, he⟩ := List.exists_cons_of_ne_nil h.line.2.2
    have hspace : isSpace c = false := h.line.1.1 c (by rw [he]; rfl)
    have hstart : isCommentStart c = true := by simpa [he, isComment, hspace] using hc
    have hend : toEnd (c :: u) = true := toEnd_of_oneLine (he ▸ h.line.2.1)
    simp [he, cutComment, hstart, hend]
  have hreads : reads (renderPatch p) = p.file ++ ' ' :: separator := by
    rw [reads, strip_of_trimmed htrim, stripInlineComment,
      cutComment_renderPatch h.file.1 h.file.2.2 hone, hcut]
    have hsplit : p.file ++ ' ' :: (separator ++ [' ']) = (p.file ++ ' ' :: separator) ++ [' '] := by
      simp
    rw [hsplit, rstrip_append_of_space blank_isSpace, rstrip, List.rdropWhile_eq_self_iff]
    intro hne
    have hlast : (p.file ++ ' ' :: separator).getLast hne = '>' := by
      simp [separator_eq]
    rw [hlast]
    decide
  refine ⟨by rw [hreads]; simp, ?_⟩
  have hparse := parsePatch_arrow h.noArrow []
  rw [List.append_nil] at hparse
  rw [hreads, hparse, if_pos (.inr rfl)]

end McuUpdater.Config
