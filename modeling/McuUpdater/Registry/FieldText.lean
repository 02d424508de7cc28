import McuUpdater.Registry.Fields
import McuUpdater.Registry.ValueText

/-! What `_write_settings` writes of each field, and what `_settings_from_doc` reads of that. -/
namespace McuUpdater.Updater
open PyText CfgDoc CfgDocument Typelist Config
variable {s : Settings} {f : Field} {key t : Str} {existing : Option (Outline.Block Str)}

/-! ## The writes, field by field -/

/-- What `_write_settings` writes of a field, or `none` where it removes the option. -/
def Field.encode : (f : Field) → f.Value → Option CfgDoc.Value
  | .makeJobs, v => some (.text (toString (v : Int)).toList)
  | .logRingSize, v => some (.text (toString (v : Int)).toList)
  | .cleanBeforeBuild, v => some (.text (boolText v))
  | .reseedOnBuild, v => some (.text (boolText v))
  | .dryRun, v => some (.text (boolText v))
  | .enableFlashing, v => some (.text (boolText v))
  | .allowFlashWhilePrinting, v => some (.text (boolText v))
  | .serviceBackend, v => some (.text v)
  | .platformioBin, v => some (.text v)
  | .flashtoolPath, v => some (.text v)
  | .uiAccentColor, v => some (.text (List.dropWhile (· = '#') v))
  | .ignoredSerials, v => some (.list v)
  | .ignoredCanbusUuids, v => some (.list v)
  | .stopServices, v => Option.map (fun units => .text (joinWith commaSpace units)) v

def service : Str := "service".toList

def written (s : Settings) (f : Field) : Str × Option CfgDoc.Value := (f.key, f.encode (s.get f))

def writeOrder : List Field := [.makeJobs, .cleanBeforeBuild, .reseedOnBuild, .serviceBackend,
  .dryRun, .enableFlashing, .allowFlashWhilePrinting, .logRingSize, .platformioBin, .flashtoolPath,
  .uiAccentColor, .ignoredSerials, .ignoredCanbusUuids, .stopServices]

theorem settingsWrites_eq (s : Settings) :
    settingsWrites s = writeOrder.map (written s) ++ [(service, none)] := rfl

theorem mem_writeOrder (f : Field) : f ∈ writeOrder := by cases f <;> decide

theorem lookup_written (s : Settings) {fs : List Field} (h : f ∈ fs) :
    (fs.map (written s)).lookup f.key = some (f.encode (s.get f)) := by
  induction fs with
  | nil => exact nomatch h
  | cons g fs ih =>
    by_cases hg : f = g
    · subst hg
      exact List.lookup_cons_self
    · have hkey : (f.key == g.key) = false := beq_false_of_ne fun he => hg (Field.key_inj he)
      rw [List.map_cons, written, List.lookup_cons, hkey]
      exact ih ((List.mem_cons.mp h).resolve_left hg)

theorem lookup_key (s : Settings) (f : Field) :
    (settingsWrites s).lookup f.key = some (f.encode (s.get f)) := by
  rw [settingsWrites_eq, List.lookup_append, lookup_written s (mem_writeOrder f)]
  rfl

theorem lookup_service (s : Settings) : (settingsWrites s).lookup service = some none := rfl

theorem filter_spells (s : Settings) (f : Field) :
    (settingsWrites s).filter (f.spells ·.1) = [(f.key, f.encode (s.get f))] := by
  have hspells : ∀ g : Field, f.spells g.key = decide (g = f) := fun g =>
    Bool.eq_iff_iff.mpr ⟨fun h => decide_eq_true (Field.spells_unique g.spells_key h), fun h =>
      of_decide_eq_true h ▸ g.spells_key⟩
  have hone : writeOrder.filter (fun g => decide (g = f)) = [f] := by cases f <;> decide
  have hservice : f.spells service = false := by cases f <;> decide
  rw [settingsWrites_eq, List.filter_append, List.filter_map, List.filter_singleton, hservice]
  have hcomp : (fun w : Str × Option CfgDoc.Value => f.spells w.1) ∘ written s =
      fun g => decide (g = f) := funext hspells
  rw [hcomp, hone]
  rfl

theorem lookup_other (s : Settings) (h : ∀ f : Field, key ≠ f.key) (hs : key ≠ service) :
    (settingsWrites s).lookup key = none := by
  refine List.lookup_eq_none_iff.mpr fun w hw => ?_
  rw [settingsWrites_eq, List.mem_append, List.mem_map, List.mem_singleton] at hw
  rcases hw with ⟨f, -, rfl⟩ | rfl
  · exact bne_iff_ne.mpr (h f)
  · exact bne_iff_ne.mpr hs

/-! ## Reading back -/

/-- What is relied on of `int`: it reads what `str` writes of an int that it has read itself, and
of one in the bounds of `_coerce_setting`. -/
structure ReadsInts (int : Str → Option Int) : Prop where
  again : ∀ text n, int text = some n → int (toString n).toList = some n
  small : ∀ n : Int, -1 ≤ n → n ≤ 100000 → int (toString n).toList = some n

/-- A text of lines that are read as they are written. -/
def KeptText (t : Str) : Prop := ∃ lines, KeptLines lines ∧ t = joinWith ['\n'] lines

/-- A word that starts no comment. -/
structure PlainWord (w : Str) : Prop where
  word : IsWord w
  noComment : isComment w = false

/-- What settings hold that were loaded, or loaded and then changed by a call. -/
def Field.Held (int : Str → Option Int) : (f : Field) → f.Value → Prop
  | .makeJobs, v => int (toString (v : Int)).toList = some v
  | .logRingSize, v => int (toString (v : Int)).toList = some v
  | .serviceBackend, v => KeptText v
  | .platformioBin, v => KeptText v
  | .flashtoolPath, v => KeptText v
  | .uiAccentColor, v => v = [] ∨ (∃ t, KeptText t ∧ t ≠ [] ∧ v = '#' :: t) ∨
    ∃ w, PlainWord w ∧ v = '#' :: (w ++ ['\n'])
  | .stopServices, v => ∀ units : List Str, v = some units →
    (∀ x ∈ units, IsWord x) ∨ ∃ t, KeptText t ∧ units = [t]
  | _, _ => True

/-- What the file gives back as it was. -/
def Field.Storable : (f : Field) → f.Value → Prop
  | .uiAccentColor, v => List.getLast? v ≠ some '\n'
  | .ignoredSerials, v => ∀ x : Str, List.Mem x v → PlainWord x
  | .ignoredCanbusUuids, v => ∀ x : Str, List.Mem x v → PlainWord x
  | .stopServices, v => ∀ units : List Str, v = some units → ∀ x ∈ units, PlainWord x
  | _, _ => True

/-- The identities a call adds are written one a line, so they may not break it. -/
def Field.Words : (f : Field) → f.Value → Prop
  | .ignoredSerials, v => ∀ x : Str, List.Mem x v → IsWord x
  | .ignoredCanbusUuids, v => ∀ x : Str, List.Mem x v → IsWord x
  | _, _ => True

theorem PlainWord.kept {w : Str} (h : PlainWord w) : reads w = w ∧ OneLine w ∧ w ≠ [] := by
  refine ⟨?_, h.word.oneLine, h.word.ne_nil⟩
  rw [reads_word h.word, if_neg (by simp [h.noComment])]

theorem PlainWord.valueOf {w : Str} (h : PlainWord w) (hkey : KeySafe key)
    (hex : ∀ item ∈ existing, Whole item) : valueOf (render key (.text w) existing) = w := by
  rw [valueOf_render_text hkey hex h.word.oneLine, h.kept.1]

theorem plainWord_of_ascii {w : Str} (hne : w ≠ [])
    (h : ∀ c ∈ w, 45 ≤ c.toNat ∧ c.toNat ≤ 126 ∧ c.toNat ≠ 59) : PlainWord w := by
  have hchar : ∀ c ∈ w, isSpace c = false ∧ c ≠ ',' ∧ isCommentStart c = false := fun c hc => by
    have hc := h c hc
    have hother : ∀ d : Char, d.toNat < 45 ∨ d.toNat = 59 → c ≠ d := by
      rintro d hd rfl
      omega
    refine ⟨?_, hother ',' (by decide), ?_⟩
    · simp only [isSpace, Bool.or_eq_false_iff, Bool.and_eq_false_iff, decide_eq_false_iff_not]
      omega
    · simp [isCommentStart, hother '#' (by decide), hother ';' (by decide)]
  have hword : IsWord w := ⟨hne, fun c hc => ⟨(hchar c hc).1, (hchar c hc).2.1⟩⟩
  refine ⟨hword, ?_⟩
  obtain ⟨c, t, rfl⟩ := List.exists_cons_of_ne_nil hne
  rw [isComment_word hword]
  exact (hchar c List.mem_cons_self).2.2

theorem plainWord_digits {w : Str} (hne : w ≠ []) (h : ∀ c ∈ w, c.isDigit = true ∨ c = '-') :
    PlainWord w :=
  plainWord_of_ascii hne fun c hc => by
    rcases h c hc with hd | rfl
    · simp only [Char.isDigit, Bool.and_eq_true, decide_eq_true_eq, UInt32.le_iff_toNat_le] at hd
      have hrange : 48 ≤ c.toNat ∧ c.toNat ≤ 57 := ⟨hd.1, hd.2⟩
      omega
    · decide

theorem toList_negSucc (m : Nat) :
    (toString (Int.negSucc m)).toList = '-' :: (m + 1).repr.toList := by
  change ("-" ++ (m + 1).repr).toList = _
  simp

theorem plainWord_int (n : Int) : PlainWord (toString n).toList := by
  have hdigits : ∀ m : Nat, ∀ c ∈ m.repr.toList, c.isDigit = true := fun m c hc => by
    rw [Nat.toList_repr] at hc
    exact Nat.isDigit_of_mem_toDigits (by decide) (by decide) hc
  cases n with
  | ofNat m =>
    refine plainWord_digits ?_ fun c hc => .inl (hdigits m c hc)
    change m.repr.toList ≠ []
    rw [Nat.toList_repr]
    exact Nat.toDigits_ne_nil
  | negSucc m =>
    rw [toList_negSucc]
    refine plainWord_digits (by simp) (List.forall_mem_cons.mpr ⟨.inr rfl, fun c hc => ?_⟩)
    exact .inl (hdigits (m + 1) c hc)

theorem isWord_of_check {w : Str} (h : (w ≠ [] && w.all fun c => !isSeparator c) = true) : IsWord w := by
  simp only [Bool.and_eq_true, List.all_eq_true, Bool.not_eq_true', decide_eq_true_eq] at h
  refine ⟨h.1, fun c hc => ?_⟩
  have hsep := h.2 c hc
  simp only [isSeparator, Bool.or_eq_false_iff, decide_eq_false_iff_not] at hsep
  exact ⟨hsep.2, hsep.1⟩

theorem plainWord_bool (b : Bool) : PlainWord (boolText b) := by
  cases b <;> exact ⟨isWord_of_check (by decide), by decide⟩

theorem parseBool_boolText (b : Bool) : parseBool (some (boolText b)) false = some b := by
  cases b <;> decide

theorem keySafe_key (f : Field) : KeySafe f.key := keySafe_of_check (by cases f <;> rfl)

theorem oneLine_key (f : Field) : OneLine f.key := by cases f <;> decide

theorem KeptText.trimmed (h : KeptText t) : Trimmed t := by
  obtain ⟨lines, hlines, rfl⟩ := h
  exact trimmed_joinWith hlines

theorem KeptText.lineSafe (h : KeptText t) : LineSafe t := by
  obtain ⟨lines, hlines, rfl⟩ := h
  match lines, hlines with
  | [], _ => exact .inr oneLine_nil
  | [l], h => exact .inr (h l List.mem_cons_self).2.1
  | l :: m :: lines, _ =>
    rw [joinWith_cons_cons]
    exact .inl (by simp)

theorem KeptText.noComment (h : KeptText t) : isComment t = false := by
  obtain ⟨lines, hlines, rfl⟩ := h
  cases lines with
  | nil => rfl
  | cons l lines =>
    obtain ⟨hreads, hline, hne⟩ := hlines l List.mem_cons_self
    have hl : isComment l = false := by
      cases hc : isComment l with
      | false => rfl
      | true => exact absurd (hreads.symm.trans (reads_of_isComment hline hc)) hne
    obtain ⟨c, s, rfl⟩ := List.exists_cons_of_ne_nil hne
    have hspace : isSpace c = false := (trimmed_of_reads hreads).1 c rfl
    rw [joinWith_newline]
    simpa [isComment, hspace] using hl

section Back
variable {int : Str → Option Int} (hex : ∀ item ∈ existing, Whole item)
include hex

theorem strip_valueOf_kept (h : KeptText t) (f : Field) :
    strip (valueOf (render f.key (.text t) existing)) = t := by
  obtain ⟨lines, hlines, rfl⟩ := h
  exact strip_valueOf_text (keySafe_key f) (oneLine_key f) hex hlines

theorem csv_list {l : List Str} (h : ∀ x ∈ l, IsWord x) (f : Field) :
    csv (valueOf (render f.key (.list l) existing)) = l.filter (!isComment ·) := by
  have hone : ∀ x ∈ l, OneLine x := fun x hx => (h x hx).oneLine
  have hwhole : (Value.list l).Whole := hone
  obtain ⟨hvalue, hlines⟩ := valueOf_render_list (keySafe_key f) hex hone
  rw [valueOf_eq (whole_render (oneLine_key f) hwhole hex), csv_lines, hvalue, hlines, csv_words h]
  rfl

theorem csv_joined_iff (hkey : KeySafe key) {units : List Str} :
    csv (valueOf (render key (.text (joinWith commaSpace units)) existing)) = units ↔
      ∀ x ∈ units, PlainWord x := by
  by_cases hwords : ∀ x ∈ units, IsWord x
  · have hcomma : OneLine commaSpace := by decide
    have hline := oneLine_joinWith hcomma fun x hx => (hwords x hx).oneLine
    rw [valueOf_render_text hkey hex hline, csv_reads_joined hwords, List.takeWhile_eq_self_iff]
    exact forall₂_congr fun x hx =>
      ⟨fun hc => ⟨hwords x hx, by simpa using hc⟩, fun hp => by simp [hp.noComment]⟩
  · refine iff_of_false (fun he => hwords fun x hx => ?_) fun h => hwords fun x hx => (h x hx).word
    rw [← he] at hx
    exact isWord_of_mem_csv hx

theorem read_colour {v : Str} (hheld : Field.uiAccentColor.Held int v) :
    ∃ v' : Str, Field.uiAccentColor.read int (valueOf (render Field.uiAccentColor.key
      (.text (v.dropWhile (· = '#'))) existing)) = some v' ∧ (v = v' ↔ v.getLast? ≠ some '\n') := by
  have hnotHash {t : Str} (ht : t ≠ []) (hspace : Trimmed t) (hc : isComment t = false) (u : Str) :
      ('#' :: (t ++ u)).dropWhile (· = '#') = t ++ u := by
    obtain ⟨c, s, rfl⟩ := List.exists_cons_of_ne_nil ht
    have hhash : c ≠ '#' := by
      rintro rfl
      simp [isComment, isCommentStart, hspace.1 '#' rfl] at hc
    simp [hhash]
  rcases hheld with rfl | ⟨t, ht, hne, rfl⟩ | ⟨w, hw, rfl⟩
  · have hkept : KeptText [] := ⟨[], by simp [KeptLines], rfl⟩
    exact ⟨[], by simp [Field.read, strip_valueOf_kept hex hkept], by simp⟩
  · have hdrop := hnotHash hne ht.trimmed ht.noComment []
    rw [List.append_nil] at hdrop
    refine ⟨'#' :: t, by simp [Field.read, hdrop, strip_valueOf_kept hex ht, hne], ?_⟩
    refine iff_of_true rfl fun hlast => ?_
    obtain ⟨c, u, rfl⟩ := List.exists_cons_of_ne_nil hne
    rw [List.getLast?_cons_cons] at hlast
    exact absurd (ht.trimmed.2 '\n' hlast) (by decide)
  · have hkept : KeptText w := ⟨[w], by simpa [KeptLines] using hw.kept, rfl⟩
    have hdrop := hnotHash hw.word.ne_nil hw.word.trimmed hw.noComment ['\n']
    have hlines : listOf (w ++ ['\n']) = [w] := by
      have hone := splitlines_append_newline hw.word.oneLine []
      simp [listOf, hone, splitlines, strip_of_trimmed hw.word.trimmed, hw.word.ne_nil]
    have hread : strip (valueOf (render Field.uiAccentColor.key (.text (w ++ ['\n'])) existing)) = w := by
      have hwhole : (Value.list [w]).Whole := by simpa [Value.Whole] using hw.word.oneLine
      have hlist : KeptLines [w] := by simpa [KeptLines] using hw.kept
      rw [render_lines (by simp), hlines, strip_valueOf
        (whole_render (oneLine_key _) hwhole hex), texts_render_list (keySafe_key _) hex hwhole,
        filter_reads hlist]
      rfl
    refine ⟨'#' :: w, by simp only [Field.read, hdrop, hread, hw.word.ne_nil, if_false], ?_⟩
    refine iff_of_false (fun he => ?_) fun h => h ?_
    · simpa using congrArg List.length he
    · rw [← List.cons_append, List.getLast?_concat]

theorem read_units (int : Str → Option Int) (units : List Str) : ∃ v' : Option (List Str),
    Field.stopServices.read int (valueOf (render Field.stopServices.key
      (.text (joinWith commaSpace units)) existing)) = some v' ∧
      (some units = v' ↔ ∀ x ∈ units, PlainWord x) := by
  refine ⟨_, rfl, ?_⟩
  rw [Option.some.injEq, eq_comm, csv_joined_iff hex (keySafe_key _)]

theorem read_encode {v : f.Value} {value : CfgDoc.Value} (hheld : f.Held int v) (hwords : f.Words v)
    (h : f.encode v = some value) :
    ∃ v', f.read int (valueOf (render f.key value existing)) = some v' ∧ (v = v' ↔ f.Storable v) := by
  have hplain {w : Str} (hw : PlainWord w) (f : Field) :
      valueOf (render f.key (.text w) existing) = w := hw.valueOf (keySafe_key f) hex
  have htrim {w : Str} (hw : PlainWord w) : strip w = w := strip_of_trimmed hw.word.trimmed
  cases f with
  | makeJobs | logRingSize =>
    obtain rfl := Option.some.inj h
    refine ⟨v, ?_, iff_of_true rfl trivial⟩
    rw [hplain (plainWord_int v), Field.read, htrim (plainWord_int v)]
    exact hheld
  | cleanBeforeBuild | reseedOnBuild | dryRun | enableFlashing | allowFlashWhilePrinting =>
    obtain rfl := Option.some.inj h
    refine ⟨v, ?_, iff_of_true rfl trivial⟩
    rw [hplain (plainWord_bool v), Field.read]
    exact parseBool_boolText v
  | serviceBackend | platformioBin | flashtoolPath =>
    obtain rfl := Option.some.inj h
    refine ⟨v, ?_, iff_of_true rfl trivial⟩
    rw [Field.read, strip_valueOf_kept hex hheld]
  | uiAccentColor =>
    obtain rfl := Option.some.inj h
    exact read_colour hex hheld
  | ignoredSerials | ignoredCanbusUuids =>
    obtain rfl := Option.some.inj h
    refine ⟨_, congrArg some (csv_list hex hwords _), ?_⟩
    rw [eq_comm, List.filter_eq_self]
    exact forall₂_congr fun x hx =>
      ⟨fun hc => ⟨hwords x hx, by simpa using hc⟩, fun hp => by simp [hp.noComment]⟩
  | stopServices =>
    obtain ⟨units, rfl, rfl⟩ := Option.map_eq_some_iff.mp h
    obtain ⟨v', hread, hiff⟩ := read_units hex int units
    refine ⟨v', hread, hiff.trans ?_⟩
    exact ⟨fun hall us he => Option.some.inj he ▸ hall, fun hall => hall units rfl⟩

end Back

theorem keptText_of_plainWord {w : Str} (h : PlainWord w) : KeptText w :=
  ⟨[w], by simpa [KeptLines] using h.kept, rfl⟩

theorem keptText_nil : KeptText [] := ⟨[], by simp [KeptLines], rfl⟩

theorem whole_encode {int : Str → Option Int} {v : f.Value} {value : CfgDoc.Value}
    (hheld : f.Held int v) (hwords : f.Words v) (h : f.encode v = some value) : value.Whole := by
  cases f with
  | makeJobs | logRingSize =>
    obtain rfl := Option.some.inj h
    exact .inr (plainWord_int v).word.oneLine
  | cleanBeforeBuild | reseedOnBuild | dryRun | enableFlashing | allowFlashWhilePrinting =>
    obtain rfl := Option.some.inj h
    exact .inr (plainWord_bool v).word.oneLine
  | serviceBackend | platformioBin | flashtoolPath =>
    obtain rfl := Option.some.inj h
    exact KeptText.lineSafe hheld
  | uiAccentColor =>
    obtain rfl := Option.some.inj h
    have hdrop {t : Str} (ht : LineSafe t) : LineSafe (('#' :: t).dropWhile (· = '#')) := by
      have hsign : ('#' :: t).dropWhile (· = '#') = t.dropWhile (· = '#') := by simp
      rw [hsign]
      refine ht.imp (fun hn => ?_) fun hline => hline.sublist (List.dropWhile_sublist _)
      rw [← List.takeWhile_append_dropWhile (p := (· = '#')) (l := t), List.mem_append] at hn
      exact hn.resolve_left fun hm => by simpa using List.mem_takeWhile_imp hm
    rcases hheld with rfl | ⟨t, ht, -, rfl⟩ | ⟨w, hw, rfl⟩
    · exact .inr oneLine_nil
    · exact hdrop ht.lineSafe
    · exact hdrop (.inl (by simp))
  | ignoredSerials | ignoredCanbusUuids =>
    obtain rfl := Option.some.inj h
    exact fun x hx => (hwords x hx).oneLine
  | stopServices =>
    obtain ⟨units, rfl, rfl⟩ := Option.map_eq_some_iff.mp h
    have hcomma : OneLine commaSpace := by decide
    rcases hheld units rfl with hall | ⟨t, ht, rfl⟩
    · exact .inr (oneLine_joinWith hcomma fun x hx => (hall x hx).oneLine)
    · exact ht.lineSafe

/-! ## What is loaded -/

section Loaded
variable {int : Str → Option Int} {doc : CfgDocument}

theorem keptText_rawText (hdoc : doc.Whole) (key : Str) : KeptText (strip (rawText doc key)) := by
  rw [rawText, get_eq]
  cases hw : (doc.writtenAt updater key).head? with
  | none => exact keptText_nil
  | some item =>
    have hitem := hdoc.of_mem_writtenAt (List.mem_of_head? hw)
    exact ⟨texts item, keptLines_texts hitem, strip_valueOf hitem⟩

theorem held_of_read (hint : ReadsInts int) {raw : Str} (hraw : KeptText (strip raw)) {v : f.Value}
    (h : f.read int raw = some v) : f.Held int v ∧ f.Words v := by
  cases f with
  | makeJobs | logRingSize => exact ⟨hint.again _ _ h, trivial⟩
  | cleanBeforeBuild | reseedOnBuild | dryRun | enableFlashing | allowFlashWhilePrinting =>
    exact ⟨trivial, trivial⟩
  | serviceBackend | platformioBin | flashtoolPath =>
    obtain rfl := Option.some.inj h
    exact ⟨hraw, trivial⟩
  | uiAccentColor =>
    obtain rfl := Option.some.inj h
    refine ⟨?_, trivial⟩
    by_cases hnil : strip raw = []
    · exact .inl (if_pos hnil)
    · exact .inr (.inl ⟨strip raw, hraw, hnil, if_neg hnil⟩)
  | ignoredSerials | ignoredCanbusUuids =>
    obtain rfl := Option.some.inj h
    exact ⟨trivial, fun x hx => isWord_of_mem_csv hx⟩
  | stopServices =>
    obtain rfl := Option.some.inj h
    exact ⟨fun units he => .inl fun x hx => isWord_of_mem_csv (Option.some.inj he ▸ hx), trivial⟩

theorem held_absent (hint : ReadsInts int) (hdoc : doc.Whole) (f : Field) :
    f.Held int (absent doc f) ∧ f.Words (absent doc f) := by
  cases f with
  | makeJobs => exact ⟨hint.small 0 (by decide) (by decide), trivial⟩
  | logRingSize => exact ⟨hint.small 2000 (by decide) (by decide), trivial⟩
  | serviceBackend =>
    have hword : PlainWord "moonraker".toList := ⟨isWord_of_check (by decide), by decide⟩
    exact ⟨keptText_of_plainWord hword, trivial⟩
  | platformioBin | flashtoolPath => exact ⟨keptText_nil, trivial⟩
  | uiAccentColor => exact ⟨.inl rfl, trivial⟩
  | ignoredSerials | ignoredCanbusUuids => exact ⟨trivial, fun x hx => nomatch hx⟩
  | stopServices =>
    refine ⟨fun units he => .inr ⟨legacy doc, keptText_rawText hdoc service, ?_⟩, trivial⟩
    rw [absent] at he
    split_ifs at he
    exact (Option.some.inj he).symm
  | _ => exact ⟨trivial, trivial⟩

theorem mem_of_winner {keys : List Str} (h : winner keys f = some key) :
    key ∈ keys ∧ f.spells key = true :=
  List.mem_filter.mp (List.mem_of_getLast? h)

theorem Loads.held (hint : ReadsInts int) (hdoc : doc.Whole) (h : Loads int doc s) (f : Field) :
    f.Held int (s.get f) ∧ f.Words (s.get f) := by
  rw [h.fields f]
  cases hw : winner (options doc updater) f with
  | none => exact held_absent hint hdoc f
  | some key =>
    obtain ⟨hkey, hspells⟩ := mem_of_winner hw
    obtain ⟨v, hv⟩ := Option.isSome_iff_exists.mp (h.readable key hkey f hspells)
    have hread : readAt int doc f key = v := by rw [readAt, hv]; rfl
    rw [Option.elim_some, hread]
    exact held_of_read hint (keptText_rawText hdoc key) hv

end Loaded
end McuUpdater.Updater
