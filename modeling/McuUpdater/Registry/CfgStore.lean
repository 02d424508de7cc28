import McuUpdater.Lib.Transition
import McuUpdater.Registry.CfgValues

/-! A document under any edits as a store of options: what an edit writes is read back, all else
stays, and the text of the document reads as the document does. -/
namespace McuUpdater.CfgStore
open PyText Outline Transition CfgDoc CfgDocument
variable {key new old name : Str} {doc : CfgDocument}

inductive Edit
  | set (name key : Str) (value : Value)
  | removeOption (name key : Str)
  | renameSection (old new : Str)
  | addSection (name : Str)

def Edit.apply (doc : CfgDocument) : Edit → CfgDocument
  | .set name key value => doc.set name key value
  | .removeOption name key => doc.removeOption name key
  | .renameSection old new => doc.renameSection old new
  | .addSection name => doc.addSection name

/-- On one line, with no blanks around it and no comment sign at its start or after a blank. -/
structure Plain (s : Str) : Prop where
  oneLine : OneLine s
  trimmed : Trimmed s
  noComment : ∀ before c rest, s = before ++ c :: rest → isCommentStart c = true →
    ∃ d ∈ before.getLast?, isSpace d = false

structure SafeName (name : Str) : Prop where
  header : NameSafe name
  oneLine : OneLine name

structure SafeKey (key : Str) : Prop where
  option : KeySafe key
  noBracket : key.head? ≠ some '['
  oneLine : OneLine key

def SafeValue : Value → Prop
  | .text s => Plain s
  | .list items => ∀ item ∈ items, Plain item ∧ item ≠ []

/-- The arguments of an edit are safe; a key that is removed stands once in its section, and no
section that is renamed stands twice in the document. -/
def Admissible (doc : CfgDocument) : Edit → Prop
  | .set name key value => SafeName name ∧ SafeKey key ∧ SafeValue value
  | .removeOption name key => (doc.writtenAt name key).length = 1
  | .renameSection old new => SafeName new ∧ doc.names.count old ≤ 1
  | .addSection name => SafeName name

/-- What `get`, or `get_list`, answers after a `set`. -/
def Holds (doc : CfgDocument) (name key : Str) : Value → Prop
  | .text s => doc.get name key = some s
  | .list items => doc.getList name key = items

def rename (old new name : Str) : Str := if name = old then new else name

def Kept (doc : CfgDocument) (e : Edit) : Prop :=
  match e with
  | .set name key value => Holds (e.apply doc) name key value ∧
      (∀ name' key', ¬(name' = name ∧ key' = key) →
        (e.apply doc).get name' key' = doc.get name' key') ∧
      (e.apply doc).names = if name ∈ doc.names then doc.names else doc.names ++ [name]
  | .removeOption name key => (e.apply doc).get name key = none ∧
      (∀ name' key', ¬(name' = name ∧ key' = key) →
        (e.apply doc).get name' key' = doc.get name' key') ∧
      (e.apply doc).names = doc.names
  | .renameSection old new =>
      if old ∈ doc.names ∧ new ∉ doc.names then
        (∀ key, (e.apply doc).get new key = doc.get old key ∧ (e.apply doc).get old key = none) ∧
        (∀ name' key', name' ≠ old → name' ≠ new →
          (e.apply doc).get name' key' = doc.get name' key') ∧
        (e.apply doc).names = doc.names.map (rename old new)
      else e.apply doc = doc
  | .addSection name => (∀ name' key', (e.apply doc).get name' key' = doc.get name' key') ∧
      (e.apply doc).names = if name ∈ doc.names then doc.names else doc.names ++ [name]

def Reloads (doc : CfgDocument) : Prop :=
  doc.reload.names = doc.names ∧ ∀ name key, doc.reload.get name key = doc.get name key

def Parsed (doc : CfgDocument) : Prop := ∃ text, doc = .ofText text

def step (doc : CfgDocument) (e : Edit) : Option CfgDocument := some (e.apply doc)

/-! ## Values -/

theorem cutComment_plain (b : Bool) (s : Str) (h : ∀ before c rest, s = before ++ c :: rest →
    isCommentStart c = true → (before = [] → b = false) ∧
      ∀ d ∈ before.getLast?, isSpace d = false) : cutComment b s = s := by
  induction s generalizing b with
  | nil => rfl
  | cons c s ih =>
    rw [cutComment, if_neg, ih]
    · intro before d rest hs hd
      obtain ⟨-, hlast⟩ := h (c :: before) d rest (by rw [hs]; rfl) hd
      refine ⟨?_, fun e he => ?_⟩
      · rintro rfl
        simpa using hlast
      · refine hlast e ?_
        rw [List.getLast?_cons, Option.mem_def.mp he]
        rfl
    · simp only [Bool.and_eq_true, not_and, Bool.not_eq_true]
      rintro ⟨hb, hc⟩
      have := (h [] c s rfl hc).1 rfl
      simp [this] at hb

theorem Plain.reads {s : Str} (h : Plain s) : reads s = s := by
  rw [CfgDoc.reads, strip_of_trimmed h.trimmed, stripInlineComment, cutComment_plain]
  · have hr := strip_of_trimmed h.trimmed
    have hl : lstrip s = s := by
      cases s with
      | nil => rfl
      | cons c s => simp [lstrip, h.trimmed.1 c rfl]
    rwa [strip, hl] at hr
  · intro before c rest hs hc
    obtain ⟨d, hd, hsp⟩ := h.noComment before c rest hs hc
    refine ⟨?_, fun e he => ?_⟩
    · rintro rfl
      simp at hd
    · obtain rfl : e = d := Option.some.inj (he.symm.trans hd)
      exact hsp

theorem Plain.valueOf_render {s : Str} {existing : Option (Block Str)} (h : Plain s)
    (hkey : KeySafe key) (hwhole : ∀ item ∈ existing, Whole item) :
    valueOf (render key (.text s) existing) = s := by
  rw [valueOf_render_text hkey hwhole h.oneLine, h.reads]

theorem listOf_render {items : List Str} {existing : Option (Block Str)}
    (h : ∀ item ∈ items, Plain item ∧ item ≠ []) (hkey : SafeKey key)
    (hwhole : ∀ item ∈ existing, Whole item) :
    listOf (valueOf (render key (.list items) existing)) = items := by
  have hline : ∀ item ∈ items, OneLine item := fun item hitem => (h item hitem).1.oneLine
  have hvalue : Value.Whole (.list items) := hline
  rw [listOf_valueOf (whole_render hkey.oneLine hvalue hwhole),
    texts_render_list hkey.option hwhole hline]
  have hsame : items.map CfgDoc.reads = items :=
    (List.map_congr_left fun item hitem => (h item hitem).1.reads).trans (List.map_id items)
  rw [hsame, List.filter_eq_self]
  exact fun item hitem => by simpa using (h item hitem).2

/-! ## Sections -/

theorem set_addSection (hsafe : NameSafe name) (key : Str) (value : Value) :
    (doc.addSection name).set name key value = doc.set name key value := by
  rw [CfgDocument.set, addSection_of_mem (mem_names_addSection (.inr hsafe)), CfgDocument.set]

/-- What `set` leaves of each option, also where it adds the section. -/
theorem writtenAt_set_all (hname : NameSafe name) (hkey : SafeKey key) (value : Value)
    (name' key' : Str) : (doc.set name key value).writtenAt name' key' =
      if name' = name ∧ key' = key then
        match doc.writtenAt name key with
        | [] => [CfgDoc.render key value none]
        | item :: rest => CfgDoc.render key value (some item) :: rest
      else doc.writtenAt name' key' := by
  have hmem : name ∈ (doc.addSection name).names := mem_names_addSection (.inr hname)
  have hset := writtenAt_set hkey.option hkey.noBracket hmem value name' key'
  rw [set_addSection hname, writtenAt_addSection_cases (.inr hname),
    writtenAt_addSection_cases (.inr hname)] at hset
  exact hset.trans (by cases doc.writtenAt name key <;> rfl)

theorem names_set_all (hname : NameSafe name) (hkey : SafeKey key) (value : Value) :
    (doc.set name key value).names = if name ∈ doc.names then doc.names else doc.names ++ [name] := by
  rw [← set_addSection hname,
    names_set hkey.option.ne_nil hkey.noBracket (mem_names_addSection (.inr hname)),
    names_addSection_cases (.inr hname)]

/-- What follows the name of a header, so that it is one. -/
def Closes (rest : Str) : Prop :=
  rest.dropWhile isSpace = [] ∨
    (rest.dropWhile isSpace).head?.any isCommentStart = true ∧ toEnd (rest.dropWhile isSpace) = true

theorem sectionName_eq {rest : Str} (hne : name ≠ []) (hno : ']' ∉ name) (h : Closes rest) :
    sectionName (headerLine name ++ rest) = some (strip name) := by
  have hname : ∀ c ∈ name, decide (c ≠ ']') = true := fun c hc => by
    simpa using fun he : c = ']' => hno (he ▸ hc)
  have hline : headerLine name ++ rest = '[' :: (name ++ ']' :: rest) := by
    simp [headerLine]
  rw [hline, sectionName, List.dropWhile_append_of_pos hname, List.takeWhile_append_of_pos hname]
  simp only [List.dropWhile_cons, List.takeWhile_cons]
  simp only [ne_eq, not_true_eq_false, decide_false, Bool.false_eq_true, if_false, List.append_nil]
  exact if_pos ⟨hne, h⟩

theorem header_spec {line : Str} (h : sectionName line = some name) : ∃ raw,
    line = headerLine raw ++ afterFirst ']' line ∧ raw ≠ [] ∧ ']' ∉ raw ∧ strip raw = name ∧
      Closes (afterFirst ']' line) := by
  cases line with
  | nil => cases h
  | cons c s =>
    obtain rfl : c = '[' := by
      by_contra hc
      simp [sectionName.eq_def, hc] at h
    rw [sectionName] at h
    split at h
    · rename_i rest hdrop
      simp only at h
      split_ifs at h with hcond
      obtain ⟨hne, hcloses⟩ := hcond
      have hafter : afterFirst ']' ('[' :: s) = rest := by
        have hskip : ('[' :: s).dropWhile (· ≠ ']') = ']' :: rest := by
          rw [List.dropWhile_cons_of_pos (by decide), hdrop]
        rw [afterFirst, hskip]
      refine ⟨s.takeWhile (· ≠ ']'), ?_, hne, fun hmem => ?_, Option.some.inj h, hafter ▸ hcloses⟩
      · have hs := List.takeWhile_append_dropWhile (p := (· ≠ ']')) (l := s)
        rw [hdrop] at hs
        rw [hafter, headerLine, List.cons_append, List.append_assoc, List.singleton_append, hs]
      · simpa using List.mem_takeWhile_imp hmem
    · cases h

theorem sectionName_renamed {line : Str} (hsafe : NameSafe new) (h : isHeader line = true) :
    sectionName (headerLine new ++ afterFirst ']' line) = some new := by
  obtain ⟨name, hname⟩ := Option.isSome_iff_exists.mp h
  obtain ⟨-, -, -, -, -, hcloses⟩ := header_spec hname
  rw [sectionName_eq hsafe.ne_nil hsafe.noBracket hcloses, strip_of_trimmed hsafe.trimmed]

/-! ## Renaming -/

section Rename
variable (hnew : NameSafe new) (hold : old ∈ doc.names) (hfree : new ∉ doc.names)

def renamed (new : Str) (sec : Block Str) : Block Str :=
  ⟨headerLine new ++ afterFirst ']' sec.head, sec.body⟩

theorem nameOf_renamed (hnew : NameSafe new) {sec : Block Str} (h : sec ∈ doc.sections) :
    nameOf (renamed new sec) = new := by
  have hhead := ((cut_fits isHeader doc.lines).blocks sec h).head
  rw [nameOf, renamed, sectionName_renamed hnew hhead]
  rfl

include hnew hold hfree

theorem sections_rename : (doc.renameSection old new).sections =
    replaceFirst (nameOf · = old) (fun sec => [renamed new sec]) doc.sections := by
  rw [renameSection, if_pos ⟨hasSection_iff.mpr hold, by simpa [hasSection_iff] using hfree⟩, sections,
    cut_editFirst]
  · rfl
  · intro sec hsec _ x hx
    obtain rfl := List.mem_singleton.mp hx
    have hfits := (cut_fits isHeader doc.lines).blocks sec hsec
    refine ⟨?_, hfits.body⟩
    rw [isHeader, sectionName_renamed hnew hfits.head]
    rfl

theorem rename_around : ∃ before sec after, doc.sections = before ++ sec :: after ∧
    nameOf sec = old ∧ nameOf (renamed new sec) = new ∧
    (∀ other ∈ before, nameOf other ≠ old) ∧ (∀ other ∈ before, nameOf other ≠ new) ∧
    (doc.renameSection old new).sections = before ++ renamed new sec :: after := by
  have hfound : (doc.sections.find? (nameOf · = old)).isSome := by
    simpa [names, List.find?_isSome] using hold
  obtain ⟨sec, hsec⟩ := Option.isSome_iff_exists.mp hfound
  obtain ⟨before, after, heq, hbefore, hname, hreplace⟩ := replaceFirst_of_find? hsec
  refine ⟨before, sec, after, heq, by simpa using hname,
    nameOf_renamed hnew (heq ▸ by simp : sec ∈ doc.sections), fun other hmem => by simpa using hbefore other hmem,
    fun other hmem hother => ?_, ?_⟩
  · refine hfree (List.mem_map.mpr ⟨other, ?_, hother⟩)
    rw [heq]
    exact List.mem_append_left _ hmem
  · rw [sections_rename hnew hold hfree, hreplace]
    simp

theorem names_rename (hcount : doc.names.count old ≤ 1) :
    (doc.renameSection old new).names = doc.names.map (rename old new) := by
  obtain ⟨before, sec, after, heq, hname, hname', hbefore, -, hsections⟩ :=
    rename_around hnew hold hfree
  have hkept : ∀ secs : List (Block Str), (∀ other ∈ secs, nameOf other ≠ old) →
      (secs.map nameOf).map (rename old new) = secs.map nameOf := by
    intro secs hsecs
    rw [List.map_map]
    exact List.map_congr_left fun other hother => if_neg (hsecs other hother)
  have hafter : ∀ other ∈ after, nameOf other ≠ old := by
    intro other hmem hother
    have hpos : 0 < (after.map nameOf).count old :=
      List.count_pos_iff.mpr (List.mem_map.mpr ⟨other, hmem, hother⟩)
    rw [names, heq, List.map_append, List.map_cons, List.count_append, List.count_cons, hname] at hcount
    simp only [beq_self_eq_true, if_true] at hcount
    omega
  rw [names, hsections, names, heq, List.map_append, List.map_append, List.map_append, List.map_cons,
    List.map_cons, List.map_cons, hkept before hbefore, hkept after hafter, hname', hname, rename,
    if_pos rfl]

theorem writtenAt_rename_new (key : Str) :
    (doc.renameSection old new).writtenAt new key = doc.writtenAt old key := by
  obtain ⟨before, sec, after, heq, hname, hname', hbefore, hbefore', hsections⟩ :=
    rename_around hnew hold hfree
  rw [writtenAt, section?, hsections, List.find?_append,
    List.find?_eq_none.mpr (by simpa using hbefore'), Option.none_or,
    List.find?_cons_of_pos (by simpa using hname'), writtenAt, section?, heq, List.find?_append,
    List.find?_eq_none.mpr (by simpa using hbefore), Option.none_or,
    List.find?_cons_of_pos (by simpa using hname)]
  rfl

theorem writtenAt_rename_old (hcount : doc.names.count old ≤ 1) (key : Str) :
    (doc.renameSection old new).writtenAt old key = [] := by
  have hne : new ≠ old := fun heq => hfree (heq ▸ hold)
  have hgone : old ∉ (doc.renameSection old new).names := by
    rw [names_rename hnew hold hfree hcount, List.mem_map]
    rintro ⟨name, -, hname⟩
    unfold rename at hname
    split_ifs at hname with hold'
    · exact hne hname
    · exact hold' hname
  have hnone : (doc.renameSection old new).section? old = none := by
    simpa [hasSection] using mt hasSection_iff.mp hgone
  rw [writtenAt, hnone]
  rfl

theorem writtenAt_rename_of_ne (hne : name ≠ old) (hne' : name ≠ new) (key : Str) :
    (doc.renameSection old new).writtenAt name key = doc.writtenAt name key := by
  obtain ⟨before, sec, after, heq, hname, hname', -, -, hsections⟩ := rename_around hnew hold hfree
  rw [writtenAt, section?, hsections, List.find?_append,
    List.find?_cons_of_neg (by simpa [hname'] using hne'.symm), writtenAt, section?, heq,
    List.find?_append, List.find?_cons_of_neg (by simpa [hname] using hne.symm)]

end Rename

/-! ## Edits -/

theorem get_of_writtenAt {doc' : CfgDocument} {name' key' : Str}
    (h : doc'.writtenAt name' key' = doc.writtenAt name key) :
    doc'.get name' key' = doc.get name key := by
  rw [get_eq, h, get_eq]

theorem kept_set {value : Value} (hdoc : doc.Whole) (hname : SafeName name) (hkey : SafeKey key)
    (hvalue : SafeValue value) : Kept doc (.set name key value) := by
  refine ⟨?_, fun name' key' hne => get_of_writtenAt ?_, names_set_all hname.header hkey value⟩
  · obtain ⟨existing, hex, hhead⟩ : ∃ existing : Option (Block Str), (∀ item ∈ existing, CfgDoc.Whole item) ∧
        ((doc.set name key value).writtenAt name key).head? =
          some (CfgDoc.render key value existing) := by
      rw [writtenAt_set_all hname.header hkey, if_pos ⟨rfl, rfl⟩]
      cases hw : doc.writtenAt name key with
      | nil => exact ⟨none, by simp, rfl⟩
      | cons item rest =>
        refine ⟨some item, ?_, rfl⟩
        rintro _ ⟨⟩
        exact hdoc.of_mem_writtenAt (hw ▸ List.mem_cons_self)
    cases value with
    | text s =>
      have hread : valueOf (CfgDoc.render key (.text s) existing) = s :=
        Plain.valueOf_render hvalue hkey.option hex
      change (doc.set name key (.text s)).get name key = some s
      rw [get_eq, hhead, Option.map_some, hread]
    | list items =>
      change (doc.set name key (.list items)).getList name key = items
      rw [getList, get_eq, hhead]
      exact listOf_render hvalue hkey hex
  · exact (writtenAt_set_all hname.header hkey value name' key').trans (if_neg hne)

theorem kept_removeOption (hone : (doc.writtenAt name key).length = 1) :
    Kept doc (.removeOption name key) := by
  obtain ⟨item, hitem⟩ := List.length_eq_one_iff.mp hone
  refine ⟨?_, fun name' key' hne => get_of_writtenAt ?_, names_removeOption doc name key⟩
  · change (doc.removeOption name key).get name key = none
    rw [get_eq, writtenAt_removeOption, if_pos ⟨rfl, rfl⟩, hitem]
    rfl
  · exact (writtenAt_removeOption doc name key name' key').trans (if_neg hne)

theorem kept_rename (hnew : NameSafe new) (hcount : doc.names.count old ≤ 1) :
    Kept doc (.renameSection old new) := by
  rw [Kept]
  split_ifs with hcond
  · obtain ⟨hold, hfree⟩ := hcond
    refine ⟨fun key => ⟨get_of_writtenAt (writtenAt_rename_new hnew hold hfree key), ?_⟩,
      fun name' key' hne hne' => get_of_writtenAt (writtenAt_rename_of_ne hnew hold hfree hne hne' key'),
      names_rename hnew hold hfree hcount⟩
    change (doc.renameSection old new).get old key = none
    rw [get_eq, writtenAt_rename_old hnew hold hfree hcount]
    rfl
  · change doc.renameSection old new = doc
    rw [renameSection, if_neg]
    simpa [hasSection_iff] using hcond

theorem kept_of_admissible {e : Edit} (hdoc : doc.Whole) (he : Admissible doc e) : Kept doc e := by
  cases e with
  | set name key value => exact kept_set hdoc he.1 he.2.1 he.2.2
  | removeOption name key => exact kept_removeOption he
  | renameSection old new => exact kept_rename he.1.header he.2
  | addSection name =>
    exact ⟨fun name' key' => get_of_writtenAt (writtenAt_addSection_cases (.inr he.header) name' key'),
      names_addSection_cases (.inr he.header)⟩

theorem SafeValue.whole {value : Value} (h : SafeValue value) : value.Whole := by
  cases value with
  | text s => exact .inr h.oneLine
  | list items => exact fun item hitem => (h item hitem).1.oneLine

theorem whole_rename (hdoc : doc.Whole) (hnew : OneLine new) : (doc.renameSection old new).Whole := by
  have hopen : isBreak '[' = false := by decide
  have hclose : OneLine [']'] := by decide
  rw [renameSection]
  split_ifs
  · intro line hline
    rcases mem_editFirst hline with hline | ⟨sec, hsec, -, x, hx, hline⟩
    · exact hdoc line hline
    · obtain rfl := List.mem_singleton.mp hx
      have hhead : OneLine sec.head := hdoc.of_mem_sections hsec _ (by simp [Block.lines])
      rcases List.mem_cons.mp hline with rfl | hline
      · exact oneLine_append.mpr ⟨oneLine_cons.mpr ⟨hopen, oneLine_append.mpr ⟨hnew, hclose⟩⟩,
          hhead.sublist (afterFirst_suffix _ _).sublist⟩
      · exact hdoc.body hsec line hline
  · exact hdoc

theorem whole_apply {e : Edit} (hdoc : doc.Whole) (he : Admissible doc e) : (e.apply doc).Whole := by
  cases e with
  | set name key value => exact hdoc.set he.1.oneLine he.2.1.oneLine he.2.2.whole
  | removeOption name key => exact hdoc.removeOption key
  | renameSection old new => exact whole_rename hdoc he.1.oneLine
  | addSection name => exact hdoc.addSection he.oneLine

/-- A document of a file, after any admissible edits: the next one is read back and leaves all
else, and the text that is written reads the same. -/
theorem edit_kept {e : Edit} (h : Reach step Admissible Parsed doc) (he : Admissible doc e) :
    Kept doc e ∧ Reloads (e.apply doc) := by
  have hdoc : doc.Whole := by
    refine h.invariant ?_ fun doc e doc' hdoc he hs => Option.some.inj hs ▸ whole_apply hdoc he
    rintro _ ⟨text, rfl⟩
    exact whole_ofText text
  have hwhole := whole_apply hdoc he
  exact ⟨kept_of_admissible hdoc he, names_reload hwhole,
    fun name key => get_of_writtenAt (writtenAt_reload hwhole name key)⟩

def oneOption : CfgDocument := .ofText "[a]\nk: 1\n".toList

theorem oneOption_parsed : Reach step Admissible Parsed oneOption := .start ⟨_, rfl⟩

theorem edit_kept_renamed : Kept oneOption (.renameSection ['a'] ['b']) ∧
    Reloads (Edit.apply oneOption (.renameSection ['a'] ['b'])) :=
  edit_kept oneOption_parsed ⟨⟨⟨by decide, by decide, by decide⟩, by decide⟩, by decide⟩

/-- A section written twice is found again under its old name, blanks around a value and blank
items are dropped, and a key that starts a comment is never read. -/
theorem careless_edits_not_kept :
    ¬ Kept (.ofText "[a]\nk: 1\n[a]\nk: 2\n".toList) (.renameSection ['a'] ['b']) ∧
    ¬ Kept oneOption (.set ['a'] ['k'] (.text " v".toList)) ∧
    ¬ Kept oneOption (.set ['a'] ['k'] (.list ["v".toList, " ".toList])) ∧
    ¬ Kept oneOption (.set ['a'] ['#'] (.text "v".toList)) := by
  refine ⟨fun h => ?_, fun h => ?_, fun h => ?_, fun h => ?_⟩
  · rw [Kept, if_pos (by decide)] at h
    exact absurd h.2.2 (by decide)
  · exact absurd h.1 (by unfold Holds; decide)
  · exact absurd h.1 (by unfold Holds; decide)
  · exact absurd h.1 (by unfold Holds; decide)

end McuUpdater.CfgStore
