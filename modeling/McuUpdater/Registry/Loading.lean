import McuUpdater.Registry.Saving

/-! What a registry read from a file holds: the identities of its sections, and no text that a
save could not write back whole. -/
namespace McuUpdater.Config
open PyText Dict Outline CfgDoc CfgDocument McuUpdater.Registry Typelist ExceptList
variable {s : Str} {doc : CfgDocument} {sec key : Str}

/-! ## Texts read from a file -/

theorem mem_splitOnP {p : Char → Bool} {w : Str} (h : w ∈ s.splitOnP p) :
    ∀ c ∈ w, c ∈ s ∧ p c = false := by
  induction s generalizing w with
  | nil =>
    rw [List.splitOnP_nil, List.mem_singleton] at h
    simp [h]
  | cons x s ih =>
    rw [List.splitOnP_cons_eq_if_modifyHead] at h
    split_ifs at h with hx
    · rcases List.mem_cons.mp h with rfl | h
      · simp
      · exact fun c hc => ⟨List.mem_cons_of_mem _ (ih h c hc).1, (ih h c hc).2⟩
    · obtain ⟨first, rest, hsplit⟩ := List.exists_cons_of_ne_nil (List.splitOnP_ne_nil p s)
      rw [hsplit, List.modifyHead_cons] at h
      rw [hsplit] at ih
      rcases List.mem_cons.mp h with rfl | h
      · refine List.forall_mem_cons.mpr ⟨⟨by simp, by simpa using hx⟩, fun c hc => ?_⟩
        have := ih (w := first) (by simp) c hc
        exact ⟨List.mem_cons_of_mem _ this.1, this.2⟩
      · exact fun c hc => by
          have := ih (List.mem_cons_of_mem _ h) c hc
          exact ⟨List.mem_cons_of_mem _ this.1, this.2⟩

structure IsWord (w : Str) : Prop where
  ne_nil : w ≠ []
  noSpace : ∀ c ∈ w, isSpace c = false ∧ c ≠ ','

theorem isWord_of_mem_csv {raw w : Str} (h : w ∈ csv raw) : IsWord w := by
  obtain ⟨h, hne⟩ := List.mem_filter.mp h
  refine ⟨by simpa using hne, fun c hc => ?_⟩
  have := (mem_splitOnP h c hc).2
  simp only [Bool.or_eq_false_iff, decide_eq_false_iff_not] at this
  exact ⟨this.2, this.1⟩

theorem IsWord.oneLine {w : Str} (h : IsWord w) : OneLine w := fun c hc => by
  cases hb : isBreak c with
  | false => rfl
  | true => exact absurd (isSpace_of_isBreak hb) (by simp [(h.noSpace c hc).1])

theorem heads_of_trimmed (h : Trimmed s) (hne : s ≠ []) : Heads s := by
  obtain ⟨c, t, rfl⟩ := List.exists_cons_of_ne_nil hne
  have hc := h.1 c rfl
  refine ⟨c, t, rfl, ?_, ?_⟩
  · rintro rfl
    exact absurd hc (by decide)
  · rintro rfl
    exact absurd hc (by decide)

theorem IsWord.trimmed {w : Str} (h : IsWord w) : Trimmed w :=
  ⟨fun c hc => (h.noSpace c (List.mem_of_head? hc)).1,
    fun c hc => (h.noSpace c (List.mem_of_getLast? hc)).1⟩

theorem oneLine_of_mem_listOf {raw item : Str} (h : item ∈ listOf raw) :
    OneLine item ∧ Trimmed item ∧ item ≠ [] := by
  obtain ⟨hmem, hne⟩ := List.mem_filter.mp h
  obtain ⟨part, hpart, rfl⟩ := List.mem_map.mp hmem
  exact ⟨(oneLine_of_mem_splitlines raw part hpart).sublist (strip_sublist part),
    trimmed_strip part, by simpa using hne⟩

theorem newline_of_isBreak {item : Block Str} (h : Whole item) :
    ∀ c ∈ valueOf item, isBreak c = true → c = '\n' := by
  intro c hc hb
  rw [valueOf_eq h, List.mem_append] at hc
  rcases hc with hc | hc
  · simp [(lineValue_spec h).1 c hc] at hb
  · obtain ⟨t, ht, hc⟩ := List.mem_flatMap.mp hc
    obtain ⟨line, hline, rfl⟩ := List.mem_map.mp (List.mem_filter.mp ht).1
    rcases List.mem_cons.mp hc with rfl | hc
    · rfl
    · have := oneLine_reads (h line (List.mem_cons_of_mem _ hline)) c hc
      simp [this] at hb

theorem lineSafe_of_newlines (h : ∀ c ∈ s, isBreak c = true → c = '\n') : LineSafe s := by
  by_cases hn : '\n' ∈ s
  · exact .inl hn
  · refine .inr fun c hc => ?_
    cases hb : isBreak c with
    | false => rfl
    | true => exact absurd (h c hc hb ▸ hc) hn

/-- A stripped option of a document is a text `set` writes as whole lines. -/
theorem lineSafe_get (h : doc.Whole) (sec key : Str) : LineSafe (strip ((doc.get sec key).getD [])) := by
  refine lineSafe_of_newlines fun c hc => ?_
  have hc := (strip_sublist _).subset hc
  rw [get_eq] at hc
  cases hw : (doc.writtenAt sec key).head? with
  | none => simp [hw] at hc
  | some item =>
    rw [hw] at hc
    exact newline_of_isBreak (h.of_mem_writtenAt (List.mem_of_head? hw)) c hc

theorem lineSafe_strip_idem (h : LineSafe (strip s)) : LineSafe (strip (strip s)) := by
  rwa [strip_strip]

theorem safePatch_of_parse {raw : Str} {p : MakefilePatch} (h : parsePatch raw = some p)
    (hraw : OneLine raw) : OneLine p.file ∧ OneLine p.line := by
  have hpart : ∀ {s a b : Str}, partition separator s = some (a, b) → a.Sublist s ∧ b.Sublist s := by
    intro s
    induction s with
    | nil => intro a b h; exact nomatch h
    | cons c s ih =>
      intro a b h
      rw [partition] at h
      split_ifs at h
      · obtain ⟨rfl, rfl⟩ := Prod.mk.inj (Option.some.inj h)
        exact ⟨List.nil_sublist _, List.drop_sublist _ _⟩
      · obtain ⟨⟨a', b'⟩, hp, he⟩ := Option.map_eq_some_iff.mp h
        obtain ⟨rfl, rfl⟩ := Prod.mk.inj he
        exact ⟨(ih hp).1.cons_cons c, (ih hp).2.cons c⟩
  unfold parsePatch at h
  split at h
  · exact nomatch h
  · next target line hp =>
    dsimp only at h
    split_ifs at h
    obtain rfl := Option.some.inj h
    exact ⟨hraw.sublist ((strip_sublist _).trans (hpart hp).1),
      hraw.sublist ((strip_sublist _).trans (hpart hp).2)⟩

/-! ## The families and the types of a document -/

def Unbracketed (doc : CfgDocument) : Prop :=
  ∀ sec ∈ doc.sectionNames firmwareWord, ∀ name ∈ declaredName firmwareWord sec,
    name.head? ≠ some '['

instance (doc : CfgDocument) : Decidable (Unbracketed doc) :=
  inferInstanceAs (Decidable (∀ sec ∈ doc.sectionNames firmwareWord, _))

def DistinctTypes (doc : CfgDocument) : Prop := ((readSections doc).map TypeSection.name).Nodup

instance (doc : CfgDocument) : Decidable (DistinctTypes doc) :=
  inferInstanceAs (Decidable (List.Nodup _))

theorem mem_namesOf {families : List FirmwareFamily} {fw : Str} :
    fw ∈ namesOf families ↔ fw ∈ families.map (·.name) := List.mem_mergeSort

theorem safeFamily_of_mem (hdoc : doc.Whole) (h : Unbracketed doc) :
    ∀ fw ∈ namesOf (loadFromDoc doc), SafeFamily fw := by
  intro fw hfw
  obtain ⟨family, hfamily, rfl⟩ := List.mem_map.mp (mem_namesOf.mp hfw)
  have hmem := (mem_foldl_dictPut hfamily).resolve_right (by simp)
  obtain ⟨sec, hsec, hf⟩ := List.mem_filterMap.mp hmem
  obtain ⟨name, hname, rfl⟩ := Option.map_eq_some_iff.mp hf
  have hnb := h sec hsec name hname
  have hline : OneLine sec := by
    rw [sectionNames, List.mem_filter, List.mem_eraseDups] at hsec
    exact oneLine_of_mem_names hdoc hsec.1
  unfold declaredName at hname
  dsimp only at hname
  split_ifs at hname with hne
  obtain rfl := Option.some.inj hname
  exact ⟨heads_of_trimmed (trimmed_strip _) hne, hnb,
    hline.sublist ((strip_sublist _).trans (List.drop_sublist _ _))⟩

theorem mapError_ok {ε ε' α : Type} {x : Except ε α} {f : ε → ε'} {a : α}
    (h : x.mapError f = .ok a) : x = .ok a := by
  cases x with
  | error e => cases h
  | ok b => simpa [Except.mapError] using h

theorem known_of_validate {entries : List Entry} {families : List FirmwareFamily}
    (h : validate doc entries families = .ok ()) :
    ∀ entry ∈ entries, ∀ fw ∈ entry.firmwares, fw ∈ families.map (·.name) := by
  unfold validate at h
  dsimp only at h
  obtain ⟨-, h⟩ := check_ok h
  obtain ⟨_, -, h⟩ := bind_ok h
  obtain ⟨_, -, h⟩ := bind_ok h
  split_ifs at h with hmiss
  simp only [ne_eq, not_not, List.flatMap_eq_nil_iff, List.map_eq_nil_iff] at hmiss
  intro entry hentry fw hfw
  by_contra hnot
  have hmem : fw ∈ (entry.firmwares.filter (· ∉ families.map (·.name))).eraseDups :=
    List.mem_eraseDups.mpr (List.mem_filter.mpr ⟨hfw, by simpa using hnot⟩)
  rw [hmiss entry hentry] at hmem
  exact nomatch hmem

theorem loadType_spec {entry : Entry} {mcu : McuType} (h : loadType doc entry = .ok mcu) :
    ∃ fws, entry.firmwares.foldlM (loadFw doc entry) [] = .ok fws ∧
      mcu = { name := entry.name, chipset := entry.chipset, serials := entry.serials
              canbusUuids := entry.canbusUuids, fws, firmwares := entry.firmwares
              profile := strip ((doc.get entry.section_ "kconfig_make_profile".toList).getD [])
              stopServices := doc.getCsv entry.section_ "stop_services".toList } := by
  obtain ⟨fws, hfws, h⟩ := bind_ok h
  exact ⟨fws, hfws, (Except.ok.inj h).symm⟩

theorem loadFw_safe {entry : Entry} {fws fws' : List (Str × FwConfig)} {fw : Str} (hdoc : doc.Whole)
    (hfw : SafeFamily fw) (h : loadFw doc entry fws fw = .ok fws')
    (hfws : ∀ slot ∈ fws, SafeFamily slot.1 ∧ SafeCfg slot.2) :
    ∀ slot ∈ fws', SafeFamily slot.1 ∧ SafeCfg slot.2 := by
  obtain ⟨patches, hpatches, h⟩ := bind_ok h
  rw [← Except.ok.inj h]
  intro slot hslot
  rcases mem_dictPut hslot with rfl | hslot
  · refine ⟨hfw, lineSafe_strip_idem (lineSafe_get hdoc _ _), fun p hp => ?_,
      fun repo hrepo => (oneLine_of_mem_listOf hrepo).1⟩
    rcases List.mem_append.mp hp with hp | hp
    · cases hl : fws.lookup fw with
      | none => simp [hl] at hp
      | some cfg =>
        rw [hl] at hp
        exact (hfws _ (mem_of_lookup hl)).2.patches p hp
    · obtain ⟨raw, hraw, hparse⟩ := (mem_mapM hpatches p).mp hp
      split at hparse
      · next patch hpatch =>
        obtain rfl := Except.ok.inj hparse
        exact safePatch_of_parse hpatch (oneLine_of_mem_listOf hraw).1
      · exact nomatch hparse
  · exact hfws slot hslot

theorem safeType_of_load {families : List FirmwareFamily} {entry : Entry} {mcu : McuType}
    (hdoc : doc.Whole) (hentry : entry ∈ read doc families)
    (hfw : ∀ fw ∈ entry.firmwares, SafeFamily fw) (h : loadType doc entry = .ok mcu) :
    SafeType mcu := by
  obtain ⟨fws, hfws, rfl⟩ := loadType_spec h
  obtain ⟨declared, -, rfl⟩ := List.mem_map.mp hentry
  have hwords : ∀ {raw : Option (List Str)}, (∃ key, raw = doc.getCsv declared.section_ key) →
      ∀ units ∈ raw, ∀ unit ∈ units, OneLine unit := by
    rintro raw ⟨key, rfl⟩ units hunits unit hunit
    obtain ⟨text, -, rfl⟩ := Option.map_eq_some_iff.mp hunits
    exact (isWord_of_mem_csv hunit).oneLine
  have hfold : ∀ (l : List Str) (acc acc' : List (Str × FwConfig)), (∀ fw ∈ l, SafeFamily fw) →
      (∀ slot ∈ acc, SafeFamily slot.1 ∧ SafeCfg slot.2) →
      ∀ entry : Entry, l.foldlM (loadFw doc entry) acc = .ok acc' →
      ∀ slot ∈ acc', SafeFamily slot.1 ∧ SafeCfg slot.2 := by
    intro l
    induction l with
    | nil =>
      intro acc acc' _ hacc _ hok
      rw [← Except.ok.inj hok]
      exact hacc
    | cons fw l ih =>
      intro acc acc' hl hacc e hok
      rw [List.forall_mem_cons] at hl
      obtain ⟨mid, hmid, hok⟩ := bind_ok hok
      exact ih mid acc' hl.2 (loadFw_safe hdoc hl.1 hmid hacc) e hok
  refine ⟨lineSafe_get hdoc _ _, fun x hx => (oneLine_of_mem_listOf hx).1,
    fun x hx => (oneLine_of_mem_listOf hx).1, fun fw hmem => (hfw fw hmem).oneLine,
    lineSafe_strip_idem (lineSafe_get hdoc _ _), hwords ⟨_, rfl⟩,
    hfold _ _ _ hfw (by simp) _ hfws⟩

/-! ## The registry of a file -/

/-- The parts a loaded registry is made of. -/
structure Loaded (text : Str) (reg : Registry) : Prop where
  doc : reg.doc = ofText text
  names : reg.doc.names.Nodup
  valid : validate reg.doc (read reg.doc (loadFromDoc reg.doc)) (loadFromDoc reg.doc) = .ok ()
  types : ∃ types, ((read reg.doc (loadFromDoc reg.doc)).filter isKconfig).mapM (loadType reg.doc) =
    .ok types ∧ reg.types = types.foldl (dictPut McuType.name) []

theorem loaded_of_load {text : Str} {reg : Registry} (h : load text = .ok reg) : Loaded text reg := by
  obtain ⟨doc, hdoc, h⟩ := bind_ok h
  have hdoc := mapError_ok hdoc
  unfold readDoc at hdoc
  dsimp only at hdoc
  split_ifs at hdoc with hnodup
  obtain rfl := Except.ok.inj hdoc
  obtain ⟨_, hvalid, h⟩ := bind_ok h
  obtain ⟨types, htypes, h⟩ := bind_ok h
  obtain rfl := Except.ok.inj h
  exact ⟨rfl, hnodup, mapError_ok hvalid, types, htypes, rfl⟩

theorem Loaded.whole {text : Str} {reg : Registry} (h : Loaded text reg) : reg.doc.Whole :=
  h.doc ▸ whole_ofText text

theorem Loaded.nodup {text : Str} {reg : Registry} (h : Loaded text reg) :
    (reg.types.map McuType.name).Nodup := by
  obtain ⟨types, -, htypes⟩ := h.types
  rw [htypes]
  exact nodup_foldl_dictPut (by simp) types

theorem Loaded.exists_entry {text : Str} {reg : Registry} (h : Loaded text reg) {mcu : McuType}
    (hmcu : mcu ∈ reg.types) : ∃ entry ∈ read reg.doc (loadFromDoc reg.doc),
      isKconfig entry = true ∧ loadType reg.doc entry = .ok mcu := by
  obtain ⟨types, hmap, htypes⟩ := h.types
  rw [htypes] at hmcu
  obtain ⟨entry, hentry, hload⟩ := (mem_mapM hmap mcu).mp
    ((mem_foldl_dictPut hmcu).resolve_right (by simp))
  exact ⟨entry, (List.mem_filter.mp hentry).1, (List.mem_filter.mp hentry).2, hload⟩

theorem noBracket_of_mem_names (h : sec ∈ doc.names) : ']' ∉ sec := by
  obtain ⟨block, -, rfl⟩ := List.mem_map.mp h
  unfold nameOf
  cases hn : sectionName block.head with
  | none => simp
  | some name =>
    unfold sectionName at hn
    split at hn
    · split at hn
      · dsimp only at hn
        split_ifs at hn
        rw [Option.getD_some, ← Option.some.inj hn]
        intro hm
        have := List.mem_takeWhile_imp ((strip_sublist _).subset hm)
        simp at this
      · exact nomatch hn
    · exact nomatch hn

theorem Loaded.storable {text : Str} {reg : Registry} (h : Loaded text reg)
    (hu : Unbracketed reg.doc) : ∀ mcu ∈ reg.types, Storable mcu := by
  intro mcu hmcu
  obtain ⟨entry, hentry, -, hload⟩ := h.exists_entry hmcu
  have hfw : ∀ fw ∈ entry.firmwares, SafeFamily fw := fun fw hfw =>
    safeFamily_of_mem h.whole hu fw (mem_namesOf.mpr (known_of_validate h.valid entry hentry fw hfw))
  refine ⟨?_, safeType_of_load h.whole hentry hfw hload⟩
  obtain ⟨fws, -, rfl⟩ := loadType_spec hload
  obtain ⟨declared, hdeclared, rfl⟩ := List.mem_map.mp hentry
  obtain ⟨hsec, ht⟩ := mem_readSections.mp hdeclared
  obtain ⟨htrim, hne⟩ := declared_trimmed ht
  have hsub : declared.name.Sublist declared.section_ := by
    unfold typeOf declaredName at ht
    dsimp only at ht
    split_ifs at ht
    rw [← Option.some.inj ht]
    exact (strip_sublist _).trans (List.drop_sublist _ _)
  exact ⟨hne, htrim, fun hm => noBracket_of_mem_names hsec (hsub.subset hm),
    (oneLine_of_mem_names h.whole hsec).sublist hsub⟩

end McuUpdater.Config
