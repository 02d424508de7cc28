import McuUpdater.Registry.Config

/-! What `_save` leaves in the document: each section of a type it holds has that type's
identities, and every other section the options it had. -/
namespace McuUpdater.Config
open PyText Dict Outline CfgDoc CfgDocument McuUpdater.Registry Typelist

/-! ## The options of one section written in turn -/

/-- A write that leaves the lines of the document lines of the file, and no header among them. -/
structure SafeWrite (w : Str × Option Value) : Prop where
  heads : Heads w.1
  noBracket : w.1.head? ≠ some '['
  oneLine : OneLine w.1
  value : ∀ v ∈ w.2, v.Whole

variable {doc : CfgDocument} {sec sec' key : Str} {w : Str × Option Value}
  {ws : List (Str × Option Value)}

theorem names_writeOption (hw : SafeWrite w) (h : sec ∈ doc.names) :
    (writeOption sec doc w).names = doc.names := by
  unfold writeOption
  split
  · exact names_set hw.heads.ne_nil hw.noBracket h _
  · exact names_removeOption doc sec w.1

theorem whole_writeOption (hw : SafeWrite w) (hsec : OneLine sec) (h : doc.Whole) :
    (writeOption sec doc w).Whole := by
  unfold writeOption
  split
  · next v hv => exact h.set hsec hw.oneLine (hw.value v hv)
  · exact h.removeOption w.1

theorem writtenAt_writeOption_of_ne (hw : SafeWrite w) (h : sec ∈ doc.names) (hne : sec' ≠ sec) :
    (writeOption sec doc w).writtenAt sec' key = doc.writtenAt sec' key := by
  unfold writeOption
  split
  · exact writtenAt_set_of_ne hw.heads.ne_nil hw.noBracket h _ hne
  · rw [writtenAt_removeOption, if_neg fun he => hne he.1]

theorem writtenAt_writeOption_isPrefix (hw : SafeWrite w) (h : sec ∈ doc.names) (hne : key ≠ w.1) :
    doc.writtenAt sec key <+: (writeOption sec doc w).writtenAt sec key := by
  unfold writeOption
  split
  · exact writtenAt_set_isPrefix hw.heads hw.noBracket h _ hne
  · refine (?_ : doc.writtenAt sec key = _) ▸ List.prefix_refl _
    rw [writtenAt_removeOption, if_neg fun he => hne he.2]

/-- The whole list of writes, as `_save` makes them of one section. -/
def writeAll (sec : Str) (doc : CfgDocument) (ws : List (Str × Option Value)) : CfgDocument :=
  ws.foldl (writeOption sec) doc

theorem writeAll_cons (sec : Str) (doc : CfgDocument) (w : Str × Option Value)
    (ws : List (Str × Option Value)) :
    writeAll sec doc (w :: ws) = writeAll sec (writeOption sec doc w) ws := rfl

theorem writeAll_append (sec : Str) (doc : CfgDocument) (ws ws' : List (Str × Option Value)) :
    writeAll sec doc (ws ++ ws') = writeAll sec (writeAll sec doc ws) ws' := List.foldl_append

theorem names_writeAll (hws : ∀ w ∈ ws, SafeWrite w) (h : sec ∈ doc.names) :
    (writeAll sec doc ws).names = doc.names := by
  induction ws generalizing doc with
  | nil => rfl
  | cons w ws ih =>
    rw [List.forall_mem_cons] at hws
    have hn := names_writeOption hws.1 h
    rw [writeAll_cons, ih hws.2 (hn ▸ h), hn]

theorem whole_writeAll (hws : ∀ w ∈ ws, SafeWrite w) (hsec : OneLine sec) (h : doc.Whole) :
    (writeAll sec doc ws).Whole := by
  induction ws generalizing doc with
  | nil => exact h
  | cons w ws ih =>
    rw [List.forall_mem_cons] at hws
    exact ih hws.2 (whole_writeOption hws.1 hsec h)

theorem writtenAt_writeAll_of_ne (hws : ∀ w ∈ ws, SafeWrite w) (h : sec ∈ doc.names)
    (hne : sec' ≠ sec) : (writeAll sec doc ws).writtenAt sec' key = doc.writtenAt sec' key := by
  induction ws generalizing doc with
  | nil => rfl
  | cons w ws ih =>
    rw [List.forall_mem_cons] at hws
    rw [writeAll_cons, ih hws.2 ((names_writeOption hws.1 h).symm ▸ h),
      writtenAt_writeOption_of_ne hws.1 h hne]

theorem writtenAt_writeAll_isPrefix (hws : ∀ w ∈ ws, SafeWrite w) (h : sec ∈ doc.names)
    (hkey : key ∉ ws.map Prod.fst) :
    doc.writtenAt sec key <+: (writeAll sec doc ws).writtenAt sec key := by
  induction ws generalizing doc with
  | nil => exact List.prefix_refl _
  | cons w ws ih =>
    rw [List.forall_mem_cons] at hws
    rw [List.map_cons, List.mem_cons, not_or] at hkey
    exact (writtenAt_writeOption_isPrefix hws.1 h hkey.1).trans
      (ih hws.2 ((names_writeOption hws.1 h).symm ▸ h) hkey.2)

theorem writtenAt_writeAll (hws : ∀ w ∈ ws, SafeWrite w) (hnodup : (ws.map Prod.fst).Nodup)
    (hdoc : doc.Whole) (hsec : OneLine sec) (h : sec ∈ doc.names) (hkey : KeySafe key)
    {value : Option Value} (hmem : (key, value) ∈ ws) : ∃ old, doc.writtenAt sec key <+: old ∧
      (∀ item ∈ old, Whole item) ∧
      (match value with
        | some v => [render key v old.head?]
        | none => old.tail) <+: (writeAll sec doc ws).writtenAt sec key := by
  obtain ⟨before, after, rfl⟩ := List.append_of_mem hmem
  simp only [List.forall_mem_append, List.forall_mem_cons] at hws
  rw [List.map_append, List.map_cons, List.nodup_append, List.nodup_cons] at hnodup
  obtain ⟨-, ⟨hafter, -⟩, hapart⟩ := hnodup
  have hbefore : key ∉ before.map Prod.fst := fun hm => hapart key hm key (by simp) rfl
  have hmid := names_writeAll hws.1 h
  have hmid' := names_writeOption (w := (key, value)) hws.2.1 (hmid ▸ h)
  have hwhole := whole_writeAll hws.1 hsec hdoc
  refine ⟨(writeAll sec doc before).writtenAt sec key, writtenAt_writeAll_isPrefix hws.1 h hbefore,
    fun item hitem => hwhole.of_mem_writtenAt hitem, ?_⟩
  rw [writeAll_append, writeAll_cons]
  refine List.IsPrefix.trans ?_
    (writtenAt_writeAll_isPrefix hws.2.2 (hmid'.symm ▸ hmid ▸ h) hafter)
  cases value with
  | none =>
    simp only [writeOption, writtenAt_removeOption, and_self, if_true]
    exact List.prefix_refl _
  | some v =>
    rw [writeOption, writtenAt_set hkey hws.2.1.noBracket (hmid ▸ h), if_pos ⟨rfl, rfl⟩]
    cases (writeAll sec doc before).writtenAt sec key with
    | nil => exact List.prefix_refl _
    | cons item rest => exact List.prefix_append [_] rest

/-! Where every key written reads back as itself, the writes do not disturb each other. -/

def putWritten (key : Str) (value : Option Value) (old : List (Block Str)) : List (Block Str) :=
  match value with
  | none => old.tail
  | some v => render key v old.head? :: old.tail

theorem writtenAt_writeOption (hw : SafeWrite w) (hkey : w.2.isSome → KeySafe w.1)
    (h : sec ∈ doc.names) : (writeOption sec doc w).writtenAt sec key =
      if key = w.1 then putWritten key w.2 (doc.writtenAt sec key)
      else doc.writtenAt sec key := by
  obtain ⟨k, value⟩ := w
  cases value with
  | none =>
    rw [writeOption, writtenAt_removeOption]
    by_cases hk : key = k
    · simp [hk, putWritten]
    · simp [hk]
  | some v =>
    rw [writeOption, writtenAt_set (hkey rfl) hw.noBracket h]
    by_cases hk : key = k
    · subst hk
      simp only [true_and, if_true, putWritten]
      cases doc.writtenAt sec key <;> rfl
    · simp [hk]

theorem writtenAt_writeAll_exact (hws : ∀ w ∈ ws, SafeWrite w)
    (hkeys : ∀ w ∈ ws, w.2.isSome → KeySafe w.1) (hnodup : (ws.map Prod.fst).Nodup)
    (h : sec ∈ doc.names) (key : Str) : (writeAll sec doc ws).writtenAt sec key =
      match ws.lookup key with
      | some value => putWritten key value (doc.writtenAt sec key)
      | none => doc.writtenAt sec key := by
  induction ws generalizing doc with
  | nil => rfl
  | cons w ws ih =>
    obtain ⟨k, value⟩ := w
    rw [List.forall_mem_cons] at hws hkeys
    rw [List.map_cons, List.nodup_cons] at hnodup
    have hn := names_writeOption hws.1 h
    rw [writeAll_cons, ih hws.2 hkeys.2 hnodup.2 (hn.symm ▸ h),
      writtenAt_writeOption hws.1 hkeys.1 h, List.lookup_cons]
    by_cases hk : key = k
    · subst hk
      have hnone : ws.lookup key = none := List.lookup_eq_none_iff.mpr fun w hw => by
        have hne : w.1 ≠ key := fun he => hnodup.1 (List.mem_map.mpr ⟨w, hw, he⟩)
        simpa using hne.symm
      simp [hnone]
    · have hbeq : (key == k) = false := by simpa using hk
      rw [if_neg hk, hbeq]

/-! ## The writes of one type -/

/-- A text that `set` writes as whole lines. -/
def LineSafe (t : Str) : Prop := '\n' ∈ t ∨ OneLine t

/-- A family name that cannot start a section header. -/
structure SafeFamily (fw : Str) : Prop where
  heads : Heads fw
  noBracket : fw.head? ≠ some '['
  oneLine : OneLine fw

structure SafeCfg (cfg : FwConfig) : Prop where
  extraArgs : LineSafe (strip cfg.extraArgs)
  patches : ∀ p ∈ cfg.makefilePatches, OneLine p.file ∧ OneLine p.line
  extraRepos : ∀ repo ∈ cfg.extraRepos, OneLine repo

structure SafeType (mcu : McuType) : Prop where
  chipset : LineSafe mcu.chipset
  serials : ∀ serial ∈ mcu.serials, OneLine serial
  canbusUuids : ∀ uuid ∈ mcu.canbusUuids, OneLine uuid
  firmwares : ∀ fw ∈ mcu.firmwares, OneLine fw
  profile : LineSafe (strip mcu.profile)
  stopServices : ∀ units ∈ mcu.stopServices, ∀ unit ∈ units, OneLine unit
  fws : ∀ slot ∈ mcu.fws, SafeFamily slot.1 ∧ SafeCfg slot.2

def serialsKey : Str := "serials".toList
def uuidsKey : Str := "canbus_uuids".toList

/-- The last letters of a key tell the family options from each other and from all others. -/
def tag (key : Str) : Str := key.reverse.take 3

theorem tag_extraArgsKey (fw : Str) : tag (extraArgsKey fw) = ['s', 'g', 'r'] := by
  simp [tag, extraArgsKey]

theorem tag_patchesKey (fw : Str) : tag (patchesKey fw) = ['s', 'e', 'h'] := by
  simp [tag, patchesKey]

theorem tag_extraReposKey (fw : Str) : tag (extraReposKey fw) = ['s', 'o', 'p'] := by
  simp [tag, extraReposKey]

def fixedKeys : List Str :=
  ["chipset".toList, "serials".toList, "canbus_uuids".toList, "firmware".toList,
    "kconfig_make_profile".toList, "stop_services".toList, "katapult_installed".toList]

def familyKeys (fw : Str) : List Str := [extraArgsKey fw, patchesKey fw, extraReposKey fw]

theorem fixedKeys_nodup : fixedKeys.Nodup := by decide

theorem extraArgsKey_ne_patchesKey (fw fw' : Str) : extraArgsKey fw ≠ patchesKey fw' := fun he => by
  have ht := congrArg tag he
  rw [tag_extraArgsKey, tag_patchesKey] at ht
  exact absurd ht (by decide)

theorem extraArgsKey_ne_extraReposKey (fw fw' : Str) : extraArgsKey fw ≠ extraReposKey fw' :=
  fun he => by
    have ht := congrArg tag he
    rw [tag_extraArgsKey, tag_extraReposKey] at ht
    exact absurd ht (by decide)

theorem patchesKey_ne_extraReposKey (fw fw' : Str) : patchesKey fw ≠ extraReposKey fw' := fun he => by
  have ht := congrArg tag he
  rw [tag_patchesKey, tag_extraReposKey] at ht
  exact absurd ht (by decide)

theorem familyKeys_nodup (fw : Str) : (familyKeys fw).Nodup := by
  simp [familyKeys, extraArgsKey_ne_patchesKey, extraArgsKey_ne_extraReposKey,
    patchesKey_ne_extraReposKey]

theorem fixedKeys_disjoint (fw : Str) : List.Disjoint fixedKeys (familyKeys fw) := by
  intro key hfixed hkey
  have htag : tag key ∈ fixedKeys.map tag := List.mem_map_of_mem hfixed
  simp only [familyKeys, List.mem_cons, List.not_mem_nil, or_false] at hkey
  rcases hkey with rfl | rfl | rfl
  · rw [tag_extraArgsKey] at htag
    exact absurd htag (by decide)
  · rw [tag_patchesKey] at htag
    exact absurd htag (by decide)
  · rw [tag_extraReposKey] at htag
    exact absurd htag (by decide)

theorem familyKeys_disjoint {fw fw' : Str} (h : fw ≠ fw') :
    List.Disjoint (familyKeys fw) (familyKeys fw') := by
  intro key hkey hkey'
  simp only [familyKeys, List.mem_cons, List.not_mem_nil, or_false] at hkey hkey'
  rcases hkey with rfl | rfl | rfl
  · rcases hkey' with he | he | he
    · exact h (List.append_cancel_right he)
    · exact extraArgsKey_ne_patchesKey fw fw' he
    · exact extraArgsKey_ne_extraReposKey fw fw' he
  · rcases hkey' with he | he | he
    · exact extraArgsKey_ne_patchesKey fw' fw he.symm
    · exact h (List.append_cancel_right he)
    · exact patchesKey_ne_extraReposKey fw fw' he
  · rcases hkey' with he | he | he
    · exact extraArgsKey_ne_extraReposKey fw' fw he.symm
    · exact patchesKey_ne_extraReposKey fw' fw he.symm
    · exact h (List.append_cancel_right he)

theorem keys_writes (fwNames : List Str) (mcu : McuType) : (writes fwNames mcu).map Prod.fst =
    fixedKeys ++ (mcu.fws.map Prod.fst ++ fwNames).eraseDups.flatMap familyKeys := by
  rw [writes, List.map_append, List.map_flatMap]
  rfl

theorem keys_writes_nodup (fwNames : List Str) (mcu : McuType) :
    ((writes fwNames mcu).map Prod.fst).Nodup := by
  rw [keys_writes, List.nodup_append']
  refine ⟨fixedKeys_nodup, List.nodup_flatMap.mpr ⟨fun fw _ => familyKeys_nodup fw, ?_⟩, ?_⟩
  · exact (nodup_eraseDups _).imp familyKeys_disjoint
  · intro key hfixed hkey
    obtain ⟨fw, -, hkey⟩ := List.mem_flatMap.mp hkey
    exact fixedKeys_disjoint fw hfixed hkey

theorem oneLine_joinWith {sep : Str} (hsep : OneLine sep) {parts : List Str}
    (h : ∀ part ∈ parts, OneLine part) : OneLine (joinWith sep parts) := by
  induction parts with
  | nil => exact oneLine_nil
  | cons part parts ih =>
    rw [List.forall_mem_cons] at h
    cases parts with
    | nil => exact h.1
    | cons next parts =>
      rw [joinWith_cons_cons]
      exact oneLine_append.mpr ⟨oneLine_append.mpr ⟨h.1, hsep⟩, ih h.2⟩

theorem SafeFamily.append {fw : Str} (h : SafeFamily fw) {s : Str} (hs : OneLine s) :
    Heads (fw ++ s) ∧ (fw ++ s).head? ≠ some '[' ∧ OneLine (fw ++ s) := by
  obtain ⟨⟨c, t, rfl, hsp, htab⟩, hbracket, hline⟩ := h
  exact ⟨⟨c, t ++ s, rfl, hsp, htab⟩, by simpa using hbracket, oneLine_append.mpr ⟨hline, hs⟩⟩

theorem safeCfg_default : SafeCfg {} := ⟨.inr (by decide), by simp, by simp⟩

theorem SafeType.lookup {mcu : McuType} (h : SafeType mcu) (fw : Str) :
    SafeCfg ((mcu.fws.lookup fw).getD {}) := by
  cases hl : mcu.fws.lookup fw with
  | none => exact safeCfg_default
  | some cfg => exact (h.fws _ (mem_of_lookup hl)).2

/-- No character of a fixed key ends a line or starts a header. -/
theorem fixedKeys_check : (fixedKeys.all fun key =>
    key.head?.any (fun c => c ≠ ' ' && c ≠ '\t' && c ≠ '[') && key.all (!isBreak ·)) = true := rfl

theorem fixedKey_safe : ∀ key ∈ fixedKeys, Heads key ∧ key.head? ≠ some '[' ∧ OneLine key := by
  intro key hkey
  have hcheck := List.all_eq_true.mp fixedKeys_check key hkey
  simp only [Bool.and_eq_true, Option.any_eq_true, List.all_eq_true, Bool.not_eq_true'] at hcheck
  obtain ⟨⟨c, hc, hchar⟩, hline⟩ := hcheck
  simp only [decide_eq_true_eq] at hchar
  obtain ⟨t, rfl⟩ := List.head?_eq_some_iff.mp hc
  exact ⟨⟨c, t, rfl, hchar.1⟩, by simpa using hchar.2, hline⟩

/-- Everything `_save` writes of such a type can stand in the file. -/
theorem safeWrite_of_mem_writes {fwNames : List Str} {mcu : McuType}
    (hfw : ∀ fw ∈ fwNames, SafeFamily fw) (h : SafeType mcu) :
    ∀ w ∈ writes fwNames mcu, SafeWrite w := by
  have hcomma : OneLine commaSpace := by decide
  have fixed : ∀ {key : Str} {value : Option Value}, key ∈ fixedKeys → (∀ v ∈ value, v.Whole) →
      SafeWrite (key, value) := fun hkey hvalue =>
    ⟨(fixedKey_safe _ hkey).1, (fixedKey_safe _ hkey).2.1, (fixedKey_safe _ hkey).2.2, hvalue⟩
  have whole : ∀ {value : Value}, value.Whole → ∀ v ∈ some value, v.Whole := by
    rintro value h _ ⟨⟩
    exact h
  intro w hw
  rw [writes, List.mem_append] at hw
  rcases hw with hw | hw
  · simp only [List.mem_cons, List.not_mem_nil, or_false] at hw
    rcases hw with rfl | rfl | rfl | rfl | rfl | rfl | rfl
    · exact fixed (by simp [fixedKeys]) (whole h.chipset)
    · exact fixed (by simp [fixedKeys]) (whole h.serials)
    · refine fixed (by simp [fixedKeys]) ?_
      split_ifs
      · simp
      · exact whole h.canbusUuids
    · exact fixed (by simp [fixedKeys]) (whole (.inr (oneLine_joinWith hcomma h.firmwares)))
    · refine fixed (by simp [fixedKeys]) ?_
      split_ifs
      · simp
      · exact whole h.profile
    · refine fixed (by simp [fixedKeys]) fun v hv => ?_
      obtain ⟨units, hunits, rfl⟩ := Option.map_eq_some_iff.mp hv
      exact .inr (oneLine_joinWith hcomma (h.stopServices units hunits))
    · exact fixed (by simp [fixedKeys]) (by simp)
  · obtain ⟨fw, hmem, hw⟩ := List.mem_flatMap.mp hw
    have hsafe : SafeFamily fw := by
      rcases List.mem_append.mp (List.mem_eraseDups.mp hmem) with hmem | hmem
      · obtain ⟨slot, hslot, rfl⟩ := List.mem_map.mp hmem
        exact (h.fws slot hslot).1
      · exact hfw fw hmem
    have hcfg := h.lookup fw
    simp only [List.mem_cons, List.not_mem_nil, or_false] at hw
    rcases hw with rfl | rfl | rfl
    · obtain ⟨hheads, hbracket, hline⟩ := hsafe.append (s := "_extra_args".toList) (by decide)
      refine ⟨hheads, hbracket, hline, ?_⟩
      dsimp only
      split_ifs
      · simp
      · exact whole hcfg.extraArgs
    · obtain ⟨hheads, hbracket, hline⟩ := hsafe.append (s := "_makefile_patches".toList) (by decide)
      refine ⟨hheads, hbracket, hline, ?_⟩
      dsimp only
      split_ifs
      · simp
      · refine whole (List.forall_mem_map.mpr fun p hp => ?_)
        obtain ⟨hfile, hline⟩ := hcfg.patches p (List.mem_filter.mp hp).1
        have hsp : isBreak ' ' = false := by decide
        have hsep : OneLine separator := by decide
        exact oneLine_append.mpr ⟨hfile, oneLine_cons.mpr ⟨hsp, oneLine_append.mpr
          ⟨hsep, oneLine_cons.mpr ⟨hsp, hline⟩⟩⟩⟩
    · obtain ⟨hheads, hbracket, hline⟩ := hsafe.append (s := "_extra_repos".toList) (by decide)
      refine ⟨hheads, hbracket, hline, ?_⟩
      dsimp only
      split_ifs
      · simp
      · exact whole hcfg.extraRepos

/-! ## Which section a type is written to -/

def typeOf (sec : Str) : Option Str :=
  if sec = typeWord ∨ (typeWord ++ [' ']).isPrefixOf sec then declaredName typeWord sec else none

theorem readSections_eq (doc : CfgDocument) : readSections doc =
    doc.names.eraseDups.filterMap fun sec => (typeOf sec).map (⟨·, sec⟩) := by
  rw [readSections, sectionNames, ← names, List.filterMap_filter]
  congr 1
  funext sec
  simp only [typeOf, Bool.or_eq_true, decide_eq_true_eq]
  split_ifs <;> rfl

theorem mem_readSections {declared : TypeSection} : declared ∈ readSections doc ↔
    declared.section_ ∈ doc.names ∧ typeOf declared.section_ = some declared.name := by
  obtain ⟨t, s⟩ := declared
  simp only [readSections_eq, List.mem_filterMap, List.mem_eraseDups, Option.map_eq_some_iff,
    TypeSection.mk.injEq]
  constructor
  · rintro ⟨sec, hsec, t', ht, rfl, rfl⟩
    exact ⟨hsec, ht⟩
  · rintro ⟨hsec, ht⟩
    exact ⟨s, hsec, t, ht, rfl, rfl⟩

def ownSection (name : Str) : Str := typeWord ++ ' ' :: name

theorem declared_trimmed {sec name : Str} (h : typeOf sec = some name) : Trimmed name ∧ name ≠ [] := by
  unfold typeOf declaredName at h
  dsimp only at h
  split_ifs at h with _ hne
  obtain rfl := Option.some.inj h
  exact ⟨trimmed_strip _, hne⟩

theorem typeOf_ownSection {name : Str} (h : Trimmed name) (hne : name ≠ []) :
    typeOf (ownSection name) = some name := by
  have hlen : (ownSection name).drop typeWord.length = ' ' :: name := rfl
  have hstrip : strip (' ' :: name) = name := by
    rw [strip, show ' ' :: name = [' '] ++ name from rfl,
      lstrip_append_of_space (by simp [isSpace]), ← strip, strip_of_trimmed h]
  have hstart : (typeWord ++ [' ']).isPrefixOf (ownSection name) = true := rfl
  rw [typeOf, if_pos (.inr hstart), declaredName, hlen, hstrip, if_neg hne]

theorem sectionFor_spec (doc : CfgDocument) (name : Str) :
    (sectionFor doc name ∈ doc.names ∧ typeOf (sectionFor doc name) = some name) ∨
      ((∀ sec ∈ doc.names, typeOf sec ≠ some name) ∧ sectionFor doc name = ownSection name) := by
  unfold sectionFor
  cases hfind : (readSections doc).find? (·.name = name) with
  | none =>
    refine .inr ⟨fun sec hsec ht => ?_, rfl⟩
    exact List.find?_eq_none.mp hfind ⟨name, sec⟩ (mem_readSections.mpr ⟨hsec, ht⟩) (by simp)
  | some declared =>
    have hmem := mem_readSections.mp (List.mem_of_find?_eq_some hfind)
    have hname : declared.name = name := by simpa using List.find?_some hfind
    exact .inl ⟨hmem.1, hname ▸ hmem.2⟩

theorem typeOf_sectionFor {name : Str} (h : Trimmed name) (hne : name ≠ []) :
    typeOf (sectionFor doc name) = some name := by
  rcases sectionFor_spec doc name with ⟨-, ht⟩ | ⟨-, hs⟩
  · exact ht
  · rw [hs, typeOf_ownSection h hne]

theorem sectionFor_congr {doc' : CfgDocument} (h : doc'.names = doc.names) (name : Str) :
    sectionFor doc' name = sectionFor doc name := by
  rw [sectionFor, sectionFor, readSections_eq, readSections_eq, h]

theorem sectionFor_of_names {doc' : CfgDocument} {new : Str} (hnew : typeOf (ownSection new) = some new)
    (h : doc'.names = doc.names ++ [ownSection new]) (hnone : ∀ sec ∈ doc.names, typeOf sec ≠ some new)
    (name : Str) : sectionFor doc' name = sectionFor doc name := by
  have hnot : ownSection new ∉ doc.names := fun hm => hnone _ hm hnew
  have hread : readSections doc' = readSections doc ++ [⟨new, ownSection new⟩] := by
    have herase : [ownSection new].removeAll doc.names = [ownSection new] := by
      simp [List.removeAll, hnot]
    rw [readSections_eq, readSections_eq, h, List.eraseDups_append, herase, List.filterMap_append,
      eraseDups_of_nodup (List.nodup_singleton _), List.filterMap_cons, hnew]
    rfl
  have hempty : ∀ declared ∈ readSections doc, declared.name ≠ new := fun declared hd he =>
    hnone _ (mem_readSections.mp hd).1 (he ▸ (mem_readSections.mp hd).2)
  unfold sectionFor
  rw [hread, List.find?_append]
  cases hfind : (readSections doc).find? (·.name = name) with
  | some declared => rfl
  | none =>
    by_cases hname : new = name
    · simp [hname, ownSection]
    · simp [hname]

theorem oneLine_of_mem_names (h : doc.Whole) (hsec : sec ∈ doc.names) : OneLine sec := by
  obtain ⟨block, hblock, rfl⟩ := List.mem_map.mp hsec
  have hline : OneLine block.head := h.of_mem_sections hblock _ (by simp [Block.lines])
  unfold nameOf
  cases hn : sectionName block.head with
  | none => exact oneLine_nil
  | some name =>
    refine hline.sublist ?_
    unfold sectionName at hn
    split at hn
    · next s hs =>
      split at hn
      · dsimp only at hn
        split_ifs at hn
        obtain rfl := Option.some.inj hn
        rw [hs]
        exact ((strip_sublist _).trans (List.takeWhile_sublist _)).trans (List.sublist_cons_self ..)
      · cases hn
    · cases hn

/-! ## The document `_save` writes -/

/-- A type name that heads a section of its own. -/
structure SafeName (name : Str) : Prop where
  ne_nil : name ≠ []
  trimmed : Trimmed name
  noBracket : ']' ∉ name
  oneLine : OneLine name

theorem nameSafe_ownSection {name : Str} (h : SafeName name) : NameSafe (ownSection name) := by
  refine ⟨by simp [ownSection, typeWord], ?_, ⟨?_, fun c hc => ?_⟩⟩
  · simp [ownSection, typeWord, h.noBracket]
  · simp [ownSection, typeWord, isSpace]
  · refine h.trimmed.2 c ?_
    have hlast : (ownSection name).getLast? = name.getLast? := by
      rw [ownSection, List.append_cons, List.getLast?_append_of_ne_nil _ h.ne_nil]
    rwa [hlast] at hc

theorem oneLine_ownSection {name : Str} (h : SafeName name) : OneLine (ownSection name) := by
  have hstart : OneLine (typeWord ++ [' ']) := by decide
  rw [ownSection, List.append_cons]
  exact oneLine_append.mpr ⟨hstart, h.oneLine⟩

/-- What `_save` needs to hold of a type so that it lands in the file whole. -/
structure Storable (mcu : McuType) : Prop where
  name : SafeName mcu.name
  texts : SafeType mcu

section SaveType
variable {fwNames : List Str} {mcu : McuType}

theorem sectionFor_nameSafe (h : SafeName mcu.name) :
    sectionFor doc mcu.name ∈ doc.names ∨ NameSafe (sectionFor doc mcu.name) := by
  rcases sectionFor_spec doc mcu.name with ⟨hmem, -⟩ | ⟨-, hs⟩
  · exact .inl hmem
  · exact .inr (hs ▸ nameSafe_ownSection h)

theorem foldl_writeOption {value : Value} (h : sec ∈ doc.names ∨ NameSafe sec) :
    ((key, some value) :: ws).foldl (writeOption sec) doc =
      writeAll sec (doc.addSection sec) ((key, some value) :: ws) := by
  rw [writeAll_cons, writeAll, List.foldl_cons]
  simp only [writeOption, CfgDocument.set, addSection_of_mem (mem_names_addSection h)]

theorem saveType_eq (h : SafeName mcu.name) : saveType fwNames doc mcu =
    writeAll (sectionFor doc mcu.name) (doc.addSection (sectionFor doc mcu.name))
      (writes fwNames mcu) := by
  rw [saveType, writes, List.cons_append, foldl_writeOption (sectionFor_nameSafe h)]

theorem oneLine_sectionFor (h : SafeName mcu.name) (hdoc : doc.Whole) :
    OneLine (sectionFor doc mcu.name) := by
  rcases sectionFor_spec doc mcu.name with ⟨hmem, -⟩ | ⟨-, hs⟩
  · exact oneLine_of_mem_names hdoc hmem
  · exact hs ▸ oneLine_ownSection h

theorem whole_addSection_sectionFor (h : SafeName mcu.name) (hdoc : doc.Whole) :
    (doc.addSection (sectionFor doc mcu.name)).Whole :=
  hdoc.addSection (oneLine_sectionFor h hdoc)

variable (hfw : ∀ fw ∈ fwNames, SafeFamily fw) (h : Storable mcu)
include hfw h

theorem names_saveType : (saveType fwNames doc mcu).names =
    (doc.addSection (sectionFor doc mcu.name)).names := by
  rw [saveType_eq h.name, names_writeAll (safeWrite_of_mem_writes hfw h.texts)
    (mem_names_addSection (sectionFor_nameSafe h.name))]

theorem whole_saveType (hdoc : doc.Whole) : (saveType fwNames doc mcu).Whole := by
  rw [saveType_eq h.name]
  exact whole_writeAll (safeWrite_of_mem_writes hfw h.texts) (oneLine_sectionFor h.name hdoc)
    (whole_addSection_sectionFor h.name hdoc)

theorem writtenAt_saveType_of_ne (hne : sec ≠ sectionFor doc mcu.name) (key : Str) :
    (saveType fwNames doc mcu).writtenAt sec key = doc.writtenAt sec key := by
  rw [saveType_eq h.name, writtenAt_writeAll_of_ne (safeWrite_of_mem_writes hfw h.texts)
    (mem_names_addSection (sectionFor_nameSafe h.name)) hne,
    writtenAt_addSection_cases (sectionFor_nameSafe h.name)]

theorem sectionFor_saveType (name : Str) :
    sectionFor (saveType fwNames doc mcu) name = sectionFor doc name := by
  have hn : (saveType fwNames doc mcu).names = (doc.addSection (sectionFor doc mcu.name)).names :=
    names_saveType hfw h
  rcases sectionFor_spec doc mcu.name with ⟨hmem, -⟩ | ⟨hnone, hs⟩
  · rw [addSection_of_mem hmem] at hn
    exact sectionFor_congr hn name
  · have hnew := typeOf_ownSection h.name.trimmed h.name.ne_nil
    refine sectionFor_of_names hnew ?_ hnone name
    rw [hn, hs, names_addSection (nameSafe_ownSection h.name) fun hm => hnone _ hm hnew]

end SaveType

/-- The types saved in turn: each section holds what the writes of its type make of it, and the
other sections what they held. -/
structure SavedAll (fwNames : List Str) (types : List McuType) (doc final : CfgDocument) : Prop where
  whole : final.Whole
  sectionFor : ∀ name, sectionFor final name = sectionFor doc name
  others : ∀ sec, (∀ mcu ∈ types, sec ≠ Typelist.sectionFor doc mcu.name) →
    ∀ key, final.writtenAt sec key = doc.writtenAt sec key
  own : ∀ mcu ∈ types, ∃ mid : CfgDocument, mid.Whole ∧
    Typelist.sectionFor doc mcu.name ∈ mid.names ∧
    (∀ key, mid.writtenAt (Typelist.sectionFor doc mcu.name) key =
      doc.writtenAt (Typelist.sectionFor doc mcu.name) key) ∧
    ∀ key, final.writtenAt (Typelist.sectionFor doc mcu.name) key =
      (writeAll (Typelist.sectionFor doc mcu.name) mid (writes fwNames mcu)).writtenAt
        (Typelist.sectionFor doc mcu.name) key
  names : ∀ sec, sec ∈ final.names ↔
    sec ∈ doc.names ∨ ∃ mcu ∈ types, sec = Typelist.sectionFor doc mcu.name
  nodup : doc.names.Nodup → final.names.Nodup

theorem savedAll {fwNames : List Str} (hfw : ∀ fw ∈ fwNames, SafeFamily fw) {types : List McuType}
    (h : ∀ mcu ∈ types, Storable mcu) (hnodup : (types.map McuType.name).Nodup) (hdoc : doc.Whole) :
    SavedAll fwNames types doc (types.foldl (saveType fwNames) doc) := by
  induction types generalizing doc with
  | nil => exact ⟨hdoc, fun _ => rfl, fun _ _ _ => rfl, by simp, by simp, id⟩
  | cons mcu types ih =>
    rw [List.forall_mem_cons] at h
    rw [List.map_cons, List.nodup_cons] at hnodup
    have hsafe : Typelist.sectionFor doc mcu.name ∈ doc.names ∨
        NameSafe (Typelist.sectionFor doc mcu.name) := sectionFor_nameSafe h.1.name
    have hsame : ∀ name, Typelist.sectionFor (saveType fwNames doc mcu) name =
        Typelist.sectionFor doc name := sectionFor_saveType hfw h.1
    have hn : (saveType fwNames doc mcu).names =
        (doc.addSection (Typelist.sectionFor doc mcu.name)).names := names_saveType hfw h.1
    have hrest := ih h.2 hnodup.2 (whole_saveType hfw h.1 hdoc)
    -- no later type is written to the section of this one
    have hapart : ∀ other ∈ types, Typelist.sectionFor doc mcu.name ≠
        Typelist.sectionFor doc other.name := fun other hother he => by
      have ht : typeOf (Typelist.sectionFor doc mcu.name) = some mcu.name :=
        typeOf_sectionFor h.1.name.trimmed h.1.name.ne_nil
      have hname := (h.2 other hother).name
      rw [he, typeOf_sectionFor hname.trimmed hname.ne_nil] at ht
      exact hnodup.1 (List.mem_map.mpr ⟨other, hother, Option.some.inj ht⟩)
    rw [List.foldl_cons]
    refine ⟨hrest.whole, fun name => (hrest.sectionFor name).trans (hsame name), fun sec hsec key => ?_,
      fun other hother => ?_, fun sec => ?_, fun hd => hrest.nodup ?_⟩
    · rw [List.forall_mem_cons] at hsec
      rw [hrest.others sec (fun other hother => hsame other.name ▸ hsec.2 other hother),
        writtenAt_saveType_of_ne hfw h.1 hsec.1]
    · rcases List.mem_cons.mp hother with rfl | hother
      · refine ⟨doc.addSection (Typelist.sectionFor doc other.name),
          whole_addSection_sectionFor h.1.name hdoc, mem_names_addSection hsafe,
          fun key => writtenAt_addSection_cases hsafe _ key, fun key => ?_⟩
        rw [hrest.others _ fun later hlater => hsame later.name ▸ hapart later hlater,
          saveType_eq h.1.name]
      · obtain ⟨mid, hwhole, hmem, hbefore, hafter⟩ := hrest.own other hother
        rw [hsame other.name] at hmem hbefore hafter
        refine ⟨mid, hwhole, hmem, fun key => ?_, hafter⟩
        rw [hbefore key, writtenAt_saveType_of_ne hfw h.1 (hapart other hother).symm]
    · rw [hrest.names, hn, names_addSection_cases hsafe]
      simp only [hsame, List.mem_cons, exists_eq_or_imp]
      split_ifs with hmem
      · constructor
        · rintro (hs | hs)
          · exact .inl hs
          · exact .inr (.inr hs)
        · rintro (hs | rfl | hs)
          · exact .inl hs
          · exact .inl hmem
          · exact .inr hs
      · simp [or_assoc]
    · rw [hn, names_addSection_cases hsafe]
      split_ifs with hmem
      · exact hd
      · rw [List.nodup_append']
        refine ⟨hd, by simp, fun s hs hs' => hmem ?_⟩
        rwa [← List.mem_singleton.mp hs']

end McuUpdater.Config
