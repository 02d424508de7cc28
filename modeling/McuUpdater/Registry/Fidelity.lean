import McuUpdater.Registry.Rewritten

/-! A registry that is saved and loaded again: when the file gives back the types that were saved. -/
namespace McuUpdater.Config
open PyText Dict Outline CfgDoc CfgDocument McuUpdater.Registry Typelist ExceptList
open Updater (KeptText PlainWord)
variable {doc doc' final : CfgDocument} {sec key text text' name : Str} {reg reg' : Registry}
  {mcu mcu' : McuType} {fwNames : List Str} {types : List McuType} {families : List FirmwareFamily}

/-! ## Documents that read alike -/

/-- The same sections, and every option reads the same. -/
structure Alike (doc doc' : CfgDocument) : Prop where
  names : doc'.names = doc.names
  get : ∀ sec key, doc'.get sec key = doc.get sec key

theorem alike_reload (h : doc.Whole) : Alike doc doc.reload :=
  ⟨names_reload h, fun sec key => by rw [get_eq, get_eq, writtenAt_reload h]⟩

theorem loadFromDoc_congr (hnames : doc'.sectionNames firmwareWord = doc.sectionNames firmwareWord)
    (hget : ∀ sec ∈ doc.sectionNames firmwareWord, ∀ key, doc'.get sec key = doc.get sec key) :
    loadFromDoc doc' = loadFromDoc doc := by
  rw [loadFromDoc, loadFromDoc, hnames]
  refine congrArg (List.foldl _ _) (List.filterMap_congr fun sec hsec => ?_)
  simp only [getCsv, hget sec hsec]

section Alike
variable (h : Alike doc doc')
include h

theorem Alike.sectionNames (start : Str) : doc'.sectionNames start = doc.sectionNames start := by
  rw [CfgDocument.sectionNames, CfgDocument.sectionNames, ← CfgDocument.names, h.names]
  rfl

theorem Alike.getList (sec key : Str) : doc'.getList sec key = doc.getList sec key := by
  rw [CfgDocument.getList, CfgDocument.getList, h.get]

theorem Alike.getCsv (sec key : Str) : doc'.getCsv sec key = doc.getCsv sec key := by
  rw [CfgDocument.getCsv, CfgDocument.getCsv, h.get]

theorem Alike.loadFromDoc : loadFromDoc doc' = loadFromDoc doc :=
  loadFromDoc_congr (h.sectionNames firmwareWord) fun sec _ key => h.get sec key

theorem Alike.read (families : List FirmwareFamily) : read doc' families = read doc families := by
  have hsections : readSections doc' = readSections doc := by
    rw [readSections, readSections, h.sectionNames]
  simp only [Typelist.read, hsections, h.getCsv, h.getList, h.get]

theorem Alike.validate (entries : List Entry) (families : List FirmwareFamily) :
    validate doc' entries families = validate doc entries families := by
  have hentry : refuseEntry doc' = refuseEntry doc := funext fun entry => by
    simp only [refuseEntry, refuseRenamedKeys, h.get]
  rw [Typelist.validate, Typelist.validate, hentry]

end Alike

/-! ## The sections a save leaves -/

theorem names_foldl_saveType (hfw : ∀ fw ∈ fwNames, SafeFamily fw)
    (h : ∀ mcu ∈ types, Storable mcu) : ∃ added,
      (types.foldl (saveType fwNames) doc).names = doc.names ++ added ∧
        ∀ sec ∈ added, ∃ name, typeOf sec = some name := by
  induction types generalizing doc with
  | nil => exact ⟨[], by simp, by simp⟩
  | cons mcu types ih =>
    rw [List.forall_mem_cons] at h
    obtain ⟨added, hnames, htyped⟩ := @ih (saveType fwNames doc mcu) h.2
    have hn : (saveType fwNames doc mcu).names =
        (doc.addSection (sectionFor doc mcu.name)).names := names_saveType hfw h.1
    rw [names_addSection_cases (sectionFor_nameSafe h.1.name)] at hn
    rw [List.foldl_cons, hnames, hn]
    split_ifs with hmem
    · exact ⟨added, rfl, htyped⟩
    · refine ⟨sectionFor doc mcu.name :: added, by simp, List.forall_mem_cons.mpr ⟨?_, htyped⟩⟩
      exact ⟨_, typeOf_sectionFor h.1.name.trimmed h.1.name.ne_nil⟩

theorem sectionNames_firmware {added : List Str} (hnames : doc'.names = doc.names ++ added)
    (h : ∀ sec ∈ added, ∃ name, typeOf sec = some name) :
    doc'.sectionNames firmwareWord = doc.sectionNames firmwareWord := by
  have hnone : added.filter (fun n => n = firmwareWord || (firmwareWord ++ [' ']).isPrefixOf n) = [] := by
    refine List.filter_eq_nil_iff.mpr fun sec hsec hstart => ?_
    obtain ⟨name, hty⟩ := h sec hsec
    have hhead : sec.head? = some 'f' := by
      rcases (Bool.or_eq_true _ _).mp hstart with he | hp
      · rw [of_decide_eq_true he]
        rfl
      · obtain ⟨rest, rfl⟩ := List.isPrefixOf_iff_prefix.mp hp
        rfl
    rw [head_of_typeOf hty] at hhead
    exact absurd hhead (by decide)
  rw [CfgDocument.sectionNames, CfgDocument.sectionNames, ← CfgDocument.names, ← CfgDocument.names,
    hnames, filter_eraseDups, filter_eraseDups, List.filter_append, hnone, List.append_nil]

theorem ne_of_mem_sectionNames (h : sec ∈ doc.sectionNames firmwareWord) {name : Str}
    (hty : typeOf key = some name) : sec ≠ key := by
  rintro rfl
  have hhead : sec.head? = some 'f' := by
    rcases (mem_sectionNames.mp h).2 with rfl | hp
    · rfl
    · obtain ⟨rest, rfl⟩ := List.isPrefixOf_iff_prefix.mp hp
      rfl
  rw [head_of_typeOf hty] at hhead
  exact absurd hhead (by decide)

theorem loadFromDoc_saved (hfw : ∀ fw ∈ fwNames, SafeFamily fw) (h : ∀ mcu ∈ types, Storable mcu)
    (hnodup : (types.map McuType.name).Nodup) (hdoc : doc.Whole) :
    loadFromDoc (types.foldl (saveType fwNames) doc) = loadFromDoc doc := by
  obtain ⟨added, hnames, htyped⟩ : ∃ added,
      (types.foldl (saveType fwNames) doc).names = doc.names ++ added ∧
        ∀ sec ∈ added, ∃ name, typeOf sec = some name := names_foldl_saveType hfw h
  refine loadFromDoc_congr (sectionNames_firmware hnames htyped) fun sec hsec key => ?_
  rw [get_eq, get_eq, (savedAll hfw h hnodup hdoc).others sec fun mcu hmcu => ?_]
  have hn := (h mcu hmcu).name
  exact ne_of_mem_sectionNames hsec (typeOf_sectionFor hn.trimmed hn.ne_nil)

/-! ## The families of a type -/

/-- `fw_get` -/
def fwGet (mcu : McuType) (fw : Str) : FwConfig := (mcu.fws.lookup fw).getD {}

theorem fwGet_of_mem {mcu : McuType} {slot : Str × FwConfig} (hnodup : (mcu.fws.map Prod.fst).Nodup)
    (hslot : slot ∈ mcu.fws) : fwGet mcu slot.1 = slot.2 := by
  rw [fwGet, lookup_of_mem hnodup hslot]
  rfl

/-- The options of one family, with these patches. -/
def readFw (doc : CfgDocument) (sec fw : Str) (patches : List MakefilePatch) : FwConfig where
  extraArgs := strip ((doc.get sec (extraArgsKey fw)).getD [])
  makefilePatches := patches
  extraRepos := doc.getList sec (extraReposKey fw)

theorem loadFw_eq (doc : CfgDocument) (entry : Entry) (slots : List (Str × FwConfig)) (fw : Str) :
    loadFw doc entry slots fw =
      (parsePatches entry.name (doc.getList entry.section_ (patchesKey fw))).bind fun patches =>
        .ok (dictPut Prod.fst slots (fw, readFw doc entry.section_ fw
          (((slots.lookup fw).getD {}).makefilePatches ++ patches))) := rfl

theorem foldlM_loadFw {entry : Entry} {fws : List Str} {slots slots' : List (Str × FwConfig)}
    (h : fws.foldlM (loadFw doc entry) slots = .ok slots') (fw : Str) :
    if fw ∈ fws then ∃ patches,
      parsePatches entry.name (doc.getList entry.section_ (patchesKey fw)) = .ok patches ∧
        slots'.lookup fw = some (readFw doc entry.section_ fw
          (((slots.lookup fw).getD {}).makefilePatches ++
            (List.replicate (fws.count fw) patches).flatten))
    else slots'.lookup fw = slots.lookup fw := by
  induction fws generalizing slots with
  | nil =>
    cases h
    rw [if_neg List.not_mem_nil]
  | cons other fws ih =>
    obtain ⟨mid, hmid, h⟩ := bind_ok h
    rw [loadFw_eq] at hmid
    obtain ⟨patches, hpatches, hmid⟩ := bind_ok hmid
    have hlookup : mid.lookup fw = if fw = other then
        some (readFw doc entry.section_ other
          (((slots.lookup other).getD {}).makefilePatches ++ patches))
        else slots.lookup fw := by
      rw [← Except.ok.inj hmid, lookup_dictPut]
    have hrest := ih h
    by_cases hfw : fw = other
    · subst hfw
      rw [if_pos rfl] at hlookup
      rw [if_pos List.mem_cons_self, List.count_cons_self]
      refine ⟨patches, hpatches, ?_⟩
      rw [List.replicate_succ, List.flatten_cons]
      split_ifs at hrest with hmem
      · obtain ⟨again, hagain, hrest⟩ := hrest
        obtain rfl : patches = again := Except.ok.inj (hpatches.symm.trans hagain)
        rw [hrest, hlookup]
        simp [readFw]
      · rw [hrest, hlookup, List.count_eq_zero.mpr hmem, List.replicate_zero, List.flatten_nil,
          List.append_nil]
    · rw [if_neg hfw] at hlookup
      rw [List.count_cons_of_ne (Ne.symm hfw)]
      simp only [List.mem_cons, hfw, false_or]
      rwa [hlookup] at hrest

theorem foldlM_loadFw_ok {entry : Entry} {fws : List Str} {slots : List (Str × FwConfig)}
    (h : ∀ fw ∈ fws, ∃ patches,
      parsePatches entry.name (doc.getList entry.section_ (patchesKey fw)) = .ok patches) :
    ∃ slots', fws.foldlM (loadFw doc entry) slots = .ok slots' := by
  induction fws generalizing slots with
  | nil => exact ⟨slots, rfl⟩
  | cons fw fws ih =>
    rw [List.forall_mem_cons] at h
    obtain ⟨⟨patches, hpatches⟩, h⟩ := h
    rw [List.foldlM_cons, loadFw_eq, hpatches]
    exact ih h

theorem loadFws_iff {entry : Entry} {target : Str → FwConfig} :
    (∃ slots, entry.firmwares.foldlM (loadFw doc entry) [] = .ok slots ∧
      ∀ fw ∈ entry.firmwares, (slots.lookup fw).getD {} = target fw) ↔
    ∀ fw ∈ entry.firmwares, ∃ patches,
      parsePatches entry.name (doc.getList entry.section_ (patchesKey fw)) = .ok patches ∧
        readFw doc entry.section_ fw
          (List.replicate (entry.firmwares.count fw) patches).flatten = target fw := by
  have hslot : ∀ {slots}, entry.firmwares.foldlM (loadFw doc entry) [] = .ok slots →
      ∀ fw ∈ entry.firmwares, ∃ patches,
        parsePatches entry.name (doc.getList entry.section_ (patchesKey fw)) = .ok patches ∧
          (slots.lookup fw).getD {} = readFw doc entry.section_ fw
            (List.replicate (entry.firmwares.count fw) patches).flatten := by
    intro slots hok fw hfw
    have hone := foldlM_loadFw hok fw
    rw [if_pos hfw] at hone
    obtain ⟨patches, hpatches, hlookup⟩ := hone
    refine ⟨patches, hpatches, ?_⟩
    rw [hlookup]
    rfl
  constructor
  · rintro ⟨slots, hok, htarget⟩ fw hfw
    obtain ⟨patches, hpatches, hread⟩ := hslot hok fw hfw
    exact ⟨patches, hpatches, hread.symm.trans (htarget fw hfw)⟩
  · intro h
    have hparse : ∀ fw ∈ entry.firmwares, ∃ patches, parsePatches entry.name
        (doc.getList entry.section_ (patchesKey fw)) = .ok patches := fun fw hfw => by
      obtain ⟨patches, hpatches, -⟩ := h fw hfw
      exact ⟨patches, hpatches⟩
    obtain ⟨slots, hok⟩ : ∃ slots, entry.firmwares.foldlM (loadFw doc entry) [] = .ok slots :=
      foldlM_loadFw_ok hparse
    refine ⟨slots, hok, fun fw hfw => ?_⟩
    obtain ⟨patches, hpatches, hread⟩ := hslot hok fw hfw
    obtain ⟨patches', hpatches', htarget⟩ := h fw hfw
    obtain rfl : patches = patches' := Except.ok.inj (hpatches.symm.trans hpatches')
    rw [hread, htarget]

/-- A family's options that come back from a type that names the family `n` times. -/
structure KeptFw (doc : CfgDocument) (sec fw : Str) (n : Nat) (cfg : FwConfig) : Prop where
  extraArgs : KeptText cfg.extraArgs
  makefilePatches : ∀ p ∈ cfg.makefilePatches, KeptPatch p
  extraRepos : KeptLines cfg.extraRepos
  keys : SlotKeys (fw, cfg)
  once : cfg.makefilePatches ≠ [] → n = 1
  noArgs : cfg.extraArgs = [] → Vacant doc sec (extraArgsKey fw)
  noPatches : cfg.makefilePatches = [] → Vacant doc sec (patchesKey fw)
  noRepos : cfg.extraRepos = [] → Vacant doc sec (extraReposKey fw)

theorem flatten_replicate {n : Nat} {l : List MakefilePatch} (hn : 0 < n) :
    (List.replicate n l).flatten = l ↔ (l ≠ [] → n = 1) := by
  obtain ⟨m, rfl⟩ : ∃ m, n = m + 1 := ⟨n - 1, by omega⟩
  rw [List.replicate_succ, List.flatten_cons, List.append_right_eq_self, List.flatten_eq_nil_iff]
  cases m with
  | zero => simp
  | succ m =>
    refine ⟨fun h hne => absurd (h l (by simp)) hne, fun h l' hl' => ?_⟩
    rw [List.eq_of_mem_replicate hl']
    by_contra hne
    have := h hne
    omega

section Family
variable {fw : Str} {cfg : FwConfig} {n : Nat}
  (hargs : Rewritten doc final sec (extraArgsKey fw)
    (if strip cfg.extraArgs = [] then none else some (.text (strip cfg.extraArgs))))
  (hpatches : Rewritten doc final sec (patchesKey fw)
    (if cfg.makefilePatches.filter (·.isValid) = [] then none
      else some (.list ((cfg.makefilePatches.filter (·.isValid)).map renderPatch))))
  (hrepos : Rewritten doc final sec (extraReposKey fw)
    (if cfg.extraRepos = [] then none else some (.list cfg.extraRepos)))
include hargs hpatches hrepos

theorem readFw_iff (type : Str) (hn : 0 < n) (hsafe : SafeCfg cfg) (hkeys : SlotKeys (fw, cfg)) :
    (∃ patches, parsePatches type (final.getList sec (patchesKey fw)) = .ok patches ∧
      readFw final sec fw (List.replicate n patches).flatten = cfg) ↔ KeptFw doc sec fw n cfg := by
  have hargsIff := hargs.optional_text_iff
  have hreposIff := hrepos.optional_list_iff hsafe.extraRepos
  constructor
  · rintro ⟨patches, hparse, hread⟩
    have hsame : (List.replicate n patches).flatten = cfg.makefilePatches :=
      congrArg FwConfig.makefilePatches hread
    have hsub : cfg.makefilePatches ⊆ patches := by
      intro p hp
      rw [← hsame, List.mem_flatten] at hp
      obtain ⟨l, hl, hp⟩ := hp
      rwa [List.eq_of_mem_replicate hl] at hp
    have hempty : cfg.makefilePatches = [] → patches = [] := by
      intro hnil
      rw [hnil, List.flatten_eq_nil_iff] at hsame
      exact hsame patches (List.mem_replicate.mpr ⟨hn.ne', rfl⟩)
    obtain ⟨hkept, hvacant⟩ := hpatches.kept_of_parsePatches hsafe.patches hparse hsub hempty
    obtain rfl : cfg.makefilePatches = patches :=
      Except.ok.inj ((hpatches.parsePatches_of_kept hkept hvacant).symm.trans hparse)
    obtain ⟨hargsKept, hargsVacant⟩ := hargsIff.mp (congrArg FwConfig.extraArgs hread)
    obtain ⟨hreposKept, hreposVacant⟩ := hreposIff.mp (congrArg FwConfig.extraRepos hread)
    exact ⟨hargsKept, hkept, hreposKept, hkeys, (flatten_replicate hn).mp hsame, hargsVacant,
      hvacant, hreposVacant⟩
  · intro h
    refine ⟨cfg.makefilePatches,
      hpatches.parsePatches_of_kept h.makefilePatches h.noPatches, ?_⟩
    rw [readFw, hargsIff.mpr ⟨h.extraArgs, h.noArgs⟩, hreposIff.mpr ⟨h.extraRepos, h.noRepos⟩,
      (flatten_replicate hn).mpr h.once]

end Family

/-! ## The types of a registry -/

/-- What a reload gives back of a type, with the options of the families it declares. -/
structure SameType (mcu mcu' : McuType) : Prop where
  name : mcu'.name = mcu.name
  chipset : mcu'.chipset = mcu.chipset
  serials : mcu'.serials = mcu.serials
  canbusUuids : mcu'.canbusUuids = mcu.canbusUuids
  firmwares : mcu'.firmwares = mcu.firmwares
  profile : mcu'.profile = mcu.profile
  stopServices : mcu'.stopServices = mcu.stopServices
  fws : ∀ fw ∈ mcu.firmwares, fwGet mcu' fw = fwGet mcu fw

def builderIn (families : List FirmwareFamily) (mcu : McuType) : Str :=
  (mcu.firmwares.map (builderOf families)).head?.getD []

def profileKey : Str := "kconfig_make_profile".toList
def stopServicesKey : Str := "stop_services".toList

/-- A type that comes back from the file, whose section held `doc` before. -/
structure KeptType (families : List FirmwareFamily) (doc : CfgDocument) (sec : Str) (mcu : McuType) :
    Prop where
  chipset : KeptText mcu.chipset
  serials : KeptLines mcu.serials
  canbusUuids : KeptLines mcu.canbusUuids
  firmwares : ∀ fw ∈ mcu.firmwares, PlainWord fw
  builder : builderIn families mcu = kconfigMake
  profile : KeptText mcu.profile
  stopServices : ∀ units ∈ mcu.stopServices, ∀ unit ∈ units, PlainWord unit
  noUuids : mcu.canbusUuids = [] → Vacant doc sec uuidsKey
  noProfile : mcu.profile = [] → Vacant doc sec profileKey
  noStopServices : mcu.stopServices = none → (doc.writtenAt sec stopServicesKey).tail = []
  fws : ∀ fw ∈ mcu.firmwares, KeptFw doc sec fw (mcu.firmwares.count fw) (fwGet mcu fw)

/-- What `read` makes of one section. -/
def entryOf (doc : CfgDocument) (families : List FirmwareFamily) (declared : TypeSection) : Entry :=
  let firmwares := (doc.getCsv declared.section_ "firmware".toList).getD []
  { name := declared.name
    section_ := declared.section_
    firmwares
    chipset := strip ((doc.get declared.section_ "chipset".toList).getD [])
    serials := doc.getList declared.section_ "serials".toList
    canbusUuids := doc.getList declared.section_ "canbus_uuids".toList
    stopServices := doc.getCsv declared.section_ "stop_services".toList
    builders := firmwares.map (builderOf families) }

theorem read_eq (doc : CfgDocument) (families : List FirmwareFamily) :
    read doc families = (readSections doc).map (entryOf doc families) := rfl

/-- The options `_save` writes of a type, each as it is left in the file. -/
structure SavedType (fwNames : List Str) (doc final : CfgDocument) (sec : Str) (mcu : McuType) : Prop where
  rewritten : ∀ w ∈ writes fwNames mcu, Rewritten doc final sec w.1 w.2
  texts : SafeType mcu
  keys : ∀ slot ∈ mcu.fws, SlotKeys slot

section SavedType
variable (h : SavedType fwNames doc final sec mcu)
include h

theorem SavedType.fixed {w : Str × Option Value} (hw : w ∈ (writes fwNames mcu).take 7) :
    Rewritten doc final sec w.1 w.2 := h.rewritten w (List.mem_of_mem_take hw)

theorem SavedType.chipset_iff : strip ((final.get sec "chipset".toList).getD []) = mcu.chipset ↔
    KeptText mcu.chipset := (h.fixed (.head _)).text_iff

theorem SavedType.serials_iff : final.getList sec "serials".toList = mcu.serials ↔
    KeptLines mcu.serials := (h.fixed (.tail _ (.head _))).list_iff h.texts.serials

theorem SavedType.uuids_iff : final.getList sec "canbus_uuids".toList = mcu.canbusUuids ↔
    KeptLines mcu.canbusUuids ∧ (mcu.canbusUuids = [] → Vacant doc sec uuidsKey) :=
  (h.fixed (.tail _ (.tail _ (.head _)))).optional_list_iff h.texts.canbusUuids

theorem SavedType.firmwares_iff :
    final.getCsv sec "firmware".toList = some mcu.firmwares ↔ ∀ fw ∈ mcu.firmwares, PlainWord fw :=
  (h.fixed (.tail _ (.tail _ (.tail _ (.head _))))).words_iff

theorem SavedType.profile_iff :
    strip ((final.get sec profileKey).getD []) = mcu.profile ↔
      KeptText mcu.profile ∧ (mcu.profile = [] → Vacant doc sec profileKey) :=
  (h.fixed (.tail _ (.tail _ (.tail _ (.tail _ (.head _)))))).optional_text_iff

theorem SavedType.stopServices_iff : final.getCsv sec stopServicesKey = mcu.stopServices ↔
    (∀ units ∈ mcu.stopServices, ∀ unit ∈ units, PlainWord unit) ∧
      (mcu.stopServices = none → (doc.writtenAt sec stopServicesKey).tail = []) := by
  have hw := h.fixed (.tail _ (.tail _ (.tail _ (.tail _ (.tail _ (.head _))))))
  dsimp only at hw
  cases hs : mcu.stopServices with
  | none =>
    rw [hs] at hw
    have hwritten : final.writtenAt sec stopServicesKey = (doc.writtenAt sec stopServicesKey).tail :=
      hw.written
    rw [getCsv, get_eq, hwritten, Option.map_eq_none_iff, Option.map_eq_none_iff,
      List.head?_eq_none_iff]
    exact ⟨fun hnil => ⟨by simp, fun _ => hnil⟩, fun hv => hv.2 rfl⟩
  | some units =>
    rw [hs] at hw
    have hwords : final.getCsv sec stopServicesKey = some units ↔ ∀ unit ∈ units, PlainWord unit :=
      hw.words_iff
    rw [hwords]
    simp

theorem SavedType.slotKeys (fw : Str) : SlotKeys (fw, fwGet mcu fw) := by
  rw [fwGet]
  cases hl : mcu.fws.lookup fw with
  | none => exact ⟨fun hne => absurd rfl hne, fun hne => absurd rfl hne, fun hne => absurd rfl hne⟩
  | some cfg => exact h.keys _ (mem_of_lookup hl)

theorem SavedType.fw_iff {fw : Str} (hfw : fw ∈ mcu.fws.map Prod.fst ++ fwNames) {n : Nat}
    (hn : 0 < n) (type : Str) :
    (∃ patches, parsePatches type (final.getList sec (patchesKey fw)) = .ok patches ∧
      readFw final sec fw (List.replicate n patches).flatten = fwGet mcu fw) ↔
        KeptFw doc sec fw n (fwGet mcu fw) := by
  have hmem : ∀ w ∈ [(extraArgsKey fw, _), (patchesKey fw, _), (extraReposKey fw, _)],
      w ∈ writes fwNames mcu := fun w hw =>
    List.mem_append_right _ (List.mem_flatMap.mpr ⟨fw, List.mem_eraseDups.mpr hfw, hw⟩)
  exact readFw_iff (h.rewritten _ (hmem _ (.head _))) (h.rewritten _ (hmem _ (.tail _ (.head _))))
    (h.rewritten _ (hmem _ (.tail _ (.tail _ (.head _))))) type hn (h.texts.lookup fw) (h.slotKeys fw)

theorem SavedType.entry_firmwares_iff :
    (entryOf final families ⟨name, sec⟩).firmwares = mcu.firmwares ↔
      ∀ fw ∈ mcu.firmwares, PlainWord fw := by
  rw [← h.firmwares_iff]
  have hw : ∃ raw, final.get sec "firmware".toList = some raw :=
    ⟨_, (h.fixed (.tail _ (.tail _ (.tail _ (.head _))))).get_some⟩
  obtain ⟨raw, hraw⟩ := hw
  have hcsv : final.getCsv sec "firmware".toList = some (csv raw) := by
    rw [getCsv, hraw]
    rfl
  change (final.getCsv sec "firmware".toList).getD [] = mcu.firmwares ↔ _
  rw [hcsv, Option.getD_some, Option.some.injEq]

end SavedType

theorem SavedType.loadType_iff (h : SavedType (namesOf families) doc final sec mcu)
    (hknown : ∀ fw ∈ (entryOf final families ⟨mcu.name, sec⟩).firmwares, fw ∈ families.map (·.name)) :
    (isKconfig (entryOf final families ⟨mcu.name, sec⟩) = true ∧
      ∃ mcu', loadType final (entryOf final families ⟨mcu.name, sec⟩) = .ok mcu' ∧ SameType mcu mcu') ↔
        KeptType families doc sec mcu := by
  have hcount : ∀ fw ∈ mcu.firmwares, 0 < mcu.firmwares.count fw := fun fw hfw =>
    List.count_pos_iff.mpr hfw
  constructor
  · rintro ⟨hkconfig, mcu', hload, hsame⟩
    obtain ⟨slots, hslots, rfl⟩ := loadType_spec hload
    have hfirm : (entryOf final families ⟨mcu.name, sec⟩).firmwares = mcu.firmwares := hsame.firmwares
    have huuids := h.uuids_iff.mp hsame.canbusUuids
    have hprofile := h.profile_iff.mp hsame.profile
    have hstop := h.stopServices_iff.mp hsame.stopServices
    refine ⟨h.chipset_iff.mp hsame.chipset, h.serials_iff.mp hsame.serials, huuids.1,
      h.entry_firmwares_iff.mp hfirm, ?_, hprofile.1, hstop.1, huuids.2, hprofile.2, hstop.2,
      fun fw hfw => ?_⟩
    · rw [builderIn, ← hfirm]
      exact of_decide_eq_true hkconfig
    · have hfws := loadFws_iff.mp ⟨slots, hslots, fun fw hfw => hsame.fws fw (hfirm ▸ hfw)⟩ fw
        (hfirm.symm ▸ hfw)
      rw [hfirm] at hfws
      have hmem : fw ∈ mcu.fws.map Prod.fst ++ namesOf families :=
        List.mem_append_right _ (mem_namesOf.mpr (hknown fw (hfirm.symm ▸ hfw)))
      exact (h.fw_iff hmem (hcount fw hfw) _).mp hfws
  · intro hkept
    have hfirm : (entryOf final families ⟨mcu.name, sec⟩).firmwares = mcu.firmwares :=
      h.entry_firmwares_iff.mpr hkept.firmwares
    refine ⟨decide_eq_true ?_, ?_⟩
    · have hbuilder := hkept.builder
      rw [builderIn, ← hfirm] at hbuilder
      exact hbuilder
    · have hfws : ∀ fw ∈ (entryOf final families ⟨mcu.name, sec⟩).firmwares, ∃ patches,
          parsePatches mcu.name (final.getList sec (patchesKey fw)) = .ok patches ∧
            readFw final sec fw (List.replicate
              ((entryOf final families ⟨mcu.name, sec⟩).firmwares.count fw) patches).flatten =
                fwGet mcu fw := by
        rw [hfirm]
        intro fw hfw
        have hmem : fw ∈ mcu.fws.map Prod.fst ++ namesOf families :=
          List.mem_append_right _ (mem_namesOf.mpr (hknown fw (hfirm.symm ▸ hfw)))
        exact (h.fw_iff hmem (hcount fw hfw) _).mpr (hkept.fws fw hfw)
      obtain ⟨slots, hslots, htarget⟩ := loadFws_iff.mpr hfws
      obtain ⟨mcu', hload⟩ :
          ∃ mcu', loadType final (entryOf final families ⟨mcu.name, sec⟩) = .ok mcu' := by
        rw [loadType, hslots]
        exact ⟨_, rfl⟩
      refine ⟨mcu', hload, ?_⟩
      obtain ⟨slots', hslots', rfl⟩ := loadType_spec hload
      obtain rfl : slots = slots' := Except.ok.inj (hslots.symm.trans hslots')
      refine ⟨rfl, h.chipset_iff.mpr hkept.chipset,
        h.serials_iff.mpr hkept.serials, h.uuids_iff.mpr ⟨hkept.canbusUuids, hkept.noUuids⟩, hfirm,
        h.profile_iff.mpr ⟨hkept.profile, hkept.noProfile⟩,
        h.stopServices_iff.mpr ⟨hkept.stopServices, hkept.noStopServices⟩, fun fw hfw => ?_⟩
      exact htarget fw (hfirm.symm ▸ hfw)

/-! ## Texts that came back -/

theorem safeCfg_readFw {fw type : Str} {n : Nat} {patches : List MakefilePatch} (hdoc : doc.Whole)
    (h : parsePatches type (doc.getList sec (patchesKey fw)) = .ok patches) :
    SafeCfg (readFw doc sec fw (List.replicate n patches).flatten) ∧
      SlotKeys (fw, readFw doc sec fw (List.replicate n patches).flatten) := by
  have hargs := keptText_get hdoc sec (extraArgsKey fw)
  have hkey : ∀ p ∈ (List.replicate n patches).flatten, p ∈ patches := fun p hp => by
    obtain ⟨l, hl, hp⟩ := List.mem_flatten.mp hp
    rwa [List.eq_of_mem_replicate hl] at hp
  refine ⟨⟨?_, fun p hp => ?_, fun repo hrepo => (keptLines_getList hdoc _ _ repo hrepo).2.1⟩,
    ⟨fun hne => keySafe_of_get fun (hnone : doc.get sec (extraArgsKey fw) = none) => hne ?_,
      fun hne => keySafe_of_getList fun (hnil : doc.getList sec (patchesKey fw) = []) => hne ?_,
      keySafe_of_getList⟩⟩
  · rw [readFw, strip_of_trimmed hargs.trimmed]
    exact hargs.lineSafe
  · obtain ⟨raw, hraw, hparse⟩ := (mem_parsePatches h).1 p (hkey p hp)
    have hkept := keptLines_getList hdoc _ _ raw hraw
    have hread := readPatch_of_parse ⟨hkept.1, hkept.2.1⟩ hparse
    exact ⟨hread.file.2.1, hread.line.2.1⟩
  · rw [readFw, hnone]
    rfl
  · rw [hnil] at h
    obtain rfl := Except.ok.inj h
    simp [readFw]

theorem safe_of_sameType {entry : Entry} (hdoc : doc.Whole) (hentry : entry ∈ read doc families)
    (hload : loadType doc entry = .ok mcu') (hsame : SameType mcu mcu')
    (hnodup : (mcu.fws.map Prod.fst).Nodup) (hfw : ∀ slot ∈ mcu.fws, SafeFamily slot.1)
    (hidle : ∀ slot ∈ mcu.fws, slot.1 ∉ mcu.firmwares → SafeCfg slot.2 ∧ SlotKeys slot) :
    SafeType mcu ∧ ∀ slot ∈ mcu.fws, SlotKeys slot := by
  obtain ⟨slots, hslots, rfl⟩ := loadType_spec hload
  obtain ⟨declared, -, rfl⟩ : ∃ declared ∈ readSections doc, entryOf doc families declared = entry :=
    List.mem_map.mp hentry
  have hfirm : (entryOf doc families declared).firmwares = mcu.firmwares := hsame.firmwares
  have hwords : ∀ {key : Str} {units : List Str}, (doc.getCsv declared.section_ key).getD [] = units →
      ∀ unit ∈ units, IsWord unit := by
    rintro key units rfl unit hunit
    cases hcsv : doc.getCsv declared.section_ key with
    | none => simp [hcsv] at hunit
    | some units =>
      rw [hcsv, Option.getD_some] at hunit
      obtain ⟨raw, -, rfl⟩ := Option.map_eq_some_iff.mp hcsv
      exact isWord_of_mem_csv hunit
  have hslot : ∀ slot ∈ mcu.fws, SafeCfg slot.2 ∧ SlotKeys slot := by
    intro slot hslot
    by_cases hdeclared : slot.1 ∈ mcu.firmwares
    · have hget := fwGet_of_mem hnodup hslot
      have hone := foldlM_loadFw hslots slot.1
      rw [if_pos (hfirm.symm ▸ hdeclared)] at hone
      obtain ⟨patches, hpatches, hlookup⟩ := hone
      have hback := hsame.fws slot.1 hdeclared
      rw [hget] at hback
      have hread : readFw doc declared.section_ slot.1 (List.replicate
          ((entryOf doc families declared).firmwares.count slot.1) patches).flatten = slot.2 := by
        rw [← hback, fwGet, hlookup]
        rfl
      have hsafe : SafeCfg (readFw doc declared.section_ slot.1 (List.replicate
          ((entryOf doc families declared).firmwares.count slot.1) patches).flatten) ∧ _ :=
        safeCfg_readFw hdoc hpatches
      rw [hread] at hsafe
      exact hsafe
    · exact hidle slot hslot hdeclared
  refine ⟨⟨?_, ?_, ?_, ?_, ?_, ?_, fun slot h => ⟨hfw slot h, (hslot slot h).1⟩⟩,
    fun slot h => (hslot slot h).2⟩
  · rw [← hsame.chipset]
    exact (keptText_get hdoc _ _).lineSafe
  · rw [← hsame.serials]
    exact fun x hx => (keptLines_getList hdoc _ _ x hx).2.1
  · rw [← hsame.canbusUuids]
    exact fun x hx => (keptLines_getList hdoc _ _ x hx).2.1
  · exact fun fw hfw => (hwords hfirm fw hfw).oneLine
  · have hkept := keptText_get hdoc declared.section_ profileKey
    have hprofile : strip ((doc.get declared.section_ profileKey).getD []) = mcu.profile := hsame.profile
    rw [hprofile] at hkept
    rw [strip_of_trimmed hkept.trimmed]
    exact hkept.lineSafe
  · intro units hunits unit hunit
    have hstop : doc.getCsv declared.section_ stopServicesKey = some units :=
      hsame.stopServices.trans hunits
    exact (hwords (by rw [hstop]; rfl) unit hunit).oneLine

/-! ## The registry -/

/-- The text is loaded, as the types of this registry. -/
def Reloads (reg : Registry) (text : Str) : Prop :=
  ∃ reg', load text = .ok reg' ∧ ∀ name, Option.Rel SameType (reg.get? name) (reg'.get? name)

/-- A registry over a document each line of which is one line of the file, in which every type of
this builder is held and has one section. What it holds of families a type does not declare can
stand in the file. -/
structure Orderly (reg : Registry) : Prop where
  whole : reg.doc.Whole
  unbracketed : Unbracketed reg.doc
  distinct : DistinctTypes reg.doc
  namesNodup : reg.doc.names.Nodup
  nodup : (reg.types.map McuType.name).Nodup
  names : ∀ mcu ∈ reg.types, SafeName mcu.name
  held : ∀ entry ∈ read reg.doc (loadFromDoc reg.doc), isKconfig entry → (reg.get? entry.name).isSome
  slots : ∀ mcu ∈ reg.types, (mcu.fws.map Prod.fst).Nodup ∧ ∀ slot ∈ mcu.fws, SafeFamily slot.1
  idle : ∀ mcu ∈ reg.types, ∀ slot ∈ mcu.fws, slot.1 ∉ mcu.firmwares →
    SafeCfg slot.2 ∧ SlotKeys slot

/-- A type of the registry that comes back. -/
def Registry.Kept (reg : Registry) (mcu : McuType) : Prop :=
  KeptType (loadFromDoc reg.doc) reg.doc (sectionFor reg.doc mcu.name) mcu

structure Saves (reg : Registry) (text' : Str) : Prop where
  sound : Sound reg
  keys : ∀ mcu ∈ reg.types, ∀ slot ∈ mcu.fws, SlotKeys slot
  save : reg.save = .ok text'

section Saves
variable (h : Saves reg text')
include h

theorem Saves.safeFamily : ∀ fw ∈ namesOf (loadFromDoc reg.doc), SafeFamily fw :=
  safeFamily_of_mem h.sound.whole h.sound.unbracketed

theorem Saves.written : text' = reg.saved.render ∧
    validate reg.saved (read reg.saved (loadFromDoc reg.doc)) (loadFromDoc reg.doc) = .ok () := by
  obtain ⟨_, hvalid, hok⟩ := bind_ok h.save
  exact ⟨(Except.ok.inj hok).symm, mapError_ok hvalid⟩

theorem Saves.savedAll :
    SavedAll (namesOf (loadFromDoc reg.doc)) reg.types reg.doc reg.saved :=
  Config.savedAll h.safeFamily h.sound.storable h.sound.nodup h.sound.whole

theorem Saves.alike : Alike reg.saved (ofText text') := by
  rw [h.written.1]
  exact alike_reload h.savedAll.whole

theorem Saves.loadFromDoc : loadFromDoc (ofText text') = loadFromDoc reg.doc :=
  h.alike.loadFromDoc.trans
    (loadFromDoc_saved h.safeFamily h.sound.storable h.sound.nodup h.sound.whole)

theorem Saves.valid : validate (ofText text') (read (ofText text') (Typelist.loadFromDoc reg.doc))
    (Typelist.loadFromDoc reg.doc) = .ok () := by
  rw [h.alike.read, h.alike.validate]
  exact h.written.2

theorem Saves.load : load text' =
    (((read (ofText text') (Typelist.loadFromDoc reg.doc)).filter isKconfig).mapM
      (loadType (ofText text'))).bind fun types =>
        .ok ⟨types.foldl (dictPut McuType.name) [], ofText text'⟩ := by
  have hnodup : (ofText text').NoDuplicates := by
    have hn := h.alike.names
    rw [CfgDocument.NoDuplicates, ← CfgDocument.names, hn]
    exact h.savedAll.nodup h.sound.namesNodup
  have hread : readDoc text' = .ok (ofText text') := if_pos hnodup
  rw [Config.load, hread]
  change fromDoc (ofText text') = _
  rw [fromDoc, h.loadFromDoc, h.valid]
  rfl

theorem Saves.savedType (hmcu : mcu ∈ reg.types) :
    SavedType (namesOf (Typelist.loadFromDoc reg.doc)) reg.doc (ofText text')
      (sectionFor reg.doc mcu.name) mcu := by
  have hst := h.sound.storable mcu hmcu
  have hws := safeWrite_of_mem_writes h.safeFamily hst.texts
  obtain ⟨mid, -, hmem, hbefore, hafter⟩ := (h.sound.savedAll h.save).own mcu hmcu
  refine ⟨fun w hw => ?_, hst.texts, h.keys mcu hmcu⟩
  have hkeys : ∀ w ∈ writes (namesOf (Typelist.loadFromDoc reg.doc)) mcu, w.2.isSome → KeySafe w.1 :=
    keySafe_of_mem_writes (h.keys mcu hmcu)
  refine ⟨h.sound.whole, whole_ofText text', fun hsome => ⟨hkeys w hw hsome, (hws w hw).oneLine⟩, ?_⟩
  rw [hafter, writtenAt_writeAll_exact hws hkeys (keys_writes_nodup _ mcu) hmem,
    lookup_of_mem (keys_writes_nodup _ mcu) hw]
  dsimp only
  rw [hbefore]

theorem Saves.entry_mem (hmcu : mcu ∈ reg.types) :
    entryOf (ofText text') (Typelist.loadFromDoc reg.doc) ⟨mcu.name, sectionFor reg.doc mcu.name⟩ ∈
      read (ofText text') (Typelist.loadFromDoc reg.doc) := by
  have hn := (h.sound.storable mcu hmcu).name
  refine List.mem_map_of_mem (mem_readSections.mpr ⟨?_, typeOf_sectionFor hn.trimmed hn.ne_nil⟩)
  exact ((h.sound.savedAll h.save).names _).mpr (.inr ⟨mcu, hmcu, rfl⟩)

theorem Saves.entry_eq {entry : Entry}
    (hentry : entry ∈ read (ofText text') (Typelist.loadFromDoc reg.doc)) :
    entry = entryOf (ofText text') (Typelist.loadFromDoc reg.doc)
      ⟨entry.name, sectionFor reg.doc entry.name⟩ := by
  obtain ⟨⟨t, s⟩, hd, rfl⟩ := List.mem_map.mp hentry
  obtain ⟨hs, hty⟩ := mem_readSections.mp hd
  have hsec : s = sectionFor reg.doc t := h.sound.section_save h.save hs hty
  subst hsec
  rfl

theorem Saves.loadType_iff (hmcu : mcu ∈ reg.types) :
    (isKconfig (entryOf (ofText text') (Typelist.loadFromDoc reg.doc)
        ⟨mcu.name, sectionFor reg.doc mcu.name⟩) = true ∧
      ∃ mcu', loadType (ofText text') (entryOf (ofText text') (Typelist.loadFromDoc reg.doc)
        ⟨mcu.name, sectionFor reg.doc mcu.name⟩) = .ok mcu' ∧ SameType mcu mcu') ↔ reg.Kept mcu :=
  (h.savedType hmcu).loadType_iff (known_of_validate h.valid _ (h.entry_mem hmcu))

end Saves

theorem get?_eq_none_iff : reg.get? name = none ↔ ∀ mcu ∈ reg.types, mcu.name ≠ name := by
  rw [Registry.get?, List.find?_eq_none]
  simp

theorem saves_of_reloads (h : Orderly reg) (hsave : reg.save = .ok text') (hback : Reloads reg text') :
    Saves reg text' := by
  obtain ⟨reg', hload, hsame⟩ := hback
  have hloaded := loaded_of_load hload
  have hsafe : ∀ mcu ∈ reg.types, SafeType mcu ∧ ∀ slot ∈ mcu.fws, SlotKeys slot := by
    intro mcu hmcu
    have hrel := hsame mcu.name
    rw [get?_of_mem h.nodup hmcu] at hrel
    cases hg : reg'.get? mcu.name with
    | none =>
      rw [hg] at hrel
      cases hrel
    | some mcu' =>
      rw [hg] at hrel
      cases hrel with
      | some hsame =>
        obtain ⟨entry, hentry, -, hentryLoad⟩ := hloaded.exists_entry (get?_spec hg).1
        obtain ⟨hnodup, hfw⟩ := h.slots mcu hmcu
        exact safe_of_sameType hloaded.whole hentry hentryLoad hsame hnodup hfw (h.idle mcu hmcu)
  exact ⟨⟨h.whole, h.unbracketed, h.distinct, h.namesNodup,
    fun mcu hmcu => ⟨h.names mcu hmcu, (hsafe mcu hmcu).1⟩, h.nodup⟩,
    fun mcu hmcu => (hsafe mcu hmcu).2, hsave⟩

theorem kept_of_reloads (h : Saves reg text') (hback : Reloads reg text') :
    ∀ mcu ∈ reg.types, reg.Kept mcu := by
  intro mcu hmcu
  obtain ⟨reg', hload, hsame⟩ := hback
  have hloaded := loaded_of_load hload
  have hrel := hsame mcu.name
  rw [get?_of_mem h.sound.nodup hmcu] at hrel
  cases hg : reg'.get? mcu.name with
  | none =>
    rw [hg] at hrel
    cases hrel
  | some mcu' =>
    rw [hg] at hrel
    cases hrel with
    | some hsame =>
      obtain ⟨entry, hentry, hkconfig, hentryLoad⟩ := hloaded.exists_entry (get?_spec hg).1
      rw [hloaded.doc] at hentry hentryLoad
      rw [h.loadFromDoc] at hentry
      have hname : entry.name = mcu.name := by
        obtain ⟨slots, -, hmcu'⟩ := loadType_spec hentryLoad
        rw [hmcu'] at hsame
        exact hsame.name
      have heq := h.entry_eq hentry
      rw [hname] at heq
      exact (h.loadType_iff hmcu).mp ⟨heq ▸ hkconfig, mcu', heq ▸ hentryLoad, hsame⟩

theorem KeptType.safe {families : List FirmwareFamily} (h : KeptType families doc sec mcu)
    (hnodup : (mcu.fws.map Prod.fst).Nodup) (hfw : ∀ slot ∈ mcu.fws, SafeFamily slot.1)
    (hidle : ∀ slot ∈ mcu.fws, slot.1 ∉ mcu.firmwares → SafeCfg slot.2 ∧ SlotKeys slot) :
    SafeType mcu ∧ ∀ slot ∈ mcu.fws, SlotKeys slot := by
  have hslot : ∀ slot ∈ mcu.fws, SafeCfg slot.2 ∧ SlotKeys slot := by
    intro slot hslot
    by_cases hdeclared : slot.1 ∈ mcu.firmwares
    · have hget := fwGet_of_mem hnodup hslot
      have hkept := h.fws slot.1 hdeclared
      rw [hget] at hkept
      have hargs := hkept.extraArgs.lineSafe
      rw [← strip_of_trimmed hkept.extraArgs.trimmed] at hargs
      exact ⟨⟨hargs, fun p hp => ⟨(hkept.makefilePatches p hp).file.2.1,
        (hkept.makefilePatches p hp).line.2.1⟩, fun repo hrepo => (hkept.extraRepos repo hrepo).2.1⟩,
        hkept.keys⟩
    · exact hidle slot hslot hdeclared
  have hprofile := h.profile.lineSafe
  rw [← strip_of_trimmed h.profile.trimmed] at hprofile
  exact ⟨⟨h.chipset.lineSafe, fun x hx => (h.serials x hx).2.1, fun x hx => (h.canbusUuids x hx).2.1,
    fun fw hfw => (h.firmwares fw hfw).word.oneLine, hprofile,
    fun units hunits unit hunit => (h.stopServices units hunits unit hunit).word.oneLine,
    fun slot hs => ⟨hfw slot hs, (hslot slot hs).1⟩⟩, fun slot hs => (hslot slot hs).2⟩

theorem saves_of_kept (h : Orderly reg) (hsave : reg.save = .ok text')
    (hkept : ∀ mcu ∈ reg.types, reg.Kept mcu) : Saves reg text' := by
  have hsafe : ∀ mcu ∈ reg.types, SafeType mcu ∧ ∀ slot ∈ mcu.fws, SlotKeys slot := fun mcu hmcu =>
    (hkept mcu hmcu).safe (h.slots mcu hmcu).1 (h.slots mcu hmcu).2 (h.idle mcu hmcu)
  exact ⟨⟨h.whole, h.unbracketed, h.distinct, h.namesNodup,
    fun mcu hmcu => ⟨h.names mcu hmcu, (hsafe mcu hmcu).1⟩, h.nodup⟩,
    fun mcu hmcu => (hsafe mcu hmcu).2, hsave⟩

theorem Saves.held (h : Saves reg text') (horderly : Orderly reg) {entry : Entry}
    (hentry : entry ∈ read (ofText text') (Typelist.loadFromDoc reg.doc)) (hk : isKconfig entry = true) :
    ∃ mcu ∈ reg.types, mcu.name = entry.name := by
  cases hg : reg.get? entry.name with
  | some mcu => exact ⟨mcu, get?_spec hg⟩
  | none =>
    obtain ⟨declared, hd, rfl⟩ : ∃ declared ∈ readSections (ofText text'),
        entryOf (ofText text') (Typelist.loadFromDoc reg.doc) declared = entry :=
      List.mem_map.mp hentry
    obtain ⟨hs, hty⟩ := mem_readSections.mp hd
    obtain ⟨hmem, hsame⟩ := h.sound.getList_of_get?_none h.save hs hty hg
    have hcsv : (ofText text').getCsv declared.section_ "firmware".toList =
        reg.doc.getCsv declared.section_ "firmware".toList := by
      rw [getCsv, getCsv, get_eq, get_eq, hsame]
    have hold : entryOf reg.doc (Typelist.loadFromDoc reg.doc) declared ∈
        read reg.doc (Typelist.loadFromDoc reg.doc) :=
      List.mem_map_of_mem (mem_readSections.mpr ⟨hmem, hty⟩)
    have hkOld : isKconfig (entryOf reg.doc (Typelist.loadFromDoc reg.doc) declared) = true := by
      have hbuilders : (entryOf (ofText text') (Typelist.loadFromDoc reg.doc) declared).builders =
          (entryOf reg.doc (Typelist.loadFromDoc reg.doc) declared).builders := by
        simp only [entryOf, hcsv]
      rwa [isKconfig, TypeEntry.builder, ← hbuilders]
    have hsome : (reg.get? declared.name).isSome := horderly.held _ hold hkOld
    have hnone : reg.get? declared.name = none := hg
    rw [hnone] at hsome
    cases hsome

theorem reloads_of_kept (h : Saves reg text') (horderly : Orderly reg)
    (hkept : ∀ mcu ∈ reg.types, reg.Kept mcu) : Reloads reg text' := by
  have hloads : ∀ entry ∈ (read (ofText text') (loadFromDoc reg.doc)).filter isKconfig,
      ∃ mcu ∈ reg.types, ∃ mcu', loadType (ofText text') entry = .ok mcu' ∧ SameType mcu mcu' := by
    intro entry hentry
    obtain ⟨hentry, hk⟩ := List.mem_filter.mp hentry
    obtain ⟨mcu, hmcu, hname⟩ := h.held horderly hentry hk
    obtain ⟨-, mcu', hload, hsame⟩ := (h.loadType_iff hmcu).mpr (hkept mcu hmcu)
    have heq := h.entry_eq hentry
    rw [← hname] at heq
    exact ⟨mcu, hmcu, mcu', heq ▸ hload, hsame⟩
  obtain ⟨types, htypes⟩ : ∃ types, ((read (ofText text') (loadFromDoc reg.doc)).filter isKconfig).mapM
      (loadType (ofText text')) = .ok types := exists_mapM_ok fun entry hentry => by
    obtain ⟨-, -, mcu', hload, -⟩ := hloads entry hentry
    exact ⟨mcu', hload⟩
  have hreg := h.load
  rw [htypes] at hreg
  refine ⟨_, hreg, fun name => ?_⟩
  have hloaded := loaded_of_load hreg
  -- each type of the file is one of those held
  have hfrom : ∀ mcu' ∈ types.foldl (dictPut McuType.name) [],
      ∃ mcu ∈ reg.types, SameType mcu mcu' := by
    intro mcu' hmcu'
    have hmem : mcu' ∈ types := (mem_foldl_dictPut hmcu').resolve_right List.not_mem_nil
    obtain ⟨entry, hentry, hload⟩ := (mem_mapM htypes mcu').mp hmem
    obtain ⟨mcu, hmcu, mcu'', hload', hsame⟩ := hloads entry hentry
    obtain rfl : mcu' = mcu'' := Except.ok.inj (hload.symm.trans hload')
    exact ⟨mcu, hmcu, hsame⟩
  generalize hreg' : (⟨types.foldl (dictPut McuType.name) [], ofText text'⟩ : Registry) = reg' at hloaded ⊢
  have htypes' : reg'.types = types.foldl (dictPut McuType.name) [] := by rw [← hreg']
  cases hg : reg.get? name with
  | none =>
    have hnone : reg'.get? name = none := get?_eq_none_iff.mpr fun mcu' hmcu' hname => by
      rw [htypes'] at hmcu'
      obtain ⟨mcu, hmcu, hsame⟩ := hfrom mcu' hmcu'
      exact get?_eq_none_iff.mp hg mcu hmcu (hsame.name.symm.trans hname)
    rw [hnone]
    exact .none
  | some mcu =>
    obtain ⟨hmcu, rfl⟩ := get?_spec hg
    cases hg' : reg'.get? mcu.name with
    | some mcu' =>
      obtain ⟨hmcu', hname⟩ := get?_spec hg'
      rw [htypes'] at hmcu'
      obtain ⟨other, hother, hsame⟩ := hfrom mcu' hmcu'
      obtain rfl : other = mcu := List.inj_on_of_nodup_map horderly.nodup hother hmcu
        (hsame.name.symm.trans hname)
      exact .some hsame
    | none =>
      obtain ⟨hk, mcu', hload, hsame⟩ := (h.loadType_iff hmcu).mpr (hkept mcu hmcu)
      have hmem : mcu' ∈ types :=
        (mem_mapM htypes mcu').mpr ⟨_, List.mem_filter.mpr ⟨h.entry_mem hmcu, hk⟩, hload⟩
      have hput : mcu'.name ∈ reg'.types.map McuType.name := htypes' ▸ mem_map_foldl_dictPut hmem
      obtain ⟨other, hother, hname⟩ := List.mem_map.mp hput
      exact absurd (hname.trans hsame.name) (get?_eq_none_iff.mp hg' other hother)

/-- The types come back exactly where each of them does. -/
theorem reloads_iff (h : Orderly reg) (hsave : reg.save = .ok text') :
    Reloads reg text' ↔ ∀ mcu ∈ reg.types, reg.Kept mcu := by
  constructor
  · intro hback
    exact kept_of_reloads (saves_of_reloads h hsave hback) hback
  · intro hkept
    exact reloads_of_kept (saves_of_kept h hsave hkept) h hkept

end McuUpdater.Config
