import McuUpdater.Lib.Transition
import McuUpdater.Registry.Edits
import McuUpdater.Agent.RegistryApi

/-! The calls that change the registry's file, run one after another: which of them can lose a
tracked board. -/
namespace McuUpdater.Agent.Tracking
open PyText Dict CfgDoc CfgDocument McuUpdater.Registry Typelist Config ExceptList Inventory
open RegistryApi Updater Transition
variable {reg reg' : Config.Registry} {mcu mcu' : McuType} {text text' t x fw name : Str}
  {kind : Kind}

/-! ## Texts that stay on their lines -/

/-- What a call says about a family, where none of it breaks its line. -/
structure SafeArgs (args : FwArgs) : Prop where
  extraArgs : ∀ text ∈ args.extraArgs, LineSafe (strip text)
  extraRepos : ∀ repos ∈ args.extraRepos, ∀ repo ∈ repos, OneLine (strip repo)
  makefilePatches : ∀ patches ∈ args.makefilePatches, ∀ p ∈ patches,
    OneLine (strip p.1) ∧ OneLine (strip p.2)

theorem oneLine_parseExtraRepos {repos : List Str} (h : ∀ repo ∈ repos, OneLine (strip repo)) :
    ∀ repo ∈ parseExtraRepos repos, OneLine repo := by
  intro repo hrepo
  obtain ⟨raw, hraw, rfl⟩ := List.mem_map.mp (List.mem_filter.mp hrepo).1
  exact h raw hraw

theorem oneLine_parseMakefilePatches {raw : List (Str × Str)} {patches : List MakefilePatch}
    (h : ∀ p ∈ raw, OneLine (strip p.1) ∧ OneLine (strip p.2))
    (hp : parseMakefilePatches raw = .ok patches) :
    ∀ p ∈ patches, OneLine p.file ∧ OneLine p.line := by
  intro p hmem
  obtain ⟨⟨file, line⟩, hraw, hpatch⟩ := (mem_mapM hp p).mp hmem
  dsimp only at hpatch
  split_ifs at hpatch
  rw [← Except.ok.inj hpatch]
  exact h _ hraw

theorem safePatches {args : FwArgs} (h : SafeArgs args) {patches : Option (List MakefilePatch)}
    (hp : args.makefilePatches.mapM parseMakefilePatches = .ok patches) :
    ∀ ps ∈ patches, ∀ p ∈ ps, OneLine p.file ∧ OneLine p.line := by
  cases hm : args.makefilePatches with
  | none =>
    rw [hm] at hp
    rw [← Except.ok.inj hp]
    simp
  | some raw =>
    rw [hm, Option.mapM_some] at hp
    obtain ⟨ps, hps, hp⟩ := bind_ok hp
    rw [← Except.ok.inj hp]
    rintro _ ⟨⟩
    exact oneLine_parseMakefilePatches (h.makefilePatches raw hm) hps

/-! ## Other texts about the same boards -/

theorem updateFw_sameBoards {f : FwConfig → FwConfig} (h : SafeType mcu) (hfw : SafeFamily fw)
    (hf : ∀ cfg, SafeCfg cfg → SafeCfg (f cfg)) : SameBoards mcu (updateFw fw f mcu) := by
  refine ⟨rfl, ⟨h.chipset, h.serials, h.canbusUuids, h.firmwares, h.profile, h.stopServices,
    fun slot hslot => ?_⟩, fun kind => by cases kind <;> rfl⟩
  rcases mem_dictPut hslot with rfl | hslot
  · exact ⟨hfw, hf _ (h.lookup fw)⟩
  · exact h.fws slot hslot

theorem setSlot_sameBoards {repos : Option (List Str)} {patches : Option (List MakefilePatch)}
    (h : SafeType mcu) (hfw : SafeFamily fw) (hrepos : ∀ rs ∈ repos, ∀ repo ∈ rs, OneLine repo)
    (hpatches : ∀ ps ∈ patches, ∀ p ∈ ps, OneLine p.file ∧ OneLine p.line) :
    SameBoards mcu (setSlot fw repos patches mcu) := by
  have hset : ∀ rs ∈ repos, ∀ cfg, SafeCfg cfg → SafeCfg { cfg with extraRepos := rs } :=
    fun rs hrs cfg hcfg => ⟨hcfg.extraArgs, hcfg.patches, hrepos rs hrs⟩
  have hput : ∀ ps ∈ patches, ∀ cfg, SafeCfg cfg → SafeCfg { cfg with makefilePatches := ps } :=
    fun ps hps cfg hcfg => ⟨hcfg.extraArgs, hpatches ps hps, hcfg.extraRepos⟩
  unfold setSlot
  cases repos with
  | none =>
    cases patches with
    | none => exact .refl h
    | some ps => exact updateFw_sameBoards h hfw (hput ps rfl)
  | some rs =>
    have hfirst := updateFw_sameBoards h hfw (hset rs rfl)
    cases patches with
    | none => exact hfirst
    | some ps => exact hfirst.trans (updateFw_sameBoards hfirst.texts hfw (hput ps rfl))

theorem setSlot_args {args : FwArgs} (hargs : SafeArgs args) {patches : Option (List MakefilePatch)}
    (hp : args.makefilePatches.mapM parseMakefilePatches = .ok patches) (h : SafeType mcu)
    (hfw : SafeFamily fw) :
    SameBoards mcu (setSlot fw (args.extraRepos.map parseExtraRepos) patches mcu) := by
  refine setSlot_sameBoards h hfw (fun rs hrs => ?_) (safePatches hargs hp)
  obtain ⟨raw, hraw, rfl⟩ := Option.map_eq_some_iff.mp hrs
  exact oneLine_parseExtraRepos (hargs.extraRepos raw hraw)

theorem updateFamily_sameBoards {args : TypeUpdateArgs} (hargs : ∀ given ∈ args.fws, SafeArgs given.2)
    (h : SafeType mcu) (hfw : SafeFamily fw) (hok : updateFamily args mcu fw = .ok mcu') :
    SameBoards mcu mcu' := by
  have hgiven : SafeArgs ((args.fws.lookup fw).getD {}) := by
    cases hl : args.fws.lookup fw with
    | none => exact ⟨by simp, by simp, by simp⟩
    | some given => exact hargs _ (mem_of_lookup hl)
  unfold updateFamily at hok
  dsimp only at hok
  obtain ⟨patches, hpatches, hok⟩ := bind_ok hok
  rw [← Except.ok.inj hok]
  cases he : ((args.fws.lookup fw).getD {}).extraArgs with
  | none => exact setSlot_args hgiven hpatches h hfw
  | some text =>
    have hfirst := updateFw_sameBoards (f := fun cfg => { cfg with extraArgs := strip text }) h hfw
      fun cfg hcfg => ⟨(strip_strip text).symm ▸ hgiven.extraArgs text he, hcfg.patches,
        hcfg.extraRepos⟩
    exact hfirst.trans (setSlot_args hgiven hpatches hfirst.texts hfw)

theorem foldlM_updateFamily {args : TypeUpdateArgs} (hargs : ∀ given ∈ args.fws, SafeArgs given.2)
    {fws : List Str} (hfws : ∀ fw ∈ fws, SafeFamily fw) (h : SafeType mcu)
    (hok : fws.foldlM (updateFamily args) mcu = .ok mcu') : SameBoards mcu mcu' := by
  induction fws generalizing mcu with
  | nil => exact Except.ok.inj hok ▸ .refl h
  | cons fw fws ih =>
    rw [List.forall_mem_cons] at hfws
    obtain ⟨mid, hmid, hok⟩ := bind_ok hok
    have hfirst := updateFamily_sameBoards hargs h hfws.1 hmid
    exact hfirst.trans (ih hfws.2 hfirst.texts hok)

theorem requireStr_spec {key value out : Str} (h : requireStr key value = .ok out) :
    out = strip value ∧ strip value ≠ [] := by
  unfold requireStr at h
  split_ifs at h with hne
  exact ⟨(Except.ok.inj h).symm, hne⟩

theorem requireFamily_spec {known : List Str} {value out : Str}
    (h : requireFamily known value = .ok out) : out = Config.klipper ∨ out ∈ known := by
  unfold requireFamily at h
  split_ifs at h with hnil hknown
  · exact .inl (Except.ok.inj h).symm
  · exact .inr (Except.ok.inj h ▸ hknown)

theorem withFirmwares_sameBoards (h : SafeType mcu) {firmwares : List Str}
    (hfw : ∀ fw ∈ firmwares, OneLine fw) : SameBoards mcu { mcu with firmwares } :=
  ⟨rfl, ⟨h.chipset, h.serials, h.canbusUuids, hfw, h.profile, h.stopServices, h.fws⟩,
    fun kind => by cases kind <;> rfl⟩

/-- The texts of a `type_update`, where none of them breaks its line. -/
structure SafeUpdate (args : TypeUpdateArgs) : Prop where
  chipset : ∀ chipset ∈ args.chipset, LineSafe (strip chipset)
  fws : ∀ given ∈ args.fws, SafeArgs given.2

theorem updateChipset_sameBoards {args : TypeUpdateArgs} (hargs : SafeUpdate args)
    (h : SafeType mcu) (hok : updateChipset args mcu = .ok mcu') : SameBoards mcu mcu' := by
  unfold updateChipset at hok
  split at hok
  · next chipset hc =>
    obtain ⟨out, hout, hok⟩ := bind_ok hok
    obtain ⟨rfl, -⟩ := requireStr_spec hout
    rw [← Except.ok.inj hok]
    exact ⟨rfl, ⟨hargs.chipset chipset hc, h.serials, h.canbusUuids, h.firmwares, h.profile,
      h.stopServices, h.fws⟩, fun kind => by cases kind <;> rfl⟩
  · exact Except.ok.inj hok ▸ .refl h

theorem updateFirmware_sameBoards {families : List FirmwareFamily} {args : TypeUpdateArgs}
    (hfam : ∀ fw ∈ families.map (·.name), OneLine fw) (h : SafeType mcu)
    (hok : updateFirmware families args mcu = .ok mcu') : SameBoards mcu mcu' := by
  unfold updateFirmware at hok
  split at hok
  · obtain ⟨application, happ, hok⟩ := bind_ok hok
    split_ifs at hok
    · exact Except.ok.inj hok ▸ .refl h
    · rw [← Except.ok.inj hok]
      refine withFirmwares_sameBoards h fun fw hfw => ?_
      rcases List.mem_cons.mp hfw with rfl | hfw
      · rcases requireFamily_spec happ with rfl | hknown
        · exact safeFamily_klipper.oneLine
        · exact hfam _ hknown
      · exact h.firmwares fw (List.mem_of_find?_eq_some (Option.mem_toList.mp hfw))
  · exact Except.ok.inj hok ▸ .refl h

theorem updateInstalled_sameBoards (args : TypeUpdateArgs) (h : SafeType mcu) :
    SameBoards mcu (updateInstalled args mcu) := by
  unfold updateInstalled
  split
  · next installed _ =>
    refine withFirmwares_sameBoards h fun fw hfw => ?_
    rcases List.mem_append.mp hfw with hfw | hfw
    · exact h.firmwares fw (List.mem_filter.mp hfw).1
    · cases installed with
      | false => exact nomatch hfw
      | true => exact List.mem_singleton.mp hfw ▸ safeFamily_katapult.oneLine
  · exact .refl h

/-- The loop of `type_update` runs over the slots the type has. -/
theorem safeFamily_of_mem_fwOrder (h : SafeType mcu) : ∀ fw ∈ fwOrder mcu, SafeFamily fw := by
  intro fw hfw
  have hslot : fw ∈ mcu.fws.map Prod.fst := by
    rcases List.mem_append.mp hfw with hfw | hfw
    · exact of_decide_eq_true (List.mem_filter.mp hfw).2
    · exact (List.mem_filter.mp hfw).1
  obtain ⟨slot, hmem, rfl⟩ := List.mem_map.mp hslot
  exact (h.fws slot hmem).1

theorem updateType_sameBoards {families : List FirmwareFamily} {args : TypeUpdateArgs}
    (hfam : ∀ fw ∈ families.map (·.name), OneLine fw) (hargs : SafeUpdate args) (h : SafeType mcu)
    (hok : updateType families args mcu = .ok mcu') : SameBoards mcu mcu' := by
  obtain ⟨first, hchipset, hok⟩ := bind_ok hok
  obtain ⟨second, hfirmware, hok⟩ := bind_ok hok
  obtain ⟨third, hfamilies, hok⟩ := bind_ok hok
  have h₁ := updateChipset_sameBoards hargs h hchipset
  have h₂ := updateFirmware_sameBoards hfam h₁.texts hfirmware
  have h₃ := foldlM_updateFamily hargs.fws (safeFamily_of_mem_fwOrder h₂.texts) h₂.texts hfamilies
  rw [← Except.ok.inj hok]
  exact ((h₁.trans h₂).trans h₃).trans (updateInstalled_sameBoards args h₃.texts)

/-! ## One call -/

/-- What a call that keeps the boards of a tidy file leaves: a tidy file that tracks them. -/
def Keeps (t : Str) (kind : Kind) (x : Str) (text text' : Str) : Prop :=
  Tidy text' ∧ (Config.Tracked text t kind x → Config.Tracked text' t kind x)

theorem keeps_of_mutate {body : Config.Registry → Except Config.Error Config.Registry}
    (htidy : Tidy text) (h : mutate text body = .ok text')
    (hbody : ∀ reg reg', Loaded text reg → Sound reg → body reg = .ok reg' → Sound reg' ∧
      (x ∈ listed reg t kind → reads x = x → x ≠ [] → x ∈ shown (listed reg' t kind))) :
    Keeps t kind x text text' := by
  obtain ⟨reg, hload, h⟩ := bind_ok h
  obtain ⟨reg', hedit, hsave⟩ := bind_ok h
  have hloaded := loaded_of_load hload
  obtain ⟨hsound, hkept⟩ := hbody reg reg' hloaded (hloaded.sound htidy) hedit
  have htidy' := hsound.tidy_save hsave
  refine ⟨htidy', fun hx => ?_⟩
  have hx := (tracked_iff htidy.1).mp hx
  obtain ⟨hreads, -, hne⟩ := mem_idsOf (whole_ofText text) hx
  have hlisted : x ∈ listed reg t kind := by
    rw [hloaded.listed (hloaded.doc ▸ htidy.1), hloaded.doc]
    exact hx
  have hshown := hkept hlisted hreads hne
  have hnonempty : listed reg' t kind ≠ [] := by
    rintro he
    simp [he, shown] at hshown
  rw [tracked_iff htidy'.1, hsound.idsOf_save hsave t (.inr hnonempty)]
  exact hshown

theorem keeps_typeAdd {args : TypeAddArgs} (htidy : Tidy text)
    (hchipset : LineSafe (strip args.chipset)) (hklipper : SafeArgs args.klipper)
    (hkatapult : SafeArgs args.katapult)
    (h : typeAdd text { args with overwrite := false } = .ok text') : Keeps t kind x text text' := by
  have hargs : ∀ given : FwArgs, SafeArgs given → LineSafe (strip (strip (given.extraArgs.getD []))) := by
    intro given hgiven
    rw [strip_strip]
    cases he : given.extraArgs with
    | none => exact safeCfg_default.extraArgs
    | some text => exact hgiven.extraArgs text he
  obtain ⟨name, -, h⟩ := bind_ok h
  obtain ⟨chipset, hc, h⟩ := bind_ok h
  obtain ⟨application, -, h⟩ := bind_ok h
  obtain ⟨klipperPatches, hkp, h⟩ := bind_ok h
  obtain ⟨katapultPatches, hbp, h⟩ := bind_ok h
  obtain ⟨rfl, -⟩ := requireStr_spec hc
  refine keeps_of_mutate htidy h fun reg reg' _ hsound hedit => ?_
  obtain ⟨mid, hadd, hedit⟩ := bind_ok hedit
  rw [← Except.ok.inj hedit]
  obtain ⟨hmid, hlisted⟩ := hsound.addType rfl hadd hchipset (hargs _ hklipper) (hargs _ hkatapult)
  cases hg : mid.get? name with
  | none =>
    rw [modify_of_none hg]
    exact ⟨hmid, shown_of_listed (hlisted t kind)⟩
  | some mcu =>
    have hfirst := setSlot_args hklipper hkp (hmid.storable mcu (get?_spec hg).1).texts
      safeFamily_klipper
    have hboth := hfirst.trans (setSlot_args hkatapult hbp hfirst.texts safeFamily_katapult)
    obtain ⟨hsound', hsame⟩ := hmid.described (f := fun mcu => setSlot Config.katapult
      (args.katapult.extraRepos.map parseExtraRepos) katapultPatches (setSlot Config.klipper
        (args.klipper.extraRepos.map parseExtraRepos) klipperPatches mcu)) hg hboth
    exact ⟨hsound', shown_of_listed ((hsame t kind).trans (hlisted t kind))⟩

theorem keeps_typeUpdate {args : TypeUpdateArgs} (htidy : Tidy text) (hargs : SafeUpdate args)
    (h : typeUpdate text args = .ok text') : Keeps t kind x text text' := by
  obtain ⟨name, -, h⟩ := bind_ok h
  refine keeps_of_mutate htidy h fun reg reg' hloaded hsound hedit => ?_
  obtain ⟨mcu, hget, hedit⟩ := bind_ok hedit
  obtain ⟨mcu', hupdate, hedit⟩ := bind_ok hedit
  have hg := get_spec hget
  have hfam : ∀ fw ∈ (loadFromDoc (ofText text)).map (·.name), OneLine fw := fun fw hfw =>
    (safeFamily_of_mem (whole_ofText text) htidy.2 fw (mem_namesOf.mpr hfw)).oneLine
  rw [← Except.ok.inj hedit]
  obtain ⟨hsound', hsame⟩ := hsound.described (f := fun _ => mcu') hg
    (updateType_sameBoards hfam hargs (hsound.storable mcu (get?_spec hg).1).texts hupdate)
  exact ⟨hsound', shown_of_listed (hsame t kind)⟩

theorem keeps_setProfile {profile : Str} (htidy : Tidy text) (hp : LineSafe (strip profile))
    (h : setProfile text name profile = .ok text') : Keeps t kind x text text' := by
  refine keeps_of_mutate htidy h fun reg reg' _ hsound hedit => ?_
  obtain ⟨_, -, hedit⟩ := bind_ok hedit
  rw [← Except.ok.inj hedit]
  obtain ⟨hsound', hsame⟩ := hsound.withProfile name hp
  exact ⟨hsound', shown_of_listed (hsame t kind)⟩

theorem keeps_serialAdd {serial : Str} (htidy : Tidy text) (hserial : OneLine serial)
    (h : serialAdd text name serial = .ok text') : Keeps t kind x text text' := by
  refine keeps_of_mutate htidy h fun reg reg' _ hsound hedit => ?_
  obtain ⟨_, -, hedit⟩ := bind_ok hedit
  obtain ⟨-, hadd⟩ := check_ok hedit
  have hres := hsound.addDeclaredSerial hserial hadd
  exact ⟨hres.sound, hres.keeps fun y hy => mem_added hy serial⟩

theorem keeps_canbusAdd {uuid : Str} (htidy : Tidy text) (huuid : OneLine (strip uuid))
    (h : canbusAdd text name uuid = .ok text') : Keeps t kind x text text' := by
  obtain ⟨name, -, h⟩ := bind_ok h
  obtain ⟨uuid', hu, h⟩ := bind_ok h
  obtain ⟨rfl, -⟩ := requireStr_spec hu
  refine keeps_of_mutate htidy h fun reg reg' _ hsound hedit => ?_
  obtain ⟨_, -, hedit⟩ := bind_ok hedit
  obtain ⟨-, hadd⟩ := check_ok hedit
  have hres := hsound.addDeclaredCanbusUuid huuid hadd
  exact ⟨hres.sound, hres.keeps fun y hy => mem_added hy (strip uuid)⟩

theorem keeps_serialRemove {serial : Str} (htidy : Tidy text)
    (hother : ¬ (t = name ∧ kind = .serial ∧ x = serial))
    (h : serialRemove text name serial = .ok text') : Keeps t kind x text text' := by
  refine keeps_of_mutate htidy h fun reg reg' _ hsound hedit => ?_
  obtain ⟨_, -, hedit⟩ := bind_ok hedit
  have hres := hsound.removeDeclaredSerial hedit
  exact ⟨hres.sound, hres.keeps hother⟩

theorem keeps_canbusRemove {uuid : Str} (htidy : Tidy text)
    (hother : ¬ (t = strip name ∧ kind = .canbusUuid ∧ x = strip uuid))
    (h : canbusRemove text name uuid = .ok text') : Keeps t kind x text text' := by
  obtain ⟨name', hn, h⟩ := bind_ok h
  obtain ⟨uuid', hu, h⟩ := bind_ok h
  obtain ⟨rfl, -⟩ := requireStr_spec hn
  obtain ⟨rfl, -⟩ := requireStr_spec hu
  refine keeps_of_mutate htidy h fun reg reg' _ hsound hedit => ?_
  obtain ⟨_, -, hedit⟩ := bind_ok hedit
  have hres := hsound.removeDeclaredCanbusUuid hedit
  exact ⟨hres.sound, hres.keeps hother⟩

theorem keeps_adopt {serial : Str} (htidy : Tidy text) (hserial : OneLine serial)
    (h : adopt text name serial = .ok text') : Keeps t kind x text text' := by
  obtain ⟨_, -, h⟩ := bind_ok h
  split_ifs at h
  · rw [← Except.ok.inj h]
    exact ⟨htidy, id⟩
  refine keeps_of_mutate htidy h fun reg reg' _ hsound hedit => ?_
  obtain ⟨mcu, hget, hedit⟩ := bind_ok hedit
  rw [← Except.ok.inj hedit]
  have hres := hsound.addSerial (get_spec hget) hserial
  refine ⟨hres.sound, hres.keeps fun y hy => mem_added ?_ serial⟩
  rwa [listed_of_get? (get_spec hget)] at hy

/-- An unforced removal refuses a type with serials, so what is lost is a type's CAN uuids. -/
theorem keeps_typeRemove (htidy : Tidy text)
    (huuids : idsOf (ofText text) (strip name) .canbusUuid = [])
    (h : typeRemove text name false = .ok text') : Keeps t kind x text text' := by
  obtain ⟨name', hn, h⟩ := bind_ok h
  obtain ⟨rfl, -⟩ := requireStr_spec hn
  refine keeps_of_mutate htidy h fun reg reg' hloaded hsound hedit => ?_
  obtain ⟨serials, hserials, hedit⟩ := bind_ok hedit
  obtain ⟨hrefuse, hedit⟩ := check_ok hedit
  have hnil : serials = [] := by simpa using hrefuse
  obtain ⟨hsound', hothers⟩ := hsound.removeDeclaredType hedit
  refine ⟨hsound', fun hx hreads hne => ?_⟩
  by_cases ht : t = strip name
  · have hempty : listed reg t kind = [] := by
      cases kind with
      | serial => rw [ht, ← declaredSerials_spec hsound hserials, hnil]
      | canbusUuid => rw [hloaded.listed hsound.distinct, hloaded.doc, ht, huuids]
    rw [hempty] at hx
    exact nomatch hx
  · exact shown_of_listed (hothers t kind ht) hx hreads hne

/-! ## The settings in the same file -/

def SafeSettings (s : Settings) : Prop := ∀ w ∈ settingsWrites s, ∀ value ∈ w.2, value.Whole

def settingsKeys : List Str := (settingsWrites {}).map Prod.fst

theorem settingsKeys_check : (settingsKeys.all fun key =>
    key.head?.any (fun c => c ≠ ' ' && c ≠ '\t' && c ≠ '[') && key.all (!isBreak ·)) = true := rfl

theorem safeWrite_settings {s : Settings} (hs : SafeSettings s) :
    ∀ w ∈ settingsWrites s, SafeWrite w := by
  intro w hw
  have hkeys : (settingsWrites s).map Prod.fst = settingsKeys := rfl
  have hkey : w.1 ∈ settingsKeys := hkeys ▸ List.mem_map_of_mem hw
  have hcheck := List.all_eq_true.mp settingsKeys_check w.1 hkey
  simp only [Bool.and_eq_true, Option.any_eq_true, List.all_eq_true, Bool.not_eq_true'] at hcheck
  obtain ⟨⟨c, hc, hchar⟩, hline⟩ := hcheck
  simp only [decide_eq_true_eq] at hchar
  obtain ⟨rest, hrest⟩ := List.head?_eq_some_iff.mp hc
  exact ⟨⟨c, rest, hrest, hchar.1⟩, by simpa [hc] using hchar.2, hline, hs w hw⟩

theorem nameSafe_updater : NameSafe updater := ⟨by decide, by decide, by decide⟩

/-- The document `_write_settings` writes has every other section as it was. -/
theorem settings_frame {doc : CfgDocument} (hdoc : doc.Whole) {s : Settings} (hs : SafeSettings s) :
    let doc' := (settingsWrites s).foldl (writeOption updater) doc
    doc'.Whole ∧ (∀ sec, sec ∈ doc'.names ↔ sec ∈ doc.names ∨ sec = updater) ∧
      ∀ sec, sec ≠ updater → ∀ key, doc'.writtenAt sec key = doc.writtenAt sec key := by
  have hsafe : updater ∈ doc.names ∨ NameSafe updater := .inr nameSafe_updater
  have hws := safeWrite_settings hs
  have hmem := mem_names_addSection hsafe
  have hline : OneLine updater := by decide
  have heq : (settingsWrites s).foldl (writeOption updater) doc =
      writeAll updater (doc.addSection updater) (settingsWrites s) := foldl_writeOption hsafe
  dsimp only
  rw [heq]
  refine ⟨whole_writeAll hws hline (hdoc.addSection hline), fun sec => ?_, fun sec hne key => ?_⟩
  · rw [names_writeAll hws hmem, names_addSection_cases hsafe]
    split_ifs with hin
    · exact ⟨.inl, fun h => h.elim id fun he => he ▸ hin⟩
    · simp
  · rw [writtenAt_writeAll_of_ne hws hmem hne, writtenAt_addSection_cases hsafe]

theorem keeps_settings {int : Str → Option Int} {body : Settings → Except ConfigError Settings}
    (htidy : Tidy text) (hbody : ∀ before after, settingsFromDoc int (ofText text) = .ok before →
      body before = .ok after → SafeSettings after)
    (h : settingsMutate int text body = .ok text') : Keeps t kind x text text' := by
  obtain ⟨before, hbefore, h⟩ := bind_ok h
  obtain ⟨current, hcurrent, h⟩ := bind_ok h
  split_ifs at h
  · exact Except.ok.inj h ▸ ⟨htidy, id⟩
  · obtain ⟨hwhole, hnames, hsame⟩ :=
      settings_frame (whole_ofText text) (hbody before current hbefore hcurrent)
    rw [← Except.ok.inj h]
    have hread := names_reload hwhole
    rw [reload] at hread
    have hnot : ∀ {s t}, typeOf s = some t → s ≠ updater := by
      rintro _ _ ht rfl
      exact absurd (head_of_typeOf ht) (by decide)
    refine ⟨⟨distinctTypes_of fun s hs s' hs' t ht ht' => ?_, ?_⟩, ?_⟩
    · rw [hread, hnames] at hs hs'
      exact section_eq htidy.1 (hs.resolve_right (hnot ht)) (hs'.resolve_right (hnot ht')) ht ht'
    · refine htidy.2.of_firmware fun s hs => ?_
      rw [hread, hnames] at hs
      refine hs.imp_right ?_
      rintro rfl
      decide
    · rintro ⟨s, hs, ht, hx⟩
      refine ⟨s, hread ▸ (hnames s).mpr (.inl hs), ht, ?_⟩
      have hwritten := writtenAt_reload hwhole s (idKey kind)
      rw [reload, hsame s (hnot ht)] at hwritten
      rwa [getList_of_writtenAt hwritten]

/-! ## Runs of calls -/

/-- The calls that neither force a removal nor overwrite a type. -/
inductive Op
  | typeAdd (args : TypeAddArgs)
  | typeUpdate (args : TypeUpdateArgs)
  | typeRemove (name : Str)
  | setProfile (name profile : Str)
  | serialAdd (name serial : Str)
  | serialRemove (name serial : Str)
  | canbusAdd (name uuid : Str)
  | canbusRemove (name uuid : Str)
  | adopt (mcuType serial : Str)
  | settings (body : Settings → Except ConfigError Settings)

def Op.step (int : Str → Option Int) (text : Str) : Op → Option Str
  | .typeAdd args => (RegistryApi.typeAdd text { args with overwrite := false }).toOption
  | .typeUpdate args => (RegistryApi.typeUpdate text args).toOption
  | .typeRemove name => (RegistryApi.typeRemove text name false).toOption
  | .setProfile name profile => (RegistryApi.setProfile text name profile).toOption
  | .serialAdd name serial => (RegistryApi.serialAdd text name serial).toOption
  | .serialRemove name serial => (RegistryApi.serialRemove text name serial).toOption
  | .canbusAdd name uuid => (RegistryApi.canbusAdd text name uuid).toOption
  | .canbusRemove name uuid => (RegistryApi.canbusRemove text name uuid).toOption
  | .adopt mcuType serial => (RegistryApi.adopt text mcuType serial).toOption
  | .settings body => (settingsMutate int text body).toOption

/-- A remove call that names this identity and its type. -/
def Op.Removes (t : Str) (kind : Kind) (x : Str) : Op → Prop
  | .serialRemove name serial => t = name ∧ kind = .serial ∧ x = serial
  | .canbusRemove name uuid => t = strip name ∧ kind = .canbusUuid ∧ x = strip uuid
  | _ => False

/-- No text of the call breaks its line, and a type it removes tracks no CAN uuid. -/
def Op.Careful (int : Str → Option Int) (text : Str) : Op → Prop
  | .typeAdd args => LineSafe (strip args.chipset) ∧ SafeArgs args.klipper ∧ SafeArgs args.katapult
  | .typeUpdate args => SafeUpdate args
  | .typeRemove name => idsOf (ofText text) (strip name) .canbusUuid = []
  | .setProfile _ profile => LineSafe (strip profile)
  | .serialAdd _ serial | .adopt _ serial => OneLine serial
  | .canbusAdd _ uuid => OneLine (strip uuid)
  | .settings body => ∀ before after, settingsFromDoc int (ofText text) = .ok before →
      body before = .ok after → SafeSettings after
  | .serialRemove .. | .canbusRemove .. => True

theorem toOption_eq_some {ε α : Type*} {r : Except ε α} {a : α} (h : r.toOption = some a) :
    r = .ok a := by
  cases r with
  | error e => exact nomatch h
  | ok b => exact congrArg Except.ok (Option.some.inj h)

theorem Op.keeps {int : Str → Option Int} {op : Op} (htidy : Tidy text) (hop : op.Careful int text)
    (hother : ¬ op.Removes t kind x) (h : op.step int text = some text') :
    Keeps t kind x text text' := by
  cases op with
  | typeAdd args => exact keeps_typeAdd htidy hop.1 hop.2.1 hop.2.2 (toOption_eq_some h)
  | typeUpdate args => exact keeps_typeUpdate htidy hop (toOption_eq_some h)
  | typeRemove name => exact keeps_typeRemove htidy hop (toOption_eq_some h)
  | setProfile name profile => exact keeps_setProfile htidy hop (toOption_eq_some h)
  | serialAdd name serial => exact keeps_serialAdd htidy hop (toOption_eq_some h)
  | serialRemove name serial => exact keeps_serialRemove htidy hother (toOption_eq_some h)
  | canbusAdd name uuid => exact keeps_canbusAdd htidy hop (toOption_eq_some h)
  | canbusRemove name uuid => exact keeps_canbusRemove htidy hother (toOption_eq_some h)
  | adopt mcuType serial => exact keeps_adopt htidy hop (toOption_eq_some h)
  | settings body => exact keeps_settings htidy hop (toOption_eq_some h)

/-- In a run of careful calls from a tidy file, a tracked board stays tracked until a call that
removes it by name. -/
theorem stays_tracked {int : Str → Option Int} {start : Str} (htidy : Tidy start)
    (hx : Config.Tracked start t kind x)
    (h : Reach (Op.step int) (fun text op => op.Careful int text ∧ ¬ op.Removes t kind x)
      (· = start) text) : Config.Tracked text t kind x := by
  have hkept : Tidy text ∧ Config.Tracked text t kind x := by
    refine h.invariant (I := fun text => Tidy text ∧ Config.Tracked text t kind x) ?_
      fun s op s' hinv hop hstep => ?_
    · rintro _ rfl
      exact ⟨htidy, hx⟩
    obtain ⟨htidy', htracked⟩ := op.keeps hinv.1 hop.1 hop.2 hstep
    exact ⟨htidy', htracked hinv.2⟩
  exact hkept.2

def lines (l : List String) : Str := l.flatMap fun line => line.toList ++ ['\n']

def board : Str := "board".toList
def uuid : Str := "a1b2".toList

/-- A type with one CAN board and no serial. -/
def canOnly : Str := lines ["[firmware klipper]", "flashers: flashtool", "[type board]",
  "firmware: klipper", "canbus_uuids:", "    a1b2"]

instance (text t : Str) (kind : Kind) (x : Str) : Decidable (Config.Tracked text t kind x) :=
  inferInstanceAs (Decidable (∃ sec ∈ _, _))

theorem canOnly_tracked : Tidy canOnly ∧ Config.Tracked canOnly board .canbusUuid uuid := by
  decide +kernel

def noInt : Str → Option Int := fun _ => none

/-- A serial is added, and the CAN board stays. -/
theorem stays_tracked_added : ∃ text,
    Op.step noInt canOnly (.serialAdd board "AAAA".toList) = some text ∧
      Config.Tracked text board .canbusUuid uuid := by
  have hok : (Op.step noInt canOnly (.serialAdd board "AAAA".toList)).isSome = true := by
    decide +kernel
  obtain ⟨text, htext⟩ := Option.isSome_iff_exists.mp hok
  have hline : OneLine "AAAA".toList := by decide
  have hop : (Op.serialAdd board "AAAA".toList).Careful noInt canOnly ∧
      ¬ (Op.serialAdd board "AAAA".toList).Removes board .canbusUuid uuid :=
    ⟨hline, by simp [Op.Removes]⟩
  exact ⟨text, htext, stays_tracked canOnly_tracked.1 canOnly_tracked.2
    (.next (.start rfl) hop htext)⟩

/-- An unforced removal of the type takes the CAN board with it. -/
theorem removal_loses_uuid : Config.Tracked canOnly board .canbusUuid uuid ∧
    ∃ text, Reach (Op.step noInt) (fun _ op => ¬ op.Removes board .canbusUuid uuid)
      (· = canOnly) text ∧ ¬ Config.Tracked text board .canbusUuid uuid := by
  have hlost : ∃ text, Op.step noInt canOnly (.typeRemove board) = some text ∧
      ¬ Config.Tracked text board .canbusUuid uuid := ⟨_, rfl, by decide +kernel⟩
  obtain ⟨text, htext, hgone⟩ := hlost
  refine ⟨canOnly_tracked.2, text, .next (.start rfl) ?_ htext, hgone⟩
  simp [Op.Removes]

end McuUpdater.Agent.Tracking
