import McuUpdater.Registry.Tracked

/-! The edits a call makes of a registry before it is saved: each keeps what a save relies on,
and each adds or takes away the identities it names and no other. -/
namespace McuUpdater.Config
open PyText Dict Outline CfgDoc CfgDocument McuUpdater.Registry Typelist ExceptList Inventory
variable {s : Str} {doc doc' : CfgDocument} {sec t x name : Str} {kind kind' : Kind} {l : List Str}
  {reg reg' : Registry} {f : McuType → McuType} {mcu : McuType}

/-! ## Types held in memory -/

theorem get?_modify (hf : ∀ mcu, reg.get? name = some mcu → (f mcu).name = name)
    (hnodup : (reg.types.map McuType.name).Nodup) (t : Str) :
    (reg.modify name f).get? t =
      if t = name then (reg.get? name).map f else reg.get? t := by
  have hnames : ∀ mcu ∈ reg.types, (if mcu.name = name then f mcu else mcu).name = mcu.name := by
    intro mcu hmcu
    split_ifs with hn
    · rw [hn]
      exact hf mcu (hn ▸ get?_of_mem hnodup hmcu)
    · rfl
  rw [Registry.get?, Registry.modify, List.find?_map]
  have hfind : reg.types.find? ((fun mcu : McuType => decide (mcu.name = t)) ∘ fun mcu : McuType =>
      if mcu.name = name then f mcu else mcu) = reg.get? t := by
    rw [Registry.get?, ← List.head?_filter, ← List.head?_filter]
    refine congrArg List.head? (List.filter_congr fun mcu hmcu => ?_)
    rw [Function.comp_apply, hnames mcu hmcu]
  rw [hfind]
  by_cases ht : t = name
  · subst ht
    rw [if_pos rfl]
    cases hg : reg.get? t with
    | none => rfl
    | some mcu => simp [(get?_spec hg).2]
  · rw [if_neg ht]
    cases hg : reg.get? t with
    | none => rfl
    | some mcu => simp [(get?_spec hg).2, ht]

theorem Sound.modify (h : Sound reg)
    (hf : ∀ mcu, reg.get? name = some mcu → (f mcu).name = name ∧ SafeType (f mcu)) :
    Sound (reg.modify name f) := by
  have hself : ∀ mcu ∈ reg.types, mcu.name = name → (f mcu).name = name ∧ SafeType (f mcu) :=
    fun mcu hmcu hn => hf mcu (hn ▸ get?_of_mem h.nodup hmcu)
  refine ⟨h.whole, h.unbracketed, h.distinct, h.namesNodup, ?_, ?_⟩
  · refine List.forall_mem_map.mpr fun mcu hmcu => ?_
    split_ifs with hn
    · obtain ⟨hname, htexts⟩ := hself mcu hmcu hn
      exact ⟨hname ▸ hn ▸ (h.storable mcu hmcu).name, htexts⟩
    · exact h.storable mcu hmcu
  · have hmap : (reg.modify name f).types.map McuType.name = reg.types.map McuType.name := by
      rw [Registry.modify, List.map_map]
      refine List.map_congr_left fun mcu hmcu => ?_
      rw [Function.comp_apply]
      split_ifs with hn
      · rw [(hself mcu hmcu hn).1, hn]
      · rfl
    exact hmap ▸ h.nodup

theorem modify_of_none (h : reg.get? name = none) : reg.modify name f = reg := by
  have hmap : (reg.types.map fun mcu => if mcu.name = name then f mcu else mcu) = reg.types := by
    conv_rhs => rw [← List.map_id reg.types]
    refine List.map_congr_left fun mcu hmcu => if_neg fun hn => ?_
    exact List.find?_eq_none.mp h mcu hmcu (by simpa using hn)
  rw [Registry.modify, hmap]

theorem listed_of_get? (h : reg.get? t = some mcu) (kind : Kind) : listed reg t kind = ids mcu kind := by
  rw [listed, h]

theorem listed_of_none (h : reg.get? t = none) (kind : Kind) :
    listed reg t kind = idsOf reg.doc t kind := by
  rw [listed, h]

theorem listed_modify_of_ne (hf : ∀ mcu, reg.get? name = some mcu → (f mcu).name = name)
    (hnodup : (reg.types.map McuType.name).Nodup) (ht : t ≠ name) (kind : Kind) :
    listed (reg.modify name f) t kind = listed reg t kind := by
  rw [listed, listed, get?_modify hf hnodup, if_neg ht]
  rfl

/-! ## Other documents under the same types -/

theorem Sound.withDoc (h : Sound reg) (hwhole : doc.Whole) (hsub : doc.names.Sublist reg.doc.names) :
    Sound { reg with doc } :=
  ⟨hwhole, h.unbracketed.of_firmware fun _ hs => .inl (hsub.subset hs),
    h.distinct.of_subset fun _ hs => hsub.subset hs, hsub.nodup h.namesNodup, h.storable, h.nodup⟩

theorem listed_withDoc (reg : Registry) (doc : CfgDocument) (t : Str) (kind : Kind) :
    listed { reg with doc } t kind =
      if (reg.get? t).isSome then listed reg t kind else idsOf doc t kind := by
  have hget : ({ reg with doc } : Registry).get? t = reg.get? t := rfl
  rw [listed, listed, hget]
  cases reg.get? t <;> rfl

theorem noBracket_idKey (kind : Kind) : (idKey kind).head? ≠ some '[' := by
  cases kind <;> decide

theorem oneLine_idKey (kind : Kind) : OneLine (idKey kind) := by
  cases kind <;> decide

theorem idKey_inj {kind kind' : Kind} (h : idKey kind = idKey kind') : kind = kind' := by
  cases kind <;> cases kind' <;> first | rfl | exact absurd h (by decide)

theorem idsOf_set (kind : Kind) (hdoc : doc.Whole) (hd : DistinctTypes doc) (hs : s ∈ doc.names)
    (hty : typeOf s = some name) (hl : ∀ x ∈ l, OneLine x) (t : Str) (kind' : Kind) :
    idsOf (doc.set s (idKey kind) (.list l)) t kind' =
      if t = name ∧ kind' = kind then shown l else idsOf doc t kind' := by
  have hkey := keySafe_idKey kind
  have hn := names_set hkey.ne_nil (noBracket_idKey kind) hs (.list l)
  have hd' : DistinctTypes (doc.set s (idKey kind) (.list l)) := hd.of_subset fun _ hm => hn ▸ hm
  have hwhole : (doc.set s (idKey kind) (.list l)).Whole :=
    hdoc.set (oneLine_of_mem_names hdoc hs) (oneLine_idKey kind) hl
  have hw := writtenAt_set hkey (noBracket_idKey kind) hs (.list l)
  rcases exists_section_or doc t with ⟨s', hs', ht⟩ | hnone
  · rw [idsOf_of_section hd' (hn.symm ▸ hs') ht, idsOf_of_section hd hs' ht]
    by_cases hself : t = name ∧ kind' = kind
    · obtain ⟨rfl, rfl⟩ := hself
      obtain rfl := section_eq hd hs hs' hty ht
      rw [if_pos ⟨rfl, rfl⟩, getList_eq hwhole, hw, if_pos ⟨rfl, rfl⟩]
      cases hold : doc.writtenAt s (idKey kind') with
      | nil => exact texts_render_list hkey (by simp) hl
      | cons item rest =>
        have hitem : item ∈ doc.writtenAt s (idKey kind') := by simp [hold]
        refine texts_render_list hkey ?_ hl
        rintro _ ⟨⟩
        exact hdoc.of_mem_writtenAt hitem
    · rw [if_neg hself, getList_of_writtenAt]
      rw [hw, if_neg]
      rintro ⟨rfl, hk⟩
      exact hself ⟨Option.some.inj (ht.symm.trans hty), idKey_inj hk⟩
  · have ht : t ≠ name := fun he => hnone s hs (he ▸ hty)
    rw [if_neg fun h => ht h.1, idsOf_of_none hnone, idsOf_of_none (hn.symm ▸ hnone)]

theorem idsOf_removeOption (hd : DistinctTypes doc) (hs : s ∈ doc.names) (hty : typeOf s = some name)
    {t : Str} {kind' : Kind} (hne : t = name → kind' ≠ kind) :
    idsOf (doc.removeOption s (idKey kind)) t kind' = idsOf doc t kind' := by
  have hn := names_removeOption doc s (idKey kind)
  have hd' : DistinctTypes (doc.removeOption s (idKey kind)) := hd.of_subset fun _ hm => hn ▸ hm
  rcases exists_section_or doc t with ⟨s', hs', ht⟩ | hnone
  · rw [idsOf_of_section hd' (hn.symm ▸ hs') ht, idsOf_of_section hd hs' ht, getList_of_writtenAt]
    rw [writtenAt_removeOption, if_neg]
    rintro ⟨rfl, hk⟩
    exact hne (Option.some.inj (ht.symm.trans hty)) (idKey_inj hk)
  · rw [idsOf_of_none hnone, idsOf_of_none (hn.symm ▸ hnone)]

/-! ## One list of identities changed -/

/-- The identities of one kind of one type are those of `l` when the file is read, and all
others are listed as they were. -/
structure Relisted (name : Str) (kind : Kind) (l : List Str) (reg reg' : Registry) : Prop where
  sound : Sound reg'
  self : shown (listed reg' name kind) = shown l
  others : ∀ t kind', (t = name → kind' ≠ kind) → listed reg' t kind' = listed reg t kind'

theorem shown_of_listed (h : listed reg' t kind = listed reg t kind) (hx : x ∈ listed reg t kind)
    (hreads : reads x = x) (hne : x ≠ []) : x ∈ shown (listed reg' t kind) :=
  mem_shown.mpr ⟨⟨x, h.symm ▸ hx, hreads⟩, hne⟩

theorem Relisted.keeps (h : Relisted name kind' l reg reg')
    (hl : ∀ y ∈ listed reg name kind', y ∈ l) (hx : x ∈ listed reg t kind) (hreads : reads x = x)
    (hne : x ≠ []) : x ∈ shown (listed reg' t kind) := by
  by_cases hself : t = name ∧ kind = kind'
  · obtain ⟨rfl, rfl⟩ := hself
    rw [h.self]
    exact mem_shown.mpr ⟨⟨x, hl x hx, hreads⟩, hne⟩
  · exact shown_of_listed (h.others t kind fun ht hk => hself ⟨ht, hk⟩) hx hreads hne

theorem Relisted.same (h : Sound reg) (name : Str) (kind : Kind) :
    Relisted name kind (listed reg name kind) reg reg := ⟨h, rfl, fun _ _ _ => rfl⟩

theorem Sound.relisted_modify (h : Sound reg) (hmcu : reg.get? name = some mcu)
    (hname : (f mcu).name = mcu.name) (hsafe : SafeType (f mcu)) (hids : ids (f mcu) kind = l)
    (hothers : ∀ kind', kind' ≠ kind → ids (f mcu) kind' = ids mcu kind') :
    Relisted name kind l reg (reg.modify name f) := by
  have hf : ∀ other, reg.get? name = some other → (f other).name = name ∧ SafeType (f other) := by
    intro other hother
    obtain rfl := Option.some.inj (hmcu.symm.trans hother)
    exact ⟨hname.trans (get?_spec hmcu).2, hsafe⟩
  have hget : (reg.modify name f).get? name = some (f mcu) := by
    rw [get?_modify (fun other ho => (hf other ho).1) h.nodup, if_pos rfl, hmcu]
    rfl
  refine ⟨h.modify hf, by rw [listed_of_get? hget, hids], fun t kind' hne => ?_⟩
  by_cases ht : t = name
  · subst ht
    rw [listed_of_get? hget, hothers kind' (hne rfl), listed_of_get? hmcu]
  · exact listed_modify_of_ne (fun other ho => (hf other ho).1) h.nodup ht kind'

def Registry.setInDoc (reg : Registry) (sec : Str) (kind : Kind) (l : List Str) : Registry :=
  { reg with doc := reg.doc.set sec (idKey kind) (.list l) }

theorem Sound.relisted_setInDoc (h : Sound reg) (hnone : reg.get? name = none) (hs : s ∈ reg.doc.names)
    (hty : typeOf s = some name) (hl : ∀ x ∈ l, OneLine x) :
    Relisted name kind l reg (reg.setInDoc s kind l) := by
  have hids := idsOf_set kind h.whole h.distinct hs hty hl
  have hn := names_set (keySafe_idKey kind).ne_nil (noBracket_idKey kind) hs (.list l)
  have hsound : Sound (reg.setInDoc s kind l) :=
    h.withDoc (h.whole.set (oneLine_of_mem_names h.whole hs) (oneLine_idKey kind) hl)
      (hn ▸ List.Sublist.refl _)
  refine ⟨hsound, ?_, fun t kind' hne => ?_⟩
  · have hself : idsOf (reg.doc.set s (idKey kind) (.list l)) name kind = shown l := by
      rw [hids, if_pos ⟨rfl, rfl⟩]
    have hshown := shown_idsOf hsound.whole name kind
    rw [Registry.setInDoc, listed_withDoc, hnone, ← hself]
    exact hshown
  · have hother := hids t kind'
    rw [if_neg fun hc => hne hc.1 hc.2] at hother
    rw [Registry.setInDoc, listed_withDoc, hother]
    cases hg : reg.get? t with
    | none => exact (listed_of_none hg kind').symm
    | some mcu => rfl

theorem declaredSection_spec (h : reg.declaredSection name = .ok s) :
    s ∈ reg.doc.names ∧ typeOf s = some name := by
  unfold Registry.declaredSection at h
  split at h
  · next declared hfind =>
    obtain rfl := Except.ok.inj h
    have hmem := mem_readSections.mp (List.mem_of_find?_eq_some hfind)
    have hname : declared.name = name := by simpa using List.find?_some hfind
    exact hname ▸ hmem
  · exact nomatch h

theorem get_spec (h : reg.get name = .ok mcu) : reg.get? name = some mcu := by
  unfold Registry.get at h
  split at h
  · next hg => rw [hg, Except.ok.inj h]
  · exact nomatch h

theorem declaredSerials_spec (hs : Sound reg) {serials : List Str}
    (h : reg.declaredSerials name = .ok serials) : serials = listed reg name .serial := by
  unfold Registry.declaredSerials at h
  split at h
  · next mcu hmcu =>
    rw [listed_of_get? hmcu, ← Except.ok.inj h]
    rfl
  · next hnone =>
    obtain ⟨sec, hsec, h⟩ := bind_ok h
    obtain ⟨hmem, hty⟩ := declaredSection_spec hsec
    rw [listed_of_none hnone, idsOf_of_section hs.distinct hmem hty, ← Except.ok.inj h]
    rfl

/-! ## Describing a type -/

/-- Another description of the boards of one type. -/
structure SameBoards (mcu mcu' : McuType) : Prop where
  name : mcu'.name = mcu.name
  texts : SafeType mcu'
  ids : ∀ kind, ids mcu' kind = ids mcu kind

theorem SameBoards.refl (h : SafeType mcu) : SameBoards mcu mcu := ⟨rfl, h, fun _ => rfl⟩

theorem SameBoards.trans {mcu mcu' mcu'' : McuType} (h : SameBoards mcu mcu')
    (h' : SameBoards mcu' mcu'') : SameBoards mcu mcu'' :=
  ⟨h'.name.trans h.name, h'.texts, fun kind => (h'.ids kind).trans (h.ids kind)⟩

theorem Sound.described (h : Sound reg) (hmcu : reg.get? name = some mcu)
    (hf : SameBoards mcu (f mcu)) : Sound (reg.modify name f) ∧
      ∀ t kind, listed (reg.modify name f) t kind = listed reg t kind := by
  have hres : ∀ kind, Relisted name kind (ids (f mcu) kind) reg (reg.modify name f) := fun kind =>
    h.relisted_modify hmcu hf.name hf.texts rfl fun kind' _ => hf.ids kind'
  refine ⟨(hres .serial).sound, fun t kind => ?_⟩
  cases kind with
  | serial => exact (hres .canbusUuid).others t .serial (by simp)
  | canbusUuid => exact (hres .serial).others t .canbusUuid (by simp)

theorem Sound.withProfile (h : Sound reg) (name : Str) {profile : Str} (hp : LineSafe (strip profile)) :
    Sound (reg.modify name fun mcu => { mcu with profile }) ∧
      ∀ t kind, listed (reg.modify name fun mcu => { mcu with profile }) t kind =
        listed reg t kind := by
  cases hg : reg.get? name with
  | none =>
    rw [modify_of_none hg]
    exact ⟨h, fun _ _ => rfl⟩
  | some mcu =>
    have hsafe := (h.storable mcu (get?_spec hg).1).texts
    exact h.described hg ⟨rfl, ⟨hsafe.chipset, hsafe.serials, hsafe.canbusUuids, hsafe.firmwares, hp,
      hsafe.stopServices, hsafe.fws⟩, fun kind => by cases kind <;> rfl⟩

/-! ## Adding a type -/

theorem isAlphanum_bounds {c : Char} (h : c.isAlphanum = true) : 45 ≤ c.toNat ∧ c.toNat ≤ 122 := by
  have hrange : ∀ {low high : UInt32}, low ≤ c.val ∧ c.val ≤ high → 45 ≤ low.toNat → high.toNat ≤ 122 →
      45 ≤ c.toNat ∧ c.toNat ≤ 122 := fun h hlow hhigh =>
    ⟨hlow.trans (UInt32.le_iff_toNat_le.mp h.1), (UInt32.le_iff_toNat_le.mp h.2).trans hhigh⟩
  rcases (Bool.or_eq_true _ _).mp h with h | h
  · rcases (Bool.or_eq_true _ _).mp h with h | h
    · exact hrange (of_decide_eq_true h) (by decide) (by decide)
    · have h := (Bool.and_eq_true _ _).mp h
      exact hrange ⟨of_decide_eq_true h.1, of_decide_eq_true h.2⟩ (by decide) (by decide)
  · have h := (Bool.and_eq_true _ _).mp h
    exact hrange ⟨of_decide_eq_true h.1, of_decide_eq_true h.2⟩ (by decide) (by decide)

theorem isNameChar_spec {c : Char} (h : isNameChar c = true) :
    isSpace c = false ∧ isBreak c = false ∧ c ≠ ']' := by
  have hsp : isSpace c = false := by
    have hn : 45 ≤ c.toNat ∧ c.toNat ≤ 122 := by
      simp only [isNameChar, Bool.or_eq_true, decide_eq_true_eq] at h
      rcases h with ((h | rfl) | rfl) | rfl
      · exact isAlphanum_bounds h
      all_goals decide
    simp only [isSpace, Bool.or_eq_false_iff, Bool.and_eq_false_iff, decide_eq_false_iff_not]
    omega
  refine ⟨hsp, ?_, ?_⟩
  · cases hb : isBreak c with
    | false => rfl
    | true => simp [isSpace_of_isBreak hb] at hsp
  · rintro rfl
    exact absurd h (by decide)

theorem safeName_of_validate (h : validateTypeName name = .ok ()) : SafeName name := by
  unfold validateTypeName at h
  split_ifs at h with hbad
  simp only [not_or, not_not, List.all_eq_true] at hbad
  obtain ⟨hne, htrim, -, -, -, hall⟩ := hbad
  refine ⟨?_, htrim ▸ trimmed_strip name, fun hm => (isNameChar_spec (hall _ hm)).2.2 rfl,
    fun c hc => (isNameChar_spec (hall c hc)).2.1⟩
  rintro rfl
  exact hne rfl

theorem safeFamily_klipper : SafeFamily klipper :=
  ⟨⟨'k', _, rfl, by decide, by decide⟩, by decide, by decide⟩

theorem safeFamily_katapult : SafeFamily katapult :=
  ⟨⟨'k', _, rfl, by decide, by decide⟩, by decide, by decide⟩

theorem find?_dictPut {mcu : McuType} {types : List McuType} (h : mcu.name ∉ types.map McuType.name)
    (t : Str) : (dictPut McuType.name types mcu).find? (·.name = t) =
      if t = mcu.name then some mcu else types.find? (·.name = t) := by
  rw [dictPut_of_notMem h, List.find?_append]
  split_ifs with ht
  · have hnone : types.find? (·.name = t) = none := List.find?_eq_none.mpr fun other ho hn =>
      h (List.mem_map.mpr ⟨other, ho, (of_decide_eq_true hn).trans ht⟩)
    rw [hnone]
    simp [ht]
  · have hne : ¬ mcu.name = t := fun he => ht he.symm
    simp [hne]

theorem addType_spec {new : NewType} (hover : new.overwrite = false)
    (h : reg.addType new = .ok reg') : SafeName new.name ∧ reg.get? new.name = none ∧
      new.name ∉ reg.declaredTypeNames ∧ ∃ mcu : McuType, reg' =
        { reg with types := dictPut McuType.name reg.types mcu } ∧ mcu.name = new.name ∧
        (LineSafe new.chipset → LineSafe (strip new.klipperArgs) →
          LineSafe (strip new.katapultArgs) → reg.doc.Whole → Unbracketed reg.doc → SafeType mcu) ∧
        ∀ kind, ids mcu kind = [] := by
  obtain ⟨_, hname, h⟩ := bind_ok h
  obtain ⟨hdeclared, h⟩ := check_ok h
  obtain ⟨hknown, h⟩ := check_ok h
  dsimp only at h
  have hnone : reg.get? new.name = none := by
    cases hg : reg.get? new.name with
    | none => rfl
    | some mcu => simp [hg, hover] at hknown
  have hnot : new.name ∉ reg.declaredTypeNames := fun hm => hdeclared ⟨by simp [hnone], hm⟩
  split at h
  · cases h
  next hfind =>
  obtain ⟨_, -, h⟩ := bind_ok h
  refine ⟨safeName_of_validate hname, hnone, hnot, _, (Except.ok.inj h).symm, rfl, ?_, ?_⟩
  · intro hchipset hklipper hkatapult hdoc hu
    have hfw : ∀ fw ∈ [new.application] ++
        (if new.katapultInstalled = true ∧ new.application ≠ katapult then [katapult] else []),
        OneLine fw := by
      intro fw hmem
      have hknown : fw ∈ (loadFromDoc reg.doc).map (·.name) := by
        simpa using List.find?_eq_none.mp hfind fw hmem
      exact (safeFamily_of_mem hdoc hu fw (mem_namesOf.mpr hknown)).oneLine
    refine ⟨hchipset, by simp, by simp, hfw, safeCfg_default.extraArgs, by simp, ?_⟩
    simp only [List.forall_mem_cons]
    exact ⟨⟨safeFamily_katapult, hkatapult, by simp, by simp⟩,
      ⟨safeFamily_klipper, hklipper, by simp, by simp⟩, by simp⟩
  · intro kind
    cases kind <;> rfl

theorem Sound.addType (h : Sound reg) {new : NewType} (hover : new.overwrite = false)
    (hadd : reg.addType new = .ok reg') (hchipset : LineSafe new.chipset)
    (hklipper : LineSafe (strip new.klipperArgs)) (hkatapult : LineSafe (strip new.katapultArgs)) :
    Sound reg' ∧ ∀ t kind, listed reg' t kind = listed reg t kind := by
  obtain ⟨hname, hnone, hnot, mcu, rfl, hmcu, htexts, hids⟩ := addType_spec hover hadd
  have hnew : mcu.name ∉ reg.types.map McuType.name := fun hm => by
    obtain ⟨other, ho, hn⟩ := List.mem_map.mp hm
    exact List.find?_eq_none.mp hnone other ho (by simpa using hn.trans hmcu)
  refine ⟨⟨h.whole, h.unbracketed, h.distinct, h.namesNodup, fun other ho => ?_,
    nodup_dictPut h.nodup mcu⟩, fun t kind => ?_⟩
  · rcases mem_dictPut ho with rfl | ho
    · exact ⟨hmcu ▸ hname, htexts hchipset hklipper hkatapult h.whole h.unbracketed⟩
    · exact h.storable other ho
  · rw [listed, listed, Registry.get?, find?_dictPut hnew]
    split_ifs with ht
    · rw [ht, hmcu, hnone]
      have hempty : idsOf reg.doc new.name kind = [] := idsOf_of_none (fun s hs hty =>
        hnot (List.mem_map.mpr ⟨⟨new.name, s⟩, mem_readSections.mpr ⟨hs, hty⟩, rfl⟩)) kind
      exact (hids kind).trans hempty.symm
    · rfl

/-! ## Adding an identity -/

def added (l : List Str) (x : Str) : List Str := if x ∈ l then l else l ++ [x]

theorem added_of_mem {l : List Str} (h : x ∈ l) : added l x = l := if_pos h

theorem mem_added {y : Str} (hy : y ∈ l) (x : Str) : y ∈ added l x := by
  unfold added
  split_ifs
  · exact hy
  · exact List.mem_append_left _ hy

theorem oneLine_added (hl : ∀ y ∈ l, OneLine y) (hx : OneLine x) : ∀ y ∈ added l x, OneLine y := by
  intro y hy
  unfold added at hy
  split_ifs at hy
  · exact hl y hy
  · rcases List.mem_append.mp hy with hy | hy
    · exact hl y hy
    · exact List.mem_singleton.mp hy ▸ hx

theorem SafeType.withSerials (h : SafeType mcu) (serials : List Str) (hs : ∀ x ∈ serials, OneLine x) :
    SafeType { mcu with serials } :=
  ⟨h.chipset, hs, h.canbusUuids, h.firmwares, h.profile, h.stopServices, h.fws⟩

theorem SafeType.withUuids (h : SafeType mcu) (uuids : List Str) (hs : ∀ x ∈ uuids, OneLine x) :
    SafeType { mcu with canbusUuids := uuids } :=
  ⟨h.chipset, h.serials, hs, h.firmwares, h.profile, h.stopServices, h.fws⟩

theorem Sound.addSerial (h : Sound reg) (hmcu : reg.get? name = some mcu) (hx : OneLine x) :
    Relisted name .serial (added mcu.serials x) reg (reg.addSerial name x) := by
  have hsafe := (h.storable mcu (get?_spec hmcu).1).texts
  rw [Registry.addSerial]
  by_cases hmem : x ∈ mcu.serials
  · refine h.relisted_modify hmcu ?_ ?_ ?_ ?_ <;> simp [hmem, added, hsafe, ids]
  · have hnew := hsafe.withSerials (mcu.serials ++ [x])
      (by simpa [added, hmem] using oneLine_added hsafe.serials hx)
    refine h.relisted_modify hmcu ?_ ?_ ?_ fun kind' hne => ?_
    · simp [hmem]
    · simpa [hmem] using hnew
    · simp [hmem, added, ids]
    · cases kind' with
      | serial => exact absurd rfl hne
      | canbusUuid => simp [hmem, ids]

theorem Sound.addCanbusUuid (h : Sound reg) (hmcu : reg.get? name = some mcu) (hx : OneLine x) :
    Relisted name .canbusUuid (added mcu.canbusUuids x) reg (reg.addCanbusUuid name x) := by
  have hsafe := (h.storable mcu (get?_spec hmcu).1).texts
  rw [Registry.addCanbusUuid]
  by_cases hmem : x ∈ mcu.canbusUuids
  · refine h.relisted_modify hmcu ?_ ?_ ?_ ?_ <;> simp [hmem, added, hsafe, ids]
  · have hnew := hsafe.withUuids (mcu.canbusUuids ++ [x])
      (by simpa [added, hmem] using oneLine_added hsafe.canbusUuids hx)
    refine h.relisted_modify hmcu ?_ ?_ ?_ fun kind' hne => ?_
    · simp [hmem]
    · simpa [hmem] using hnew
    · simp [hmem, added, ids]
    · cases kind' with
      | serial => simp [hmem, ids]
      | canbusUuid => exact absurd rfl hne

theorem Sound.addToDoc (h : Sound reg) (hnone : reg.get? name = none)
    (hsec : reg.declaredSection name = .ok sec) (hx : OneLine x) (kind : Kind) :
    Relisted name kind (added (listed reg name kind) x) reg
      (if x ∈ reg.doc.getList sec (idKey kind) then reg
      else reg.setInDoc sec kind (reg.doc.getList sec (idKey kind) ++ [x])) := by
  obtain ⟨hs, hty⟩ := declaredSection_spec hsec
  have hl : listed reg name kind = reg.doc.getList sec (idKey kind) := by
    rw [listed_of_none hnone, idsOf_of_section h.distinct hs hty]
  by_cases hmem : x ∈ reg.doc.getList sec (idKey kind)
  · rw [if_pos hmem, added_of_mem (hl ▸ hmem)]
    exact Relisted.same h name kind
  · rw [if_neg hmem, hl, added, if_neg hmem]
    refine h.relisted_setInDoc hnone hs hty fun y hy => ?_
    rcases List.mem_append.mp hy with hy | hy
    · exact (reads_of_mem_getList h.whole hy).2.1
    · exact List.mem_singleton.mp hy ▸ hx

theorem Sound.addDeclaredSerial (h : Sound reg) (hx : OneLine x)
    (hedit : reg.addDeclaredSerial name x = .ok reg') :
    Relisted name .serial (added (listed reg name .serial) x) reg reg' := by
  unfold Registry.addDeclaredSerial at hedit
  cases hg : reg.get? name with
  | some mcu =>
    simp only [hg, Option.isSome_some, if_true] at hedit
    rw [← Except.ok.inj hedit, listed_of_get? hg]
    exact h.addSerial hg hx
  | none =>
    simp only [hg, Option.isSome_none, Bool.false_eq_true, if_false] at hedit
    obtain ⟨sec, hsec, hedit⟩ := bind_ok hedit
    have hres := h.addToDoc hg hsec hx .serial
    change (if x ∈ reg.doc.getList sec (idKey .serial) then _ else _) = _ at hedit
    split_ifs at hedit hres
    · exact Except.ok.inj hedit ▸ hres
    · exact Except.ok.inj hedit ▸ hres

theorem Sound.addDeclaredCanbusUuid (h : Sound reg) (hx : OneLine x)
    (hedit : reg.addDeclaredCanbusUuid name x = .ok reg') :
    Relisted name .canbusUuid (added (listed reg name .canbusUuid) x) reg reg' := by
  unfold Registry.addDeclaredCanbusUuid at hedit
  cases hg : reg.get? name with
  | some mcu =>
    simp only [hg, Option.isSome_some, if_true] at hedit
    rw [← Except.ok.inj hedit, listed_of_get? hg]
    exact h.addCanbusUuid hg hx
  | none =>
    simp only [hg, Option.isSome_none, Bool.false_eq_true, if_false] at hedit
    obtain ⟨sec, hsec, hedit⟩ := bind_ok hedit
    have hres := h.addToDoc hg hsec hx .canbusUuid
    change (if x ∈ reg.doc.getList sec (idKey .canbusUuid) then _ else _) = _ at hedit
    split_ifs at hedit hres
    · exact Except.ok.inj hedit ▸ hres
    · exact Except.ok.inj hedit ▸ hres

/-! ## Taking an identity away -/

def Single (doc : CfgDocument) : Prop :=
  ∀ declared ∈ readSections doc, (doc.writtenAt declared.section_ uuidsKey).length ≤ 1

instance (doc : CfgDocument) : Decidable (Single doc) :=
  inferInstanceAs (Decidable (∀ declared ∈ readSections doc, _))

/-- All identities but one of one type are listed as they were. -/
structure Unlisted (name : Str) (kind : Kind) (x : Str) (reg reg' : Registry) : Prop where
  sound : Sound reg'
  kept : ∀ y ∈ listed reg name kind, reads y = y → y ≠ [] → y ≠ x → y ∈ shown (listed reg' name kind)
  rest : Single reg.doc → (shown (listed reg' name kind)).Sublist (shown (listed reg name kind))
  others : ∀ t kind', (t = name → kind' ≠ kind) → listed reg' t kind' = listed reg t kind'

theorem Relisted.unlisted (h : Relisted name kind l reg reg')
    (hsub : l.Sublist (listed reg name kind)) (hl : ∀ y ∈ listed reg name kind, y ≠ x → y ∈ l) :
    Unlisted name kind x reg reg' := by
  refine ⟨h.sound, fun y hy hreads hne hx => ?_, fun _ => ?_, h.others⟩
  · rw [h.self]
    exact mem_shown.mpr ⟨⟨y, hl y hy hx, hreads⟩, hne⟩
  · rw [h.self]
    exact (hsub.map reads).filter _

theorem Sound.removeSerial (h : Sound reg) (hmcu : reg.get? name = some mcu) (x : Str) :
    Unlisted name .serial x reg (reg.removeSerial name x) := by
  have hsafe := (h.storable mcu (get?_spec hmcu).1).texts
  have hids : listed reg name .serial = mcu.serials := listed_of_get? hmcu .serial
  have hres : Relisted name .serial (mcu.serials.erase x) reg (reg.removeSerial name x) := by
    refine h.relisted_modify hmcu rfl ?_ rfl fun kind' hne => ?_
    · exact hsafe.withSerials _ fun y hy => hsafe.serials y (List.mem_of_mem_erase hy)
    · cases kind' with
      | serial => exact absurd rfl hne
      | canbusUuid => rfl
  refine hres.unlisted ?_ fun y hy hne => ?_
  · exact hids ▸ List.erase_sublist
  · exact (List.mem_erase_of_ne hne).mpr (hids ▸ hy)

theorem Sound.removeCanbusUuid (h : Sound reg) (hmcu : reg.get? name = some mcu) (x : Str) :
    Unlisted name .canbusUuid x reg (reg.removeCanbusUuid name x) := by
  have hsafe := (h.storable mcu (get?_spec hmcu).1).texts
  have hids : listed reg name .canbusUuid = mcu.canbusUuids := listed_of_get? hmcu .canbusUuid
  have hres : Relisted name .canbusUuid (mcu.canbusUuids.erase x) reg
      (reg.removeCanbusUuid name x) := by
    refine h.relisted_modify hmcu rfl ?_ rfl fun kind' hne => ?_
    · exact hsafe.withUuids _ fun y hy => hsafe.canbusUuids y (List.mem_of_mem_erase hy)
    · cases kind' with
      | serial => rfl
      | canbusUuid => exact absurd rfl hne
  refine hres.unlisted ?_ fun y hy hne => ?_
  · exact hids ▸ List.erase_sublist
  · exact (List.mem_erase_of_ne hne).mpr (hids ▸ hy)

theorem Unlisted.keeps {y : Str} (h : Unlisted name kind' y reg reg')
    (hother : ¬ (t = name ∧ kind = kind' ∧ x = y)) (hx : x ∈ listed reg t kind)
    (hreads : reads x = x) (hne : x ≠ []) : x ∈ shown (listed reg' t kind) := by
  by_cases hself : t = name ∧ kind = kind'
  · obtain ⟨rfl, rfl⟩ := hself
    exact h.kept x hx hreads hne fun he => hother ⟨rfl, rfl, he⟩
  · exact shown_of_listed (h.others t kind fun ht hk => hself ⟨ht, hk⟩) hx hreads hne

theorem Unlisted.same (h : Sound reg) : Unlisted name kind x reg reg :=
  (Relisted.same h name kind).unlisted (List.Sublist.refl _) fun _ hy _ => hy

section Doc
variable (h : Sound reg) (hnone : reg.get? name = none) (hs : s ∈ reg.doc.names)
  (hty : typeOf s = some name)
include h hnone hs hty

theorem Sound.unlisted_setInDoc (x : Str) (kind : Kind) : Unlisted name kind x reg
    (reg.setInDoc s kind ((reg.doc.getList s (idKey kind)).filter (· ≠ x))) := by
  have hl : listed reg name kind = reg.doc.getList s (idKey kind) := by
    rw [listed_of_none hnone, idsOf_of_section h.distinct hs hty]
  refine (h.relisted_setInDoc hnone hs hty fun y hy => ?_).unlisted (hl ▸ List.filter_sublist)
    fun y hy hne => ?_
  · exact (reads_of_mem_getList h.whole (List.mem_filter.mp hy).1).2.1
  · exact List.mem_filter.mpr ⟨hl ▸ hy, by simpa using hne⟩

theorem Sound.unlisted_removeOption (hx : (reg.doc.getList s uuidsKey).filter (· ≠ x) = []) :
    Unlisted name .canbusUuid x reg { reg with doc := reg.doc.removeOption s uuidsKey } := by
  have hl : listed reg name .canbusUuid = reg.doc.getList s uuidsKey := by
    rw [listed_of_none hnone, idsOf_of_section h.distinct hs hty]
    rfl
  have hn := names_removeOption reg.doc s uuidsKey
  have hsound : Sound { reg with doc := reg.doc.removeOption s uuidsKey } :=
    h.withDoc (h.whole.removeOption uuidsKey) (hn ▸ List.Sublist.refl _)
  refine ⟨hsound, fun y hy _ _ hne => ?_, fun hsingle => ?_, fun t kind' hne => ?_⟩
  · have hmem : y ∈ (reg.doc.getList s uuidsKey).filter (· ≠ x) :=
      List.mem_filter.mpr ⟨hl ▸ hy, by simpa using hne⟩
    rw [hx] at hmem
    exact nomatch hmem
  · have hshort := hsingle ⟨name, s⟩ (mem_readSections.mpr ⟨hs, hty⟩)
    have hnil : (reg.doc.removeOption s uuidsKey).writtenAt s uuidsKey = [] := by
      rw [writtenAt_removeOption, if_pos ⟨rfl, rfl⟩]
      exact List.eq_nil_of_length_eq_zero (by rw [List.length_tail]; dsimp only at hshort; omega)
    have hempty : listed { reg with doc := reg.doc.removeOption s uuidsKey } name .canbusUuid = [] := by
      rw [listed_withDoc, hnone]
      change idsOf (reg.doc.removeOption s uuidsKey) name .canbusUuid = []
      rw [idsOf_of_section hsound.distinct (hn.symm ▸ hs) hty, getList_eq hsound.whole]
      change ((reg.doc.removeOption s uuidsKey).writtenAt s uuidsKey).head?.elim [] texts = []
      rw [hnil]
      rfl
    rw [hempty]
    exact List.nil_sublist _
  · rw [listed_withDoc]
    cases hg : reg.get? t with
    | none => exact (idsOf_removeOption h.distinct hs hty hne).trans (listed_of_none hg kind').symm
    | some mcu => rfl

end Doc

theorem Sound.removeDeclaredSerial (h : Sound reg)
    (hedit : reg.removeDeclaredSerial name x = .ok reg') : Unlisted name .serial x reg reg' := by
  unfold Registry.removeDeclaredSerial at hedit
  cases hg : reg.get? name with
  | some mcu =>
    simp only [hg, Option.isSome_some, if_true] at hedit
    exact Except.ok.inj hedit ▸ h.removeSerial hg x
  | none =>
    simp only [hg, Option.isSome_none, Bool.false_eq_true, if_false] at hedit
    obtain ⟨sec, hsec, hedit⟩ := bind_ok hedit
    obtain ⟨hs, hty⟩ := declaredSection_spec hsec
    split_ifs at hedit
    · exact Except.ok.inj hedit ▸ h.unlisted_setInDoc hg hs hty x .serial
    · exact Except.ok.inj hedit ▸ Unlisted.same h

theorem Sound.removeDeclaredCanbusUuid (h : Sound reg)
    (hedit : reg.removeDeclaredCanbusUuid name x = .ok reg') :
    Unlisted name .canbusUuid x reg reg' := by
  unfold Registry.removeDeclaredCanbusUuid at hedit
  cases hg : reg.get? name with
  | some mcu =>
    simp only [hg, Option.isSome_some, if_true] at hedit
    exact Except.ok.inj hedit ▸ h.removeCanbusUuid hg x
  | none =>
    simp only [hg, Option.isSome_none, Bool.false_eq_true, if_false] at hedit
    obtain ⟨sec, hsec, hedit⟩ := bind_ok hedit
    obtain ⟨hs, hty⟩ := declaredSection_spec hsec
    split_ifs at hedit with _ hrest
    · exact Except.ok.inj hedit ▸ h.unlisted_removeOption hg hs hty hrest
    · exact Except.ok.inj hedit ▸ h.unlisted_setInDoc hg hs hty x .canbusUuid
    · exact Except.ok.inj hedit ▸ Unlisted.same h

/-! ## Taking a type away -/

theorem mem_removeDeclaredType (h : reg.removeDeclaredType name = .ok reg') :
    reg'.types = reg.types.filter (·.name ≠ name) ∧
      ((∃ s, reg.declaredSection name = .ok s ∧ reg'.doc = reg.doc.removeSection s) ∨
        reg'.doc = reg.doc) := by
  obtain ⟨_, -, h⟩ := bind_ok h
  rw [← Except.ok.inj h]
  refine ⟨rfl, ?_⟩
  cases hsec : reg.declaredSection name with
  | error e => exact .inr rfl
  | ok s => exact .inl ⟨s, rfl, rfl⟩

theorem get?_filter_of_ne (ht : t ≠ name) :
    (reg.types.filter (·.name ≠ name)).find? (·.name = t) = reg.get? t := by
  rw [Registry.get?, List.find?_filter]
  refine congrArg (fun p => reg.types.find? p) (funext fun mcu => ?_)
  by_cases hn : mcu.name = t
  · simp [hn, ht]
  · simp [hn]

theorem Sound.removeDeclaredType (h : Sound reg) (hedit : reg.removeDeclaredType name = .ok reg') :
    Sound reg' ∧ ∀ t kind, t ≠ name → listed reg' t kind = listed reg t kind := by
  obtain ⟨htypes, hdoc⟩ := mem_removeDeclaredType hedit
  have hsub : reg'.doc.names.Sublist reg.doc.names := by
    rcases hdoc with ⟨s, -, hs⟩ | hs
    · rw [hs, names_removeSection]
      exact List.erase_sublist
    · exact hs ▸ List.Sublist.refl _
  have hwhole : reg'.doc.Whole := by
    rcases hdoc with ⟨s, -, hs⟩ | hs
    · exact hs ▸ h.whole.removeSection
    · exact hs ▸ h.whole
  have hsound : Sound reg' := by
    refine ⟨hwhole, h.unbracketed.of_firmware fun s hs => .inl (hsub.subset hs),
      h.distinct.of_subset fun s hs => hsub.subset hs, hsub.nodup h.namesNodup, ?_, ?_⟩
    · rw [htypes]
      exact fun mcu hmcu => h.storable mcu (List.mem_filter.mp hmcu).1
    · rw [htypes]
      exact (List.filter_sublist.map _).nodup h.nodup
  refine ⟨hsound, fun t kind ht => ?_⟩
  have hget : reg'.get? t = reg.get? t := by
    rw [Registry.get?, htypes]
    exact get?_filter_of_ne ht
  unfold listed
  rw [hget]
  split
  · rfl
  · rcases hdoc with ⟨s, hsec, hs⟩ | hs
    · obtain ⟨-, hty⟩ := declaredSection_spec hsec
      have hne : ∀ s', typeOf s' = some t → s' ≠ s := by
        rintro s' ht' rfl
        exact ht (Option.some.inj (ht'.symm.trans hty))
      rcases exists_section_or reg.doc t with ⟨s', hs', ht'⟩ | hnone
      · have hmem : s' ∈ reg'.doc.names := by
          rw [hs, names_removeSection]
          exact (List.mem_erase_of_ne (hne s' ht')).mpr hs'
        rw [idsOf_of_section hsound.distinct hmem ht', idsOf_of_section h.distinct hs' ht', hs,
          getList_of_writtenAt (writtenAt_removeSection_of_ne (hne s' ht'))]
      · rw [idsOf_of_none hnone, idsOf_of_none fun s' hs' => hnone s' (hsub.subset hs')]
    · rw [hs]

end McuUpdater.Config
