import McuUpdater.Registry.Edits

/-! Registries whose file shows their identities exactly: the keys a save writes are read back
as they are, and no type keeps its CAN uuids under two options. -/
namespace McuUpdater.Config
open PyText Dict Outline CfgDoc CfgDocument McuUpdater.Registry Typelist ExceptList Inventory
variable {s : Str} {doc doc' : CfgDocument} {text text' t x name : Str} {kind : Kind} {l : List Str}
  {reg reg' : Registry} {mcu : McuType} {f : McuType → McuType} {fwNames : List Str}

/-- The keys under which something of a family is written. -/
structure SlotKeys (slot : Str × FwConfig) : Prop where
  extraArgs : strip slot.2.extraArgs ≠ [] → KeySafe (extraArgsKey slot.1)
  patches : slot.2.makefilePatches ≠ [] → KeySafe (patchesKey slot.1)
  extraRepos : slot.2.extraRepos ≠ [] → KeySafe (extraReposKey slot.1)

theorem fixedKeys_safe : (fixedKeys.all fun key => key ≠ [] && key.all fun c =>
    !isSpace c && !isCommentStart c && c ≠ ':' && c ≠ '=') = true := rfl

theorem keySafe_of_mem_writtenAt {sec key : Str} {item : Block Str}
    (h : item ∈ doc.writtenAt sec key) : KeySafe key := by
  unfold writtenAt at h
  cases hs : doc.section? sec with
  | none => simp [hs] at h
  | some b =>
    rw [hs] at h
    exact keySafe_of_mem_written h

theorem keySafe_of_get {sec key : Str} (h : doc.get sec key ≠ none) : KeySafe key := by
  rw [get_eq] at h
  cases hw : (doc.writtenAt sec key).head? with
  | none => simp [hw] at h
  | some item => exact keySafe_of_mem_writtenAt (List.mem_of_head? hw)

theorem keySafe_of_getList {sec key : Str} (h : doc.getList sec key ≠ []) : KeySafe key := by
  refine keySafe_of_get fun (hnone : doc.get sec key = none) => h ?_
  rw [getList, hnone]
  rfl

theorem loadFw_keys {entry : Entry} {fws fws' : List (Str × FwConfig)} {fw : Str}
    (h : loadFw doc entry fws fw = .ok fws') (hfws : ∀ slot ∈ fws, SlotKeys slot) :
    ∀ slot ∈ fws', SlotKeys slot := by
  obtain ⟨patches, hpatches, h⟩ := bind_ok h
  rw [← Except.ok.inj h]
  intro slot hslot
  rcases mem_dictPut hslot with rfl | hslot
  · refine ⟨fun hne => keySafe_of_get fun (hnone : doc.get entry.section_ _ = none) => hne ?_,
      fun hne => ?_, keySafe_of_getList⟩
    · rw [hnone]
      rfl
    · by_cases hp : patches = []
      · cases hl : fws.lookup fw with
        | none => simp [hl, hp] at hne
        | some cfg =>
          refine (hfws _ (mem_of_lookup hl)).patches ?_
          simpa [hl, hp] using hne
      · refine keySafe_of_getList fun (hnil : doc.getList entry.section_ _ = []) => hp ?_
        rw [hnil] at hpatches
        exact (Except.ok.inj hpatches).symm
  · exact hfws slot hslot

theorem foldlM_loadFw_keys {entry : Entry} {fws : List Str} {acc acc' : List (Str × FwConfig)}
    (h : fws.foldlM (loadFw doc entry) acc = .ok acc') (hacc : ∀ slot ∈ acc, SlotKeys slot) :
    ∀ slot ∈ acc', SlotKeys slot := by
  induction fws generalizing acc with
  | nil => exact Except.ok.inj h ▸ hacc
  | cons fw fws ih =>
    obtain ⟨mid, hmid, h⟩ := bind_ok h
    exact ih h (loadFw_keys hmid hacc)

theorem Loaded.keys (h : Loaded text reg) : ∀ mcu ∈ reg.types, ∀ slot ∈ mcu.fws, SlotKeys slot := by
  intro mcu hmcu
  obtain ⟨entry, -, -, hload⟩ := h.exists_entry hmcu
  obtain ⟨fws, hfws, rfl⟩ := loadType_spec hload
  exact foldlM_loadFw_keys hfws (by simp)

theorem keySafe_fixedKeys : ∀ key ∈ fixedKeys, KeySafe key := fun key hkey =>
  keySafe_of_check (List.all_eq_true.mp fixedKeys_safe key hkey)

theorem keySafe_of_mem_writes (h : ∀ slot ∈ mcu.fws, SlotKeys slot) :
    ∀ w ∈ writes fwNames mcu, w.2.isSome → KeySafe w.1 := by
  intro w hw hsome
  rw [writes, List.mem_append] at hw
  rcases hw with hw | hw
  · have hfixed : w.1 ∈ fixedKeys := List.mem_map_of_mem (f := Prod.fst) hw
    exact keySafe_fixedKeys w.1 hfixed
  · obtain ⟨fw, -, hw⟩ := List.mem_flatMap.mp hw
    have hslot : ∀ cfg, mcu.fws.lookup fw = some cfg → SlotKeys (fw, cfg) := fun cfg hl =>
      h _ (mem_of_lookup hl)
    dsimp only at hw
    cases hl : mcu.fws.lookup fw with
    | none =>
      rw [hl] at hw
      simp only [List.mem_cons, List.not_mem_nil, or_false] at hw
      rcases hw with rfl | rfl | rfl
      · simp [strip, rstrip, lstrip] at hsome
      · simp at hsome
      · simp at hsome
    | some cfg =>
      rw [hl] at hw
      have hk := hslot cfg hl
      simp only [Option.getD_some, List.mem_cons, List.not_mem_nil, or_false] at hw
      rcases hw with rfl | rfl | rfl
      · refine hk.extraArgs fun hnil => ?_
        simp only at hnil
        simp [hnil] at hsome
      · refine hk.patches fun hnil => ?_
        simp only at hnil
        simp [hnil] at hsome
      · refine hk.extraRepos fun hnil => ?_
        simp only at hnil
        simp [hnil] at hsome

theorem lookup_uuidsKey (fwNames : List Str) (mcu : McuType) :
    (writes fwNames mcu).lookup uuidsKey =
      some (if mcu.canbusUuids = [] then none else some (.list mcu.canbusUuids)) := rfl

/-- A registry whose file will show its identities exactly. -/
structure Exact (reg : Registry) : Prop extends Sound reg where
  single : Single reg.doc
  keys : ∀ mcu ∈ reg.types, ∀ slot ∈ mcu.fws, SlotKeys slot

theorem length_putWritten (key : Str) (value : Option Value) {old : List (Block Str)}
    (h : old.length ≤ 1) : (putWritten key value old).length ≤ 1 := by
  cases value <;> simp only [putWritten, List.length_cons, List.length_tail] <;> omega

theorem Exact.writtenAt_uuids (h : Exact reg) (hsave : reg.save = .ok text') (hmcu : mcu ∈ reg.types) :
    (ofText text').writtenAt (sectionFor reg.doc mcu.name) uuidsKey = putWritten uuidsKey
      (if mcu.canbusUuids = [] then none else some (.list mcu.canbusUuids))
      (reg.doc.writtenAt (sectionFor reg.doc mcu.name) uuidsKey) := by
  obtain ⟨mid, -, hmem, hbefore, hafter⟩ := (h.toSound.savedAll hsave).own mcu hmcu
  have hws := safeWrite_of_mem_writes (safeFamily_of_mem h.whole h.unbracketed)
    (h.storable mcu hmcu).texts
  rw [hafter, writtenAt_writeAll_exact hws (keySafe_of_mem_writes (h.keys mcu hmcu))
    (keys_writes_nodup _ mcu) hmem, lookup_uuidsKey]
  dsimp only
  rw [hbefore]

theorem Single.length_sectionFor (h : Single doc) (hmcu : SafeName name) :
    (doc.writtenAt (sectionFor doc name) uuidsKey).length ≤ 1 := by
  rcases sectionFor_spec doc name with ⟨hmem, hty⟩ | ⟨hnone, hs⟩
  · exact h ⟨name, _⟩ (mem_readSections.mpr ⟨hmem, hty⟩)
  · have hnot : ownSection name ∉ doc.names := fun hm =>
      hnone _ hm (typeOf_ownSection hmcu.trimmed hmcu.ne_nil)
    have hsec : doc.section? (ownSection name) = none := by
      simpa [hasSection] using mt hasSection_iff.mp hnot
    rw [hs, writtenAt, hsec]
    exact Nat.zero_le 1

theorem Exact.single_save (h : Exact reg) (hsave : reg.save = .ok text') : Single (ofText text') := by
  rintro ⟨t, s⟩ hd
  obtain ⟨hs, hty⟩ := mem_readSections.mp hd
  dsimp only at hs hty ⊢
  cases hg : reg.get? t with
  | some mcu =>
    obtain ⟨hmcu, rfl⟩ := get?_spec hg
    rw [h.toSound.section_save hsave hs hty, h.writtenAt_uuids hsave hmcu]
    exact length_putWritten _ _ (h.single.length_sectionFor (h.storable mcu hmcu).name)
  | none =>
    obtain ⟨hmem, hsame⟩ := h.toSound.getList_of_get?_none hsave hs hty hg
    rw [hsame]
    exact h.single ⟨t, s⟩ (mem_readSections.mpr ⟨hmem, hty⟩)

theorem Exact.idsOf_save (h : Exact reg) (hsave : reg.save = .ok text') (t : Str) (kind : Kind) :
    idsOf (ofText text') t kind = shown (listed reg t kind) := by
  by_cases hkind : kind = .serial ∨ listed reg t kind ≠ []
  · exact h.toSound.idsOf_save hsave t hkind
  · simp only [not_or, not_not] at hkind
    obtain ⟨hkind, hnil⟩ := hkind
    obtain rfl : kind = .canbusUuid := by
      cases kind
      · exact absurd rfl hkind
      · rfl
    have hsaved := h.toSound.savedAll hsave
    have hd := (h.toSound.tidy_save hsave).1
    rw [hnil]
    cases hg : reg.get? t with
    | some mcu =>
      obtain ⟨hmcu, rfl⟩ := get?_spec hg
      have hst := (h.storable mcu hmcu).name
      have hempty : mcu.canbusUuids = [] := by rwa [listed_of_get? hg] at hnil
      have hw := h.writtenAt_uuids hsave hmcu
      have hlen := h.single.length_sectionFor hst
      rw [if_pos hempty, putWritten] at hw
      rw [idsOf_of_section hd ((hsaved.names _).mpr (.inr ⟨mcu, hmcu, rfl⟩))
        (typeOf_sectionFor hst.trimmed hst.ne_nil), getList_eq (whole_ofText text')]
      change ((ofText text').writtenAt _ uuidsKey).head?.elim [] texts = []
      rw [hw, List.eq_nil_of_length_eq_zero (l := List.tail _)]
      · rfl
      · rw [List.length_tail]
        omega
    | none =>
      rw [listed_of_none hg] at hnil
      rcases exists_section_or (ofText text') t with ⟨s, hs, hty⟩ | hno
      · obtain ⟨hmem, hsame⟩ := h.toSound.getList_of_get?_none hsave hs hty hg
        rw [idsOf_of_section hd hs hty, getList_of_writtenAt (hsame (idKey .canbusUuid)),
          ← idsOf_of_section h.distinct hmem hty, hnil]
        rfl
      · rw [idsOf_of_none hno]
        rfl

/-! ## Edits that keep it -/

theorem Exact.modify (h : Exact reg) (hsound : Sound (reg.modify name f))
    (hfws : ∀ mcu, (f mcu).fws = mcu.fws) : Exact (reg.modify name f) := by
  refine ⟨hsound, h.single, fun mcu hmcu slot hslot => ?_⟩
  obtain ⟨old, hold, rfl⟩ := List.mem_map.mp hmcu
  split_ifs at hslot
  · exact h.keys old hold slot (hfws old ▸ hslot)
  · exact h.keys old hold slot hslot

theorem Exact.withDoc (h : Exact reg) (hsound : Sound { reg with doc }) (hnames : doc.names = reg.doc.names)
    (hlength : ∀ sec, (doc.writtenAt sec uuidsKey).length ≤
      max 1 (reg.doc.writtenAt sec uuidsKey).length) : Exact { reg with doc } := by
  refine ⟨hsound, fun declared hd => ?_, h.keys⟩
  obtain ⟨hs, hty⟩ := mem_readSections.mp hd
  have hold := h.single declared (mem_readSections.mpr ⟨hnames ▸ hs, hty⟩)
  have hnew := hlength declared.section_
  rw [max_eq_left hold] at hnew
  exact hnew

theorem Exact.setInDoc (h : Exact reg) (hs : s ∈ reg.doc.names)
    (hsound : Sound (reg.setInDoc s kind l)) : Exact (reg.setInDoc s kind l) := by
  refine h.withDoc hsound (names_set (keySafe_idKey kind).ne_nil (noBracket_idKey kind) hs (.list l))
    fun sec => ?_
  rw [writtenAt_set (keySafe_idKey kind) (noBracket_idKey kind) hs]
  split_ifs with hself
  · obtain ⟨rfl, hkey⟩ := hself
    rw [hkey]
    cases reg.doc.writtenAt sec (idKey kind) with
    | nil => exact le_max_left ..
    | cons item rest => exact le_max_right ..
  · exact le_max_right ..

theorem Exact.removeOption (h : Exact reg)
    (hsound : Sound { reg with doc := reg.doc.removeOption s uuidsKey }) :
    Exact { reg with doc := reg.doc.removeOption s uuidsKey } := by
  refine h.withDoc hsound (names_removeOption reg.doc s uuidsKey) fun sec => ?_
  rw [writtenAt_removeOption]
  split_ifs with hself
  · obtain ⟨rfl, -⟩ := hself
    rw [List.length_tail]
    exact (Nat.sub_le _ _).trans (le_max_right ..)
  · exact le_max_right ..

theorem fws_ite {c : Prop} [Decidable c] {mcu mcu' : McuType} (h : mcu'.fws = mcu.fws) :
    (if c then mcu else mcu').fws = mcu.fws := by
  split_ifs
  · rfl
  · exact h

theorem Exact.addDeclaredSerial (h : Exact reg) (hx : OneLine x)
    (hedit : reg.addDeclaredSerial name x = .ok reg') : Exact reg' := by
  have hsound := (h.toSound.addDeclaredSerial hx hedit).sound
  unfold Registry.addDeclaredSerial at hedit
  split_ifs at hedit
  · obtain rfl := Except.ok.inj hedit
    exact h.modify hsound fun mcu => fws_ite rfl
  · obtain ⟨sec, hsec, hedit⟩ := bind_ok hedit
    dsimp only at hedit
    split_ifs at hedit
    · exact Except.ok.inj hedit ▸ h
    · obtain rfl := Except.ok.inj hedit
      have hset : Sound (reg.setInDoc sec .serial (reg.doc.getList sec (idKey .serial) ++ [x])) := hsound
      exact h.setInDoc (declaredSection_spec hsec).1 hset

theorem Exact.addDeclaredCanbusUuid (h : Exact reg) (hx : OneLine x)
    (hedit : reg.addDeclaredCanbusUuid name x = .ok reg') : Exact reg' := by
  have hsound := (h.toSound.addDeclaredCanbusUuid hx hedit).sound
  unfold Registry.addDeclaredCanbusUuid at hedit
  split_ifs at hedit
  · obtain rfl := Except.ok.inj hedit
    exact h.modify hsound fun mcu => fws_ite rfl
  · obtain ⟨sec, hsec, hedit⟩ := bind_ok hedit
    dsimp only at hedit
    split_ifs at hedit
    · exact Except.ok.inj hedit ▸ h
    · obtain rfl := Except.ok.inj hedit
      have hset : Sound (reg.setInDoc sec .canbusUuid (reg.doc.getList sec (idKey .canbusUuid) ++ [x])) := hsound
      exact h.setInDoc (declaredSection_spec hsec).1 hset

theorem Exact.removeDeclaredSerial (h : Exact reg)
    (hedit : reg.removeDeclaredSerial name x = .ok reg') : Exact reg' := by
  have hsound := (h.toSound.removeDeclaredSerial hedit).sound
  unfold Registry.removeDeclaredSerial at hedit
  split_ifs at hedit
  · obtain rfl := Except.ok.inj hedit
    exact h.modify hsound fun mcu => rfl
  · obtain ⟨sec, hsec, hedit⟩ := bind_ok hedit
    dsimp only at hedit
    split_ifs at hedit
    · obtain rfl := Except.ok.inj hedit
      have hset : Sound (reg.setInDoc sec .serial
          ((reg.doc.getList sec (idKey .serial)).filter (· ≠ x))) := hsound
      exact h.setInDoc (declaredSection_spec hsec).1 hset
    · exact Except.ok.inj hedit ▸ h

theorem Exact.removeDeclaredCanbusUuid (h : Exact reg)
    (hedit : reg.removeDeclaredCanbusUuid name x = .ok reg') : Exact reg' := by
  have hsound := (h.toSound.removeDeclaredCanbusUuid hedit).sound
  unfold Registry.removeDeclaredCanbusUuid at hedit
  split_ifs at hedit
  · obtain rfl := Except.ok.inj hedit
    exact h.modify hsound fun mcu => rfl
  · obtain ⟨sec, hsec, hedit⟩ := bind_ok hedit
    dsimp only at hedit
    split_ifs at hedit
    · obtain rfl := Except.ok.inj hedit
      exact h.removeOption hsound
    · obtain rfl := Except.ok.inj hedit
      have hset : Sound (reg.setInDoc sec .canbusUuid
          ((reg.doc.getList sec (idKey .canbusUuid)).filter (· ≠ x))) := hsound
      exact h.setInDoc (declaredSection_spec hsec).1 hset
    · exact Except.ok.inj hedit ▸ h

end McuUpdater.Config
