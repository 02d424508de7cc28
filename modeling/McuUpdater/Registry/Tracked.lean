import McuUpdater.Inventory
import McuUpdater.Registry.Loading

/-! The identities a file tracks, and what of them a save keeps: those the registry holds in
memory for its own types, and those in the document for the types of other builders. -/
namespace McuUpdater.Config
open PyText Dict Outline CfgDoc CfgDocument McuUpdater.Registry Typelist ExceptList Inventory
variable {s : Str} {doc doc' : CfgDocument} {sec key text text' t x : Str} {kind : Kind}
  {reg reg' : Registry} {declared : TypeSection}

/-! ## Reading twice -/

theorem cutComment_of_isPrefix {b : Bool} {u p : Str} (hu : cutComment b u = u) (hline : OneLine u)
    (hp : p <+: u) : cutComment b p = p := by
  induction u generalizing b p with
  | nil =>
    rw [List.prefix_nil.mp hp]
    rfl
  | cons c u ih =>
    cases p with
    | nil => rfl
    | cons d p =>
      obtain ⟨rfl, hp'⟩ := List.cons_prefix_cons.mp hp
      have hline' := (oneLine_cons.mp hline).2
      have hend : toEnd (d :: u) = true := toEnd_of_oneLine hline
      rw [cutComment, hend, Bool.and_true] at hu
      split_ifs at hu with hc
      rw [cutComment, if_neg fun h => hc (Bool.and_eq_true_iff.mp h).1,
        ih (List.cons.inj hu).2 hline' hp']

theorem cutComment_idem (b : Bool) (h : OneLine s) :
    cutComment b (cutComment b s) = cutComment b s := by
  induction s generalizing b with
  | nil => rfl
  | cons c s ih =>
    have hend : toEnd (c :: s) = true := toEnd_of_oneLine h
    by_cases hc : (b && isCommentStart c) = true
    · simp [cutComment, hc, hend]
    · have hcut : cutComment b (c :: s) = c :: cutComment (isSpace c) s := by
        rw [cutComment, if_neg fun hx => hc (Bool.and_eq_true_iff.mp hx).1]
      rw [hcut, cutComment, if_neg fun hx => hc (Bool.and_eq_true_iff.mp hx).1,
        ih _ (oneLine_cons.mp h).2]

theorem reads_reads (h : OneLine s) : reads (reads s) = reads s := by
  have hline : OneLine (strip s) := h.sublist (strip_sublist s)
  have hcut := cutComment_of_isPrefix (cutComment_idem true hline)
    (hline.sublist (cutComment_isPrefix true _).sublist) (rstrip_isPrefix (cutComment true (strip s)))
  have htrim : strip (reads s) = reads s := strip_of_trimmed (trimmed_reads s)
  conv_lhs => rw [reads, htrim]
  change rstrip (cutComment true (rstrip (cutComment true (strip s)))) = _
  rw [hcut]
  exact List.rdropWhile_idempotent isSpace _

/-! ## The identities of a document -/

def idKey : Kind → Str
  | .serial => serialsKey
  | .canbusUuid => uuidsKey

/-- `find_declared_types_for_serial` and `find_declared_types_for_uuid`, of a file. -/
def Tracked (text t : Str) (kind : Kind) (x : Str) : Prop :=
  ∃ sec ∈ (ofText text).names, typeOf sec = some t ∧ x ∈ (ofText text).getList sec (idKey kind)

def ids (mcu : McuType) : Kind → List Str
  | .serial => mcu.serials
  | .canbusUuid => mcu.canbusUuids

theorem getList_eq (h : doc.Whole) (sec key : Str) :
    doc.getList sec key = (doc.writtenAt sec key).head?.elim [] texts := by
  rw [getList, get_eq]
  cases hw : (doc.writtenAt sec key).head? with
  | none => rfl
  | some item => exact listOf_valueOf (h.of_mem_writtenAt (List.mem_of_head? hw))

theorem reads_of_mem_texts {item : Block Str} (h : Whole item) (hx : x ∈ texts item) :
    reads x = x ∧ OneLine x ∧ x ≠ [] := by
  obtain ⟨hmem, hne⟩ := List.mem_filter.mp hx
  rcases List.mem_cons.mp hmem with rfl | hmem
  · refine ⟨?_, (lineValue_spec h).1, by simpa using hne⟩
    cases ho : optionOf item.head with
    | none => simp [lineValue, ho] at hne
    | some kv =>
      obtain ⟨k, value⟩ := kv
      obtain ⟨start, sep, rest, hline, -, -, -, -, rfl⟩ := option_line ho
      have hhead : OneLine item.head := h _ (by simp [Block.lines])
      rw [hline, oneLine_append, oneLine_cons] at hhead
      have hv : lineValue item = reads rest := by
        simp only [lineValue, ho]
        rfl
      rw [hv, reads_reads hhead.2.2]
  · obtain ⟨line, hline, rfl⟩ := List.mem_map.mp hmem
    have hone := h line (List.mem_cons_of_mem _ hline)
    exact ⟨reads_reads hone, oneLine_reads hone, by simpa using hne⟩

theorem reads_of_mem_getList (h : doc.Whole) (hx : x ∈ doc.getList sec key) :
    reads x = x ∧ OneLine x ∧ x ≠ [] := by
  rw [getList_eq h] at hx
  cases hw : (doc.writtenAt sec key).head? with
  | none => simp [hw] at hx
  | some item =>
    rw [hw] at hx
    exact reads_of_mem_texts (h.of_mem_writtenAt (List.mem_of_head? hw)) hx

/-! ## A file written by a save -/

theorem getList_of_writtenAt
    (h : doc'.writtenAt sec key = doc.writtenAt sec key) :
    doc'.getList sec key = doc.getList sec key := by
  rw [getList, getList, get_eq, get_eq, h]

theorem SavedAll.reload {fwNames : List Str} {types : List McuType} {final : CfgDocument}
    (h : SavedAll fwNames types doc final) : SavedAll fwNames types doc final.reload := by
  have hn := names_reload h.whole
  refine ⟨whole_ofText _, fun name => ?_, fun sec hsec key => ?_, fun mcu hmcu => ?_, fun sec => ?_,
    fun hd => hn ▸ h.nodup hd⟩
  · rw [sectionFor_congr hn, h.sectionFor]
  · rw [writtenAt_reload h.whole, h.others sec hsec]
  · obtain ⟨mid, hmid, hmem, hbefore, hafter⟩ := h.own mcu hmcu
    exact ⟨mid, hmid, hmem, hbefore, fun key => by rw [writtenAt_reload h.whole, hafter]⟩
  · rw [hn, h.names]

/-- What `_save` does to the file, once its check has passed. -/
theorem savedAll_of_save (h : reg.save = .ok text') (hu : Unbracketed reg.doc)
    (hdoc : reg.doc.Whole) (htypes : ∀ mcu ∈ reg.types, Storable mcu)
    (hnodup : (reg.types.map McuType.name).Nodup) :
    SavedAll (namesOf (loadFromDoc reg.doc)) reg.types reg.doc (ofText text') := by
  obtain ⟨_, -, h⟩ := bind_ok h
  rw [← Except.ok.inj h]
  exact (savedAll (safeFamily_of_mem hdoc hu) htypes hnodup hdoc).reload

theorem idKeys_check : ([serialsKey, uuidsKey].all fun key => key ≠ [] && key.all fun c =>
    !isSpace c && !isCommentStart c && c ≠ ':' && c ≠ '=') = true := rfl

theorem keySafe_idKey (kind : Kind) : KeySafe (idKey kind) := by
  have hmem : idKey kind ∈ [serialsKey, uuidsKey] := by cases kind <;> simp [idKey]
  exact keySafe_of_check (List.all_eq_true.mp idKeys_check _ hmem)

theorem mem_writes_idKey (fwNames : List Str) {mcu : McuType}
    (h : kind = .serial ∨ ids mcu kind ≠ []) :
    (idKey kind, some (.list (ids mcu kind))) ∈ writes fwNames mcu := by
  cases kind with
  | serial => exact List.mem_append_left _ (.tail _ (.head _))
  | canbusUuid =>
    have hne : mcu.canbusUuids ≠ [] := h.resolve_left (by simp)
    have hvalue : some (Value.list mcu.canbusUuids) =
        if mcu.canbusUuids = [] then none else some (.list mcu.canbusUuids) := (if_neg hne).symm
    rw [ids, hvalue]
    exact List.mem_append_left _ (.tail _ (.tail _ (.head _)))

theorem SafeType.ids {mcu : McuType} (h : SafeType mcu) (kind : Kind) :
    ∀ x ∈ ids mcu kind, OneLine x := by
  cases kind
  · exact h.serials
  · exact h.canbusUuids

theorem getList_of_savedAll {fwNames : List Str} {types : List McuType} {final : CfgDocument}
    (hfw : ∀ fw ∈ fwNames, SafeFamily fw) (h : SavedAll fwNames types doc final) {mcu : McuType}
    (hmcu : mcu ∈ types) (hs : Storable mcu) (hkind : kind = .serial ∨ ids mcu kind ≠ []) :
    final.getList (Typelist.sectionFor doc mcu.name) (idKey kind) =
      ((ids mcu kind).map reads).filter (· ≠ []) := by
  obtain ⟨mid, hwhole, hmem, -, hafter⟩ := h.own mcu hmcu
  obtain ⟨old, -, hold, hprefix⟩ := writtenAt_writeAll (safeWrite_of_mem_writes hfw hs.texts)
    (keys_writes_nodup fwNames mcu) hwhole (oneLine_of_mem_names hwhole hmem) hmem
    (keySafe_idKey kind) (mem_writes_idKey fwNames hkind)
  rw [getList_eq h.whole, hafter]
  obtain ⟨rest, hrest⟩ := hprefix
  rw [← hrest, List.singleton_append, List.head?_cons, Option.elim_some]
  exact texts_render_list (keySafe_idKey kind)
    (fun item hitem => hold item (List.mem_of_head? hitem)) (hs.texts.ids kind)

/-! ## Which section a type has -/

theorem readSections_nodup (doc : CfgDocument) : (readSections doc).Nodup := by
  refine List.Nodup.of_map TypeSection.section_ ?_
  have hsub : ((readSections doc).map TypeSection.section_).Sublist doc.names.eraseDups := by
    rw [readSections_eq]
    generalize doc.names.eraseDups = l
    induction l with
    | nil => exact List.Sublist.refl _
    | cons sec l ih =>
      rw [List.filterMap_cons]
      cases typeOf sec with
      | none => exact ih.cons sec
      | some name => exact ih.cons_cons sec
  exact hsub.nodup (nodup_eraseDups _)

theorem distinctTypes_of (h : ∀ s ∈ doc.names, ∀ s' ∈ doc.names, ∀ t, typeOf s = some t →
    typeOf s' = some t → s = s') : DistinctTypes doc := by
  refine List.Nodup.map_on (fun d hd d' hd' he => ?_) (readSections_nodup doc)
  obtain ⟨hs, ht⟩ := mem_readSections.mp hd
  obtain ⟨hs', ht'⟩ := mem_readSections.mp hd'
  have hsec := h _ hs _ hs' _ ht (he ▸ ht')
  cases d
  cases d'
  simp_all

theorem find?_readSections (hd : DistinctTypes doc) (h : declared ∈ readSections doc) :
    (readSections doc).find? (·.name = declared.name) = some declared := find?_of_mem hd h

theorem section_eq {s s' : Str} (hd : DistinctTypes doc) (hs : s ∈ doc.names)
    (hs' : s' ∈ doc.names) (ht : typeOf s = some t) (ht' : typeOf s' = some t) : s = s' := by
  have h := List.inj_on_of_nodup_map hd (mem_readSections.mpr ⟨hs, ht⟩ : ⟨t, s⟩ ∈ _)
    (mem_readSections.mpr ⟨hs', ht'⟩ : ⟨t, s'⟩ ∈ _) rfl
  exact (TypeSection.mk.inj h).2

theorem sectionFor_of_mem (hd : DistinctTypes doc) (hs : s ∈ doc.names) (ht : typeOf s = some t) :
    sectionFor doc t = s := by
  rcases sectionFor_spec doc t with ⟨hmem, ht'⟩ | ⟨hnone, -⟩
  · exact section_eq hd hmem hs ht' ht
  · exact absurd ht (hnone s hs)

theorem DistinctTypes.of_subset (h : DistinctTypes doc) (hs : ∀ s ∈ doc'.names, s ∈ doc.names) :
    DistinctTypes doc' :=
  distinctTypes_of fun s hs₁ s' hs₂ _ ht ht' => section_eq h (hs s hs₁) (hs s' hs₂) ht ht'

theorem mem_sectionNames {start : Str} : sec ∈ doc.sectionNames start ↔
    sec ∈ doc.names ∧ (sec = start ∨ (start ++ [' ']).isPrefixOf sec = true) := by
  rw [sectionNames, List.mem_filter, List.mem_eraseDups, ← names]
  simp

theorem Unbracketed.of_firmware (h : Unbracketed doc)
    (hs : ∀ s ∈ doc'.names, s ∈ doc.names ∨ s.head? ≠ some 'f') : Unbracketed doc' := by
  intro s hsec fam hfam
  obtain ⟨hmem, hstart⟩ := mem_sectionNames.mp hsec
  have hhead : s.head? = some 'f' := by
    rcases hstart with rfl | hstart
    · rfl
    · obtain ⟨rest, rfl⟩ := List.isPrefixOf_iff_prefix.mp hstart
      rfl
  exact h s (mem_sectionNames.mpr ⟨(hs s hmem).resolve_right fun hne => hne hhead, hstart⟩) fam hfam

theorem head_of_typeOf (h : typeOf sec = some t) : sec.head? = some 't' := by
  unfold typeOf at h
  split_ifs at h with ht
  rcases ht with rfl | ht
  · rfl
  · obtain ⟨rest, rfl⟩ := List.isPrefixOf_iff_prefix.mp ht
    rfl

/-! ## Files that a save keeps whole -/

/-- A file no type of which is declared twice and no family of which starts with a bracket. -/
def Tidy (text : Str) : Prop := DistinctTypes (ofText text) ∧ Unbracketed (ofText text)

instance (text : Str) : Decidable (Tidy text) := inferInstanceAs (Decidable (_ ∧ _))

/-- A registry whose save lands in the file whole, and whose file is again such a one. -/
structure Sound (reg : Registry) : Prop where
  whole : reg.doc.Whole
  unbracketed : Unbracketed reg.doc
  distinct : DistinctTypes reg.doc
  namesNodup : reg.doc.names.Nodup
  storable : ∀ mcu ∈ reg.types, Storable mcu
  nodup : (reg.types.map McuType.name).Nodup

theorem Loaded.sound (h : Loaded text reg) (htidy : Tidy text) : Sound reg := by
  have hd := h.doc ▸ htidy.1
  have hu := h.doc ▸ htidy.2
  exact ⟨h.whole, hu, hd, h.names, h.storable hu, h.nodup⟩

section Save
variable (h : Sound reg) (hsave : reg.save = .ok text')
include h hsave

theorem Sound.savedAll :
    SavedAll (namesOf (loadFromDoc reg.doc)) reg.types reg.doc (ofText text') :=
  savedAll_of_save hsave h.unbracketed h.whole h.storable h.nodup

theorem Sound.names_save {s : Str} (hs : s ∈ (ofText text').names) : s ∈ reg.doc.names ∨
    ∃ mcu ∈ reg.types, s = Typelist.sectionFor reg.doc mcu.name ∧ typeOf s = some mcu.name := by
  rcases ((h.savedAll hsave).names s).mp hs with hs | ⟨mcu, hmcu, rfl⟩
  · exact .inl hs
  · have hn := (h.storable mcu hmcu).name
    exact .inr ⟨mcu, hmcu, rfl, typeOf_sectionFor hn.trimmed hn.ne_nil⟩

theorem Sound.section_save {s : Str} (hs : s ∈ (ofText text').names) (ht : typeOf s = some t) :
    s = Typelist.sectionFor reg.doc t := by
  rcases h.names_save hsave hs with hs | ⟨mcu, -, rfl, ht'⟩
  · exact (sectionFor_of_mem h.distinct hs ht).symm
  · rw [ht'] at ht
    rw [Option.some.inj ht]

theorem Sound.tidy_save : Tidy text' := by
  refine ⟨distinctTypes_of fun s hs s' hs' t ht ht' => ?_, h.unbracketed.of_firmware fun s hs => ?_⟩
  · rw [h.section_save hsave hs ht, h.section_save hsave hs' ht']
  · refine (h.names_save hsave hs).imp_right ?_
    rintro ⟨mcu, -, -, ht⟩
    rw [head_of_typeOf ht]
    decide

end Save

/-! ## What a registry lists, and what its file shows of it -/

theorem get?_spec {mcu : McuType} (h : reg.get? t = some mcu) : mcu ∈ reg.types ∧ mcu.name = t :=
  ⟨List.mem_of_find?_eq_some h, by simpa using List.find?_some h⟩

theorem get?_of_mem (hnodup : (reg.types.map McuType.name).Nodup) {mcu : McuType}
    (h : mcu ∈ reg.types) : reg.get? mcu.name = some mcu := find?_of_mem hnodup h

def idsOf (doc : CfgDocument) (t : Str) (kind : Kind) : List Str :=
  ((readSections doc).find? (·.name = t)).elim [] fun declared =>
    doc.getList declared.section_ (idKey kind)

/-- A type of another builder has its identities in the document alone. -/
def listed (reg : Registry) (t : Str) (kind : Kind) : List Str :=
  match reg.get? t with
  | some mcu => ids mcu kind
  | none => idsOf reg.doc t kind

/-- What of a list is read back from the file. -/
def shown (l : List Str) : List Str := (l.map reads).filter (· ≠ [])

theorem mem_shown {l : List Str} : x ∈ shown l ↔ (∃ y ∈ l, reads y = x) ∧ x ≠ [] := by
  simp [shown]

theorem shown_eq_self {l : List Str} (h : ∀ x ∈ l, reads x = x ∧ x ≠ []) : shown l = l := by
  have hmap : l.map reads = l := (List.map_congr_left fun x hx => (h x hx).1).trans (List.map_id l)
  rw [shown, hmap]
  exact List.filter_eq_self.mpr fun x hx => by simpa using (h x hx).2

theorem shown_append (l m : List Str) : shown (l ++ m) = shown l ++ shown m := by
  simp [shown]

theorem idsOf_of_mem (hd : DistinctTypes doc) (h : declared ∈ readSections doc) (kind : Kind) :
    idsOf doc declared.name kind = doc.getList declared.section_ (idKey kind) := by
  rw [idsOf, find?_readSections hd h]
  rfl

theorem idsOf_of_section (hd : DistinctTypes doc) (hs : s ∈ doc.names) (ht : typeOf s = some t)
    (kind : Kind) : idsOf doc t kind = doc.getList s (idKey kind) :=
  idsOf_of_mem hd (mem_readSections.mpr ⟨hs, ht⟩ : ⟨t, s⟩ ∈ _) kind

theorem idsOf_of_none (h : ∀ s ∈ doc.names, typeOf s ≠ some t) (kind : Kind) :
    idsOf doc t kind = [] := by
  have hnone : (readSections doc).find? (·.name = t) = none :=
    List.find?_eq_none.mpr fun declared hd ht => by
      obtain ⟨hs, hty⟩ := mem_readSections.mp hd
      exact h _ hs (hty.trans (congrArg some (of_decide_eq_true ht)))
  rw [idsOf, hnone]
  rfl

theorem exists_section_or (doc : CfgDocument) (t : Str) :
    (∃ s ∈ doc.names, typeOf s = some t) ∨ ∀ s ∈ doc.names, typeOf s ≠ some t := by
  by_cases h : ∃ s ∈ doc.names, typeOf s = some t
  · exact .inl h
  · exact .inr fun s hs ht => h ⟨s, hs, ht⟩

theorem tracked_iff (hd : DistinctTypes (ofText text)) :
    Tracked text t kind x ↔ x ∈ idsOf (ofText text) t kind := by
  rcases exists_section_or (ofText text) t with ⟨s, hs, ht⟩ | hnone
  · rw [idsOf_of_section hd hs ht]
    refine ⟨fun ⟨s', hs', ht', hx⟩ => ?_, fun hx => ⟨s, hs, ht, hx⟩⟩
    rwa [section_eq hd hs hs' ht ht']
  · rw [idsOf_of_none hnone]
    refine ⟨?_, fun hx => nomatch hx⟩
    rintro ⟨s, hs, ht, -⟩
    exact absurd ht (hnone s hs)

theorem mem_idsOf (h : doc.Whole) (hx : x ∈ idsOf doc t kind) :
    reads x = x ∧ OneLine x ∧ x ≠ [] := by
  unfold idsOf at hx
  cases hf : (readSections doc).find? (·.name = t) with
  | none => simp [hf] at hx
  | some declared =>
    rw [hf] at hx
    exact reads_of_mem_getList h hx

theorem shown_idsOf (h : doc.Whole) (t : Str) (kind : Kind) :
    shown (idsOf doc t kind) = idsOf doc t kind :=
  shown_eq_self fun _ hx => ⟨(mem_idsOf h hx).1, (mem_idsOf h hx).2.2⟩

theorem Loaded.listed (h : Loaded text reg) (hd : DistinctTypes reg.doc) (t : Str) (kind : Kind) :
    listed reg t kind = idsOf reg.doc t kind := by
  unfold Config.listed
  split
  · next mcu hmcu =>
    obtain ⟨hmem, rfl⟩ := get?_spec hmcu
    obtain ⟨entry, hentry, -, hload⟩ := h.exists_entry hmem
    obtain ⟨fws, -, rfl⟩ := loadType_spec hload
    obtain ⟨declared, hdeclared, rfl⟩ := List.mem_map.mp hentry
    rw [idsOf_of_mem hd hdeclared]
    cases kind <;> rfl
  · rfl

theorem Sound.getList_of_get?_none (h : Sound reg) (hsave : reg.save = .ok text')
    (hs : s ∈ (ofText text').names) (ht : typeOf s = some t) (hnone : reg.get? t = none) :
    s ∈ reg.doc.names ∧ ∀ key, (ofText text').writtenAt s key = reg.doc.writtenAt s key := by
  have hnot : ∀ mcu ∈ reg.types, mcu.name ≠ t := fun mcu hmcu hn =>
    List.find?_eq_none.mp hnone mcu hmcu (by simpa using hn)
  refine ⟨(h.names_save hsave hs).resolve_right ?_, (h.savedAll hsave).others s fun mcu hmcu he => ?_⟩
  · rintro ⟨mcu, hmcu, -, ht'⟩
    exact hnot mcu hmcu (Option.some.inj (ht'.symm.trans ht))
  · have hn := (h.storable mcu hmcu).name
    have hty : typeOf (sectionFor reg.doc mcu.name) = some mcu.name :=
      typeOf_sectionFor hn.trimmed hn.ne_nil
    rw [← he, ht] at hty
    exact hnot mcu hmcu (Option.some.inj hty).symm

/-- The file of a save shows what the registry lists, but for an emptied list of CAN uuids. -/
theorem Sound.idsOf_save (h : Sound reg) (hsave : reg.save = .ok text') (t : Str)
    (hkind : kind = .serial ∨ listed reg t kind ≠ []) :
    idsOf (ofText text') t kind = shown (listed reg t kind) := by
  have hsaved := h.savedAll hsave
  have hd := (h.tidy_save hsave).1
  unfold Config.listed at hkind ⊢
  split at hkind
  · next mcu hmcu =>
    obtain ⟨hmem, rfl⟩ := get?_spec hmcu
    have hst := h.storable mcu hmem
    have hs : sectionFor reg.doc mcu.name ∈ (ofText text').names :=
      (hsaved.names _).mpr (.inr ⟨mcu, hmem, rfl⟩)
    rw [idsOf_of_section hd hs (typeOf_sectionFor hst.name.trimmed hst.name.ne_nil)]
    exact getList_of_savedAll (safeFamily_of_mem h.whole h.unbracketed) hsaved hmem hst hkind
  · next hnone =>
    rw [shown_idsOf h.whole]
    rcases exists_section_or (ofText text') t with ⟨s, hs, ht⟩ | hno
    · obtain ⟨hmem, hsame⟩ := h.getList_of_get?_none hsave hs ht hnone
      rw [idsOf_of_section hd hs ht, idsOf_of_section h.distinct hmem ht,
        getList_of_writtenAt (hsame (idKey kind))]
    · rw [idsOf_of_none hno, idsOf_of_none fun s hs => hno s ((hsaved.names s).mpr (.inl hs))]

end McuUpdater.Config
