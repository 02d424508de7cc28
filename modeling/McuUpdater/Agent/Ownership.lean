import Mathlib.Data.List.Pairwise
import McuUpdater.Lib.Apart
import McuUpdater.Registry.Exact
import McuUpdater.Agent.Tracking

/-! The calls that track a board or stop tracking one, run one after another: which of them leave
every board with one type. -/
namespace McuUpdater.Agent.Ownership
open PyText CfgDoc CfgDocument McuUpdater.Registry Typelist Config ExceptList Inventory Lib
open Transition Tracking

section Ownership
-- `str.lower`
variable (lower : Str → Str)

/-- What the presence join tells boards apart by. -/
def physical : Kind → Str → Str
  | .serial, serial => serial
  | .canbusUuid, uuid => lower uuid

def held (text : Str) (kind : Kind) (t : Str) : List Str :=
  (idsOf (ofText text) t kind).map (physical lower kind)

/-- No board is tracked under two types or twice under one. -/
def OneType (text : Str) : Prop := ∀ kind, Apart (held lower text kind)

inductive Op
  | serialAdd (name serial : Str)
  | serialRemove (name serial : Str)
  | canbusAdd (name uuid : Str)
  | canbusRemove (name uuid : Str)
  | adopt (mcuType serial : Str)

def Op.step (text : Str) : Op → Option Str
  | .serialAdd name serial => (RegistryApi.serialAdd text name serial).toOption
  | .serialRemove name serial => (RegistryApi.serialRemove text name serial).toOption
  | .canbusAdd name uuid => (RegistryApi.canbusAdd text name uuid).toOption
  | .canbusRemove name uuid => (RegistryApi.canbusRemove text name uuid).toOption
  | .adopt mcuType serial => (RegistryApi.adopt text mcuType serial).toOption

/-- On one line, and read back from the file as it is given. -/
structure Plain (x : Str) : Prop where
  line : OneLine x
  same : reads x = x

/-- No type tracks this CAN uuid in other letters. -/
def OneSpelling (text uuid : Str) : Prop :=
  ∀ declared ∈ readSections (ofText text),
    ∀ u ∈ (ofText text).getList declared.section_ (idKey .canbusUuid), lower u = lower uuid → u = uuid

/-- No type of another builder has this serial. -/
def NotForeign (text serial : Str) : Prop :=
  ∀ entry ∈ read (ofText text) (loadFromDoc (ofText text)), serial ∈ entry.serials →
    isKconfig entry = true

/-- A call whose texts are spelled as they are tracked, and whose board no other builder has. -/
def Op.Plain (text : Str) : Op → Prop
  | .serialAdd _ serial => Ownership.Plain serial
  | .canbusAdd _ uuid => Ownership.Plain (strip uuid) ∧ OneSpelling lower text (strip uuid)
  | .adopt _ serial => Ownership.Plain serial ∧ NotForeign text serial
  | .serialRemove .. | .canbusRemove .. => True

/-- A file that every call keeps so, with every board under one type. -/
structure Settled (text : Str) : Prop where
  tidy : Tidy text
  single : Single (ofText text)
  oneType : OneType lower text

variable {lower} {text text' t x name : Str} {kind : Kind} {reg reg' : Config.Registry}

/-- A text on one line that the type lists already, or that reads as a board no type tracks. -/
structure Free (lower : Str → Str) (text : Str) (kind : Kind) (t x : Str) : Prop where
  line : OneLine x
  free : x ∈ idsOf (ofText text) t kind ∨ ∀ t', physical lower kind (reads x) ∉ held lower text kind t'

/-! ## One call -/

/-- A registry as a call reads it from a file, which lists what the file does. -/
structure Read (text : Str) (reg : Config.Registry) : Prop where
  exact_ : Exact reg
  listed : ∀ t kind, listed reg t kind = idsOf (ofText text) t kind

theorem read_of_loaded (h : Loaded text reg) (htidy : Tidy text) (hsingle : Single (ofText text)) :
    Read text reg := by
  refine ⟨⟨h.sound htidy, h.doc.symm ▸ hsingle, h.keys⟩, fun t kind => ?_⟩
  rw [h.listed (h.doc.symm ▸ htidy.1), h.doc]

theorem exists_of_mem_idsOf {doc : CfgDocument} (h : x ∈ idsOf doc t kind) :
    ∃ declared ∈ readSections doc, declared.name = t ∧
      x ∈ doc.getList declared.section_ (idKey kind) := by
  unfold idsOf at h
  cases hfind : (readSections doc).find? (·.name = t) with
  | none =>
    rw [hfind] at h
    cases h
  | some declared =>
    rw [hfind] at h
    exact ⟨declared, List.mem_of_find?_eq_some hfind, by simpa using List.find?_some hfind, h⟩

/-- What the refusals of `serial_add` and `canbus_add` leave to be added: nothing that another
type lists. -/
theorem notMem_of_elsewhere {found : List TypeSection}
    (hfound : ∀ declared ∈ readSections (ofText text),
      x ∈ (ofText text).getList declared.section_ (idKey kind) → declared ∈ found)
    (helse : ¬(found.map (·.name)).filter (· ≠ name) ≠ []) (ht : t ≠ name) :
    x ∉ idsOf (ofText text) t kind := by
  intro hmem
  obtain ⟨declared, hdeclared, hname, hlist⟩ := exists_of_mem_idsOf hmem
  have hin : declared.name ∈ (found.map (·.name)).filter (· ≠ name) :=
    List.mem_filter.mpr ⟨List.mem_map_of_mem (hfound declared hdeclared hlist), by simpa [hname]⟩
  rw [not_not.mp helse] at hin
  cases hin

theorem free_of_plain {serial : Str} (hplain : Plain serial)
    (hothers : ∀ t ≠ name, serial ∉ idsOf (ofText text) t .serial) :
    Free lower text .serial name serial := by
  refine ⟨hplain.line, or_iff_not_imp_left.mpr fun hown t hheld => ?_⟩
  rw [hplain.same, held] at hheld
  obtain ⟨_, hmem, rfl⟩ := List.mem_map.mp hheld
  by_cases ht : t = name
  · exact hown (ht ▸ hmem)
  · exact hothers t ht hmem

theorem free_of_oneSpelling {uuid : Str} (hplain : Plain uuid) (hspelling : OneSpelling lower text uuid)
    (hothers : ∀ t ≠ name, uuid ∉ idsOf (ofText text) t .canbusUuid) :
    Free lower text .canbusUuid name uuid := by
  refine ⟨hplain.line, or_iff_not_imp_left.mpr fun hown t hheld => ?_⟩
  rw [hplain.same, held] at hheld
  obtain ⟨u, hmem, hlower⟩ := List.mem_map.mp hheld
  obtain ⟨declared, hdeclared, -, hlist⟩ := exists_of_mem_idsOf hmem
  obtain rfl : u = uuid := hspelling declared hdeclared u hlist hlower
  by_cases ht : t = name
  · exact hown (ht ▸ hmem)
  · exact hothers t ht hmem

theorem isSome_get? (h : Loaded text reg) {entry : Entry}
    (hentry : entry ∈ read reg.doc (loadFromDoc reg.doc)) (hkconfig : isKconfig entry = true) :
    (reg.get? entry.name).isSome = true := by
  obtain ⟨types, hmap, htypes⟩ := h.types
  obtain ⟨mcu, hmcu⟩ := ok_of_mapM hmap (List.mem_filter.mpr ⟨hentry, hkconfig⟩)
  have hmem : mcu ∈ types := (mem_mapM hmap mcu).mpr
    ⟨entry, List.mem_filter.mpr ⟨hentry, hkconfig⟩, hmcu⟩
  obtain ⟨_, -, rfl⟩ := loadType_spec hmcu
  have hname := @Dict.mem_map_foldl_dictPut _ _ _ McuType.name [] _ _ hmem
  rw [← htypes] at hname
  obtain ⟨mcu', hmcu', hname⟩ := List.mem_map.mp hname
  rw [Registry.get?, List.find?_isSome]
  exact ⟨mcu', hmcu', by simpa using hname⟩

/-- Past `find_untracked`, a serial that no other builder has is nobody's. -/
theorem notMem_of_untracked {serial : Str} (hload : Loaded text reg) (hread : Read text reg)
    (hforeign : NotForeign text serial) (huntracked : serial ∉ reg.allSerials) (t : Str) :
    serial ∉ idsOf (ofText text) t .serial := by
  intro hmem
  obtain ⟨declared, hdeclared, rfl, hlist⟩ := exists_of_mem_idsOf hmem
  let entries := read (ofText text) (loadFromDoc (ofText text))
  obtain ⟨entry, hentry, hname, hserials⟩ :
      ∃ entry ∈ entries, entry.name = declared.name ∧ serial ∈ entry.serials :=
    ⟨_, List.mem_map_of_mem hdeclared, rfl, hlist⟩
  have hsome := isSome_get? hload (hload.doc ▸ hentry) (hforeign entry hentry hserials)
  rw [hname] at hsome
  obtain ⟨mcu, hmcu⟩ := Option.isSome_iff_exists.mp hsome
  rw [← hread.listed, listed_of_get? hmcu] at hmem
  exact huntracked (List.mem_flatMap.mpr ⟨mcu, (get?_spec hmcu).1, hmem⟩)

theorem settled_of_mutate {body : Config.Registry → Except Config.Error Config.Registry}
    (h : Settled lower text) (hm : mutate text body = .ok text')
    (hbody : ∀ reg reg', Loaded text reg → Read text reg → body reg = .ok reg' → Exact reg' ∧
      ∀ kind, Apart fun t => (shown (listed reg' t kind)).map (physical lower kind)) :
    Settled lower text' := by
  obtain ⟨reg, hload, hm⟩ := bind_ok hm
  obtain ⟨reg', hedit, hsave⟩ := bind_ok hm
  obtain ⟨hexact, happart⟩ :=
    hbody reg reg' (loaded_of_load hload) (read_of_loaded (loaded_of_load hload) h.tidy h.single) hedit
  refine ⟨hexact.toSound.tidy_save hsave, hexact.single_save hsave, fun kind => ?_⟩
  refine (happart kind).congr fun t => ?_
  rw [held, hexact.idsOf_save hsave]

theorem shown_added {l : List Str} (hl : shown l = l) :
    shown (added l x) = l ∨ (x ∉ l ∧ reads x ≠ [] ∧ shown (added l x) = l ++ [reads x]) := by
  rw [added]
  split_ifs with hmem
  · exact .inl hl
  · rw [shown_append, hl]
    by_cases hnil : reads x = []
    · exact .inl (by simp [shown, hnil])
    · exact .inr ⟨hmem, hnil, by simp [shown, hnil]⟩

theorem apart_of_relisted (h : Settled lower text) (hread : Read text reg)
    (hadd : Relisted name kind (added (listed reg name kind) x) reg reg')
    (hfree : Free lower text kind name x) (kind' : Kind) :
    Apart fun t => (shown (listed reg' t kind')).map (physical lower kind') := by
  have hshown : ∀ t kind', shown (listed reg t kind') = idsOf (ofText text) t kind' := fun t kind' =>
    by rw [hread.listed, shown_idsOf (whole_ofText text)]
  have hothers : ∀ t, (t = name → kind' ≠ kind) →
      (shown (listed reg' t kind')).map (physical lower kind') = held lower text kind' t :=
    fun t hne => by rw [hadd.others t kind' hne, hshown, held]
  by_cases hkind : kind' = kind
  · subst hkind
    have hlist : shown (listed reg name kind') = listed reg name kind' := by
      rw [hshown, hread.listed]
    rcases shown_added hlist with hsame | ⟨hnot, hne, hnew⟩
    · refine (h.oneType kind').congr fun t => ?_
      by_cases ht : t = name
      · rw [ht, hadd.self, hsame, hread.listed, held]
      · exact hothers t fun h => absurd h ht
    · have hfresh := hfree.free.resolve_left (hread.listed name kind' ▸ hnot)
      refine (h.oneType kind').concat hfresh ?_ fun t ht => hothers t fun h => absurd h ht
      rw [hadd.self, hnew, hread.listed, List.map_append, List.map_singleton, held]
  · exact (h.oneType kind').congr fun t => hothers t fun _ => hkind

theorem apart_of_unlisted (h : Settled lower text) (hread : Read text reg)
    (hremove : Unlisted name kind x reg reg') (kind' : Kind) :
    Apart fun t => (shown (listed reg' t kind')).map (physical lower kind') := by
  refine (h.oneType kind').of_sublist fun t => List.Sublist.map _ ?_
  have hshown : shown (listed reg t kind') = idsOf (ofText text) t kind' := by
    rw [hread.listed, shown_idsOf (whole_ofText text)]
  rw [← hshown]
  by_cases hself : t = name ∧ kind' = kind
  · obtain ⟨rfl, rfl⟩ := hself
    exact hremove.rest hread.exact_.single
  · rw [hremove.others t kind' fun ht hk => hself ⟨ht, hk⟩]

theorem settled_serialAdd {serial : Str} (h : Settled lower text) (hplain : Plain serial)
    (hok : RegistryApi.serialAdd text name serial = .ok text') : Settled lower text' := by
  refine settled_of_mutate h hok fun reg reg' hload hread hedit => ?_
  obtain ⟨_, -, hedit⟩ := bind_ok hedit
  obtain ⟨helse, hadd⟩ := check_ok hedit
  have hfree : Free lower text .serial name serial := by
    refine free_of_plain hplain fun t ht => notMem_of_elsewhere ?_ helse ht
    rw [hload.doc]
    exact fun declared hdeclared hlist => List.mem_filter.mpr ⟨hdeclared, decide_eq_true hlist⟩
  exact ⟨hread.exact_.addDeclaredSerial hfree.line hadd, apart_of_relisted h hread
    (hread.exact_.toSound.addDeclaredSerial hfree.line hadd) hfree⟩

theorem settled_canbusAdd {uuid : Str} (h : Settled lower text) (hplain : Plain (strip uuid))
    (hspelling : OneSpelling lower text (strip uuid))
    (hok : RegistryApi.canbusAdd text name uuid = .ok text') : Settled lower text' := by
  obtain ⟨name', hn, hok⟩ := bind_ok hok
  obtain ⟨uuid', hu, hok⟩ := bind_ok hok
  obtain ⟨rfl, -⟩ := requireStr_spec hn
  obtain ⟨rfl, -⟩ := requireStr_spec hu
  refine settled_of_mutate h hok fun reg reg' hload hread hedit => ?_
  obtain ⟨_, -, hedit⟩ := bind_ok hedit
  obtain ⟨helse, hadd⟩ := check_ok hedit
  have hfree : Free lower text .canbusUuid (strip name) (strip uuid) := by
    refine free_of_oneSpelling hplain hspelling fun t ht => notMem_of_elsewhere ?_ helse ht
    rw [hload.doc]
    exact fun declared hdeclared hlist => List.mem_filter.mpr ⟨hdeclared, decide_eq_true hlist⟩
  exact ⟨hread.exact_.addDeclaredCanbusUuid hfree.line hadd, apart_of_relisted h hread
    (hread.exact_.toSound.addDeclaredCanbusUuid hfree.line hadd) hfree⟩

theorem settled_adopt {serial : Str} (h : Settled lower text) (hplain : Plain serial)
    (hforeign : NotForeign text serial)
    (hok : RegistryApi.adopt text name serial = .ok text') : Settled lower text' := by
  obtain ⟨before, hbefore, hok⟩ := bind_ok hok
  split_ifs at hok with htracked
  · exact Except.ok.inj hok ▸ h
  have hloaded := loaded_of_load hbefore
  have hfree : Free lower text .serial name serial := free_of_plain hplain fun t _ =>
    notMem_of_untracked hloaded (read_of_loaded hloaded h.tidy h.single) hforeign htracked t
  refine settled_of_mutate h hok fun reg reg' _ hread hedit => ?_
  obtain ⟨mcu, hget, hedit⟩ := bind_ok hedit
  obtain rfl := Except.ok.inj hedit
  have hmcu := get_spec hget
  have hadd := hread.exact_.toSound.addSerial hmcu hfree.line
  have hlist : listed reg name .serial = mcu.serials := listed_of_get? hmcu .serial
  rw [← hlist] at hadd
  exact ⟨hread.exact_.modify hadd.sound fun mcu => fws_ite rfl,
    apart_of_relisted h hread hadd hfree⟩

theorem settled_serialRemove {serial : Str} (h : Settled lower text)
    (hok : RegistryApi.serialRemove text name serial = .ok text') : Settled lower text' := by
  refine settled_of_mutate h hok fun reg reg' _ hread hedit => ?_
  obtain ⟨_, -, hedit⟩ := bind_ok hedit
  exact ⟨hread.exact_.removeDeclaredSerial hedit,
    apart_of_unlisted h hread (hread.exact_.toSound.removeDeclaredSerial hedit)⟩

theorem settled_canbusRemove {uuid : Str} (h : Settled lower text)
    (hok : RegistryApi.canbusRemove text name uuid = .ok text') : Settled lower text' := by
  obtain ⟨name', -, hok⟩ := bind_ok hok
  obtain ⟨uuid', -, hok⟩ := bind_ok hok
  refine settled_of_mutate h hok fun reg reg' _ hread hedit => ?_
  obtain ⟨_, -, hedit⟩ := bind_ok hedit
  exact ⟨hread.exact_.removeDeclaredCanbusUuid hedit,
    apart_of_unlisted h hread (hread.exact_.toSound.removeDeclaredCanbusUuid hedit)⟩

theorem Op.settled {op : Op} (h : Settled lower text) (hplain : op.Plain lower text)
    (hstep : op.step text = some text') : Settled lower text' := by
  cases op with
  | serialAdd name serial => exact settled_serialAdd h hplain (toOption_eq_some hstep)
  | serialRemove name serial => exact settled_serialRemove h (toOption_eq_some hstep)
  | canbusAdd name uuid => exact settled_canbusAdd h hplain.1 hplain.2 (toOption_eq_some hstep)
  | canbusRemove name uuid => exact settled_canbusRemove h (toOption_eq_some hstep)
  | adopt mcuType serial => exact settled_adopt h hplain.1 hplain.2 (toOption_eq_some hstep)

/-! ## Runs of calls -/

/-- In a run of such calls the refusals keep every board under one type. -/
theorem one_type {start : Str} (h : Settled lower start)
    (hrun : Reach Op.step (fun text op => op.Plain lower text) (· = start) text) :
    Tidy text ∧ OneType lower text := by
  have hsettled : Settled lower text := by
    refine hrun.invariant (I := Settled lower) ?_ fun s op s' hs hplain hstep => ?_
    · rintro _ rfl
      exact h
    · exact op.settled hs hplain hstep
  exact ⟨hsettled.tidy, hsettled.oneType⟩

/-! ## What a file holds, section by section -/

def heldIn (lower : Str → Str) (text : Str) (kind : Kind) (declared : TypeSection) : List Str :=
  ((ofText text).getList declared.section_ (idKey kind)).map (physical lower kind)

theorem held_cases (hd : DistinctTypes (ofText text)) (kind : Kind) (t : Str) :
    held lower text kind t = [] ∨ ∃ declared ∈ readSections (ofText text),
      declared.name = t ∧ held lower text kind t = heldIn lower text kind declared := by
  rcases exists_section_or (ofText text) t with ⟨s, hs, hty⟩ | hnone
  · exact .inr ⟨⟨t, s⟩, mem_readSections.mpr ⟨hs, hty⟩, rfl,
      by rw [held, idsOf_of_section hd hs hty, heldIn]⟩
  · exact .inl (by rw [held, idsOf_of_none hnone, List.map_nil])

theorem oneType_of_nodup (hd : DistinctTypes (ofText text))
    (h : ∀ kind, ((readSections (ofText text)).flatMap (heldIn lower text kind)).Nodup) :
    OneType lower text := by
  intro kind
  obtain ⟨honce, hapart⟩ := List.nodup_flatMap.mp (h kind)
  refine ⟨fun t => ?_, fun t t' hne => ?_⟩
  · rcases held_cases hd kind t with hnil | ⟨declared, hmem, -, heq⟩
    · rw [hnil]
      exact List.nodup_nil
    · exact heq ▸ honce declared hmem
  · rcases held_cases hd kind t with hnil | ⟨declared, hmem, rfl, heq⟩
    · rw [hnil]
      exact List.disjoint_nil_left _
    · rcases held_cases hd kind t' with hnil | ⟨declared', hmem', rfl, heq'⟩
      · rw [hnil]
        exact List.disjoint_nil_right _
      · have : Std.Symm (Function.onFun List.Disjoint (heldIn lower text kind)) :=
          ⟨fun _ _ h => List.disjoint_symm h⟩
        rw [heq, heq']
        exact hapart.forall hmem hmem' fun he => hne (congrArg _ he)

end Ownership

def asciiLower (s : Str) : Str := s.map Char.toLower

instance (x : Str) : Decidable (Plain x) :=
  decidable_of_iff (OneLine x ∧ reads x = x) ⟨fun h => ⟨h.1, h.2⟩, fun h => ⟨h.line, h.same⟩⟩

instance (lower : Str → Str) (text uuid : Str) : Decidable (OneSpelling lower text uuid) :=
  inferInstanceAs (Decidable (∀ declared ∈ readSections (ofText text), _))

instance (text serial : Str) : Decidable (NotForeign text serial) :=
  inferInstanceAs (Decidable (∀ entry ∈ read (ofText text) (loadFromDoc (ofText text)), _))

instance (lower : Str → Str) (text : Str) (op : Op) : Decidable (op.Plain lower text) :=
  match op with
  | .serialAdd _ serial => inferInstanceAs (Decidable (Ownership.Plain serial))
  | .canbusAdd _ uuid => inferInstanceAs (Decidable (Ownership.Plain (strip uuid) ∧ _))
  | .adopt _ serial => inferInstanceAs (Decidable (Ownership.Plain serial ∧ _))
  | .serialRemove .. | .canbusRemove .. => inferInstanceAs (Decidable True)

theorem canOnly_settled : Settled asciiLower canOnly where
  tidy := canOnly_tracked.1
  single := by decide +kernel
  oneType := oneType_of_nodup canOnly_tracked.1.1 fun kind => by cases kind <;> decide +kernel

/-- Boards are added and adopted; one that is found on the bus is tracked already. -/
def additions : List Op :=
  [.serialAdd Tracking.board "AAAA".toList, .adopt Tracking.board "BBBB".toList,
    .adopt Tracking.board "AAAA".toList, .canbusAdd Tracking.board "c3d4".toList]

theorem one_type_added : ∃ text, run Op.step additions canOnly = some text ∧
    idsOf (ofText text) Tracking.board .serial = ["AAAA".toList, "BBBB".toList] ∧
    OneType asciiLower text := by
  have hlisted : (checkedRun Op.step (fun text op => decide (op.Plain asciiLower text)) additions
      canOnly).map (fun text => idsOf (ofText text) Tracking.board .serial) =
        some ["AAAA".toList, "BBBB".toList] := by decide +kernel
  obtain ⟨text, htext, hserials⟩ := Option.map_eq_some_iff.mp hlisted
  exact ⟨text, run_of_checkedRun htext, hserials, (one_type canOnly_settled
    (Reach.extend_checked (.start rfl) (fun _ _ h => of_decide_eq_true h) htext)).2⟩

/-- The same CAN board once more, in capitals. -/
theorem capitals_tracked_twice : OneType asciiLower canOnly ∧
    ∃ text, (Op.canbusAdd Tracking.board "A1B2".toList).step canOnly = some text ∧
      ¬OneType asciiLower text := by
  have htwice : ((Op.canbusAdd Tracking.board "A1B2".toList).step canOnly).map (fun text =>
      decide (held asciiLower text .canbusUuid Tracking.board).Nodup) = some false := by decide +kernel
  obtain ⟨text, htext, hdup⟩ := Option.map_eq_some_iff.mp htwice
  exact ⟨canOnly_settled.oneType, text, htext, fun h =>
    of_decide_eq_false hdup ((h .canbusUuid).once Tracking.board)⟩

end McuUpdater.Agent.Ownership
