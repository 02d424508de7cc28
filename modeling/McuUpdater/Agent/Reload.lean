import McuUpdater.Registry.Fidelity
import McuUpdater.Agent.Tracking

/-! The calls that change the registry: what is saved, and what the file gives back of it. -/
namespace McuUpdater.Agent.Reload
open PyText Dict CfgDoc CfgDocument McuUpdater.Registry Typelist Config ExceptList
open RegistryApi
variable {text text' name : Str} {reg reg' : Config.Registry} {mcu : McuType} {f : McuType → McuType}

/-! ## Orderly registries -/

theorem nodup_foldlM_loadFw {doc : CfgDocument} {entry : Entry} {fws : List Str}
    {slots slots' : List (Str × FwConfig)} (h : fws.foldlM (loadFw doc entry) slots = .ok slots')
    (hnodup : (slots.map Prod.fst).Nodup) : (slots'.map Prod.fst).Nodup := by
  induction fws generalizing slots with
  | nil =>
    cases h
    exact hnodup
  | cons fw fws ih =>
    obtain ⟨mid, hmid, h⟩ := bind_ok h
    obtain ⟨patches, -, hmid⟩ := bind_ok hmid
    refine ih h ?_
    rw [← Except.ok.inj hmid]
    exact nodup_dictPut hnodup _

theorem orderly_of_loaded (h : Loaded text reg) (htidy : Tidy text) : Orderly reg := by
  have hsound := h.sound htidy
  refine ⟨hsound.whole, hsound.unbracketed, hsound.distinct, hsound.namesNodup, hsound.nodup,
    fun mcu hmcu => (hsound.storable mcu hmcu).name, fun entry hentry hk => ?_, fun mcu hmcu => ?_,
    fun mcu hmcu slot hslot _ => ⟨((hsound.storable mcu hmcu).texts.fws slot hslot).2,
      h.keys mcu hmcu slot hslot⟩⟩
  · obtain ⟨types, hmap, htypes⟩ := h.types
    obtain ⟨mcu, hload⟩ := ok_of_mapM hmap (List.mem_filter.mpr ⟨hentry, hk⟩)
    have hmem : mcu ∈ types := (mem_mapM hmap mcu).mpr ⟨entry, List.mem_filter.mpr ⟨hentry, hk⟩, hload⟩
    have hname : mcu.name = entry.name := by
      obtain ⟨slots, -, rfl⟩ := loadType_spec hload
      rfl
    have hput : entry.name ∈ reg.types.map McuType.name := by
      rw [htypes, ← hname]
      exact mem_map_foldl_dictPut hmem
    obtain ⟨other, hother, hsame⟩ := List.mem_map.mp hput
    rw [← hsame, get?_of_mem hsound.nodup hother]
    rfl
  · refine ⟨?_, fun slot hslot => ((hsound.storable mcu hmcu).texts.fws slot hslot).1⟩
    obtain ⟨entry, -, -, hload⟩ := h.exists_entry hmcu
    obtain ⟨slots, hslots, rfl⟩ := loadType_spec hload
    exact nodup_foldlM_loadFw hslots (by simp)

theorem orderly_modify (h : Orderly reg) (hname : ∀ mcu, (f mcu).name = mcu.name)
    (hfirmwares : ∀ mcu, (f mcu).firmwares = mcu.firmwares) (hfws : ∀ mcu, (f mcu).fws = mcu.fws) :
    Orderly (reg.modify name f) := by
  have hall : ∀ mcu ∈ (reg.modify name f).types, ∃ old ∈ reg.types, mcu.name = old.name ∧
      mcu.firmwares = old.firmwares ∧ mcu.fws = old.fws := by
    intro mcu hmcu
    obtain ⟨old, hold, rfl⟩ := List.mem_map.mp hmcu
    refine ⟨old, hold, ?_⟩
    split_ifs
    · exact ⟨hname old, hfirmwares old, hfws old⟩
    · exact ⟨rfl, rfl, rfl⟩
  have hnames : (reg.modify name f).types.map McuType.name = reg.types.map McuType.name := by
    rw [Config.Registry.modify, List.map_map]
    refine List.map_congr_left fun mcu _ => ?_
    rw [Function.comp_apply]
    split_ifs
    · exact hname mcu
    · rfl
  refine ⟨h.whole, h.unbracketed, h.distinct, h.namesNodup, hnames ▸ h.nodup, fun mcu hmcu => ?_,
    fun entry hentry hk => ?_, fun mcu hmcu => ?_, fun mcu hmcu => ?_⟩
  · obtain ⟨old, hold, hn, -⟩ := hall mcu hmcu
    exact hn ▸ h.names old hold
  · obtain ⟨old, hold⟩ := Option.isSome_iff_exists.mp (h.held entry hentry hk)
    rw [get?_modify (fun mcu hmcu => (hname mcu).trans (get?_spec hmcu).2) h.nodup]
    split_ifs with he
    · rw [he] at hold
      rw [hold]
      rfl
    · rw [hold]
      rfl
  · obtain ⟨old, hold, -, -, hf⟩ := hall mcu hmcu
    exact hf ▸ h.slots old hold
  · obtain ⟨old, hold, -, hfirm, hf⟩ := hall mcu hmcu
    rw [hfirm, hf]
    exact h.idle old hold

/-! ## One call -/

theorem sameType_refl (mcu : McuType) : SameType mcu mcu :=
  ⟨rfl, rfl, rfl, rfl, rfl, rfl, rfl, fun _ _ => rfl⟩

def hashLine : TypeUpdateArgs where
  name := Tracking.board
  fws := [(Config.klipper,
    { makefilePatches := some [("src/Makefile".toList, "# buffer".toList)] })]

end McuUpdater.Agent.Reload
