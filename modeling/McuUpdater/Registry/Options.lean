import McuUpdater.Registry.Saving
import McuUpdater.Registry.Settings

/-! The options of a section in the order they are written, over whose keys `settings.py` loops,
and what writes leave of that order. -/
namespace McuUpdater.CfgDoc
open PyText Outline
variable {key : Str} {body : List Str}

def keysOf (body : List Str) : List Str := (items body).filterMap keyOf

theorem mem_keysOf : key ∈ keysOf body ↔ written body key ≠ [] := by
  rw [keysOf, List.mem_filterMap, Ne, written, List.filter_eq_nil_iff]
  simp

theorem keysOf_setIn (hkey : KeySafe key) (value : Value) (body : List Str) :
    keysOf (setIn key value body) =
      if key ∈ keysOf body then keysOf body else keysOf body ++ [key] := by
  rcases cut_setIn hkey.heads value body with ⟨hnil, lead, above, below, hcut, hbelow, hset⟩ |
    ⟨hne, hset⟩
  · have hnew : keyOf (render key value none) = some key := keyOf_render hkey value (by simp)
    have hnone : below.filterMap keyOf = [] := List.filterMap_eq_nil_iff.mpr fun b hb => by
      obtain ⟨line, rfl, hline⟩ := hbelow b hb
      exact keyOf_blank hline
    rw [if_neg fun hmem => mem_keysOf.mp hmem hnil, keysOf, keysOf, items, items, hset, hcut]
    simp [hnew, hnone]
  · have hmap : (items (setIn key value body)).map keyOf = (items body).map keyOf := by
      rw [items, hset]
      refine map_replaceFirst fun b hb => ?_
      have hb : keyOf b = some key := by simpa using hb
      have hnew : keyOf (render key value (some b)) = some key :=
        keyOf_render hkey value (by simpa using ⟨key, hb⟩)
      simp [hnew, hb]
    have hkeys : ∀ l : List (Block Str), l.filterMap keyOf = (l.map keyOf).filterMap id := by simp
    rw [if_pos (mem_keysOf.mpr hne), keysOf, keysOf, hkeys, hkeys, hmap]

theorem keysOf_removeIn (key : Str) (body : List Str) :
    keysOf (removeIn key body) = (keysOf body).erase key := by
  rw [keysOf, items, cut_removeIn, keysOf]
  simp only
  induction items body with
  | nil => rfl
  | cons item rest ih =>
    rw [replaceFirst]
    by_cases h : keyOf item = some key
    · simp [h]
    · cases hk : keyOf item with
      | none => simpa [hk] using ih
      | some other =>
        have hne : other ≠ key := fun he => h (by rw [hk, he])
        simp [hk, hne, ih]

namespace CfgDocument
variable {doc : CfgDocument} {name : Str}

def keysAt (doc : CfgDocument) (name : Str) : List Str :=
  (doc.section? name).elim [] fun sec => keysOf sec.body

theorem mem_keysAt : key ∈ doc.keysAt name ↔ doc.writtenAt name key ≠ [] := by
  rw [keysAt, writtenAt]
  cases doc.section? name with
  | none => simp
  | some sec => exact mem_keysOf

theorem keysAt_set (hkey : KeySafe key) (hhead : key.head? ≠ some '[') (h : name ∈ doc.names)
    (value : Value) : (doc.set name key value).keysAt name =
      if key ∈ doc.keysAt name then doc.keysAt name else doc.keysAt name ++ [key] := by
  rw [set, addSection_of_mem h, keysAt, section?_edit_self
    fun sec hsec _ => (headless_of_mem_sections hsec).setIn hhead hkey.ne_nil value, keysAt]
  obtain ⟨sec, hsec⟩ := Option.isSome_iff_exists.mp (hasSection_iff.mpr h)
  rw [hsec]
  exact keysOf_setIn hkey value sec.body

theorem keysAt_removeOption (doc : CfgDocument) (name key : Str) :
    (doc.removeOption name key).keysAt name = (doc.keysAt name).erase key := by
  rw [removeOption, keysAt, section?_edit_self
    fun sec hsec _ => (headless_of_mem_sections hsec).removeIn key, keysAt]
  cases doc.section? name with
  | none => rfl
  | some sec => exact keysOf_removeIn key sec.body

theorem keysAt_of_not_mem (h : name ∉ doc.names) : doc.keysAt name = [] := by
  have hnone : doc.section? name = none := by
    rw [← hasSection_iff, hasSection] at h
    simpa using h
  rw [keysAt, hnone]
  rfl

theorem keysAt_pad (doc : CfgDocument) (name : Str) : doc.pad.keysAt name = doc.keysAt name := by
  have h := section?_pad doc name
  rw [keysAt, keysAt]
  generalize doc.section? name = old, doc.pad.section? name = new at h
  cases h with
  | none => rfl
  | some hpad =>
    rcases hpad with rfl | rfl
    · rfl
    · simp [keysOf, items_pad, keyOf, optionOf]

theorem keysAt_addSection (h : name ∈ doc.names ∨ NameSafe name) :
    (doc.addSection name).keysAt name = doc.keysAt name := by
  by_cases hmem : name ∈ doc.names
  · rw [addSection_of_mem hmem]
  have hsafe := h.resolve_left hmem
  have hname := nameOf_headerLine hsafe
  have hlast : ∀ doc' : CfgDocument, name ∉ doc'.names →
      (doc.addSection name).sections = doc'.sections ++ [⟨headerLine name, []⟩] →
      (doc.addSection name).keysAt name = [] := by
    intro doc' hnot hsec
    have hnone : doc'.sections.find? (nameOf · = name) = none := by
      simpa [names] using hnot
    rw [keysAt, section?, hsec, List.find?_append, hnone]
    simp [hname, keysOf, items, cut]
  rw [keysAt_of_not_mem hmem]
  rcases sections_addSection hsafe hmem with hsec | hsec
  · exact hlast doc hmem hsec
  · exact hlast doc.pad (by rwa [names_pad]) hsec

theorem keysAt_reload (h : doc.Whole) (name : Str) : doc.reload.keysAt name = doc.keysAt name := by
  rcases reload_spec h with hr | hr
  · rw [hr]
  · conv_rhs => rw [← hr, keysAt_pad]

end CfgDocument
end McuUpdater.CfgDoc

namespace McuUpdater.Config
open PyText CfgDoc CfgDocument
variable {doc : CfgDocument} {sec : Str} {ws : List (Str × Option Value)}

/-- What one write makes of the keys of its section. -/
def putKey (keys : List Str) (w : Str × Option Value) : List Str :=
  match w.2 with
  | some _ => if w.1 ∈ keys then keys else keys ++ [w.1]
  | none => keys.erase w.1

theorem keysAt_writeOption {w : Str × Option Value} (hw : SafeWrite w)
    (hkey : w.2.isSome → KeySafe w.1) (h : sec ∈ doc.names) :
    (writeOption sec doc w).keysAt sec = putKey (doc.keysAt sec) w := by
  obtain ⟨key, value⟩ := w
  cases value with
  | none => exact keysAt_removeOption doc sec key
  | some v => exact keysAt_set (hkey rfl) hw.noBracket h v

theorem keysAt_writeAll (hws : ∀ w ∈ ws, SafeWrite w)
    (hkeys : ∀ w ∈ ws, w.2.isSome → KeySafe w.1) (h : sec ∈ doc.names) :
    (writeAll sec doc ws).keysAt sec = ws.foldl putKey (doc.keysAt sec) := by
  induction ws generalizing doc with
  | nil => rfl
  | cons w ws ih =>
    rw [List.forall_mem_cons] at hws hkeys
    rw [writeAll_cons, ih hws.2 hkeys.2 ((names_writeOption hws.1 h).symm ▸ h),
      keysAt_writeOption hws.1 hkeys.1 h, List.foldl_cons]

theorem filter_putKey (p : Str → Bool) (keys : List Str) (w : Str × Option Value) :
    (putKey keys w).filter p = if p w.1 then putKey (keys.filter p) w else keys.filter p := by
  obtain ⟨key, value⟩ := w
  cases value with
  | none =>
    by_cases hp : p key = true
    · simp [putKey, hp, List.erase_filter]
    · have hnot : key ∉ keys.filter p := fun hm => hp (List.of_mem_filter hm)
      simp [putKey, hp, ← List.erase_filter, List.erase_of_not_mem hnot]
  | some v =>
    by_cases hmem : key ∈ keys
    · by_cases hp : p key = true <;> simp [putKey, hp, hmem]
    · by_cases hp : p key = true <;> simp [putKey, hp, hmem]

/-- The writes under keys that `p` does not select leave those it selects as they are. -/
theorem filter_foldl_putKey (p : Str → Bool) (ws : List (Str × Option Value)) (keys : List Str) :
    (ws.foldl putKey keys).filter p = (ws.filter (p ·.1)).foldl putKey (keys.filter p) := by
  induction ws generalizing keys with
  | nil => rfl
  | cons w ws ih =>
    rw [List.foldl_cons, ih, filter_putKey, List.filter_cons]
    split_ifs <;> simp

end McuUpdater.Config
