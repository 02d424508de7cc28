import McuUpdater.Flashers.Katapult
import McuUpdater.Inventory

/-! The lookup made before a write, over the sources it asks, beside the one the inventory makes. -/
namespace McuUpdater.Flashers
open PyText Discovery Inventory

/-- What a source other than the by-id scan reports; its `detail` names no chipset. -/
structure Heard where
  id : Str
  address : Str
  fw : Option Str

def heardBy (name : String) (heard : List Heard) : Source :=
  ⟨name, heard.map fun d => ⟨d.id, d.address, none, d.fw⟩⟩

/-- What the sources report of one moment. -/
structure Sightings where
  listen : List Heard := []
  watcher : List Heard := []
  roadrunner : List Heard := []
  scan : List BusDevice := []

/-- The `sources` argument of `device_for`: its default, and the one the bootloader poll gives. -/
inductive Asked
  | sources
  | byidOnly

variable (seen : Sightings) (asked : Asked) (chipset serial : Str)

/-- `SOURCES`, or `(Byid(),)` -/
def Sightings.sources : Asked → List Source
  | .sources => [heardBy "listen" seen.listen, heardBy "watcher" seen.watcher,
    heardBy "roadrunner" seen.roadrunner, byid seen.scan]
  | .byidOnly => [byid seen.scan]

def Sightings.answered : Asked → List Heard
  | .sources => seen.listen
  | .byidOnly => []

def Sightings.carrying : List BusDevice := seen.scan.filter (·.serial = serial)

theorem find_heardBy (name : String) (heard : List Heard) :
    (heardBy name heard).sightings.find? (·.id = serial) =
      (heard.find? (·.id = serial)).map fun d => ⟨d.id, d.address, none, d.fw⟩ := by
  rw [heardBy, List.find?_map]
  rfl

theorem find_byid : (byid seen.scan).sightings.find? (·.id = serial) =
    (seen.carrying serial).head?.map fun d => ⟨d.serial, d.path, some d.chipset, some d.fw⟩ := by
  rw [byid, List.find?_map, Sightings.carrying, List.head?_filter]
  rfl

/-- What is kept for a serial before the by-id scan is asked. -/
def Sightings.heard : Asked → Option (Sighting × Reason)
  | .sources =>
    ((seen.listen.find? (·.id = serial)).map fun d => (⟨d.id, d.address, none, d.fw⟩, .answered)).or
      (((seen.watcher.find? (·.id = serial)).map fun d =>
        (⟨d.id, d.address, none, d.fw⟩, .remembered)).or
        ((seen.roadrunner.find? (·.id = serial)).map fun d =>
          (⟨d.id, d.address, none, d.fw⟩, .unconfirmed)))
  | .byidOnly => none

variable {seen asked chipset serial}

theorem chipset_of_heard {x : Sighting × Reason} (h : seen.heard serial asked = some x) :
    x.1.chipset = none := by
  cases asked with
  | byidOnly => cases h
  | sources =>
    unfold Sightings.heard at h
    cases hlisten : seen.listen.find? (·.id = serial) with
    | some d =>
      rw [hlisten] at h
      obtain rfl := Option.some.inj h
      rfl
    | none =>
      rw [hlisten] at h
      cases hwatcher : seen.watcher.find? (·.id = serial) with
      | some d =>
        rw [hwatcher] at h
        obtain rfl := Option.some.inj h
        rfl
      | none =>
        rw [hwatcher] at h
        obtain ⟨d, -, rfl⟩ := Option.map_eq_some_iff.mp h
        rfl

theorem rank_of_heard : (seen.heard serial asked).any (2 ≤ ·.2.rank) =
    (seen.answered asked).any (·.id = serial) := by
  cases asked with
  | byidOnly => rfl
  | sources =>
    rw [Sightings.heard, Sightings.answered]
    cases hlisten : seen.listen.find? (·.id = serial) with
    | some d =>
      have hany : seen.listen.any (·.id = serial) = true :=
        by
        have hid := List.find?_some hlisten
        exact List.any_eq_true.mpr ⟨d, List.mem_of_find?_eq_some hlisten, hid⟩
      rw [hany]
      rfl
    | none =>
      have hany : seen.listen.any (·.id = serial) = false :=
        List.any_eq_false.mpr (List.find?_eq_none.mp hlisten)
      rw [hany]
      cases seen.watcher.find? (·.id = serial) <;> cases seen.roadrunner.find? (·.id = serial) <;> rfl

theorem lookup_sources (hne : serial ≠ []) : (confirm (seen.sources asked)).lookup serial =
    if (seen.answered asked).any (·.id = serial) then seen.heard serial asked
    else ((seen.carrying serial).head?.map fun d =>
      (⟨d.serial, d.path, some d.chipset, some d.fw⟩, .uniqueBusId)).or (seen.heard serial asked) := by
  have hbefore : ∀ best : Best, best.lookup serial = seen.heard serial asked →
      ((byid seen.scan).sightings.foldl (consider .uniqueBusId) best).lookup serial =
        if (seen.answered asked).any (·.id = serial) then seen.heard serial asked
        else ((seen.carrying serial).head?.map fun d =>
          (⟨d.serial, d.path, some d.chipset, some d.fw⟩, .uniqueBusId)).or
            (seen.heard serial asked) := fun best hbest => by
    rw [lookup_source hne, hbest, find_byid, ← rank_of_heard, Option.map_map]
    rfl
  cases asked with
  | byidOnly => exact hbefore [] rfl
  | sources =>
    refine hbefore _ ?_
    rw [lookup_source hne, lookup_source hne, lookup_source hne, find_heardBy, find_heardBy,
      find_heardBy, Sightings.heard]
    cases seen.listen.find? (·.id = serial) with
    | some d => rfl
    | none =>
      cases seen.watcher.find? (·.id = serial) with
      | some d => rfl
      | none => cases seen.roadrunner.find? (·.id = serial) <;> rfl

theorem deviceFor_heard (h : (confirm (seen.sources asked)).lookup serial = seen.heard serial asked) :
    deviceFor (seen.sources asked) chipset serial = none := by
  unfold deviceFor
  rw [h]
  cases hheard : seen.heard serial asked with
  | none => rfl
  | some found => simp [chipset_of_heard hheard]

theorem deviceFor_sources : deviceFor (seen.sources asked) chipset serial =
    if serial = [] ∨ (seen.answered asked).any (·.id = serial) then none
    else ((seen.carrying serial).head?.filter (·.chipset = chipset)).map (·, .uniqueBusId) := by
  by_cases hne : serial = []
  · subst hne
    rw [deviceFor, lookup_nil_confirm, if_pos (.inl rfl)]
  have hlookup := @lookup_sources seen asked serial hne
  by_cases hanswered : (seen.answered asked).any (·.id = serial) = true
  · rw [if_pos hanswered] at hlookup
    rw [deviceFor_heard hlookup, if_pos (.inr hanswered)]
  · rw [if_neg hanswered] at hlookup
    rw [if_neg (by simp [hne, hanswered])]
    cases hhead : (seen.carrying serial).head? with
    | none =>
      rw [hhead] at hlookup
      exact deviceFor_heard hlookup
    | some d =>
      rw [hhead] at hlookup
      have hserial : d.serial = serial :=
        of_decide_eq_true (List.mem_filter.mp (List.mem_of_head? hhead)).2
      obtain ⟨fw, chipset', serial', path⟩ := d
      dsimp only at hserial
      subst hserial
      rw [deviceFor, hlookup]
      by_cases hchipset : chipset' = chipset
      · subst hchipset
        simp [Option.filter]
      · simp [hchipset, Option.filter]

/-- The serials the lookup cannot take for another board's. -/
def Unmistakable (seen : Sightings) (asked : Asked) (chipset serial : Str) : Prop :=
  serial = [] ∨ (seen.carrying serial).length ≤ 1 ∨ (∃ d ∈ seen.answered asked, d.id = serial) ∨
    (seen.carrying serial).head?.all (·.chipset ≠ chipset)

/-- A device is returned only as the one sighting of its serial, just where several sightings
carry it that would be told apart or refused. -/
theorem deviceFor_one_iff (seen : Sightings) (asked : Asked) (chipset serial : Str) :
    (∀ dev confidence, deviceFor (seen.sources asked) chipset serial = some (dev, confidence) →
      theSighting serial seen.scan = some dev) ↔ Unmistakable seen asked chipset serial := by
  have hone : ∀ dev, theSighting serial seen.scan = some dev ↔ seen.carrying serial = [dev] :=
    fun dev => theOne_eq_some
  by_cases hrefused : serial = [] ∨ (seen.answered asked).any (·.id = serial)
  · have hnone : deviceFor (seen.sources asked) chipset serial = none := by
      rw [deviceFor_sources, if_pos hrefused]
    refine iff_of_true (fun dev confidence h => (by cases hnone.symm.trans h)) ?_
    rcases hrefused with hnil | hanswered
    · exact .inl hnil
    · obtain ⟨d, hd, hid⟩ := List.any_eq_true.mp hanswered
      exact .inr (.inr (.inl ⟨d, hd, of_decide_eq_true hid⟩))
  have hsafe : Unmistakable seen asked chipset serial ↔ (seen.carrying serial).length ≤ 1 ∨
      (seen.carrying serial).head?.all (·.chipset ≠ chipset) := by
    simp only [not_or, List.any_eq_true, not_exists] at hrefused
    rw [Unmistakable, or_iff_right hrefused.1, or_congr_right (or_iff_right _)]
    rintro ⟨d, hd, hid⟩
    exact hrefused.2 d ⟨hd, decide_eq_true hid⟩
  simp only [hsafe, hone, deviceFor_sources, if_neg hrefused]
  match seen.carrying serial with
  | [] => simp
  | [d] =>
    refine iff_of_true (fun dev confidence h => ?_) (.inl (by simp))
    obtain ⟨d', hd', he⟩ := Option.map_eq_some_iff.mp h
    obtain ⟨hd', -⟩ := Option.filter_eq_some_iff.mp hd'
    cases hd'
    cases he
    rfl
  | d :: d' :: rest =>
    by_cases hchipset : d.chipset = chipset
    · refine iff_of_false (fun h => ?_) (by simp [hchipset])
      have hone := h d .uniqueBusId (by simp [Option.filter, hchipset])
      simp at hone
    · simp [Option.filter, hchipset]

/-- Two boards of one type whose chips report one serial. -/
def twins : Sightings where
  scan := [⟨"Klipper".toList, "rp2040".toList, "1234".toList, "a".toList⟩,
    ⟨"Klipper".toList, "rp2040".toList, "1234".toList, "b".toList⟩]

theorem twins_written : deviceFor (twins.sources .sources) "rp2040".toList "1234".toList =
      some (⟨"Klipper".toList, "rp2040".toList, "1234".toList, "a".toList⟩, .uniqueBusId) ∧
    theSighting "1234".toList twins.scan = none ∧
    findDevice id "rp2040".toList "1234".toList none twins.scan = none := by
  decide +kernel

end McuUpdater.Flashers
