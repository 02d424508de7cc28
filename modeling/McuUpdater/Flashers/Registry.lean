import McuUpdater.Lib.Grouping

/-! `flashers/registry.py`: which flashers exist, and how a batch splits around the
Klipper stop and by flasher. -/
namespace McuUpdater.Flashers
open Grouping

/-- The uniform slots of a `FlashTarget`; its `detail` is its flasher's own. -/
structure FlashTarget where
  flasher : String
  type : String
  id : String
  stopServices : List String := []
  needsServicesStopped : Option Bool := none
  deriving DecidableEq

structure Flasher where
  name : String
  needsServicesStopped : Bool
  deriving DecidableEq

/-- `FLASHERS` -/
def flashers : List Flasher :=
  [⟨"flashtool", true⟩, ⟨"platformio", true⟩, ⟨"dfu_util", false⟩, ⟨"bootsel", false⟩]

/-- `by_name`, which raises `KeyError` for a name not in the table. -/
def byName (name : String) : Option Flasher := flashers.find? (·.name == name)

/-- The target's own answer when it has one, else its flasher's. -/
def needsServicesStopped (t : FlashTarget) : Option Bool :=
  match t.needsServicesStopped with
  | some b => some b
  | none => (byName t.flasher).map (·.needsServicesStopped)

/-- Split a batch into those that need Klipper down and those that do not. -/
def groupByStop : List FlashTarget → Option (List FlashTarget × List FlashTarget)
  | [] => some ([], [])
  | t :: ts => do
    let needs ← needsServicesStopped t
    let (stopped, free) ← groupByStop ts
    return if needs then (t :: stopped, free) else (stopped, t :: free)

def stopServicesUnion (ts : List FlashTarget) : List String :=
  firstSeen (ts.flatMap (·.stopServices))

/-- `[(by_name(name), groups[name]) for name in order]` -/
def named : List (String × List FlashTarget) → Option (List (Flasher × List FlashTarget))
  | [] => some []
  | (name, mine) :: groups => do
    let flasher ← byName name
    let rest ← named groups
    return (flasher, mine) :: rest

def byFlasher (ts : List FlashTarget) : Option (List (Flasher × List FlashTarget)) :=
  named (groupOn (·.flasher) ts)

/-- Each flasher is there once, with its own targets in their order. -/
structure SessionsOf (group : List FlashTarget) (gs : List (Flasher × List FlashTarget)) :
    Prop where
  distinct : (gs.map (·.1.name)).Nodup
  own : ∀ g ∈ gs, g.2 = group.filter (·.flasher = g.1.name)
  covered : ∀ t ∈ group, ∃ g ∈ gs, g.1.name = t.flasher

/-- `units` is the union of the groups' services, each where it is first seen. -/
def FirstSeenUnion (units : List String) (ts : List FlashTarget) : Prop :=
  (∀ u, u ∈ units ↔ ∃ t ∈ ts, u ∈ t.stopServices) ∧
    units.Pairwise fun u v =>
      (ts.flatMap (·.stopServices)).idxOf u < (ts.flatMap (·.stopServices)).idxOf v

theorem byName_name {name : String} {f : Flasher} (h : byName name = some f) : f.name = name := by
  simpa using List.find?_some h

theorem groupByStop_filter {ts stopped free : List FlashTarget}
    (h : groupByStop ts = some (stopped, free)) :
    stopped = ts.filter (needsServicesStopped · = some true) ∧
      free = ts.filter (needsServicesStopped · = some false) := by
  induction ts generalizing stopped free with
  | nil =>
    cases h
    exact ⟨rfl, rfl⟩
  | cons t ts ih =>
    rw [groupByStop] at h
    obtain ⟨needs, hn, h⟩ := Option.bind_eq_some_iff.mp h
    obtain ⟨⟨stopped', free'⟩, hr, h⟩ := Option.bind_eq_some_iff.mp h
    obtain ⟨hs, hf⟩ := ih hr
    cases needs <;> cases h <;> simp [hn, hs, hf]

theorem groupByStop_perm {ts stopped free : List FlashTarget}
    (h : groupByStop ts = some (stopped, free)) : (free ++ stopped).Perm ts := by
  induction ts generalizing stopped free with
  | nil =>
    cases h
    exact .refl _
  | cons t ts ih =>
    rw [groupByStop] at h
    obtain ⟨needs, hn, h⟩ := Option.bind_eq_some_iff.mp h
    obtain ⟨⟨stopped', free'⟩, hr, h⟩ := Option.bind_eq_some_iff.mp h
    cases needs with
    | false =>
      cases h
      exact (ih hr).cons t
    | true =>
      cases h
      exact List.perm_middle.trans ((ih hr).cons t)

theorem named_eq {groups : List (String × List FlashTarget)}
    {gs : List (Flasher × List FlashTarget)} (h : named groups = some gs) :
    gs.map (fun g => (g.1.name, g.2)) = groups := by
  induction groups generalizing gs with
  | nil =>
    cases h
    rfl
  | cons g groups ih =>
    rw [named] at h
    obtain ⟨f, hf, h⟩ := Option.bind_eq_some_iff.mp h
    obtain ⟨rest, hr, h⟩ := Option.bind_eq_some_iff.mp h
    cases h
    simp [ih hr, byName_name hf]

theorem byFlasher_sessionsOf {ts : List FlashTarget} {gs : List (Flasher × List FlashTarget)}
    (h : byFlasher ts = some gs) : SessionsOf ts gs := by
  have hgs := named_eq h
  have hkeys : gs.map (·.1.name) = firstSeen (ts.map (·.flasher)) := by
    have := congrArg (List.map Prod.fst) hgs
    rwa [groupOn_keys, List.map_map] at this
  refine ⟨hkeys ▸ firstSeen_nodup _, fun g hg => ?_, fun t ht => ?_⟩
  · have hm : (g.1.name, g.2) ∈ groupOn (·.flasher) ts := by
      rw [← hgs]
      exact List.mem_map_of_mem hg
    exact groupOn_group hm
  · have hm : t.flasher ∈ gs.map (·.1.name) := by
      rw [hkeys, mem_firstSeen]
      exact List.mem_map_of_mem ht
    obtain ⟨g, hg, he⟩ := List.mem_map.mp hm
    exact ⟨g, hg, he⟩

theorem byFlasher_perm {ts : List FlashTarget} {gs : List (Flasher × List FlashTarget)}
    (h : byFlasher ts = some gs) : (gs.flatMap (·.2)).Perm ts := by
  have hp := groupOn_perm (·.flasher) ts
  rwa [← named_eq h, List.flatMap_map] at hp

theorem stopServicesUnion_firstSeen (ts : List FlashTarget) :
    FirstSeenUnion (stopServicesUnion ts) ts :=
  ⟨fun u => by simp [stopServicesUnion], firstSeen_pairwise _⟩

end McuUpdater.Flashers
