import McuUpdater.Discovery.Byid

/-! `discovery/confirm.py`: every source asked once, and the most confident sighting of
each identity kept. -/
namespace McuUpdater.Discovery
open PyText

/-- `chipset` and `fw` are in the sighting's `detail`. -/
structure Sighting where
  id : Str
  address : Str
  chipset : Option Str
  fw : Option Str
  deriving DecidableEq

/-- `Confidence.reason` -/
inductive Reason
  | answered
  | uniqueBusId
  | remembered
  | unconfirmed
  deriving DecidableEq

/-- `Confidence.safe_to_write`, which is never False. -/
def Reason.safeToWrite : Reason → Option Bool
  | .answered | .uniqueBusId => some true
  | .remembered | .unconfirmed => none

/-- `_rank` -/
def Reason.rank (r : Reason) : Nat :=
  match r.safeToWrite with
  | some true => 2
  | none => 1
  | some false => 0

structure Source where
  name : String
  sightings : List Sighting

/-- `_CONFIDENCE_FOR_SOURCE`, with its default. -/
def confidenceForSource : String → Reason
  | "listen" => .answered
  | "watcher" => .remembered
  | "byid" => .uniqueBusId
  | _ => .unconfirmed

/-- `best`: the sighting kept for an id. -/
abbrev Best := List (Str × Sighting × Reason)

/-- One sighting of a source whose sightings carry this confidence. -/
def consider (confidence : Reason) (best : Best) (s : Sighting) : Best :=
  if s.id = [] then best
  else
    match best.lookup s.id with
    | none => best ++ [(s.id, s, confidence)]
    | some (_, r) =>
      if confidence.rank ≤ r.rank then best
      else best.map fun b => if b.1 = s.id then (s.id, s, confidence) else b

def confirm (sources : List Source) : Best :=
  sources.foldl (fun best source =>
    source.sightings.foldl (consider (confidenceForSource source.name)) best) []

/-- `Byid.sight` -/
def byid (scan : List BusDevice) : Source :=
  ⟨"byid", scan.map fun d => ⟨d.serial, d.path, some d.chipset, some d.fw⟩⟩

/-- Each sighting is kept under its own id and was reported by one of the sources. -/
def Reported (sources : List Source) (best : Best) : Prop :=
  ∀ b ∈ best, b.1 = b.2.1.id ∧ ∃ source ∈ sources, b.2.1 ∈ source.sightings

theorem reported_consider {sources : List Source} {best : Best} (hbest : Reported sources best)
    (confidence : Reason) {source : Source} (hsource : source ∈ sources) {s : Sighting}
    (hs : s ∈ source.sightings) : Reported sources (consider confidence best s) := by
  intro b hb
  unfold consider at hb
  split at hb
  · exact hbest b hb
  · split at hb
    · rcases List.mem_append.mp hb with hb | hb
      · exact hbest b hb
      · obtain rfl := List.mem_singleton.mp hb
        exact ⟨rfl, source, hsource, hs⟩
    · split at hb
      · exact hbest b hb
      · obtain ⟨b', hb', rfl⟩ := List.mem_map.mp hb
        split
        · exact ⟨rfl, source, hsource, hs⟩
        · exact hbest b' hb'

theorem reported_confirm (sources : List Source) : Reported sources (confirm sources) := by
  refine List.foldlRecOn (motive := Reported sources) sources _ nofun
    fun best hbest source hsource => ?_
  exact List.foldlRecOn (motive := Reported sources) source.sightings _ hbest
    fun best hbest s hs => reported_consider hbest _ hsource hs

theorem confirm_lookup {sources : List Source} {id : Str} {s : Sighting} {r : Reason}
    (h : (confirm sources).lookup id = some (s, r)) :
    s.id = id ∧ ∃ source ∈ sources, s ∈ source.sightings := by
  obtain ⟨l₁, l₂, hl, -⟩ := List.lookup_eq_some_iff.mp h
  obtain ⟨hid, hsource⟩ := reported_confirm sources (id, s, r) (by simp [hl])
  exact ⟨hid.symm, hsource⟩

/-! ## What is kept for one id -/

/-- The more confident of two sightings of one id, the earlier one where they tie. -/
def better (best : Option (Sighting × Reason)) (x : Sighting × Reason) : Option (Sighting × Reason) :=
  match best with
  | none => some x
  | some b => if x.2.rank ≤ b.2.rank then some b else some x

theorem lookup_replaced (best : Best) (id key : Str) (x : Sighting × Reason) :
    (best.map fun b => if b.1 = key then (key, x) else b).lookup id =
      if id = key then (best.lookup id).map fun _ => x else best.lookup id := by
  induction best with
  | nil => simp
  | cons b best ih =>
    rw [List.map_cons, List.lookup_cons, List.lookup_cons, ih]
    by_cases hb : b.1 = key
    · rw [if_pos hb]
      by_cases hid : id = key
      · simp [hid, hb]
      · have hne : (id == key) = false := beq_false_of_ne hid
        simp [hb, hne]
    · rw [if_neg hb]
      by_cases hid : id = b.1
      · subst hid
        simp [hb]
      · have hne : (id == b.1) = false := beq_false_of_ne hid
        simp only [hne]

theorem lookup_consider {id : Str} (hid : id ≠ []) (confidence : Reason) (best : Best) (s : Sighting) :
    (consider confidence best s).lookup id =
      if s.id = id then better (best.lookup id) (s, confidence) else best.lookup id := by
  unfold consider
  split_ifs with hnil hs hs
  · exact absurd (hs.symm.trans hnil) hid
  · rfl
  · subst hs
    cases hl : best.lookup s.id with
    | none => simp [List.lookup_append, hl, better]
    | some b =>
      dsimp only
      rw [better]
      split_ifs
      · exact hl
      · simp [lookup_replaced, hl]
  · have hne : (id == s.id) = false := beq_false_of_ne (Ne.symm hs)
    cases best.lookup s.id with
    | none => simp [List.lookup_append, List.lookup_cons, hne]
    | some b =>
      dsimp only
      split_ifs
      · rfl
      · rw [lookup_replaced, if_neg (Ne.symm hs)]

theorem lookup_nil_consider (confidence : Reason) (best : Best) (s : Sighting) :
    (consider confidence best s).lookup [] = best.lookup [] := by
  unfold consider
  split_ifs with hnil
  · rfl
  · have hne : (([] : Str) == s.id) = false := beq_false_of_ne (Ne.symm hnil)
    cases best.lookup s.id with
    | none => simp [List.lookup_append, List.lookup_cons, hne]
    | some b =>
      dsimp only
      split_ifs
      · rfl
      · rw [lookup_replaced, if_neg (Ne.symm hnil)]

theorem lookup_nil_confirm (sources : List Source) : (confirm sources).lookup [] = none := by
  refine List.foldlRecOn (motive := fun best : Best => best.lookup [] = none) sources _ rfl
    fun best hbest source _ => ?_
  exact List.foldlRecOn (motive := fun best : Best => best.lookup [] = none) source.sightings _ hbest
    fun best hbest s _ => (lookup_nil_consider _ best s).trans hbest

theorem lookup_source {id : Str} (hid : id ≠ []) (confidence : Reason) (sightings : List Sighting)
    (best : Best) : (sightings.foldl (consider confidence) best).lookup id =
      if (best.lookup id).any (confidence.rank ≤ ·.2.rank) then best.lookup id
      else ((sightings.find? (·.id = id)).map (·, confidence)).or (best.lookup id) := by
  induction sightings generalizing best with
  | nil => simp
  | cons s sightings ih =>
    rw [List.foldl_cons, ih, lookup_consider hid, List.find?_cons]
    by_cases hs : s.id = id
    · rw [if_pos hs, decide_eq_true hs]
      cases hl : best.lookup id with
      | none => simp [better]
      | some b =>
        by_cases hr : confidence.rank ≤ b.2.rank <;> simp [better, hr]
    · rw [if_neg hs, decide_eq_false hs]

end McuUpdater.Discovery
