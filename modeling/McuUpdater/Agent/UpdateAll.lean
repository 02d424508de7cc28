import McuUpdater.Agent.AddMcu
import McuUpdater.Flashers.Restart

/-! `update_all` of `agent/methods/bulk.py`, over `select` of `providers/registry.py`: what is
stale is built, and then what is behind is flashed. What the providers, the builds and the boards
answer is given, each at its own time; the texts of the progress are left out. -/
namespace McuUpdater.UpdateAll
open PyText Flashers
open AddMcu (Activity Unbusy isIdle isIdle_iff)

structure BuildTarget where
  provider : Str
  name : Str
  fw : Str
  onDemand : Bool
  deriving DecidableEq

structure Provider where
  targets : List BuildTarget
  /-- the reason that a target cannot be built -/
  blocked : BuildTarget → Option Str
  isCurrent : BuildTarget → Bool

structure Selection where
  build : List BuildTarget := []
  skipped : List (BuildTarget × Str) := []

/-- What `select` is asked for. -/
structure Wanted where
  staleOnly : Bool
  only : Option Str
  fw : Option Str

def Wanted.admits (w : Wanted) (t : BuildTarget) : Bool :=
  w.only.all (t.name = ·) && w.fw.all (t.fw = ·) && !(w.fw.isNone && t.onDemand)

/-- One turn of the loop of `select`. -/
def Selection.consider (w : Wanted) (s : Selection) (x : Provider × BuildTarget) : Selection :=
  if !w.admits x.2 then s
  else
    match x.1.blocked x.2 with
    | some reason => { s with skipped := s.skipped ++ [(x.2, reason)] }
    | none =>
      if w.staleOnly && x.1.isCurrent x.2 then s else { s with build := s.build ++ [x.2] }

/-- `select` -/
def select (w : Wanted) (providers : List Provider) : Selection :=
  (providers.flatMap fun p => p.targets.map (p, ·)).foldl (Selection.consider w) {}

/-! ## The builds -/

structure BuildCalls where
  checkCancelled : Nat → Option Exc
  build : Nat → Option Exc

structure Builds where
  attempted : List BuildTarget := []
  built : List BuildTarget := []
  failures : List (BuildTarget × String) := []

/-- The loop of `_do_build_all` from its `k`th target on, with what leaves it. -/
def buildFrom (c : BuildCalls) : Nat → List BuildTarget → Builds → Builds × Option Exc
  | _, [], b => (b, none)
  | k, t :: ts, b =>
    match c.checkCancelled k with
    | some exc => (b, some exc)
    | none =>
      let b := { b with attempted := b.attempted ++ [t] }
      match c.build k with
      | none => buildFrom c (k + 1) ts { b with built := b.built ++ [t] }
      | some (.updater text) => buildFrom c (k + 1) ts { b with failures := b.failures ++ [(t, text)] }
      | some exc => (b, some exc)

/-! ## The request and its job -/

structure UpdateCall where
  enableFlashing : Bool
  allowFlashWhilePrinting : Bool
  scope : Option Str
  only : Option Str
  force : Bool
  known : List Str
  providers : List Provider
  /-- `_printer_activity` as the request comes -/
  before : Option Activity
  builds : BuildCalls
  /-- what there is to flash once the builds have ended, and what is refused -/
  selected : Builds → Except Exc (List FlashTarget × List Refusal)
  /-- `_printer_activity` then -/
  after : Option Activity
  dryRun : Bool
  writes : Calls

inductive UpdateError
  | disabled
  | badScope
  | unknownType
  | printing
  deriving DecidableEq

inductive Ended
  | raised (e : Exc)
  | printing
  | nothing
  | flashed (o : Outcome)

namespace UpdateCall
variable (c : UpdateCall)

/-- `_scope` -/
def scopeName : Str := (c.scope.filter (· ≠ [])).getD "stale".toList

def wanted : Wanted := { staleOnly := c.scopeName = "stale".toList, only := c.only, fw := none }

/-- `update_all`, up to the job it submits: the targets that are to be built. -/
def start : Except UpdateError (List BuildTarget) :=
  if !c.enableFlashing then .error .disabled
  else if c.scopeName ∉ ["stale".toList, "all".toList] then .error .badScope
  else if c.only.any (· ∉ c.known) then .error .unknownType
  else if isIdle c.force c.allowFlashWhilePrinting c.before then
    .ok (select c.wanted c.providers).build
  else .error .printing

/-- The job of `update_all`: the builds, and how it ends. -/
def run (targets : List BuildTarget) : Builds × Ended :=
  match buildFrom c.builds 0 targets {} with
  | (b, some exc) => (b, .raised exc)
  | (b, none) =>
    match c.selected b with
    | .error exc => (b, .raised exc)
    | .ok (devices, refused) =>
      if devices.isEmpty && refused.isEmpty then (b, .nothing)
      else if isIdle c.force c.allowFlashWhilePrinting c.after then
        (b, .flashed (writeAll c.writes c.dryRun devices refused))
      else (b, .printing)

end UpdateCall

/-- A build that the loop goes on after. -/
def goesOn : Option Exc → Bool
  | none | some (.updater _) => true
  | some _ => false

/-- The error of a build that failed and was gone on after. -/
def failureOf (c : BuildCalls) (x : BuildTarget × Nat) : Option (BuildTarget × String) :=
  match c.build x.2 with
  | some (.updater text) => some (x.1, text)
  | _ => none

/-- Nothing has left the loop before its `j`th target: no build was cancelled, and none failed by
what is not an error of the updater's own. -/
def UpdateCall.Goes (c : UpdateCall) (j : Nat) : Prop :=
  ∀ k < j, c.builds.checkCancelled k = none ∧ goesOn (c.builds.build k) = true

/-- What a fleet update builds and flashes, and when. -/
structure UpdateGuarded (c : UpdateCall) (targets : List BuildTarget) : Prop where
  /-- what is built is what can be built and is not known to be current -/
  wanted : ∀ t, t ∈ targets ↔ ∃ p ∈ c.providers, t ∈ p.targets ∧
    (∀ name, c.only = some name → t.name = name) ∧ t.onDemand = false ∧ p.blocked t = none ∧
    (c.scopeName = "all".toList ∨ p.isCurrent t = false)
  /-- and what is passed over for a reason is what cannot be -/
  skipped : ∀ t reason, (t, reason) ∈ (select c.wanted c.providers).skipped ↔
    ∃ p ∈ c.providers, t ∈ p.targets ∧ (∀ name, c.only = some name → t.name = name) ∧
      t.onDemand = false ∧ p.blocked t = some reason
  inOrder : (c.run targets).1.attempted <+: targets
  /-- a build that fails does not keep the later ones from being tried -/
  onward : ∀ j < targets.length, c.Goes j → c.builds.checkCancelled j = none →
    targets.take (j + 1) <+: (c.run targets).1.attempted
  checked : c.enableFlashing = true ∧ Unbusy c.force c.allowFlashWhilePrinting c.before
  /-- nothing is stopped or written before every build has ended and the printer was looked at
  again; and then it is -/
  gated : (∃ o, (c.run targets).2 = .flashed o) ↔ c.Goes targets.length ∧
    Unbusy c.force c.allowFlashWhilePrinting c.after ∧ ∃ devices refused,
      c.selected (c.run targets).1 = .ok (devices, refused) ∧ (devices ≠ [] ∨ refused ≠ [])
  /-- by then each target is built or has failed, as its own build came out -/
  accounted : c.Goes targets.length → (c.run targets).1.attempted = targets ∧
    (c.run targets).1.built =
      (targets.zipIdx.filter fun x => (c.builds.build x.2).isNone).map Prod.fst ∧
    (c.run targets).1.failures = targets.zipIdx.filterMap (failureOf c.builds)
  /-- what is flashed was selected after the builds; however it ends, what is stopped for it is
  started again -/
  restarted : ∀ o, (c.run targets).2 = .flashed o → ∃ devices refused,
    c.selected (c.run targets).1 = .ok (devices, refused) ∧
    o = writeAll c.writes c.dryRun devices refused ∧
    Restarted (devices.filter (needsServicesStopped · = some false))
      (devices.filter (needsServicesStopped · = some true)) o.last.events

section Facts
variable {w : Wanted} {t : BuildTarget} {c : BuildCalls}

theorem mem_consider (s : Selection) (p : Provider) (t : BuildTarget) :
    (∀ t', t' ∈ (s.consider w (p, t)).build ↔ t' ∈ s.build ∨ t' = t ∧ w.admits t = true ∧
      p.blocked t = none ∧ (w.staleOnly = false ∨ p.isCurrent t = false)) ∧
    ∀ x, x ∈ (s.consider w (p, t)).skipped ↔
      x ∈ s.skipped ∨ x.1 = t ∧ w.admits t = true ∧ p.blocked t = some x.2 := by
  unfold Selection.consider
  dsimp only
  cases hadmits : w.admits t with
  | false => simp
  | true =>
    cases hblocked : p.blocked t with
    | some reason =>
      refine ⟨by simp, fun x => ?_⟩
      simp only [Bool.not_true, Bool.false_eq_true, if_false, List.mem_append, List.mem_singleton]
      rw [Prod.ext_iff]
      simp [eq_comm]
    | none =>
      cases w.staleOnly <;> cases hcurrent : p.isCurrent t <;> simp

theorem exists_mem_cons {p : Provider} {t' : BuildTarget} {xs : List (Provider × BuildTarget)}
    {P : Provider → BuildTarget → Prop} : (∃ q, (q, t') ∈ (p, t) :: xs ∧ P q t') ↔
      t' = t ∧ P p t' ∨ ∃ q, (q, t') ∈ xs ∧ P q t' := by
  constructor
  · rintro ⟨q, hq, h⟩
    rcases List.mem_cons.mp hq with hq | hq
    · obtain ⟨rfl, rfl⟩ := Prod.mk.inj hq
      exact Or.inl ⟨rfl, h⟩
    · exact Or.inr ⟨q, hq, h⟩
  · rintro (⟨rfl, h⟩ | ⟨q, hq, h⟩)
    · exact ⟨p, List.mem_cons_self, h⟩
    · exact ⟨q, List.mem_cons_of_mem _ hq, h⟩

theorem mem_foldl_consider (xs : List (Provider × BuildTarget)) (s : Selection) :
    (∀ t, t ∈ (xs.foldl (Selection.consider w) s).build ↔ t ∈ s.build ∨ ∃ p, (p, t) ∈ xs ∧
      w.admits t = true ∧ p.blocked t = none ∧ (w.staleOnly = false ∨ p.isCurrent t = false)) ∧
    ∀ x, x ∈ (xs.foldl (Selection.consider w) s).skipped ↔ x ∈ s.skipped ∨
      ∃ p, (p, x.1) ∈ xs ∧ w.admits x.1 = true ∧ p.blocked x.1 = some x.2 := by
  induction xs generalizing s with
  | nil => simp
  | cons x xs ih =>
    obtain ⟨p, t⟩ := x
    obtain ⟨hbuild, hskipped⟩ := ih (s.consider w (p, t))
    obtain ⟨hone, hone'⟩ := @mem_consider w s p t
    refine ⟨fun t' => ?_, fun x => ?_⟩
    · rw [List.foldl_cons, hbuild, hone, or_assoc, exists_mem_cons (P := fun q t' => _ ∧ _ ∧ _)]
      refine or_congr_right (or_congr_left (and_congr_right ?_))
      rintro rfl
      rfl
    · rw [List.foldl_cons, hskipped, hone', or_assoc, exists_mem_cons (P := fun q t' => _ ∧ _)]
      refine or_congr_right (or_congr_left (and_congr_right ?_))
      rintro rfl
      rfl

theorem mem_pairs {providers : List Provider} {p : Provider} :
    (p, t) ∈ (providers.flatMap fun p => p.targets.map (p, ·)) ↔ p ∈ providers ∧ t ∈ p.targets := by
  simp only [List.mem_flatMap, List.mem_map, Prod.mk.injEq]
  refine ⟨?_, fun ⟨hp, ht⟩ => ⟨p, hp, t, ht, rfl, rfl⟩⟩
  rintro ⟨q, hq, u, hu, rfl, rfl⟩
  exact ⟨hq, hu⟩

theorem admits_iff (only : Option Str) (stale : Bool) :
    (Wanted.mk stale only none).admits t = true ↔
      (∀ name, only = some name → t.name = name) ∧ t.onDemand = false := by
  cases only <;> simp [Wanted.admits]

theorem buildFrom_goesOn {k : Nat} (ts : List BuildTarget) (b : Builds)
    (hcheck : c.checkCancelled k = none) (hgoes : goesOn (c.build k) = true) :
    buildFrom c k (t :: ts) b = buildFrom c (k + 1) ts
      { attempted := b.attempted ++ [t]
        built := b.built ++ ([(t, k)].filter fun x => (c.build x.2).isNone).map Prod.fst
        failures := b.failures ++ [(t, k)].filterMap (failureOf c) } := by
  rw [buildFrom, hcheck]
  cases hbuild : c.build k with
  | none => simp [hbuild, failureOf]
  | some exc =>
    cases exc with
    | updater text => simp [hbuild, failureOf]
    | cancelled => simp [goesOn, hbuild] at hgoes
    | other => simp [goesOn, hbuild] at hgoes

theorem buildFrom_leaves {k : Nat} (ts : List BuildTarget) (b : Builds)
    (hcheck : c.checkCancelled k = none) (hgoes : ¬goesOn (c.build k) = true) :
    ∃ exc, buildFrom c k (t :: ts) b = ({ b with attempted := b.attempted ++ [t] }, some exc) := by
  rw [buildFrom, hcheck]
  cases hbuild : c.build k with
  | none => simp [goesOn, hbuild] at hgoes
  | some exc =>
    cases exc with
    | updater text => simp [goesOn, hbuild] at hgoes
    | cancelled => exact ⟨_, rfl⟩
    | other => exact ⟨_, rfl⟩

theorem attempted_buildFrom (k : Nat) (ts : List BuildTarget) (b : Builds) :
    ∃ done, (buildFrom c k ts b).1.attempted = b.attempted ++ done ∧ done <+: ts := by
  induction ts generalizing k b with
  | nil => exact ⟨[], by simp [buildFrom], List.prefix_rfl⟩
  | cons t ts ih =>
    cases hcheck : c.checkCancelled k with
    | some exc => exact ⟨[], by simp [buildFrom, hcheck], List.nil_prefix⟩
    | none =>
      by_cases hgoes : goesOn (c.build k) = true
      · rw [buildFrom_goesOn ts b hcheck hgoes]
        obtain ⟨done, hdone, hprefix⟩ := ih (k + 1) _
        refine ⟨t :: done, ?_, List.cons_prefix_cons.mpr ⟨rfl, hprefix⟩⟩
        rw [hdone, List.append_assoc, List.singleton_append]
      · obtain ⟨exc, hexc⟩ := buildFrom_leaves ts b hcheck hgoes
        exact ⟨[t], by rw [hexc], by simp⟩

theorem take_attempted {k j : Nat} {ts : List BuildTarget} (b : Builds) (hj : j < ts.length)
    (hgoes : ∀ i, k ≤ i → i < k + j → c.checkCancelled i = none ∧ goesOn (c.build i) = true)
    (hcheck : c.checkCancelled (k + j) = none) :
    b.attempted ++ ts.take (j + 1) <+: (buildFrom c k ts b).1.attempted := by
  induction ts generalizing k j b with
  | nil => cases hj
  | cons t ts ih =>
    cases j with
    | zero =>
      rw [Nat.add_zero] at hcheck
      by_cases hk : goesOn (c.build k) = true
      · rw [buildFrom_goesOn ts b hcheck hk]
        obtain ⟨done, hdone, -⟩ := @attempted_buildFrom c (k + 1) ts
          { attempted := b.attempted ++ [t]
            built := b.built ++ ([(t, k)].filter fun x => (c.build x.2).isNone).map Prod.fst
            failures := b.failures ++ [(t, k)].filterMap (failureOf c) }
        exact ⟨done, by simp [hdone]⟩
      · obtain ⟨exc, hexc⟩ := @buildFrom_leaves t c k ts b hcheck hk
        exact ⟨[], by simp [hexc]⟩
    | succ j =>
      obtain ⟨hchecked, hk⟩ := hgoes k (Nat.le_refl k) (by omega)
      rw [buildFrom_goesOn ts b hchecked hk]
      have hrest := @ih (k + 1) j
        { attempted := b.attempted ++ [t]
          built := b.built ++ ([(t, k)].filter fun x => (c.build x.2).isNone).map Prod.fst
          failures := b.failures ++ [(t, k)].filterMap (failureOf c) }
        (Nat.lt_of_succ_lt_succ hj) (fun i hi hij => hgoes i (by omega) (by omega))
        (by rw [show k + 1 + j = k + (j + 1) by omega]; exact hcheck)
      simpa using hrest

theorem buildFrom_goes {k : Nat} {ts : List BuildTarget} (b : Builds)
    (h : ∀ i, k ≤ i → i < k + ts.length → c.checkCancelled i = none ∧ goesOn (c.build i) = true) :
    (buildFrom c k ts b).2 = none := by
  induction ts generalizing k b with
  | nil => rfl
  | cons t ts ih =>
    rw [List.length_cons] at h
    obtain ⟨hchecked, hk⟩ := h k (Nat.le_refl k) (by omega)
    rw [buildFrom_goesOn ts b hchecked hk]
    exact ih _ fun i hi hij => h i (by omega) (by omega)

/-- Where nothing leaves the loop, each target is built or has failed. -/
theorem buildFrom_ends (k : Nat) (ts : List BuildTarget) (b : Builds)
    (h : (buildFrom c k ts b).2 = none) :
    (buildFrom c k ts b).1.attempted = b.attempted ++ ts ∧
      (buildFrom c k ts b).1.built =
        b.built ++ ((ts.zipIdx k).filter fun x => (c.build x.2).isNone).map Prod.fst ∧
      (buildFrom c k ts b).1.failures = b.failures ++ (ts.zipIdx k).filterMap (failureOf c) ∧
      ∀ j, k ≤ j → j < k + ts.length → c.checkCancelled j = none ∧ goesOn (c.build j) = true := by
  induction ts generalizing k b with
  | nil =>
    refine ⟨by simp [buildFrom], by simp [buildFrom], by simp [buildFrom], fun j hk hj => ?_⟩
    rw [List.length_nil] at hj
    omega
  | cons t ts ih =>
    cases hcheck : c.checkCancelled k with
    | some exc => simp [buildFrom, hcheck] at h
    | none =>
      by_cases hgoes : goesOn (c.build k) = true
      · rw [buildFrom_goesOn ts b hcheck hgoes] at h ⊢
        obtain ⟨hall, hbuilt, hfailed, hrest⟩ := ih (k + 1) _ h
        rw [List.zipIdx_cons, ← List.singleton_append (l := (ts.zipIdx (k + 1))), List.filter_append,
          List.map_append, List.filterMap_append, hall, hbuilt, hfailed]
        refine ⟨by simp, List.append_assoc _ _ _, List.append_assoc _ _ _, fun j hk hj => ?_⟩
        rw [List.length_cons] at hj
        rcases Nat.eq_or_lt_of_le hk with rfl | hk
        · exact ⟨hcheck, hgoes⟩
        · exact hrest j hk (by omega)
      · obtain ⟨exc, hexc⟩ := buildFrom_leaves ts b hcheck hgoes
        rw [hexc] at h
        cases h

theorem start_ok {u : UpdateCall} {targets : List BuildTarget} (h : u.start = .ok targets) :
    u.enableFlashing = true ∧ (u.scopeName = "stale".toList ∨ u.scopeName = "all".toList) ∧
      Unbusy u.force u.allowFlashWhilePrinting u.before ∧
      targets = (select u.wanted u.providers).build := by
  unfold UpdateCall.start at h
  split_ifs at h with henabled hscope hknown hidle
  refine ⟨by simpa using henabled, ?_, isIdle_iff.mp hidle, (Except.ok.inj h).symm⟩
  rcases List.mem_cons.mp hscope with hscope | hscope
  · exact Or.inl hscope
  · exact Or.inr (List.mem_singleton.mp hscope)

theorem stale_iff {u : UpdateCall}
    (h : u.scopeName = "stale".toList ∨ u.scopeName = "all".toList) :
    u.wanted.staleOnly = false ↔ u.scopeName = "all".toList := by
  have hne : ¬("all".toList = "stale".toList) := by decide
  rcases h with h | h
  · simp [UpdateCall.wanted, h]
  · simp [UpdateCall.wanted, h]

theorem run_flashed {u : UpdateCall} {targets : List BuildTarget} {o : Outcome} :
    (u.run targets).2 = .flashed o ↔ (buildFrom u.builds 0 targets {}).2 = none ∧
      Unbusy u.force u.allowFlashWhilePrinting u.after ∧ ∃ devices refused,
        u.selected (u.run targets).1 = .ok (devices, refused) ∧ (devices ≠ [] ∨ refused ≠ []) ∧
        o = writeAll u.writes u.dryRun devices refused := by
  unfold UpdateCall.run
  rcases buildFrom u.builds 0 targets {} with ⟨b, exc⟩
  cases exc with
  | some exc => simp
  | none =>
    dsimp only
    cases hselected : u.selected b with
    | error exc => simp [hselected]
    | ok found =>
      obtain ⟨devices, refused⟩ := found
      have hsome : (devices.isEmpty && refused.isEmpty) = true ↔ ¬(devices ≠ [] ∨ refused ≠ []) := by
        simp
      rw [← isIdle_iff]
      dsimp only
      split_ifs with hnone hidle
      · have hempty := hsome.mp hnone
        simp only [hselected, Except.ok.injEq, Prod.mk.injEq]
        constructor
        · exact fun h => nomatch h
        · rintro ⟨-, -, _, _, ⟨rfl, rfl⟩, hne, -⟩
          exact absurd hne hempty
      · have hne : devices ≠ [] ∨ refused ≠ [] := not_not.mp (hsome.not.mp hnone)
        constructor
        · intro h
          cases h
          exact ⟨rfl, hidle, devices, refused, hselected, hne, rfl⟩
        · rintro ⟨-, -, devices', refused', heq, -, rfl⟩
          obtain ⟨rfl, rfl⟩ := Prod.mk.inj (Except.ok.inj (hselected.symm.trans heq))
          rfl
      · constructor
        · exact fun h => nomatch h
        · exact fun h => absurd h.2.1 hidle

theorem run_builds (u : UpdateCall) (targets : List BuildTarget) :
    (u.run targets).1 = (buildFrom u.builds 0 targets {}).1 := by
  unfold UpdateCall.run
  rcases buildFrom u.builds 0 targets {} with ⟨b, exc⟩
  cases exc with
  | some exc => rfl
  | none =>
    dsimp only
    split
    · rfl
    · split_ifs <;> rfl

end Facts

/-- Whatever the builds come to and the printer does meanwhile, a fleet update builds each target
that wants it in turn, and stops and writes only then, with every stop undone. -/
theorem update_all_guarded {c : UpdateCall} {targets : List BuildTarget} (h : c.start = .ok targets) :
    UpdateGuarded c targets where
  wanted t := by
    obtain ⟨-, hscope, -, rfl⟩ := start_ok h
    rw [select, (mem_foldl_consider _ _).1, ← stale_iff hscope]
    simp only [List.not_mem_nil, false_or, mem_pairs]
    refine exists_congr fun p => ?_
    rw [show c.wanted = Wanted.mk c.wanted.staleOnly c.only none from rfl, admits_iff]
    tauto
  skipped t reason := by
    rw [select, (mem_foldl_consider _ _).2]
    simp only [List.not_mem_nil, false_or, mem_pairs]
    refine exists_congr fun p => ?_
    rw [show c.wanted = Wanted.mk c.wanted.staleOnly c.only none from rfl, admits_iff]
    tauto
  inOrder := by
    obtain ⟨done, hdone, hprefix⟩ := @attempted_buildFrom c.builds 0 targets {}
    rw [run_builds, hdone]
    exact hprefix
  onward j hj hgoes hcheck := by
    rw [run_builds]
    have hprefix := @take_attempted c.builds 0 j targets {} hj (fun i _ hi => hgoes i (by omega))
      (by rwa [Nat.zero_add])
    simpa using hprefix
  checked := by
    obtain ⟨henabled, -, hbefore, -⟩ := start_ok h
    exact ⟨henabled, hbefore⟩
  gated := by
    have hends : (buildFrom c.builds 0 targets {}).2 = none ↔ c.Goes targets.length := by
      refine ⟨fun hends k hk => ?_, fun hgoes => buildFrom_goes {} fun i _ hi => hgoes i (by omega)⟩
      exact (buildFrom_ends 0 targets {} hends).2.2.2 k (Nat.zero_le k) (by omega)
    rw [← hends]
    constructor
    · rintro ⟨o, ho⟩
      obtain ⟨hnone, hafter, devices, refused, hselected, hne, -⟩ := run_flashed.mp ho
      exact ⟨hnone, hafter, devices, refused, hselected, hne⟩
    · rintro ⟨hnone, hafter, devices, refused, hselected, hne⟩
      exact ⟨_, run_flashed.mpr ⟨hnone, hafter, devices, refused, hselected, hne, rfl⟩⟩
  accounted hgoes := by
    have hends := @buildFrom_goes c.builds 0 targets {} fun i _ hi => hgoes i (by omega)
    obtain ⟨hall, hbuilt, hfailed, -⟩ := buildFrom_ends 0 targets {} hends
    rw [run_builds, hall, hbuilt, hfailed]
    exact ⟨rfl, rfl, rfl⟩
  restarted o ho := by
    obtain ⟨-, -, devices, refused, hselected, -, rfl⟩ := run_flashed.mp ho
    exact ⟨devices, refused, hselected, rfl, writeAll_restarted _ _ _ _⟩

def ebb : BuildTarget := ⟨"kconfig_make".toList, "ebb".toList, "klipper".toList, false⟩

/-- Two types to build, of which the first fails, and boards of both, one over a running Klipper. -/
def twoTypes : UpdateCall where
  enableFlashing := true
  allowFlashWhilePrinting := false
  scope := none
  only := none
  force := false
  known := []
  providers := [⟨[ebb, { ebb with name := "mcu".toList }, { ebb with fw := "katapult".toList, onDemand := true }],
    fun _ => none, fun _ => false⟩]
  before := some ⟨some "standby".toList, some "Idle".toList⟩
  builds := ⟨fun _ => none, fun k => if k = 0 then some (.updater "make failed") else none⟩
  selected _ := .ok ([⟨"flashtool", "ebb", "a", ["klipper"], none⟩, ⟨"dfu_util", "mcu", "b", [], none⟩], [])
  after := some ⟨some "standby".toList, some "Idle".toList⟩
  dryRun := false
  writes := secondFails

theorem update_all_guarded_two_types : ∃ o,
    twoTypes.start = .ok [ebb, { ebb with name := "mcu".toList }] ∧
    (twoTypes.run [ebb, { ebb with name := "mcu".toList }]).2 = .flashed o ∧
    UpdateGuarded twoTypes [ebb, { ebb with name := "mcu".toList }] :=
  ⟨_, rfl, rfl, update_all_guarded rfl⟩

end McuUpdater.UpdateAll
