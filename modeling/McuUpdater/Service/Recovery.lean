import McuUpdater.Service.Control

/-! Crash recovery: which runs of one process keep every stopped unit in the journal. -/
namespace McuUpdater.Service
open Transition

abbrev Run := World × List Frame

def Run.step (s : Run) (a : Action) : Option Run := stepProc s.1 s.2 a

def Run.Fresh (s : Run) : Prop := s.2 = [] ∧ ∀ u, s.1.stopped u = false

/-- `reconcile` as one function, run where no call is in progress. -/
def reconcile (w : World) : World :=
  match w.journal.pending with
  | none => w
  | some services =>
      (services.reverse.foldl (fun w u => if w.active u then w else w.start u) w).clear

/-- The steps of a `reconcile` call carry out `reconcile`. -/
theorem run_checking (todo : List String) (w : World) :
    ∃ n, run Run.step (List.replicate n .advance) (w, [.checking todo]) =
      some ((todo.foldl (fun w u => if w.active u then w else w.start u) w).clear, []) := by
  induction todo generalizing w with
  | nil => exact ⟨2, rfl⟩
  | cons u todo ih =>
    by_cases hu : w.active u
    · obtain ⟨n, hn⟩ := ih w
      refine ⟨n + 1, ?_⟩
      simpa [List.replicate_succ, Run.step, stepProc, Frame.advance, hu] using hn
    · obtain ⟨n, hn⟩ := ih (w.start u)
      refine ⟨n + 2, ?_⟩
      simpa [List.replicate_succ, Run.step, stepProc, Frame.advance, hu] using hn

theorem run_reconcile (w : World) :
    ∃ n, run Run.step (.reconcile :: List.replicate n .advance) (w, []) =
      some (reconcile w, []) := by
  cases hp : w.journal.pending with
  | none =>
    refine ⟨1, ?_⟩
    simp [List.replicate_succ, Run.step, stepProc, canCall, Frame.advance, reconcile, hp]
  | some services =>
    obtain ⟨n, hn⟩ := run_checking services.reverse w
    refine ⟨n + 1, ?_⟩
    simpa [List.replicate_succ, Run.step, stepProc, canCall, Frame.advance, reconcile, hp]
      using hn

/-- The units that may still be stopped while this is the innermost call. -/
def Frame.outstanding (w : World) : Frame → List String
  | .scan .. | .record .. | .clearing | .forget => []
  | .stopping _ done todo => done ++ todo
  | .verifying done u todo => done ++ u :: todo
  | .body toStop => toStop
  | .restarting todo => todo
  | .load => w.journal.named
  | .checking todo => todo
  | .starting u todo => u :: todo

/-- The units a call is still going to stop. -/
def Frame.planned : Frame → List String
  | .stopping _ _ todo | .verifying _ _ todo => todo
  | _ => []

def Frame.isBody : Frame → Bool
  | .body _ => true
  | _ => false

/-- Calls below the innermost one wait in their bodies. Only the innermost one has
units to bring back, and the units it is going to stop are in the journal. -/
def Settled (w : World) : List Frame → Prop
  | [] => True
  | f :: rest => (∀ g ∈ rest, g.isBody) ∧ (∀ u, w.stopped u → u ∈ f.outstanding w) ∧
      ∀ u ∈ f.planned, u ∈ w.journal.named

structure Recoverable (s : Run) : Prop where
  down : ∀ u, s.1.stopped u → s.1.active u = false
  named : ∀ u, s.1.stopped u → u ∈ s.1.journal.named
  settled : Settled s.1 s.2

/-- No unit is waiting for the tool to start it. -/
def AllBack (w : World) : Prop := ∀ u, w.stopped u = false

/-- A block is entered only while no unit stopped by the tool is still down. -/
def entersAllBack (s : Run) : Action → Prop
  | .enter .. => AllBack s.1
  | _ => True

theorem Settled.nil_of_allBack {w : World} {rest : List Frame} (hr : ∀ g ∈ rest, g.isBody)
    (h : AllBack w) : Settled w rest := by
  cases rest with
  | nil => trivial
  | cons f rest =>
    have hf := hr f (by simp)
    refine ⟨fun g hg => hr g (List.mem_cons_of_mem _ hg), fun u hu => by simp [h u] at hu, ?_⟩
    cases f <;> simp [Frame.isBody, Frame.planned] at hf ⊢

theorem Recoverable.of_allBack {w : World} {rest : List Frame} (hr : ∀ g ∈ rest, g.isBody)
    (h : AllBack w) : Recoverable (w, rest) :=
  ⟨fun u hu => by simp [h u] at hu, fun u hu => by simp [h u] at hu, .nil_of_allBack hr h⟩

theorem Recoverable.move {w : World} {f g : Frame} {rest : List Frame}
    (h : Recoverable (w, f :: rest))
    (hsub : ∀ u, w.stopped u → u ∈ f.outstanding w → u ∈ g.outstanding w)
    (hplan : ∀ u ∈ g.planned, u ∈ f.planned := by simp [Frame.planned]) :
    Recoverable (w, g :: rest) :=
  ⟨h.down, h.named, h.settled.1, fun u hu => hsub u hu (h.settled.2.1 u hu),
    fun u hu => h.settled.2.2 u (hplan u hu)⟩

theorem Recoverable.stop {w : World} {f g : Frame} {rest : List Frame} {u : String}
    (h : Recoverable (w, f :: rest)) (hu : u ∈ f.planned)
    (hg : u ∈ g.outstanding (w.stop u))
    (hsub : ∀ v, v ∈ f.outstanding w → v ∈ g.outstanding (w.stop u))
    (hplan : ∀ v ∈ g.planned, v ∈ f.planned) :
    Recoverable (w.stop u, g :: rest) := by
  refine ⟨fun v hv => ?_, fun v hv => ?_, h.settled.1, fun v hv => ?_,
    fun v hv => h.settled.2.2 v (hplan v hv)⟩ <;>
    by_cases he : v = u
  · simp [World.stop, he]
  · rw [World.stop_stopped, if_neg he] at hv
    simpa [World.stop, Function.update_apply, he] using h.down v hv
  · rw [he]
    exact h.settled.2.2 u hu
  · rw [World.stop_stopped, if_neg he] at hv
    exact h.named v hv
  · rwa [he]
  · rw [World.stop_stopped, if_neg he] at hv
    exact hsub v (h.settled.2.1 v hv)

theorem Recoverable.start {w : World} {f g : Frame} {rest : List Frame} {u : String}
    (h : Recoverable (w, f :: rest))
    (hsub : ∀ v, v ≠ u → v ∈ f.outstanding w → v ∈ g.outstanding (w.start u))
    (hplan : ∀ v ∈ g.planned, v ∈ f.planned := by simp [Frame.planned]) :
    Recoverable (w.start u, g :: rest) := by
  have back : ∀ v, (w.start u).stopped v → v ≠ u ∧ w.stopped v := by
    intro v hv
    rw [World.start_stopped] at hv
    by_cases he : v = u
    · simp [he] at hv
    · exact ⟨he, by simpa [he] using hv⟩
  refine ⟨fun v hv => ?_, fun v hv => ?_, h.settled.1, fun v hv => ?_,
    fun v hv => h.settled.2.2 v (hplan v hv)⟩
  · obtain ⟨he, hv⟩ := back v hv
    simpa [World.start, Function.update_apply, he] using h.down v hv
  · exact h.named v (back v hv).2
  · obtain ⟨he, hv⟩ := back v hv
    exact hsub v he (h.settled.2.1 v hv)

theorem Recoverable.advance {w w' : World} {f : Frame} {f' : Option Frame} {rest : List Frame}
    (h : Recoverable (w, f :: rest)) (hs : f.advance w = some (w', f')) :
    Recoverable (w', f'.toList ++ rest) := by
  have hr := h.settled.1
  have all_back : (∀ u, u ∉ f.outstanding w) → AllBack w := fun hn u => by
    cases hu : w.stopped u with
    | false => rfl
    | true => exact absurd (h.settled.2.1 u hu) (hn u)
  cases f with
  | scan v todo toStop =>
    cases todo with
    | nil => cases hs; exact h.move fun u _ hu => by simp [Frame.outstanding] at hu
    | cons u todo => cases hs; exact h.move fun u _ hu => by simp [Frame.outstanding] at hu
  | record v toStop =>
    have hb : AllBack w := all_back (by simp [Frame.outstanding])
    cases toStop with
    | nil => cases hs; exact h.move fun u _ hu => by simp [Frame.outstanding] at hu
    | cons u us =>
      cases hs
      have hb' : AllBack (w.recordStop (u :: us)) := hb
      exact ⟨fun u hu => by simp [hb' u] at hu, fun u hu => by simp [hb' u] at hu, hr,
        fun u hu => by simp [hb' u] at hu, fun u hu => by simpa [Frame.planned] using hu⟩
  | stopping v done todo =>
    cases todo with
    | nil =>
      cases v <;> cases hs <;> exact h.move fun u _ hu => by simpa [Frame.outstanding] using hu
    | cons u todo =>
      cases v <;> cases hs <;>
        exact h.stop (by simp [Frame.planned]) (by simp [Frame.outstanding])
          (fun v hv => by simpa [Frame.outstanding] using hv)
          (fun v hv => by simp_all [Frame.planned])
  | verifying done u todo =>
    by_cases ha : w.active u
    · simp only [Frame.advance, ha, if_true] at hs
      cases hs
      exact h
    · simp only [Frame.advance, ha] at hs
      cases hs
      exact h.move fun v _ hv => by simpa [Frame.outstanding] using hv
  | body toStop => cases hs
  | restarting todo =>
    cases todo with
    | nil => cases hs; exact h.move fun u _ hu => by simp [Frame.outstanding] at hu
    | cons u todo =>
      cases hs
      exact h.start fun v hv hm => by simpa [Frame.outstanding, hv] using hm
  | clearing =>
    cases hs
    exact .of_allBack (w := w.clear) hr (all_back (by simp [Frame.outstanding]))
  | load =>
    cases hp : w.journal.pending with
    | none =>
      simp only [Frame.advance, hp] at hs
      cases hs
      exact .of_allBack hr (all_back (by simp [Frame.outstanding, JournalFile.named, hp]))
    | some services =>
      simp only [Frame.advance, hp] at hs
      cases hs
      exact h.move fun u _ hu => by simpa [Frame.outstanding, JournalFile.named, hp] using hu
  | checking todo =>
    cases todo with
    | nil => cases hs; exact h.move fun u _ hu => by simp [Frame.outstanding] at hu
    | cons u todo =>
      by_cases ha : w.active u
      · simp only [Frame.advance, ha, if_true] at hs
        cases hs
        -- an active unit is not one the tool still owes a start
        refine h.move fun v hv hm => ?_
        have hne : v ≠ u := by
          rintro rfl
          exact absurd (h.down v hv) (by simp [ha])
        simpa [Frame.outstanding, hne] using hm
      · simp only [Frame.advance, ha] at hs
        cases hs
        exact h.move fun v _ hm => hm
  | starting u todo =>
    cases hs
    exact h.start fun v hv hm => by simpa [Frame.outstanding, hv] using hm
  | forget =>
    cases hs
    exact .of_allBack (w := w.clear) hr (all_back (by simp [Frame.outstanding]))

theorem canCall_isBody {stack : List Frame} (h : canCall stack)
    (hr : ∀ f rest, stack = f :: rest → ∀ g ∈ rest, g.isBody) : ∀ g ∈ stack, g.isBody := by
  cases stack with
  | nil => simp
  | cons f rest =>
    intro g hg
    rcases List.mem_cons.mp hg with rfl | hg
    · cases g <;> simp [canCall, Frame.isBody] at h ⊢
    · exact hr f rest rfl g hg

theorem Settled.rest {w : World} {stack : List Frame} (h : Settled w stack) :
    ∀ f rest, stack = f :: rest → ∀ g ∈ rest, g.isBody := by
  rintro f rest rfl
  exact h.1

theorem Recoverable.step {s t : Run} {a : Action} (h : Recoverable s)
    (hg : entersAllBack s a) (hs : s.step a = some t) : Recoverable t := by
  obtain ⟨w, stack⟩ := s
  cases a with
  | enter v cs =>
    by_cases hc : canCall stack
    · simp only [Run.step, stepProc, hc, if_true, Option.some.injEq] at hs
      subst hs
      have hb : AllBack w := hg
      exact ⟨h.down, h.named, canCall_isBody hc h.settled.rest,
        fun u hu => by simp [hb u] at hu, by simp [Frame.planned]⟩
    · simp [Run.step, stepProc, hc] at hs
  | reconcile =>
    by_cases hc : canCall stack
    · simp only [Run.step, stepProc, hc, if_true, Option.some.injEq] at hs
      subst hs
      exact ⟨h.down, h.named, canCall_isBody hc h.settled.rest, h.named,
        by simp [Frame.planned]⟩
    · simp [Run.step, stepProc, hc] at hs
  | advance =>
    cases stack with
    | nil => cases hs
    | cons f rest =>
      obtain ⟨⟨w', f'⟩, hf, rfl⟩ := Option.map_eq_some_iff.mp hs
      exact h.advance hf
  | timeout =>
    cases stack with
    | nil => cases hs
    | cons f rest =>
      cases f with
      | verifying done u todo =>
        by_cases ha : w.active u
        · simp only [Run.step, stepProc, ha, if_true, Option.some.injEq] at hs
          subst hs
          exact h.move fun v _ hv => by
            simpa [Frame.outstanding, or_comm, or_assoc, or_left_comm] using hv
        · simp [Run.step, stepProc, ha] at hs
      | _ => cases hs
  | leave =>
    cases stack with
    | nil => cases hs
    | cons f rest =>
      cases f with
      | body toStop =>
        cases hs
        exact h.move fun v _ hv => by simpa [Frame.outstanding] using hv
      | _ => cases hs
  | crash =>
    cases hs
    exact ⟨h.down, h.named, trivial⟩

theorem Recoverable.of_reach {s : Run} (h : Reach Run.step entersAllBack Run.Fresh s) :
    Recoverable s := by
  refine h.invariant (fun s hs => ?_) fun s a t => Recoverable.step
  obtain ⟨w, stack⟩ := s
  obtain ⟨rfl, hb⟩ := hs
  exact .of_allBack (by simp) hb

/-- A `reconcile` asks to start every inactive unit the journal names. -/
theorem reconcile_starts {w : World} {u : String} (hd : ∀ v, w.stopped v → w.active v = false)
    (hu : u ∈ w.journal.named) : (reconcile w).stopped u = false := by
  have step : ∀ (todo : List String) (w : World), (∀ v, w.stopped v → w.active v = false) →
      u ∈ todo ∨ w.stopped u = false →
      (todo.foldl (fun w u => if w.active u then w else w.start u) w).stopped u = false := by
    intro todo
    induction todo with
    | nil => intro w _ h; simpa using h
    | cons v todo ih =>
      intro w hd h
      rw [List.foldl_cons]
      by_cases ha : w.active v
      · rw [if_pos ha]
        refine ih w hd ?_
        by_cases he : u = v
        · refine .inr (Bool.eq_false_iff.mpr fun hs => ?_)
          simp [he ▸ hd u hs] at ha
        · simpa [he] using h
      · rw [if_neg ha]
        refine ih _ (fun x hx => ?_) ?_
        · rw [World.start_stopped] at hx
          by_cases he : x = v
          · simp [he] at hx
          · simpa [World.start, Function.update_apply, he] using hd x (by simpa [he] using hx)
        · rw [World.start_stopped]
          by_cases he : u = v
          · simp [he]
          · simpa [he] using h
  cases hp : w.journal.pending with
  | none => simp [JournalFile.named, hp] at hu
  | some services =>
    simp only [reconcile, hp, World.clear_stopped]
    exact step _ _ hd (.inl (by simpa [JournalFile.named, hp] using hu))

/-- In every run of blocks, `reconcile` calls and crashes in which a block is entered
only with every unit back, the journal names each unit the tool has stopped and not
since asked to start, and a later `reconcile` asks to start it. -/
theorem journal_names_stopped {s : Run} (h : Reach Run.step entersAllBack Run.Fresh s)
    {u : String} (hu : s.1.stopped u) :
    u ∈ s.1.journal.named ∧ (reconcile s.1).stopped u = false := by
  have hi := Recoverable.of_reach h
  exact ⟨hi.named u hu, reconcile_starts hi.down (hi.named u hu)⟩

def idleHost : World := ⟨fun u => u == "klipper", .absent, fun _ => false⟩

theorem journal_names_stopped_klipper :
    ∃ s : Run, Reach Run.step entersAllBack Run.Fresh s ∧ s.1.stopped "klipper" ∧
      "klipper" ∈ s.1.journal.named ∧ (reconcile s.1).stopped "klipper" = false := by
  have h0 : Reach Run.step entersAllBack Run.Fresh (idleHost, []) := .start ⟨rfl, fun _ => rfl⟩
  have h1 := h0.next (a := Action.enter true ["klipper"]) (fun _ => rfl) rfl
  have h2 := h1.extend (l := List.replicate 4 Action.advance)
    (fun a ha _ => List.eq_of_mem_replicate ha ▸ trivial) rfl
  exact ⟨_, h2, by decide, journal_names_stopped h2 (by decide)⟩

/-- A block inside a block over the same unit finds nothing to stop, and its exit
clears the journal while the outer block still holds the unit down. -/
theorem nested_block_loses_klipper :
    ¬ ∀ s : Run, Reach Run.step anyStep Run.Fresh s →
      ∀ u, s.1.stopped u → u ∈ s.1.journal.named := by
  intro h
  have h0 : Reach Run.step anyStep Run.Fresh (idleHost, []) := .start ⟨rfl, fun _ => rfl⟩
  have hr := h0.extend (l := [Action.enter true ["klipper"]] ++ List.replicate 6 .advance ++
    [.enter true ["klipper"]] ++ List.replicate 4 .advance ++ [.leave, .advance, .advance])
    (fun _ _ _ => trivial) rfl
  exact absurd (h _ hr "klipper" (by decide)) (by decide)

end McuUpdater.Service
