import McuUpdater.Service.Control

/-! Several processes on one host: blocks under the exclusive lock, and `reconcile`
at the start of any of them. -/
namespace McuUpdater.Service
open Transition

/-- The world, each process's calls, and the holder of the exclusive file lock. -/
structure Host where
  world : World
  procs : Nat → List Frame
  lock : Option Nat

inductive HostAction
  | acquire
  | release
  | act (a : Action)

/-- Every command that enters a block does so inside `with exclusive(...)`. -/
def Host.permits (h : Host) (p : Nat) : Action → Bool
  | .enter .. => h.lock == some p
  | _ => true

/-- The kernel drops the lock of a process that dies. -/
def Host.lockAfter (h : Host) (p : Nat) : Action → Option Nat
  | .crash => if h.lock = some p then none else h.lock
  | _ => h.lock

def Host.step (h : Host) : Nat × HostAction → Option Host
  | (p, .acquire) =>
      if h.lock = none ∧ h.procs p = [] then some { h with lock := some p } else none
  | (p, .release) =>
      if h.lock = some p ∧ h.procs p = [] then some { h with lock := none } else none
  | (p, .act a) =>
      if h.permits p a then
        (stepProc h.world (h.procs p) a).map fun r =>
          ⟨r.1, Function.update h.procs p r.2, h.lockAfter p a⟩
      else none

def Host.Idle (h : Host) : Prop := (∀ p, h.procs p = []) ∧ h.lock = none

/-- The units a block has stopped and, before its own exit, holds down. -/
def Frame.held : Frame → List String
  | .stopping _ done _ => done
  | .verifying done u _ => done ++ [u]
  | .body toStop => toStop
  | _ => []

def Frame.live : Frame → Bool
  | .scan .. | .record .. | .stopping .. | .verifying .. | .body _ => true
  | _ => false

def Frame.inBlock : Frame → Bool
  | .restarting _ | .clearing => true
  | f => f.live

/-- A `reconcile` that found an entry. -/
def Frame.inReconcile : Frame → Bool
  | .checking _ | .starting .. | .forget => true
  | _ => false

def Frame.startsNext : Frame → Option String
  | .restarting (u :: _) | .starting u _ => some u
  | _ => none

def Host.starts (h : Host) : Nat × HostAction → Option String
  | (p, .act .advance) => (h.procs p).head?.bind Frame.startsNext
  | _ => none

/-- A step disturbs no other process's live block: it starts no unit that block has
stopped and leaves such a unit's journal entry in place. -/
def Undisturbed (h : Host) (a : Nat × HostAction) (h' : Host) : Prop :=
  ∀ q, q ≠ a.1 → ∀ f ∈ h.procs q, ∀ u ∈ f.held,
    h.starts a ≠ some u ∧ (u ∈ h.world.journal.named → u ∈ h'.world.journal.named)

/-- A `reconcile` takes up a pending entry only while no other process has a live
block, and a block is entered only while no other process is inside one that did. -/
def reconcilesAlone (h : Host) : Nat × HostAction → Prop
  | (p, .act .advance) => (h.procs p).head? = some .load → h.world.journal.pending ≠ none →
      ∀ q, q ≠ p → ∀ f ∈ h.procs q, f.live = false
  | (p, .act (.enter ..)) => ∀ q, q ≠ p → ∀ f ∈ h.procs q, f.inReconcile = false
  | _ => True

/-- Blocks run under the lock, and no live block runs beside another process's
`reconcile` that found an entry. -/
structure Apart (h : Host) : Prop where
  locked : ∀ p, ∀ f ∈ h.procs p, f.inBlock → h.lock = some p
  alone : ∀ p q, p ≠ q → ∀ f ∈ h.procs p, f.live → ∀ g ∈ h.procs q, g.inReconcile = false

@[simp] theorem Frame.inBlock_of_live {f : Frame} (h : f.live) : f.inBlock := by
  cases f <;> simp [Frame.live, Frame.inBlock] at h ⊢

theorem Frame.live_of_held {f : Frame} {u : String} (h : u ∈ f.held) : f.live := by
  cases f <;> simp [Frame.held, Frame.live] at h ⊢

/-- A call stays the kind of call it is; `load` becomes a `reconcile` under way when
there is an entry. -/
theorem Frame.advance_kind {w w' : World} {f g : Frame} (hs : f.advance w = some (w', some g)) :
    (g.inBlock → f.inBlock) ∧ (g.live → f.live) ∧
      (g.inReconcile → f.inReconcile ∨ f = .load ∧ w.journal.pending ≠ none) := by
  cases f with
  | scan v todo toStop => cases todo <;> cases hs <;> simp [inBlock, live, inReconcile]
  | record v toStop => cases toStop <;> cases hs <;> simp [inBlock, live, inReconcile]
  | stopping v done todo =>
    cases v <;> cases todo <;> cases hs <;> simp [inBlock, live, inReconcile]
  | verifying done u todo =>
    by_cases ha : w.active u <;> simp only [advance, ha] at hs <;> cases hs <;>
      simp [inBlock, live, inReconcile]
  | body toStop => cases hs
  | restarting todo => cases todo <;> cases hs <;> simp [inBlock, live, inReconcile]
  | clearing => cases hs
  | load =>
    cases hp : w.journal.pending <;> simp only [advance, hp] at hs <;> cases hs
    simp [inBlock, live]
  | checking todo =>
    cases todo with
    | nil => cases hs; simp [inBlock, live, inReconcile]
    | cons u todo =>
      by_cases ha : w.active u <;> simp only [advance, ha] at hs <;> cases hs <;>
        simp [inBlock, live, inReconcile]
  | starting u todo => cases hs; simp [inBlock, live, inReconcile]
  | forget => cases hs

/-- Only a block or a `reconcile` under way starts a unit or changes the journal. -/
theorem Frame.advance_quiet {w w' : World} {f : Frame} {g : Option Frame}
    (hs : f.advance w = some (w', g)) (hb : f.inBlock = false) (hr : f.inReconcile = false) :
    f.startsNext = none ∧ w'.journal = w.journal := by
  cases f with
  | load =>
    cases hp : w.journal.pending <;> simp only [advance, hp] at hs <;> cases hs <;>
      exact ⟨rfl, rfl⟩
  | _ => simp [inBlock, live, inReconcile] at hb hr

theorem stepProc_frames {w w' : World} {stack stack' : List Frame} {a : Action}
    (hs : stepProc w stack a = some (w', stack')) {g : Frame} (hg : g ∈ stack') :
    g ∈ stack ∨ (∃ f ∈ stack, (g.inBlock → f.inBlock) ∧ (g.live → f.live) ∧
      (g.inReconcile → f.inReconcile ∨
        a = .advance ∧ stack.head? = some .load ∧ w.journal.pending ≠ none)) ∨
      g = .load ∨ ∃ v cs, a = .enter v cs ∧ g = .scan v cs [] := by
  cases a with
  | enter v cs =>
    by_cases hc : canCall stack <;> simp only [stepProc, hc, if_true] at hs <;> cases hs
    rcases List.mem_cons.mp hg with rfl | hg
    · exact .inr (.inr (.inr ⟨v, cs, rfl, rfl⟩))
    · exact .inl hg
  | reconcile =>
    by_cases hc : canCall stack <;> simp only [stepProc, hc, if_true] at hs <;> cases hs
    rcases List.mem_cons.mp hg with rfl | hg
    · exact .inr (.inr (.inl rfl))
    · exact .inl hg
  | advance =>
    cases stack with
    | nil => cases hs
    | cons f rest =>
      obtain ⟨⟨v, f'⟩, hf, he⟩ := Option.map_eq_some_iff.mp hs
      cases he
      rcases List.mem_append.mp hg with hg | hg
      · obtain rfl : f' = some g := by simpa using hg
        obtain ⟨hb, hl, hr⟩ := Frame.advance_kind hf
        refine .inr (.inl ⟨f, by simp, hb, hl, fun h => (hr h).imp id fun hp => ?_⟩)
        exact ⟨rfl, by simp [hp.1], hp.2⟩
      · exact .inl (List.mem_cons_of_mem _ hg)
  | timeout =>
    cases stack with
    | nil => cases hs
    | cons f rest =>
      cases f with
      | verifying done u todo =>
        by_cases ha : w.active u <;> simp only [stepProc, ha, if_true] at hs <;> cases hs
        rcases List.mem_cons.mp hg with rfl | hg
        · exact .inr (.inl ⟨_, List.mem_cons_self, by
            simp [Frame.inBlock, Frame.live, Frame.inReconcile]⟩)
        · exact .inl (List.mem_cons_of_mem _ hg)
      | _ => cases hs
  | leave =>
    cases stack with
    | nil => cases hs
    | cons f rest =>
      cases f with
      | body toStop =>
        cases hs
        rcases List.mem_cons.mp hg with rfl | hg
        · exact .inr (.inl ⟨_, List.mem_cons_self, by
            simp [Frame.inBlock, Frame.live, Frame.inReconcile]⟩)
        · exact .inl (List.mem_cons_of_mem _ hg)
      | _ => cases hs
  | crash => cases hs; simp at hg

theorem Apart.of_idle {h : Host} (hi : h.Idle) : Apart h :=
  ⟨fun p f hf => by simp [hi.1 p] at hf, fun p _ _ f hf => by simp [hi.1 p] at hf⟩

theorem Apart.step {h h' : Host} {a : Nat × HostAction} (hi : Apart h)
    (hg : reconcilesAlone h a) (hs : h.step a = some h') : Apart h' := by
  obtain ⟨p, a⟩ := a
  cases a with
  | acquire =>
    by_cases hl : h.lock = none ∧ h.procs p = []
    · simp only [Host.step, hl, and_self, if_true, Option.some.injEq] at hs
      subst hs
      refine ⟨fun q f hf hb => ?_, hi.alone⟩
      simpa [hl.1] using hi.locked q f hf hb
    · simp [Host.step, hl] at hs
  | release =>
    by_cases hl : h.lock = some p ∧ h.procs p = []
    · simp only [Host.step, hl, and_self, if_true, Option.some.injEq] at hs
      subst hs
      refine ⟨fun q f hf hb => ?_, hi.alone⟩
      have hq : p = q := Option.some.inj (hl.1.symm.trans (hi.locked q f hf hb))
      simp [← hq, hl.2] at hf
    · simp [Host.step, hl] at hs
  | act a =>
    by_cases hp : h.permits p a
    · simp only [Host.step, hp, if_true] at hs
      obtain ⟨⟨w, stack⟩, hst, rfl⟩ := Option.map_eq_some_iff.mp hs
      have frames := fun g hg => stepProc_frames (g := g) hst hg
      -- a frame of `p` that is in a block comes from one that was, or from `enter`
      have block : ∀ g ∈ stack, g.inBlock → h.lock = some p := by
        intro g hgm hb
        rcases frames g hgm with ho | ⟨f, hf, hfb, -⟩ | rfl | ⟨v, cs, rfl, rfl⟩
        · exact hi.locked p g ho hb
        · exact hi.locked p f hf (hfb hb)
        · simp [Frame.inBlock, Frame.live] at hb
        · simpa [Host.permits] using hp
      have lock_after : stack ≠ [] → h.lockAfter p a = h.lock := by
        intro hne
        cases a with
        | crash => cases hst; simp at hne
        | _ => rfl
      have live : ∀ g ∈ stack, g.live → ∀ q, p ≠ q → ∀ k ∈ h.procs q, k.inReconcile = false := by
        intro g hgm hl q hpq k hk
        rcases frames g hgm with ho | ⟨f, hf, -, hfl, -⟩ | rfl | ⟨v, cs, rfl, rfl⟩
        · exact hi.alone p q hpq g ho hl k hk
        · exact hi.alone p q hpq f hf (hfl hl) k hk
        · simp [Frame.live] at hl
        · exact hg q hpq.symm k hk
      have loaded : ∀ g ∈ stack, g.inReconcile → ∀ q, q ≠ p → ∀ k ∈ h.procs q, k.live = false := by
        intro g hgm hr q hqp k hk
        by_contra hl
        have hl : k.live := by simpa using hl
        rcases frames g hgm with ho | ⟨f, hf, -, -, hfr⟩ | rfl | ⟨v, cs, rfl, rfl⟩
        · simp [hi.alone q p hqp k hk hl g ho] at hr
        · rcases hfr hr with hr | ⟨rfl, hload, hpend⟩
          · simp [hi.alone q p hqp k hk hl f hf] at hr
          · simp [hg hload hpend q hqp k hk] at hl
        · simp [Frame.inReconcile] at hr
        · simp [Frame.inReconcile] at hr
      refine ⟨fun q f hf hb => ?_, fun q r hqr f hf hl k hk => ?_⟩
      · by_cases hq : q = p
        · subst hq
          simp only [Function.update_self] at hf
          rw [lock_after (List.ne_nil_of_mem hf)]
          exact block f hf hb
        · simp only [Function.update_of_ne hq] at hf
          have hlk := hi.locked q f hf hb
          cases a <;> simp [Host.lockAfter, hlk, hq]
      · by_cases hq : q = p
        · subst hq
          simp only [Function.update_self] at hf
          simp only [Function.update_of_ne hqr.symm] at hk
          exact live f hf hl r hqr k hk
        · simp only [Function.update_of_ne hq] at hf
          by_cases hr : r = p
          · subst hr
            simp only [Function.update_self] at hk
            by_contra hkr
            simp [loaded k hk (by simpa using hkr) q hq f hf] at hl
          · simp only [Function.update_of_ne hr] at hk
            exact hi.alone q r hqr f hf hl k hk
    · simp [Host.step, hp] at hs

theorem Apart.of_reach {h : Host} (hr : Reach Host.step reconcilesAlone Host.Idle h) : Apart h :=
  hr.invariant (fun _ => Apart.of_idle) fun _ _ _ => Apart.step

theorem stepProc_quiet {w w' : World} {stack stack' : List Frame} {a : Action}
    (hs : stepProc w stack a = some (w', stack'))
    (hq : ∀ f, stack.head? = some f → f.inBlock = false ∧ f.inReconcile = false) :
    w'.journal = w.journal ∧ (a = .advance → stack.head?.bind Frame.startsNext = none) := by
  cases a with
  | advance =>
    cases stack with
    | nil => cases hs
    | cons f rest =>
      obtain ⟨⟨v, f'⟩, hf, he⟩ := Option.map_eq_some_iff.mp hs
      cases he
      obtain ⟨hn, hj⟩ := Frame.advance_quiet hf (hq f rfl).1 (hq f rfl).2
      exact ⟨hj, fun _ => by simpa using hn⟩
  | enter v cs =>
    by_cases hc : canCall stack <;> simp only [stepProc, hc, if_true] at hs <;> cases hs
    exact ⟨rfl, nofun⟩
  | reconcile =>
    by_cases hc : canCall stack <;> simp only [stepProc, hc, if_true] at hs <;> cases hs
    exact ⟨rfl, nofun⟩
  | timeout =>
    cases stack with
    | nil => cases hs
    | cons f rest =>
      cases f with
      | verifying done u todo =>
        by_cases ha : w.active u <;> simp only [stepProc, ha, if_true] at hs <;> cases hs
        exact ⟨rfl, nofun⟩
      | _ => cases hs
  | leave =>
    cases stack with
    | nil => cases hs
    | cons f rest =>
      cases f with
      | body toStop => cases hs; exact ⟨rfl, nofun⟩
      | _ => cases hs
  | crash => cases hs; exact ⟨rfl, nofun⟩

/-- In every run in which no `reconcile` with a pending entry runs beside another
process's live block, no process starts a unit that another's live block has
stopped, and none removes its journal entry. -/
theorem live_block_undisturbed {h h' : Host} {a : Nat × HostAction}
    (hr : Reach Host.step reconcilesAlone Host.Idle h) (hg : reconcilesAlone h a)
    (hs : h.step a = some h') : Undisturbed h a h' := by
  have hi := Apart.of_reach hr
  obtain ⟨p, a⟩ := a
  intro q hqp f hf u hu
  have hlive := Frame.live_of_held hu
  have hlock := hi.locked q f hf (Frame.inBlock_of_live hlive)
  cases a with
  | acquire =>
    by_cases hl : h.lock = none ∧ h.procs p = [] <;> simp only [Host.step, hl] at hs <;> cases hs
    exact ⟨nofun, id⟩
  | release =>
    by_cases hl : h.lock = some p ∧ h.procs p = [] <;> simp only [Host.step, hl] at hs <;> cases hs
    exact ⟨nofun, id⟩
  | act a =>
    by_cases hp : h.permits p a
    · simp only [Host.step, hp, if_true] at hs
      obtain ⟨⟨w, stack⟩, hst, rfl⟩ := Option.map_eq_some_iff.mp hs
      -- `q` holds the lock and has a live block, so `p` is in neither kind of call
      have hquiet : ∀ g, (h.procs p).head? = some g → g.inBlock = false ∧ g.inReconcile = false := by
        intro g hgh
        have hgm : g ∈ h.procs p := List.mem_of_mem_head? hgh
        refine ⟨Bool.eq_false_iff.mpr fun hb => ?_, hi.alone q p hqp f hf hlive g hgm⟩
        exact hqp (Option.some.inj (hlock.symm.trans (hi.locked p g hgm hb)))
      obtain ⟨hj, hst⟩ := stepProc_quiet hst hquiet
      refine ⟨?_, fun hn => by simpa [hj] using hn⟩
      cases a with
      | advance => simp [Host.starts, hst rfl]
      | _ => exact nofun
    · simp [Host.step, hp] at hs

/-- A process that is alone on the host never runs into the guard. -/
theorem reach_alone {p : Nat} {l : List HostAction} {h h' : Host}
    (hr : Reach Host.step reconcilesAlone Host.Idle h) (hi : ∀ q, q ≠ p → h.procs q = [])
    (hs : run Host.step (l.map (p, ·)) h = some h') :
    Reach Host.step reconcilesAlone Host.Idle h' := by
  induction l generalizing h with
  | nil =>
    obtain rfl : h = h' := by simpa using hs
    exact hr
  | cons a l ih =>
    obtain ⟨k, hk, hs⟩ := Option.bind_eq_some_iff.mp hs
    refine ih (hr.next (a := (p, a)) ?_ hk) (fun q hq => ?_) hs
    · cases a with
      | act a =>
        cases a with
        | advance => exact fun _ _ q hq f hf => by simp [hi q hq] at hf
        | enter v cs => exact fun q hq f hf => by simp [hi q hq] at hf
        | _ => trivial
      | _ => trivial
    · cases a with
      | act a =>
        by_cases hp : h.permits p a <;> simp only [Host.step, hp, if_true] at hk
        · obtain ⟨r, -, rfl⟩ := Option.map_eq_some_iff.mp hk
          simpa [Function.update_of_ne hq] using hi q hq
        · cases hk
      | acquire =>
        by_cases hl : h.lock = none ∧ h.procs p = [] <;> simp only [Host.step, hl] at hk <;> cases hk
        exact hi q hq
      | release =>
        by_cases hl : h.lock = some p ∧ h.procs p = [] <;> simp only [Host.step, hl] at hk <;>
          cases hk
        exact hi q hq

def quietHost : Host := ⟨⟨fun u => u == "klipper", .absent, fun _ => false⟩, fun _ => [], none⟩

/-- A process takes the lock and stops klipper for a flash. -/
def flashSteps : List HostAction :=
  [.acquire, .act (.enter true ["klipper"])] ++ List.replicate 6 (.act .advance)

theorem live_block_undisturbed_klipper :
    ∃ h h' : Host, (∃ f ∈ h.procs 0, "klipper" ∈ f.held) ∧
      h.step (1, .act .reconcile) = some h' ∧ Undisturbed h (1, .act .reconcile) h' := by
  have hr := reach_alone (p := 0) (l := flashSteps) (.start ⟨fun _ => rfl, rfl⟩ :
    Reach Host.step reconcilesAlone Host.Idle quietHost) (fun _ _ => rfl) rfl
  exact ⟨_, _, ⟨.body ["klipper"], by decide, by decide⟩, rfl,
    live_block_undisturbed hr trivial rfl⟩

/-- A second process's `reconcile` starts klipper during the flash. -/
theorem reconcile_restarts_live_block :
    ¬ ∀ h : Host, Reach Host.step anyStep Host.Idle h →
      ∀ a h', h.step a = some h' → Undisturbed h a h' := by
  intro hall
  have h0 : Reach Host.step anyStep Host.Idle quietHost := .start ⟨fun _ => rfl, rfl⟩
  have hr := h0.extend (l := flashSteps.map (0, ·) ++ [(1, .act .reconcile),
    (1, .act .advance), (1, .act .advance)]) (fun _ _ _ => trivial) rfl
  have hd := hall _ hr (1, .act .advance) _ rfl 0 (by decide) (.body ["klipper"]) (by decide)
    "klipper" (by decide)
  exact absurd hd.1 (by decide)

end McuUpdater.Service
