import McuUpdater.Agent.Kconfig
import McuUpdater.Lib.Dict
import McuUpdater.Lib.Numbers
import Mathlib.Data.List.Perm.Subperm

/-! `providers/kconfig.py`: `SessionStore`, which has the open configurations by their ids. An
`open` is one step under its lock; the work on a session goes on beside it. -/
namespace McuUpdater.Agent
open PyText Dict Numbers

variable {φ κ ε : Type}

/-- What raises in `KconfigSession.__init__`, at each of the calls that can. -/
structure Faults (ε : Type) where
  resolve : Option ε := none
  load : Option ε := none
  parse : Option ε := none
  /-- `seed_defaults`, called where there is no saved `.config` -/
  seed : Option ε := none

/-- `KconfigSession(…)` -/
def constructSession (k : Trees φ κ) (faults : Faults ε) (target : Target) (now : Nat)
    (saved : Option φ) : Except ε (KconfigSession φ κ) :=
  match faults.resolve, faults.load, faults.parse, if saved.isNone then faults.seed else none with
  | some e, _, _, _ | none, some e, _, _ | none, none, some e, _ | none, none, none, some e => .error e
  | none, none, none, none => .ok (parsed k target now saved)

abbrev Stored (φ κ : Type) := Str × KconfigSession φ κ

/-- The last field is history: every id that was given out. -/
structure SessionStore (φ κ : Type) where
  sessions : List (Stored φ κ) := []
  next : Nat := 1
  had : List Str := []

/-- `session.age > TTL` -/
def expired (now : Nat) (session : KconfigSession φ κ) : Bool := sessionTtl < now - session.touched

/-- The order of `sorted(…, key=lambda s: (s.dirty, s.touched))`. -/
def evictedFirst (a b : Stored φ κ) : Bool := !evictedBefore b.2 a.2

def sessionId (n : Nat) : Str := "kc-".toList ++ Nat.toDigits 10 n

namespace SessionStore
variable (s : SessionStore φ κ)

/-- `_reap` -/
def reap (now : Nat) : SessionStore φ κ :=
  { s with sessions := s.sessions.filter fun e => !expired now e.2 }

/-- `candidates[0]` is dropped where the store is full. -/
def evict : SessionStore φ κ :=
  if sessionMax ≤ s.sessions.length then
    match s.sessions.mergeSort evictedFirst with
    | [] => s
    | candidate :: _ => { s with sessions := s.sessions.filter (·.1 ≠ candidate.1) }
  else s

/-- `open`: the session or what its constructor raised, and the store after it. -/
def openSession (k : Trees φ κ) (faults : Faults ε) (target : Target) (now : Nat)
    (saved : Option φ) : Except ε (Stored φ κ) × SessionStore φ κ :=
  let s := (s.reap now).evict
  let sid := sessionId s.next
  let s := { s with next := s.next + 1 }
  match constructSession k faults target now saved with
  | .error e => (.error e, s)
  | .ok session =>
    (.ok (sid, session),
      { s with sessions := dictPut Prod.fst s.sessions (sid, session), had := s.had ++ [sid] })

/-- `close` -/
def close (sid : Str) : SessionStore φ κ := { s with sessions := s.sessions.filter (·.1 ≠ sid) }

/-- What a request does to the session it has, which the store may still have. -/
def work (sid : Str) (f : KconfigSession φ κ → KconfigSession φ κ) : SessionStore φ κ :=
  { s with sessions := s.sessions.map fun e => if e.1 = sid then (e.1, f e.2) else e }

end SessionStore

/-- What happens to a store: `get` reaps, `dirty_for` only reads. -/
inductive StoreAction (φ κ ε : Type)
  | openSession (faults : Faults ε) (target : Target) (now : Nat) (saved : Option φ)
  | get (now : Nat)
  | close (sid : Str)
  | work (sid : Str) (f : KconfigSession φ κ → KconfigSession φ κ)

def SessionStore.step (k : Trees φ κ) (s : SessionStore φ κ) :
    StoreAction φ κ ε → SessionStore φ κ
  | .openSession faults target now saved => (s.openSession k faults target now saved).2
  | .get now => s.reap now
  | .close sid => s.close sid
  | .work sid f => s.work sid f

def SessionStore.run (k : Trees φ κ) (actions : List (StoreAction φ κ ε)) : SessionStore φ κ :=
  actions.foldl (SessionStore.step k) {}

/-- The ids are apart, each of them was given out once, and the store is not over its maximum. -/
structure SessionStore.Sound (s : SessionStore φ κ) : Prop where
  nodup : (s.sessions.map Prod.fst).Nodup
  known : ∀ e ∈ s.sessions, e.1 ∈ s.had
  given : ∀ sid ∈ s.had, ∃ n < s.next, sid = sessionId n
  bounded : s.sessions.length ≤ sessionMax

section Facts
variable {k : Trees φ κ} {faults : Faults ε} {target : Target} {now : Nat} {saved : Option φ}
  {s : SessionStore φ κ} {e : Stored φ κ}

theorem sessionId_injective : Function.Injective sessionId := by
  intro m n h
  exact toDigits_injective (List.append_cancel_left h)

theorem evictedFirst_total (a b : Stored φ κ) : (evictedFirst a b || evictedFirst b a) = true := by
  unfold evictedFirst evictedBefore
  cases a.2.dirty <;> cases b.2.dirty <;> simp [Nat.le_total]

theorem evictedFirst_trans (a b c : Stored φ κ) (hab : evictedFirst a b = true)
    (hbc : evictedFirst b c = true) : evictedFirst a c = true := by
  unfold evictedFirst evictedBefore at *
  revert hab hbc
  cases a.2.dirty <;> cases b.2.dirty <;> cases c.2.dirty <;> simp
  all_goals omega

theorem evict_spec (s : SessionStore φ κ) :
    (s.sessions.length < sessionMax ∧ s.evict = s) ∨
    (sessionMax ≤ s.sessions.length ∧ ∃ victim ∈ s.sessions,
      s.evict = s.close victim.1 ∧ ∀ e ∈ s.sessions, evictedFirst victim e = true) := by
  rw [SessionStore.evict]
  split_ifs with hfull
  · refine .inr ⟨hfull, ?_⟩
    have hsorted := List.pairwise_mergeSort evictedFirst_trans evictedFirst_total s.sessions
    cases hmerge : s.sessions.mergeSort evictedFirst with
    | nil =>
      have hlen : (s.sessions.mergeSort evictedFirst).length = s.sessions.length :=
        List.length_mergeSort _
      rw [hmerge, List.length_nil] at hlen
      rw [← hlen] at hfull
      exact absurd hfull (by decide)
    | cons victim rest =>
      have hmem : ∀ e, e ∈ s.sessions ↔ e = victim ∨ e ∈ rest := by
        intro e
        have he : e ∈ s.sessions.mergeSort evictedFirst ↔ e ∈ s.sessions := List.mem_mergeSort
        rw [← he, hmerge, List.mem_cons]
      rw [hmerge] at hsorted
      refine ⟨victim, (hmem victim).mpr (.inl rfl), rfl, fun e he => ?_⟩
      rcases (hmem e).mp he with rfl | hrest
      · simpa using evictedFirst_total e e
      · exact List.rel_of_pairwise_cons hsorted hrest
  · exact .inl ⟨Nat.lt_of_not_le hfull, rfl⟩

theorem evict_sublist (s : SessionStore φ κ) : s.evict.sessions.Sublist s.sessions ∧
    s.evict.next = s.next ∧ s.evict.had = s.had := by
  rcases evict_spec s with ⟨-, h⟩ | ⟨-, victim, -, h, -⟩
  · rw [h]
    exact ⟨.refl _, rfl, rfl⟩
  · rw [h]
    exact ⟨List.filter_sublist, rfl, rfl⟩

theorem SessionStore.Sound.of_sublist (h : s.Sound) {t : SessionStore φ κ} (hsub : t.sessions.Sublist s.sessions)
    (hnext : s.next ≤ t.next) (hhad : t.had = s.had) : t.Sound where
  nodup := h.nodup.sublist (hsub.map _)
  known e he := hhad ▸ h.known e (hsub.subset he)
  given sid hsid := by
    obtain ⟨n, hn, he⟩ := h.given sid (hhad ▸ hsid)
    exact ⟨n, hn.trans_le hnext, he⟩
  bounded := hsub.length_le.trans h.bounded

theorem length_evict (h : s.Sound) : s.evict.sessions.length < sessionMax := by
  rcases evict_spec s with ⟨hroom, he⟩ | ⟨-, victim, hvictim, he, -⟩
  · rwa [he]
  · rw [he]
    have hlt : (s.sessions.filter (·.1 ≠ victim.1)).length < s.sessions.length :=
      List.length_filter_lt_length_iff_exists.mpr ⟨victim, hvictim, by simp⟩
    exact hlt.trans_le h.bounded

theorem reap_sublist (s : SessionStore φ κ) (now : Nat) :
    (s.reap now).sessions.Sublist s.sessions := List.filter_sublist

theorem SessionStore.Sound.reap (h : s.Sound) (now : Nat) : (s.reap now).Sound :=
  SessionStore.Sound.of_sublist h (reap_sublist s now) (Nat.le_refl _) rfl

theorem SessionStore.Sound.evict (h : s.Sound) : s.evict.Sound := by
  obtain ⟨hsub, hnext, hhad⟩ := evict_sublist s
  exact SessionStore.Sound.of_sublist h hsub hnext.ge hhad

theorem SessionStore.Sound.fresh (h : s.Sound) : sessionId s.next ∉ s.had := by
  intro hmem
  obtain ⟨n, hn, he⟩ := h.given _ hmem
  have hsame := sessionId_injective he
  omega

theorem SessionStore.Sound.work (h : s.Sound) (sid : Str) (f : KconfigSession φ κ → KconfigSession φ κ) :
    (s.work sid f).Sound := by
  have hkeys : ∀ e : Stored φ κ, (if e.1 = sid then (e.1, f e.2) else e).1 = e.1 := by
    intro e
    split_ifs <;> rfl
  refine ⟨?_, ?_, h.given, ?_⟩
  · have hmap : (s.work sid f).sessions.map Prod.fst = s.sessions.map Prod.fst := by
      rw [SessionStore.work, List.map_map]
      exact List.map_congr_left fun e _ => hkeys e
    rw [hmap]
    exact h.nodup
  · intro e he
    obtain ⟨old, hold, rfl⟩ := List.mem_map.mp he
    rw [hkeys]
    exact h.known old hold
  · rw [SessionStore.work, List.length_map]
    exact h.bounded

theorem openSession_cases (k : Trees φ κ) (faults : Faults ε) (target : Target) (now : Nat)
    (saved : Option φ) (h : s.Sound) :
    (∃ e, constructSession k faults target now saved = .error e ∧
      s.openSession k faults target now saved =
        (.error e, { (s.reap now).evict with next := s.next + 1 })) ∨
    ∃ session, constructSession k faults target now saved = .ok session ∧
      s.openSession k faults target now saved = (.ok (sessionId s.next, session),
        ⟨(s.reap now).evict.sessions ++ [(sessionId s.next, session)], s.next + 1,
          s.had ++ [sessionId s.next]⟩) := by
  obtain ⟨hsub, hnext, hhad⟩ := evict_sublist (s.reap now)
  have hnext : (s.reap now).evict.next = s.next := hnext
  have hhad : (s.reap now).evict.had = s.had := hhad
  rw [SessionStore.openSession]
  cases hmade : constructSession k faults target now saved with
  | error e => exact .inl ⟨e, rfl, by simp [hnext]⟩
  | ok session =>
    have hnew : sessionId s.next ∉ (s.reap now).evict.sessions.map Prod.fst := by
      intro hmem
      obtain ⟨e, he, hid⟩ := List.mem_map.mp hmem
      have hknown := (h.reap now).evict.known e he
      rw [hhad, hid] at hknown
      exact h.fresh hknown
    refine .inr ⟨session, rfl, ?_⟩
    simp only [hnext, hhad]
    rw [dictPut_of_notMem hnew]

theorem SessionStore.Sound.openSession (h : s.Sound) :
    (s.openSession k faults target now saved).2.Sound := by
  have hevict := (h.reap now).evict
  have hhad : (s.reap now).evict.had = s.had := (evict_sublist _).2.2
  have hnext : (s.reap now).evict.next = s.next := (evict_sublist _).2.1
  rcases openSession_cases k faults target now saved h with ⟨e, -, hopen⟩ | ⟨session, -, hopen⟩
  · rw [hopen]
    exact SessionStore.Sound.of_sublist hevict (.refl _) (by simp [hnext]) rfl
  · rw [hopen]
    refine ⟨?_, fun e he => ?_, fun sid hsid => ?_, ?_⟩
    · rw [List.map_append, List.nodup_append']
      refine ⟨hevict.nodup, by simp, ?_⟩
      intro sid hsid hnew
      obtain ⟨e, he, rfl⟩ := List.mem_map.mp hsid
      have hk := hevict.known e he
      rw [hhad] at hk
      simp only [List.map_cons, List.map_nil, List.mem_singleton] at hnew
      exact h.fresh (hnew ▸ hk)
    · rcases List.mem_append.mp he with hold | hlast
      · exact List.mem_append_left _ (hhad ▸ hevict.known e hold)
      · rw [List.mem_singleton.mp hlast]
        exact List.mem_append_right _ (List.mem_singleton.mpr rfl)
    · rcases List.mem_append.mp hsid with hold | hlast
      · obtain ⟨n, hn, he⟩ := h.given sid hold
        exact ⟨n, hn.trans (Nat.lt_succ_self _), he⟩
      · exact ⟨s.next, Nat.lt_succ_self _, List.mem_singleton.mp hlast⟩
    · have hlt := length_evict (h.reap now)
      change ((s.reap now).evict.sessions ++ [_]).length ≤ sessionMax
      rw [List.length_append, List.length_singleton]
      omega

theorem sound_run (k : Trees φ κ) (actions : List (StoreAction φ κ ε)) :
    (SessionStore.run k actions).Sound := by
  induction actions using List.reverseRecOn with
  | nil => exact ⟨.nil, by simp [SessionStore.run], by simp [SessionStore.run], Nat.zero_le _⟩
  | append_singleton actions action ih =>
    rw [SessionStore.run, List.foldl_append]
    cases action with
    | openSession faults target now saved => exact ih.openSession
    | get now => exact ih.reap now
    | close sid => exact SessionStore.Sound.of_sublist ih List.filter_sublist (Nat.le_refl _) rfl
    | work sid f => exact ih.work sid f

end Facts

/-- A call of `open` loses no unexpired session where it makes none, and where it makes one only
what has to go. -/
def SessionStore.OpensCheaply (s : SessionStore φ κ) (k : Trees φ κ) (faults : Faults ε)
    (target : Target) (now : Nat) (saved : Option φ) : Prop :=
  let unexpired := (s.reap now).sessions
  let after := (s.openSession k faults target now saved).2.sessions
  match (s.openSession k faults target now saved).1 with
  | .error _ => ∀ e ∈ unexpired, e ∈ after
  | .ok new => after.length ≤ sessionMax ∧ new ∈ after ∧ new.1 ∉ s.had ∧
      (unexpired.filter (·.1 ∉ after.map Prod.fst)).length ≤ 1 ∧
      (∀ e ∈ unexpired, e.1 ∈ after.map Prod.fst → e ∈ after) ∧
      ∀ e ∈ unexpired, e.1 ∉ after.map Prod.fst → e.2.dirty = true →
        ∀ other ∈ unexpired, other.2.dirty = true

section Opening
variable {k : Trees φ κ} {faults : Faults ε} {target : Target} {now : Nat} {saved : Option φ}
  {s : SessionStore φ κ}

theorem length_le_one {l : List (Stored φ κ)} (h : (l.map Prod.fst).Nodup) {sid : Str}
    (hall : ∀ e ∈ l, e.1 = sid) : l.length ≤ 1 := by
  have hsub : l.map Prod.fst ⊆ [sid] := by
    intro id hid
    obtain ⟨e, he, rfl⟩ := List.mem_map.mp hid
    exact List.mem_singleton.mpr (hall e he)
  have hle := (List.Nodup.subperm h hsub).length_le
  rwa [List.length_map] at hle

theorem evicted_first (h : s.Sound) {e : Stored φ κ} (he : e ∈ s.sessions)
    (hout : e ∉ s.evict.sessions) :
    s.evict = s.close e.1 ∧ ∀ other ∈ s.sessions, evictedFirst e other = true := by
  rcases evict_spec s with ⟨-, hsame⟩ | ⟨-, victim, hvictim, hclose, hfirst⟩
  · rw [hsame] at hout
    exact absurd he hout
  · have hid : e.1 = victim.1 := by
      by_contra hne
      refine hout ?_
      rw [hclose]
      exact List.mem_filter.mpr ⟨he, by simpa using hne⟩
    rw [List.inj_on_of_nodup_map h.nodup he hvictim hid]
    exact ⟨hclose, hfirst⟩

theorem mem_evict (h : s.Sound) {e : Stored φ κ} (he : e ∈ s.sessions)
    (hid : e.1 ∈ s.evict.sessions.map Prod.fst) : e ∈ s.evict.sessions := by
  obtain ⟨same, hsame, hid⟩ := List.mem_map.mp hid
  have hsub := (evict_sublist s).1.subset hsame
  rwa [← List.inj_on_of_nodup_map h.nodup hsub he hid]

theorem length_evicted (h : s.Sound) {lost : List (Stored φ κ)} (hsub : lost.Sublist s.sessions)
    (hlost : ∀ e ∈ lost, e ∉ s.evict.sessions) : lost.length ≤ 1 := by
  cases lost with
  | nil => exact Nat.zero_le 1
  | cons e rest =>
    have hclose := (evicted_first h (hsub.subset List.mem_cons_self) (hlost e List.mem_cons_self)).1
    refine @length_le_one _ _ _ (h.nodup.sublist (hsub.map _)) e.1 fun other hother => ?_
    have hout := hlost other hother
    rw [hclose] at hout
    by_contra hne
    exact hout (List.mem_filter.mpr ⟨hsub.subset hother, by simpa using hne⟩)

theorem opensCheaply_of_made (h : s.Sound) {session : KconfigSession φ κ}
    (hmade : s.openSession k faults target now saved = (.ok (sessionId s.next, session),
      ⟨(s.reap now).evict.sessions ++ [(sessionId s.next, session)], s.next + 1,
        s.had ++ [sessionId s.next]⟩)) : s.OpensCheaply k faults target now saved := by
  have hreap := h.reap now
  have hlength := length_evict hreap
  have hkept : ∀ e ∈ (s.reap now).sessions, e.1 ∈ ((s.reap now).evict.sessions ++
      [(sessionId s.next, session)]).map Prod.fst → e ∈ (s.reap now).evict.sessions := by
    intro e he hmem
    rw [List.map_append, List.mem_append] at hmem
    refine mem_evict hreap he (hmem.resolve_right fun hnew => h.fresh ?_)
    have hid : e.1 = sessionId s.next := List.mem_singleton.mp hnew
    rw [← hid]
    exact hreap.known e he
  have hlost : ∀ e : Stored φ κ, e.1 ∉ ((s.reap now).evict.sessions ++
      [(sessionId s.next, session)]).map Prod.fst → e ∉ (s.reap now).evict.sessions := by
    intro e hout hin
    exact hout (List.mem_map_of_mem (List.mem_append_left _ hin))
  rw [SessionStore.OpensCheaply, hmade]
  refine ⟨?_, by simp, h.fresh, ?_, fun e he hin => ?_, fun e he hout hdirty other hother => ?_⟩
  · rw [List.length_append, List.length_singleton]
    omega
  · refine length_evicted hreap List.filter_sublist fun e he => ?_
    exact hlost e (of_decide_eq_true (List.mem_filter.mp he).2)
  · exact List.mem_append_left _ (hkept e he hin)
  · -- were another one clean, it would have gone first
    have hbefore := (evicted_first hreap he (hlost e hout)).2 other hother
    by_contra hclean
    simp [evictedFirst, evictedBefore, hdirty, hclean] at hbefore

end Opening

/-- In whatever state the store is, a call of `open` loses nothing needlessly unless the constructor
raises when the store is full of unexpired sessions. -/
theorem open_session_cheap_iff (k : Trees φ κ) (actions : List (StoreAction φ κ ε))
    (faults : Faults ε) (target : Target) (now : Nat) (saved : Option φ) :
    (SessionStore.run k actions).OpensCheaply k faults target now saved ↔
      (∀ e, constructSession k faults target now saved ≠ .error e) ∨
        ((SessionStore.run k actions).reap now).sessions.length < sessionMax := by
  have h := sound_run k actions
  generalize SessionStore.run k actions = s at h
  rcases openSession_cases k faults target now saved h with ⟨e, hraised, hopen⟩ | ⟨session, hok, hmade⟩
  · rw [SessionStore.OpensCheaply, hopen]
    rcases evict_spec (s.reap now) with ⟨hroom, hsame⟩ | ⟨hfull, victim, hvictim, hclose, -⟩
    · refine iff_of_true (fun e he => ?_) (.inr hroom)
      rw [hsame]
      exact he
    · refine iff_of_false (fun hkept => ?_) fun hor => ?_
      · have hin := hkept victim hvictim
        rw [hclose] at hin
        simpa using (List.mem_filter.mp hin).2
      · rcases hor with hnone | hroom
        · exact hnone e hraised
        · exact absurd hroom hfull.not_gt
  · refine iff_of_true (opensCheaply_of_made h hmade) (.inl fun e hraised => ?_)
    rw [hok] at hraised
    cases hraised

/-- A tree that is dirty when there is no `.config`, since it is seeded. -/
def seededTree : Trees Unit Unit := ⟨fun _ _ => ((), true), fun _ _ => ()⟩

def fourTabs : List (StoreAction Unit Unit Unit) :=
  [1, 2, 3, 4].map fun n => .openSession {} ⟨sessionId n, "klipper".toList⟩ 0 none

/-- A fifth session is asked for, of a family that is not installed. -/
def refusedFifth : Except Unit (Stored Unit Unit) × SessionStore Unit Unit :=
  (SessionStore.run seededTree fourTabs).openSession seededTree { resolve := some () }
    ⟨"board".toList, "kalico".toList⟩ 60 none

theorem failed_open_evicts :
    (∀ e ∈ (SessionStore.run seededTree fourTabs).sessions,
      e.2.dirty = true ∧ expired 60 e.2 = false) ∧
    (∃ e ∈ (SessionStore.run seededTree fourTabs).sessions, e ∉ refusedFifth.2.sessions) ∧
    ¬(SessionStore.run seededTree fourTabs).OpensCheaply seededTree
      ({ resolve := some () } : Faults Unit) ⟨"board".toList, "kalico".toList⟩ 60 none := by
  have hsound := sound_run seededTree fourTabs
  have hfour : (SessionStore.run seededTree fourTabs).sessions.length = 4 := by rfl
  have hdirty : ∀ e ∈ (SessionStore.run seededTree fourTabs).sessions,
      e.2.dirty = true ∧ expired 60 e.2 = false := by
    have hall : ((SessionStore.run seededTree fourTabs).sessions.all fun e =>
        e.2.dirty && !expired 60 e.2) = true := by decide +kernel
    intro e he
    simpa using List.all_eq_true.mp hall e he
  have hunexpired : ((SessionStore.run seededTree fourTabs).reap 60).sessions =
      (SessionStore.run seededTree fourTabs).sessions := by
    apply List.filter_eq_self.mpr
    intro e he
    rw [(hdirty e he).2, Bool.not_false]
  have hless : refusedFifth.2.sessions.length < 4 := length_evict (hsound.reap 60)
  have hlost : ∃ e ∈ (SessionStore.run seededTree fourTabs).sessions, e ∉ refusedFifth.2.sessions := by
    by_contra hnone
    push Not at hnone
    have hnodup := List.Nodup.of_map _ hsound.nodup
    have hle := (List.Nodup.subperm hnodup hnone).length_le
    omega
  refine ⟨hdirty, hlost, fun hcheap => ?_⟩
  have hall : ∀ e ∈ ((SessionStore.run seededTree fourTabs).reap 60).sessions,
      e ∈ refusedFifth.2.sessions := hcheap
  rw [hunexpired] at hall
  obtain ⟨e, he, hout⟩ := hlost
  exact hout (hall e he)

end McuUpdater.Agent
