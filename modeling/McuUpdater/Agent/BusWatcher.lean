import McuUpdater.Discovery.Byid
import McuUpdater.Lib.History
import McuUpdater.Lib.Transition
import Mathlib.Data.Char
import Mathlib.Data.List.Lex

/-! `agent/events.py`: `BusWatcher`, which sweeps the bus and announces what is there when it has
changed. Another thread may call `reset` between any two of its steps. -/
namespace McuUpdater.Agent.Events
open PyText Discovery History Transition

/-- One entry of a fingerprint, as Python compares tuples. -/
abbrev Sighted := Str × Str × Str

def sightedLe (a b : Sighted) : Bool :=
  a.1 < b.1 || (a.1 = b.1 && (a.2.1 < b.2.1 || (a.2.1 = b.2.1 && a.2.2 ≤ b.2.2)))

/-- `_fingerprint`, over `str.lower` -/
def fingerprint (lower : Str → Str) (devices : List BusDevice) : List Sighted :=
  (devices.map fun d => (lower d.fw, d.chipset, d.serial)).mergeSort sightedLe

/-- Where `_poll` is. -/
inductive PollPhase
  | between
  /-- past the comparison with `_last` -/
  | compared (found : List BusDevice) (changed : Bool)
  /-- past `self._last = fp` -/
  | remembered (found : List BusDevice) (changed : Bool)
  /-- past the handler, with an event to send -/
  | handled (found : List BusDevice)

/-- What happened, as far as the announcements go. -/
inductive BusNote
  /-- a sweep saw this set -/
  | seen (fp : List Sighted)
  | reset
  /-- a `bus` event of this set was handed to the emitter -/
  | announced (fp : List Sighted)
  deriving DecidableEq

/-- The last field is history. -/
structure BusWatcher where
  last : Option (List Sighted) := none
  retry : Bool := false
  phase : PollPhase := .between
  notes : List BusNote := []

inductive BusAction
  /-- `devices.scan`, which may raise, and the comparison -/
  | sweep (found : Option (List BusDevice))
  | remember
  /-- what `_on_change` returns, or none where it raises; without one it is `some false` -/
  | handler (retry : Option Bool)
  /-- `_serialize`, which may raise, and `emit` -/
  | emit (serialised : Bool)
  | reset

variable (lower : Str → Str)

def BusWatcher.step (s : BusWatcher) : BusAction → Option BusWatcher
  | .sweep found =>
    match s.phase, found with
    | .between, none => some s
    | .between, some found =>
      let fp := fingerprint lower found
      let changed := s.last ≠ some fp
      let notes := s.notes ++ [.seen fp]
      if !changed && !s.retry then some { s with notes }
      else some { s with phase := .compared found changed, notes }
    | _, _ => none
  | .remember =>
    match s.phase with
    | .compared found changed =>
      some { s with last := some (fingerprint lower found), retry := false,
                    phase := .remembered found changed }
    | _ => none
  | .handler retry =>
    match s.phase with
    | .remembered found changed =>
      some { s with retry := retry.getD false,
                    phase := if changed then .handled found else .between }
    | _ => none
  | .emit serialised =>
    match s.phase with
    | .handled found =>
      let announced := if serialised then [.announced (fingerprint lower found)] else []
      some { s with phase := .between, notes := s.notes ++ announced }
    | _ => none
  | .reset => some { s with last := none, notes := s.notes ++ [.reset] }

/-- The set that the last sweep saw. -/
def Current (notes : List BusNote) (fp : List Sighted) : Prop :=
  Since (fun note => ∀ g, note ≠ .seen g) (fun _ note => note = .seen fp) notes

def BusNote.Keeps (fp : List Sighted) (note : BusNote) : Prop :=
  note ≠ .reset ∧ ∀ g, note = .seen g → g = fp

/-- It was announced, and since then there was no reset and no sweep saw another set. -/
def Told (notes : List BusNote) (fp : List Sighted) : Prop :=
  Since (BusNote.Keeps fp) (fun _ note => note = .announced fp) notes

/-- The last sweep saw this set, and there was no reset since. -/
def Fresh (notes : List BusNote) (fp : List Sighted) : Prop :=
  Since (fun note => note ≠ .reset ∧ ∀ g, note ≠ .seen g) (fun _ note => note = .seen fp) notes

/-- As `Told`, and there was no reset either between the sweep it was announced for and then. -/
def ToldOnce (notes : List BusNote) (fp : List Sighted) : Prop :=
  Since (BusNote.Keeps fp) (fun before note => note = .announced fp ∧ Fresh before fp) notes

/-- It was announced again, though no sweep saw another set and there was no reset since the sweep
that it was announced for. -/
def ToldTwice (notes : List BusNote) (fp : List Sighted) : Prop :=
  Since (fun _ => True) (fun before note => note = .announced fp ∧ ToldOnce before fp) notes

/-- The next poll announces this set, if that is what it sees and nothing goes wrong. -/
def BusWatcher.WillTell (s : BusWatcher) (fp : List Sighted) : Prop :=
  ∀ found retry, fingerprint lower found = fp → ∃ t,
    run (BusWatcher.step lower) [.sweep (some found), .remember, .handler retry, .emit true] s =
      some t ∧ t.notes = s.notes ++ [.seen fp, .announced fp]

/-- Where no poll runs, the set that was seen last is announced or will be; and none is announced
twice. -/
structure BusWatcher.Announces (s : BusWatcher) : Prop where
  told : s.phase = .between → ∀ fp, Current s.notes fp → Told s.notes fp ∨ s.WillTell lower fp
  once : ∀ fp, ¬ToldTwice s.notes fp

/-- The serialiser does not raise after the set was remembered, unless it was forgotten since; and
no reset comes between the comparison and the remembering of a set that was there before. -/
def keepsWord (s : BusWatcher) : BusAction → Prop
  | .emit false => ∀ found, s.phase = .handled found → s.last = none
  | .remember => ∀ found, s.phase = .compared found false → s.last ≠ none
  | _ => True

section Facts
variable {lower : Str → Str} {s t : BusWatcher} {a : BusAction} {notes : List BusNote}
  {fp : List Sighted}

/-- What a step does, by where the poll is. -/
inductive Polled (lower : Str → Str) (s : BusWatcher) : BusAction → BusWatcher → Prop
  | raised (h : s.phase = .between) : Polled lower s (.sweep none) s
  | same (found : List BusDevice) (h : s.phase = .between)
      (hlast : s.last = some (fingerprint lower found)) :
      Polled lower s (.sweep (some found))
        { s with notes := s.notes ++ [.seen (fingerprint lower found)] }
  | again (found : List BusDevice) (h : s.phase = .between)
      (hlast : s.last = some (fingerprint lower found)) :
      Polled lower s (.sweep (some found)) { s with
        phase := .compared found false, notes := s.notes ++ [.seen (fingerprint lower found)] }
  | other (found : List BusDevice) (h : s.phase = .between)
      (hlast : s.last ≠ some (fingerprint lower found)) :
      Polled lower s (.sweep (some found)) { s with
        phase := .compared found true, notes := s.notes ++ [.seen (fingerprint lower found)] }
  | remembered (found : List BusDevice) (changed : Bool) (h : s.phase = .compared found changed) :
      Polled lower s .remember { s with
        last := some (fingerprint lower found), retry := false,
        phase := .remembered found changed }
  | handled (found : List BusDevice) (retry : Option Bool)
      (h : s.phase = .remembered found true) :
      Polled lower s (.handler retry) { s with retry := retry.getD false, phase := .handled found }
  | retried (found : List BusDevice) (retry : Option Bool)
      (h : s.phase = .remembered found false) :
      Polled lower s (.handler retry) { s with retry := retry.getD false, phase := .between }
  | sent (found : List BusDevice) (h : s.phase = .handled found) :
      Polled lower s (.emit true) { s with
        phase := .between, notes := s.notes ++ [.announced (fingerprint lower found)] }
  | unsent (found : List BusDevice) (h : s.phase = .handled found) :
      Polled lower s (.emit false) { s with phase := .between }
  | reset : Polled lower s .reset { s with last := none, notes := s.notes ++ [.reset] }

theorem polled_of_sweep {found : Option (List BusDevice)}
    (hs : s.step lower (.sweep found) = some t) : Polled lower s (.sweep found) t := by
  cases hphase : s.phase with
  | between =>
    cases found with
    | none =>
      simp only [BusWatcher.step, hphase, Option.some.injEq] at hs
      exact hs ▸ .raised hphase
    | some found =>
      by_cases hlast : s.last = some (fingerprint lower found)
      · simp only [BusWatcher.step, hphase, decide_eq_false (not_not_intro hlast)] at hs
        split_ifs at hs
        · cases hs
          have hsame := Polled.same found hphase hlast
          rwa [hphase] at hsame
        · cases hs
          exact .again found hphase hlast
      · simp only [BusWatcher.step, hphase, decide_eq_true hlast] at hs
        cases hs
        exact .other found hphase hlast
  | compared | remembered | handled => simp [BusWatcher.step, hphase] at hs

theorem polled_of_step (hs : s.step lower a = some t) : Polled lower s a t := by
  cases a with
  | sweep found => exact polled_of_sweep hs
  | remember =>
    rw [BusWatcher.step] at hs
    split at hs
    · cases hs
      exact .remembered _ _ ‹_›
    · cases hs
  | handler retry =>
    rw [BusWatcher.step] at hs
    split at hs
    · rename_i found changed hphase
      cases changed with
      | true =>
        cases hs
        exact .handled found retry hphase
      | false =>
        cases hs
        exact .retried found retry hphase
    · cases hs
  | emit serialised =>
    rw [BusWatcher.step] at hs
    split at hs
    · rename_i found hphase
      cases serialised with
      | true =>
        cases hs
        exact .sent found hphase
      | false =>
        simp only [Bool.false_eq_true, ↓reduceIte, List.append_nil, Option.some.injEq] at hs
        subst hs
        exact .unsent found hphase
    · cases hs
  | reset =>
    cases hs
    exact .reset

@[simp] theorem current_append_one {note : BusNote} : Current (notes ++ [note]) fp ↔
    note = .seen fp ∨ Current notes fp ∧ ∀ g, note ≠ .seen g :=
  since_append_one

@[simp] theorem told_append_one {note : BusNote} : Told (notes ++ [note]) fp ↔
    note = .announced fp ∨ Told notes fp ∧ note.Keeps fp :=
  since_append_one

@[simp] theorem fresh_append_one {note : BusNote} : Fresh (notes ++ [note]) fp ↔
    note = .seen fp ∨ Fresh notes fp ∧ note ≠ .reset ∧ ∀ g, note ≠ .seen g :=
  since_append_one

@[simp] theorem toldOnce_append_one {note : BusNote} : ToldOnce (notes ++ [note]) fp ↔
    (note = .announced fp ∧ Fresh notes fp) ∨ ToldOnce notes fp ∧ note.Keeps fp :=
  since_append_one

@[simp] theorem toldTwice_append_one {note : BusNote} : ToldTwice (notes ++ [note]) fp ↔
    (note = .announced fp ∧ ToldOnce notes fp) ∨ ToldTwice notes fp := by
  simp [ToldTwice]

@[simp] theorem not_keeps_reset : ¬BusNote.Keeps fp .reset := fun h => h.1 rfl

@[simp] theorem keeps_seen {g : List Sighted} : BusNote.Keeps fp (.seen g) ↔ g = fp := by
  simp [BusNote.Keeps]

@[simp] theorem keeps_announced {g : List Sighted} : BusNote.Keeps fp (.announced g) := by
  simp [BusNote.Keeps]

/-- What it says of the history that this set is remembered. -/
def PollPhase.Honours (lower : Str → Str) (notes : List BusNote) (fp : List Sighted) :
    PollPhase → Prop
  | .between => Told notes fp
  | .compared found changed => changed = false → fp = fingerprint lower found ∧ Told notes fp
  | .remembered found changed => fp = fingerprint lower found ∧ (changed = false → Told notes fp)
  | .handled found => fp = fingerprint lower found

/-- A set that is remembered was told, or the poll is about to tell it. -/
def BusWatcher.Honest (lower : Str → Str) (s : BusWatcher) : Prop :=
  ∀ fp, s.last = some fp → s.phase.Honours lower s.notes fp

theorem BusWatcher.Honest.honours {phase : PollPhase} (h : s.Honest lower)
    (hphase : s.phase = phase) (hlast : s.last = some fp) : phase.Honours lower s.notes fp :=
  hphase ▸ h fp hlast

theorem BusWatcher.Honest.step (h : s.Honest lower) (hg : keepsWord s a)
    (hs : s.step lower a = some t) : t.Honest lower := by
  intro fp hfp
  cases polled_of_step hs with
  | raised hphase => exact h fp hfp
  | same found hphase hlast =>
    have hfound : fingerprint lower found = fp := Option.some.inj (hlast.symm.trans hfp)
    have htold : Told s.notes fp := h.honours hphase hfp
    rw [hphase]
    exact told_append_one.mpr (.inr ⟨htold, keeps_seen.mpr hfound⟩)
  | again found hphase hlast =>
    have hfound : fingerprint lower found = fp := Option.some.inj (hlast.symm.trans hfp)
    have htold : Told s.notes fp := h.honours hphase hfp
    exact fun _ => ⟨hfound.symm, told_append_one.mpr (.inr ⟨htold, keeps_seen.mpr hfound⟩)⟩
  | other found hphase hlast => exact fun hchanged => absurd hchanged (by decide)
  | remembered found changed hphase =>
    cases hfp
    refine ⟨rfl, fun hchanged => ?_⟩
    subst hchanged
    -- without a reset in between it is still the set that was compared
    obtain ⟨fp, hlast⟩ := Option.ne_none_iff_exists'.mp (hg found hphase)
    obtain ⟨rfl, htold⟩ := h.honours hphase hlast rfl
    exact htold
  | handled found retry hphase => exact (h.honours hphase hfp).1
  | retried found retry hphase => exact (h.honours hphase hfp).2 rfl
  | sent found hphase =>
    have hfound : fp = fingerprint lower found := h.honours hphase hfp
    exact told_append_one.mpr (.inl (congrArg BusNote.announced hfound.symm))
  | unsent found hphase =>
    have hforgotten : s.last = none := hg found hphase
    rw [hforgotten] at hfp
    cases hfp
  | reset => cases hfp

theorem willTell_of_ne (hphase : s.phase = .between) (hlast : s.last ≠ some fp) :
    s.WillTell lower fp := by
  rintro found retry rfl
  simp [BusWatcher.step, hphase, hlast]

theorem fresh_seen {g : List Sighted} : Fresh (notes ++ [.seen g]) fp ↔ g = fp := by
  simp

theorem toldOnce_seen {g : List Sighted} :
    ToldOnce (notes ++ [.seen g]) fp ↔ ToldOnce notes fp ∧ g = fp := by
  simp

/-- What it says of the history where the poll is: only a remembered set was told with no reset and
no other set since, and a poll that is going to tell a set has not told it. -/
def BusWatcher.Quiet (lower : Str → Str) (s : BusWatcher) (fp : List Sighted) : Prop :=
  match s.phase with
  | .between => ToldOnce s.notes fp → s.last = some fp
  | .compared found changed =>
    (Fresh s.notes fp → fp = fingerprint lower found) ∧
      (ToldOnce s.notes fp → changed = false ∧ fp = fingerprint lower found)
  | .remembered _ changed =>
    (Fresh s.notes fp → s.last = some fp) ∧
      (ToldOnce s.notes fp → changed = false ∧ s.last = some fp)
  | .handled _ => (Fresh s.notes fp → s.last = some fp) ∧ ¬ToldOnce s.notes fp

theorem BusWatcher.Quiet.step (h : s.Quiet lower fp) (hs : s.step lower a = some t) :
    t.Quiet lower fp := by
  cases polled_of_step hs with
  | raised hphase => exact h
  | same found hphase hlast =>
    simp only [BusWatcher.Quiet, hphase] at h ⊢
    intro honce
    exact h (toldOnce_seen.mp honce).1
  | again found hphase hlast =>
    exact ⟨fun hfresh => (fresh_seen.mp hfresh).symm,
      fun honce => ⟨rfl, (toldOnce_seen.mp honce).2.symm⟩⟩
  | other found hphase hlast =>
    simp only [BusWatcher.Quiet, hphase] at h
    refine ⟨fun hfresh => (fresh_seen.mp hfresh).symm, fun honce => ?_⟩
    obtain ⟨honce, rfl⟩ := toldOnce_seen.mp honce
    exact absurd (h honce) hlast
  | remembered found changed hphase =>
    simp only [BusWatcher.Quiet, hphase] at h ⊢
    refine ⟨fun hfresh => congrArg some (h.1 hfresh).symm, fun honce => ?_⟩
    obtain ⟨hchanged, hfound⟩ := h.2 honce
    exact ⟨hchanged, congrArg some hfound.symm⟩
  | handled found retry hphase =>
    simp only [BusWatcher.Quiet, hphase] at h ⊢
    exact ⟨h.1, fun honce => absurd (h.2 honce).1 (by decide)⟩
  | retried found retry hphase =>
    simp only [BusWatcher.Quiet, hphase] at h ⊢
    exact fun honce => (h.2 honce).2
  | sent found hphase =>
    simp only [BusWatcher.Quiet, hphase] at h ⊢
    intro honce
    rcases toldOnce_append_one.mp honce with ⟨-, hfresh⟩ | ⟨honce, -⟩
    · exact h.1 hfresh
    · exact absurd honce h.2
  | unsent found hphase =>
    simp only [BusWatcher.Quiet, hphase] at h ⊢
    exact fun honce => absurd honce h.2
  | reset =>
    simp only [BusWatcher.Quiet]
    cases hphase : s.phase <;> simp

/-- Only the event of a set that the poll has found changed is sent. -/
theorem once_step (h : ¬ToldTwice s.notes fp) (hquiet : s.Quiet lower fp)
    (hs : s.step lower a = some t) : ¬ToldTwice t.notes fp := by
  cases polled_of_step hs with
  | raised | remembered | handled | retried | unsent => exact h
  | same found | again found | other found => simpa using h
  | sent found hphase =>
    simp only [BusWatcher.Quiet, hphase] at hquiet
    simp [h, hquiet.2]
  | reset => simpa using h

theorem not_toldTwice_of_reach {guard : BusWatcher → BusAction → Prop}
    (h : Reach (BusWatcher.step lower) guard (· = {}) s) : ¬ToldTwice s.notes fp := by
  have hkept : s.Quiet lower fp ∧ ¬ToldTwice s.notes fp := by
    refine h.invariant (I := fun s => s.Quiet lower fp ∧ ¬ToldTwice s.notes fp) ?_ ?_
    · rintro s rfl
      exact ⟨fun honce => absurd honce not_since_nil, not_since_nil⟩
    · rintro s a t ⟨hquiet, honce⟩ - hs
      exact ⟨hquiet.step hs, once_step honce hquiet hs⟩
  exact hkept.2

theorem honest_of_reach (h : Reach (BusWatcher.step lower) keepsWord (· = {}) s) :
    s.Honest lower := by
  refine h.invariant ?_ fun s a t hs hg hstep => hs.step hg hstep
  rintro s rfl fp hfp
  cases hfp

theorem not_willTell {found : List BusDevice} (hphase : s.phase = .between)
    (hlast : s.last = some (fingerprint lower found)) :
    ¬s.WillTell lower (fingerprint lower found) := by
  intro hwill
  obtain ⟨t, ht, -⟩ := hwill found none rfl
  cases hretry : s.retry <;> simp [BusWatcher.step, hphase, hlast, hretry] at ht

theorem not_announces {found : List BusDevice} {note : BusNote} (hphase : s.phase = .between)
    (hlast : s.last = some (fingerprint lower found)) (hnotes : s.notes = notes ++ [note])
    (hseen : note = .seen (fingerprint lower found) ∨
      Current notes (fingerprint lower found) ∧ ∀ g, note ≠ .seen g)
    (htold : ¬(note = .announced (fingerprint lower found) ∨
      Told notes (fingerprint lower found) ∧ note.Keeps (fingerprint lower found))) :
    ¬s.Announces lower := by
  intro h
  rcases h.told hphase _ (hnotes ▸ current_append_one.mpr hseen) with hannounced | hwill
  · exact htold (told_append_one.mp (hnotes ▸ hannounced))
  · exact not_willTell hphase hlast hwill

end Facts

/-- In every run that keeps its word, the set that was seen last is announced or will be, and none
is announced twice; the latter in any other run too. -/
theorem bus_changes_announced (lower : Str → Str) :
    (∀ s, Reach (BusWatcher.step lower) keepsWord (· = {}) s → s.Announces lower) ∧
      ∀ s, Reach (BusWatcher.step lower) anyStep (· = {}) s → ∀ fp, ¬ToldTwice s.notes fp := by
  refine ⟨fun s h => ⟨fun hphase fp _ => ?_, fun fp => not_toldTwice_of_reach h⟩,
    fun s h fp => not_toldTwice_of_reach h⟩
  by_cases hlast : s.last = some fp
  · left
    have honours := honest_of_reach h fp hlast
    rwa [hphase] at honours
  · exact .inr (willTell_of_ne hphase hlast)

def plugged : List BusDevice := [⟨"katapult".toList, "rp2040".toList, "E66".toList, []⟩]

/-- The board is announced, its handler asks for a retry, and then a client connects. -/
def reconnected : List BusAction :=
  [.sweep (some plugged), .remember, .handler (some true), .emit true, .reset]

/-- Nothing raises after the handler, and what is remembered is a change. -/
def uneventful (s : BusWatcher) : BusAction → Bool
  | .emit serialised => serialised
  | .remember =>
    match s.phase with
    | .compared _ changed => changed
    | _ => true
  | _ => true

theorem keepsWord_of_uneventful (s : BusWatcher) (a : BusAction) (h : uneventful s a = true) :
    keepsWord s a := by
  cases a with
  | remember =>
    intro found hphase
    rw [uneventful, hphase] at h
    cases h
  | emit serialised =>
    cases h
    trivial
  | sweep | handler | reset => trivial

theorem bus_changes_announced_reconnected :
    ∃ s, run (BusWatcher.step (List.map Char.toLower)) reconnected {} = some s ∧
      s.Announces (List.map Char.toLower) := by
  have hr := (Reach.start rfl : Reach (BusWatcher.step (List.map Char.toLower)) keepsWord (· = {})
    {}).extend_checked (l := reconnected) keepsWord_of_uneventful rfl
  exact ⟨_, rfl, (bus_changes_announced _).1 _ hr⟩

/-- The set is remembered before its event is made, and after that is the same as ever. -/
theorem unserialised_lost : ¬∀ lower s,
    Reach (BusWatcher.step lower) anyStep (· = {}) s → s.Announces lower := by
  intro hall
  generalize hseen : fingerprint (List.map Char.toLower) plugged = fp
  have hrun : run (BusWatcher.step (List.map Char.toLower)) [.sweep (some plugged), .remember,
      .handler (some false), .emit false] {} = some ⟨some fp, false, .between, [] ++ [.seen fp]⟩ := by
    simp [BusWatcher.step, hseen]
  subst hseen
  refine not_announces rfl rfl rfl ?_ ?_
    (hall _ _ (Reach.extend (.start rfl) (fun _ _ _ => trivial) hrun))
  · exact .inl rfl
  · rintro (htold | ⟨htold, -⟩)
    · cases htold
    · exact not_since_nil htold

theorem reset_overwritten : ¬∀ lower s,
    Reach (BusWatcher.step lower) (fun _ a => a ≠ .emit false) (· = {}) s → s.Announces lower := by
  intro hall
  generalize hseen : fingerprint (List.map Char.toLower) plugged = fp
  have hrun : run (BusWatcher.step (List.map Char.toLower)) [.sweep (some plugged), .remember,
      .handler (some true), .emit true, .sweep (some plugged), .reset, .remember, .handler none] {} =
      some ⟨some fp, false, .between, [.seen fp, .announced fp, .seen fp] ++ [.reset]⟩ := by
    simp [BusWatcher.step, hseen]
  subst hseen
  refine not_announces rfl rfl rfl ?_ ?_ (hall _ _ (Reach.extend (.start rfl) (by simp) hrun))
  · exact .inr ⟨⟨[_, _], _, [], rfl, rfl, by simp⟩, fun _ => BusNote.noConfusion⟩
  · simp

end McuUpdater.Agent.Events
