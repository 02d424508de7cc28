import McuUpdater.Registry.Options

/-! The settings field by field: what `_settings_from_doc` makes of each is what the option says
that comes last among those spelled like it. -/
namespace McuUpdater.Updater
open PyText CfgDoc CfgDocument Typelist ExceptList Dict

/-- `dataclasses.fields(Settings)` -/
inductive Field
  | makeJobs
  | cleanBeforeBuild
  | reseedOnBuild
  | stopServices
  | serviceBackend
  | dryRun
  | enableFlashing
  | allowFlashWhilePrinting
  | logRingSize
  | platformioBin
  | flashtoolPath
  | uiAccentColor
  | ignoredSerials
  | ignoredCanbusUuids
  deriving DecidableEq

abbrev Field.Value : Field → Type
  | .makeJobs | .logRingSize => Int
  | .cleanBeforeBuild | .reseedOnBuild | .dryRun | .enableFlashing | .allowFlashWhilePrinting => Bool
  | .serviceBackend | .platformioBin | .flashtoolPath | .uiAccentColor => Str
  | .ignoredSerials | .ignoredCanbusUuids => List Str
  | .stopServices => Option (List Str)

def Field.key : Field → Str
  | .makeJobs => "make_jobs".toList
  | .cleanBeforeBuild => "clean_before_build".toList
  | .reseedOnBuild => "reseed_on_build".toList
  | .stopServices => "stop_services".toList
  | .serviceBackend => "service_backend".toList
  | .dryRun => "dry_run".toList
  | .enableFlashing => "enable_flashing".toList
  | .allowFlashWhilePrinting => "allow_flash_while_printing".toList
  | .logRingSize => "log_ring_size".toList
  | .platformioBin => "platformio_bin".toList
  | .flashtoolPath => "flashtool_path".toList
  | .uiAccentColor => "ui_accent_color".toList
  | .ignoredSerials => "ignored_serials".toList
  | .ignoredCanbusUuids => "ignored_canbus_uuids".toList

def Settings.get (s : Settings) : (f : Field) → f.Value
  | .makeJobs => s.makeJobs
  | .cleanBeforeBuild => s.cleanBeforeBuild
  | .reseedOnBuild => s.reseedOnBuild
  | .stopServices => s.stopServices
  | .serviceBackend => s.serviceBackend
  | .dryRun => s.dryRun
  | .enableFlashing => s.enableFlashing
  | .allowFlashWhilePrinting => s.allowFlashWhilePrinting
  | .logRingSize => s.logRingSize
  | .platformioBin => s.platformioBin
  | .flashtoolPath => s.flashtoolPath
  | .uiAccentColor => s.uiAccentColor
  | .ignoredSerials => s.ignoredSerials
  | .ignoredCanbusUuids => s.ignoredCanbusUuids

/-- `setattr(s, name, value)` -/
def Settings.put (s : Settings) : (f : Field) → f.Value → Settings
  | .makeJobs, v => { s with makeJobs := v }
  | .cleanBeforeBuild, v => { s with cleanBeforeBuild := v }
  | .reseedOnBuild, v => { s with reseedOnBuild := v }
  | .stopServices, v => { s with stopServices := v }
  | .serviceBackend, v => { s with serviceBackend := v }
  | .dryRun, v => { s with dryRun := v }
  | .enableFlashing, v => { s with enableFlashing := v }
  | .allowFlashWhilePrinting, v => { s with allowFlashWhilePrinting := v }
  | .logRingSize, v => { s with logRingSize := v }
  | .platformioBin, v => { s with platformioBin := v }
  | .flashtoolPath, v => { s with flashtoolPath := v }
  | .uiAccentColor, v => { s with uiAccentColor := v }
  | .ignoredSerials, v => { s with ignoredSerials := v }
  | .ignoredCanbusUuids, v => { s with ignoredCanbusUuids := v }

def Settings.ofGet (v : (f : Field) → f.Value) : Settings where
  makeJobs := v .makeJobs
  cleanBeforeBuild := v .cleanBeforeBuild
  reseedOnBuild := v .reseedOnBuild
  stopServices := v .stopServices
  serviceBackend := v .serviceBackend
  dryRun := v .dryRun
  enableFlashing := v .enableFlashing
  allowFlashWhilePrinting := v .allowFlashWhilePrinting
  logRingSize := v .logRingSize
  platformioBin := v .platformioBin
  flashtoolPath := v .flashtoolPath
  uiAccentColor := v .uiAccentColor
  ignoredSerials := v .ignoredSerials
  ignoredCanbusUuids := v .ignoredCanbusUuids

variable {s t : Settings} {f g : Field} {key : Str}

theorem Settings.get_ofGet (v : (f : Field) → f.Value) (f : Field) : (ofGet v).get f = v f := by
  cases f <;> rfl

theorem Settings.eq_iff_get : s = t ↔ ∀ f, s.get f = t.get f := by
  constructor
  · rintro rfl f
    rfl
  · intro h
    obtain ⟨⟩ := s
    obtain ⟨⟩ := t
    congr
    exacts [h .makeJobs, h .cleanBeforeBuild, h .reseedOnBuild, h .stopServices, h .serviceBackend,
      h .dryRun, h .enableFlashing, h .allowFlashWhilePrinting, h .logRingSize, h .platformioBin,
      h .flashtoolPath, h .uiAccentColor, h .ignoredSerials, h .ignoredCanbusUuids]

@[simp] theorem Settings.get_put_self (s : Settings) (f : Field) (v : f.Value) :
    (s.put f v).get f = v := by
  cases f <;> rfl

theorem Settings.get_put_of_ne (s : Settings) {f g : Field} (v : f.Value) (hne : g ≠ f) :
    (s.put f v).get g = s.get g := by
  cases f <;> cases g <;> first | rfl | exact absurd rfl hne

theorem Field.key_inj (h : f.key = g.key) : f = g := by
  revert h
  cases f <;> cases g <;> decide

/-! ## Reading one option -/

/-- `key.replace("-", "_")` -/
def spelling (key : Str) : Str := key.map fun c => if c = '-' then '_' else c

def Field.spells (f : Field) (key : Str) : Bool := spelling key = f.key

theorem Field.spells_key (f : Field) : f.spells f.key = true := by
  cases f <;> decide

theorem Field.spells_unique (hf : f.spells key = true) (hg : g.spells key = true) : f = g := by
  simp only [Field.spells, decide_eq_true_eq] at hf hg
  exact Field.key_inj (hf.symm.trans hg)

section Reading
variable (int : Str → Option Int) (doc : CfgDocument)

def rawText (key : Str) : Str := (doc.get updater key).getD []

/-- What a field makes of the text of an option, where that is no error. -/
def Field.read (raw : Str) : (f : Field) → Option f.Value
  | .makeJobs | .logRingSize => int (strip raw)
  | .cleanBeforeBuild | .reseedOnBuild | .dryRun | .enableFlashing | .allowFlashWhilePrinting =>
    parseBool (some raw) false
  | .serviceBackend | .platformioBin | .flashtoolPath => some (strip raw)
  | .uiAccentColor => some (if strip raw = [] then [] else '#' :: strip raw)
  | .ignoredSerials | .ignoredCanbusUuids => some (csv raw)
  | .stopServices => some (some (csv raw))

theorem assign_of_spells (hf : f.spells key = true) : assign int doc s key =
    match f.read int (rawText doc key) with
    | some v => .ok (s.put f v)
    | none => .error (.badValue key) := by
  have hcsv : (doc.getCsv updater key).getD [] = csv (rawText doc key) := by
    rw [getCsv, rawText]
    cases doc.get updater key <;> rfl
  have hname : (key.map fun c => if c = '-' then '_' else c) = f.key := by
    exact of_decide_eq_true hf
  simp only [assign, hname, hcsv]
  rw [← rawText]
  cases f with
  | makeJobs | logRingSize =>
    change asInt int key (rawText doc key) _ = _
    rw [asInt]
    cases hread : int (strip (rawText doc key)) <;> simp only [Field.read, hread, Settings.put]
  | cleanBeforeBuild | reseedOnBuild | dryRun | enableFlashing | allowFlashWhilePrinting =>
    change asBool key (rawText doc key) _ = _
    rw [asBool]
    cases hread : parseBool (some (rawText doc key)) false <;> simp only [Field.read, hread, Settings.put]
  | _ => rfl

theorem assign_of_none (h : ∀ f : Field, f.spells key = false) : assign int doc s key = .ok s := by
  have hne : ∀ f : Field, (key.map fun c => if c = '-' then '_' else c) ≠ f.key := fun f he => by
    simpa [Field.spells, spelling, he] using h f
  simp only [assign]
  iterate 14 rw [if_neg]
  exacts [hne .ignoredCanbusUuids, hne .ignoredSerials, hne .uiAccentColor, hne .flashtoolPath,
    hne .platformioBin, hne .logRingSize, hne .allowFlashWhilePrinting, hne .enableFlashing,
    hne .dryRun, hne .serviceBackend, hne .stopServices, hne .reseedOnBuild, hne .cleanBeforeBuild,
    hne .makeJobs]

/-! ## Reading the section -/

def Readable (keys : List Str) : Prop :=
  ∀ key ∈ keys, ∀ f : Field, f.spells key = true → (f.read int (rawText doc key)).isSome

/-- What a field is after an option spelled like it. -/
def readAt (f : Field) (key : Str) : f.Value :=
  (f.read int (rawText doc key)).getD (({} : Settings).get f)

def winner (keys : List Str) (f : Field) : Option Str := (keys.filter f.spells).getLast?

theorem winner_cons (key : Str) (keys : List Str) (f : Field) : winner (key :: keys) f =
    (winner keys f).or (if f.spells key then some key else none) := by
  rw [winner, List.filter_cons]
  split_ifs
  · rw [List.getLast?_cons, winner]
    cases (keys.filter f.spells).getLast? <;> rfl
  · rw [winner, Option.or_none]

theorem foldlM_assign_ok (keys : List Str) (s t : Settings) :
    keys.foldlM (assign int doc) s = .ok t ↔ Readable int doc keys ∧
      ∀ f, t.get f = (winner keys f).elim (s.get f) (readAt int doc f) := by
  induction keys generalizing s with
  | nil =>
    have heq : (pure s : Except ConfigError Settings) = .ok t ↔ t = s :=
      ⟨fun h => (Except.ok.inj h).symm, fun h => congrArg Except.ok h.symm⟩
    rw [List.foldlM_nil, heq, Settings.eq_iff_get]
    simp [Readable, winner]
  | cons key keys ih =>
    rw [List.foldlM_cons]
    have hkeys : Readable int doc (key :: keys) ↔
        (∀ f : Field, f.spells key = true → (f.read int (rawText doc key)).isSome) ∧
          Readable int doc keys := List.forall_mem_cons
    by_cases hnone : ∀ f : Field, f.spells key = false
    · have hstep : (assign int doc s key >>= fun s => keys.foldlM (assign int doc) s) =
          keys.foldlM (assign int doc) s := by
        rw [assign_of_none int doc hnone]
        rfl
      rw [hstep, ih, hkeys, and_iff_right fun f hf => absurd hf (by simp [hnone f])]
      simp only [winner_cons, hnone, Bool.false_eq_true, if_false, Option.or_none]
    · simp only [not_forall, Bool.not_eq_false] at hnone
      obtain ⟨f, hf⟩ := hnone
      rw [assign_of_spells int doc hf]
      cases hread : f.read int (rawText doc key) with
      | none =>
        refine iff_of_false (fun h => nomatch h) fun h => ?_
        simpa [hread] using (hkeys.mp h.1).1 f hf
      | some v =>
        have hstep : ((.ok (s.put f v) : Except ConfigError Settings) >>= fun s =>
            keys.foldlM (assign int doc) s) = keys.foldlM (assign int doc) (s.put f v) := rfl
        have hfirst : ∀ g : Field, g.spells key = true → (g.read int (rawText doc key)).isSome :=
          fun g hg => by
            obtain rfl := Field.spells_unique hf hg
            simp [hread]
        rw [hstep, ih, hkeys, and_iff_right hfirst]
        refine and_congr_right fun _ => forall_congr' fun g => ?_
        rw [winner_cons]
        by_cases hg : g = f
        · subst hg
          rw [if_pos hf, Settings.get_put_self]
          cases winner keys g with
          | none => simp [readAt, hread]
          | some _ => rfl
        · have hother : g.spells key = false := by
            cases hspells : g.spells key with
            | false => rfl
            | true => exact absurd (Field.spells_unique hspells hf) hg
          rw [hother, if_neg (by simp), Option.or_none, Settings.get_put_of_ne s v hg]

/-- `doc.get(SECTION, _LEGACY_SERVICE_KEY)`, stripped -/
def legacy : Str := strip (rawText doc "service".toList)

/-- A field no option is spelled like. -/
def absent : (f : Field) → f.Value
  | .stopServices => if legacy doc = [] then none else some [legacy doc]
  | f => ({} : Settings).get f

theorem absent_of_ne (hf : f ≠ .stopServices) : absent doc f = ({} : Settings).get f := by
  cases f <;> first | rfl | exact absurd rfl hf

def backends : List Str := ["moonraker".toList, "systemd".toList, "null".toList]

/-- The settings `_settings_from_doc` reads. -/
structure Loads (s : Settings) : Prop where
  single : doc.names.count updater ≤ 1
  readable : Readable int doc (options doc updater)
  fields : ∀ f, s.get f = (winner (options doc updater) f).elim (absent doc f) (readAt int doc f)
  backend : s.serviceBackend ∈ backends

theorem named_iff (keys : List Str) :
    (keys.any fun key => (key.map fun c => if c = '-' then '_' else c) = "stop_services".toList) =
      (winner keys .stopServices).isSome := by
  rw [winner, Bool.eq_iff_iff, List.any_eq_true, List.getLast?_isSome, Ne, List.filter_eq_nil_iff]
  constructor
  · rintro ⟨key, hkey, hspells⟩ hall
    exact hall key hkey hspells
  · intro h
    by_contra hno
    exact h fun key hkey hspells => hno ⟨key, hkey, hspells⟩

/-- The old spelling of `stop_services` counts where no option has the new one. -/
def withLegacy (s : Settings) : Settings :=
  if !(winner (options doc updater) .stopServices).isSome ∧ legacy doc ≠ [] then
    s.put .stopServices (some [legacy doc])
  else s

theorem get_withLegacy (hs : ∀ f, s.get f = (winner (options doc updater) f).elim
      (({} : Settings).get f) (readAt int doc f)) (f : Field) :
    (withLegacy doc s).get f =
      (winner (options doc updater) f).elim (absent doc f) (readAt int doc f) := by
  by_cases hf : f = .stopServices
  · subst hf
    rw [withLegacy]
    cases hw : winner (options doc updater) .stopServices with
    | some key => simp [hs, hw]
    | none =>
      by_cases hl : legacy doc = []
      · rw [if_neg (by simp [hl]), hs, hw, absent, if_pos hl]
        rfl
      · simp [hl, absent]
  · rw [withLegacy, absent_of_ne doc hf]
    split_ifs
    · rw [Settings.get_put_of_ne s _ hf, hs]
    · exact hs f

theorem settingsFromDoc_ok : settingsFromDoc int doc = .ok s ↔ Loads int doc s := by
  rw [settingsFromDoc]
  by_cases hcount : 1 < doc.names.count updater
  · rw [if_pos hcount]
    exact iff_of_false (fun h => nomatch h) fun h => absurd h.single (by omega)
  rw [if_neg hcount]
  change ((options doc updater).foldlM (assign int doc) {} >>= fun mid => _) = _ ↔ _
  simp only [named_iff]
  change ((options doc updater).foldlM (assign int doc) {} >>= fun mid =>
    if (withLegacy doc mid).serviceBackend ∈ backends then .ok (withLegacy doc mid)
    else .error .badBackend) = _ ↔ _
  constructor
  · intro h
    obtain ⟨mid, hmid, h⟩ := bind_ok h
    obtain ⟨hread, hfields⟩ := (foldlM_assign_ok int doc _ _ _).mp hmid
    split_ifs at h with hback
    obtain rfl := Except.ok.inj h
    exact ⟨by omega, hread, get_withLegacy int doc hfields, hback⟩
  · intro h
    let mid : Settings := .ofGet fun f =>
      (winner (options doc updater) f).elim (({} : Settings).get f) (readAt int doc f)
    have hmid := (foldlM_assign_ok int doc (options doc updater) {} mid).mpr
      ⟨h.readable, fun f => Settings.get_ofGet _ f⟩
    have heq : withLegacy doc mid = s := Settings.eq_iff_get.mpr fun f => by
      rw [get_withLegacy int doc (Settings.get_ofGet _), h.fields]
    rw [hmid]
    change (if (withLegacy doc mid).serviceBackend ∈ backends then _ else _) = _
    rw [heq, if_pos h.backend]

end Reading
end McuUpdater.Updater
