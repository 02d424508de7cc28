import McuUpdater.Lib.PyValue
import McuUpdater.Agent.Tracking
import McuUpdater.Registry.FieldText

/-! `agent/methods/registry.py`: what `fw.settings.set` and the ignore calls make of the settings,
and what of it the file holds. -/
namespace McuUpdater.Agent.SettingsApi
open PyText PyValue Dict Outline CfgDoc CfgDocument Typelist Config ExceptList Updater Tracking
/-! ## The calls -/

inductive ApiError
  | invalidParams (key : Str)
  | notSettable (rejected : List Str)
  | config (e : ConfigError)
  deriving DecidableEq

/-- `SETTABLE` -/
def settable : List Field := [.makeJobs, .cleanBeforeBuild, .reseedOnBuild, .dryRun, .enableFlashing,
  .allowFlashWhilePrinting, .logRingSize, .uiAccentColor]

def settableOf (key : Str) : Option Field := settable.find? (·.key = key)

def isHex (c : Char) : Bool :=
  (48 ≤ c.toNat && c.toNat ≤ 57) || (65 ≤ c.toNat && c.toNat ≤ 70) || (97 ≤ c.toNat && c.toNat ≤ 102)

/-- `_HEX_COLOR.match`, whose `$` also matches before a newline at the end -/
def isHexColor (s : Str) : Bool :=
  let digits := (s.drop 1).take 6
  s.take 1 = ['#'] && digits.length = 6 && digits.all isHex && (s.drop 7 = [] || s.drop 7 = ['\n'])

/-- `_coerce_setting` -/
def coerceSetting : (f : Field) → PyVal → Except ApiError f.Value
  | .cleanBeforeBuild, .bool b | .reseedOnBuild, .bool b | .dryRun, .bool b
  | .enableFlashing, .bool b | .allowFlashWhilePrinting, .bool b => .ok b
  | .uiAccentColor, .str text =>
    if text ≠ [] ∧ !isHexColor text then .error (.invalidParams Field.uiAccentColor.key)
    else .ok text
  | .serviceBackend, .str text | .platformioBin, .str text | .flashtoolPath, .str text => .ok text
  | .makeJobs, .int n =>
    if n < -1 ∨ 64 < n then .error (.invalidParams Field.makeJobs.key) else .ok n
  | .logRingSize, .int n =>
    if n < 100 ∨ 100000 < n then .error (.invalidParams Field.logRingSize.key) else .ok n
  | f, _ => .error (.invalidParams f.key)

/-- What `settings_set` sets, every value coerced before the first is set. -/
def settingsSet (patch : List (Str × PyVal)) : Except ApiError (List (Σ f : Field, f.Value)) := do
  if patch.isEmpty then .error (.invalidParams "settings".toList)
  let unknown := (patch.map Prod.fst).filter fun key => (settableOf key).isNone
  if unknown ≠ [] then .error (.notSettable (unknown.mergeSort fun a b => decide (a ≤ b)))
  let known := patch.filterMap fun (key, raw) => (settableOf key).map (·, raw)
  known.mapM fun (f, raw) => do
    let v ← coerceSetting f raw
    .ok ⟨f, v⟩

def setAll (values : List (Σ f : Field, f.Value)) (s : Settings) : Settings :=
  values.foldl (fun s v => s.put v.1 v.2) s

def ignore (x : Str) (xs : List Str) : List Str := if x ∈ xs then xs else xs ++ [x]

inductive Call
  | settingsSet (patch : List (Str × PyVal))
  | busIgnore (serial : Str)
  | busUnignore (serial : Str)
  | canbusIgnore (uuid : Str)
  | canbusUnignore (uuid : Str)

/-- `_require_str` -/
def required (key value : Str) : Except ApiError Str :=
  (RegistryApi.requireStr key value).mapError fun _ => .invalidParams key

def Call.edit : Call → Except ApiError (Settings → Settings)
  | .settingsSet patch => do
    let values ← SettingsApi.settingsSet patch
    .ok (setAll values)
  | .busIgnore serial => do
    let serial ← required "serial".toList serial
    .ok fun s => s.put .ignoredSerials (ignore serial s.ignoredSerials)
  | .busUnignore serial => do
    let serial ← required "serial".toList serial
    .ok fun s => s.put .ignoredSerials (s.ignoredSerials.erase serial)
  | .canbusIgnore uuid => do
    let uuid ← required "uuid".toList uuid
    .ok fun s => s.put .ignoredCanbusUuids (ignore uuid s.ignoredCanbusUuids)
  | .canbusUnignore uuid => do
    let uuid ← required "uuid".toList uuid
    .ok fun s => s.put .ignoredCanbusUuids (s.ignoredCanbusUuids.erase uuid)

def Call.run (int : Str → Option Int) (text : Str) (call : Call) : Except ApiError Str := do
  let edit ← call.edit
  (settingsMutate int text fun s => .ok (edit s)).mapError .config

variable {s : Settings} {f : Field} {key : Str} {doc : CfgDocument}

/-! ## The document after a write -/

/-- The document that is loaded after `_write_settings`. -/
def rewritten (doc : CfgDocument) (s : Settings) : CfgDocument :=
  ((settingsWrites s).foldl (writeOption updater) doc).reload

theorem settingsKeys_safe : (settingsKeys.all fun key => key ≠ [] && key.all fun c =>
    !isSpace c && !isCommentStart c && c ≠ ':' && c ≠ '=') = true := by decide +kernel

theorem keySafe_writes : ∀ w ∈ settingsWrites s, w.2.isSome → KeySafe w.1 := fun w hw _ => by
  have hkey : w.1 ∈ settingsKeys := (List.mem_map_of_mem hw : w.1 ∈ (settingsWrites s).map Prod.fst)
  exact keySafe_of_check (List.all_eq_true.mp settingsKeys_safe _ hkey)

theorem winner_eq (doc : CfgDocument) (f : Field) : winner (options doc updater) f =
    ((doc.keysAt updater).filter f.spells).eraseDups.getLast? := by
  have hoptions : options doc updater = (doc.keysAt updater).eraseDups := rfl
  rw [winner, hoptions, filter_eraseDups]

theorem winner_eq_none : winner (options doc updater) f = none ↔
    (doc.keysAt updater).filter f.spells = [] := by
  rw [winner, List.getLast?_eq_none_iff, List.filter_eq_nil_iff, List.filter_eq_nil_iff]
  exact forall_congr' fun key => by rw [options, List.mem_eraseDups]; rfl

section Rewritten
variable (hdoc : doc.Whole) (hs : SafeSettings s)
include hdoc hs

theorem rewritten_eq : rewritten doc s = (writeAll updater (doc.addSection updater) (settingsWrites s)).reload ∧
    (writeAll updater (doc.addSection updater) (settingsWrites s)).Whole := by
  have hsafe : updater ∈ doc.names ∨ NameSafe updater := .inr nameSafe_updater
  have hline : OneLine updater := by decide
  have heq : (settingsWrites s).foldl (writeOption updater) doc =
      writeAll updater (doc.addSection updater) (settingsWrites s) := foldl_writeOption hsafe
  exact ⟨by rw [rewritten, heq],
    whole_writeAll (safeWrite_settings hs) hline (hdoc.addSection hline)⟩

theorem writtenAt_rewritten (key : Str) : (rewritten doc s).writtenAt updater key =
    ((settingsWrites s).lookup key).elim (doc.writtenAt updater key)
      (putWritten key · (doc.writtenAt updater key)) := by
  have hsafe : updater ∈ doc.names ∨ NameSafe updater := .inr nameSafe_updater
  obtain ⟨heq, hwhole⟩ := rewritten_eq hdoc hs
  have hnodup : ((settingsWrites s).map Prod.fst).Nodup := by
    change settingsKeys.Nodup
    decide
  have hall := writtenAt_writeAll_exact (safeWrite_settings hs) keySafe_writes hnodup
    (mem_names_addSection hsafe : updater ∈ (doc.addSection updater).names) key
  rw [writtenAt_addSection_cases hsafe] at hall
  rw [heq, writtenAt_reload hwhole]
  exact hall.trans (by cases (settingsWrites s).lookup key <;> rfl)

theorem keysAt_rewritten : (rewritten doc s).keysAt updater =
    (settingsWrites s).foldl putKey (doc.keysAt updater) := by
  have hsafe : updater ∈ doc.names ∨ NameSafe updater := .inr nameSafe_updater
  obtain ⟨heq, hwhole⟩ := rewritten_eq hdoc hs
  rw [heq, keysAt_reload hwhole, keysAt_writeAll (safeWrite_settings hs) keySafe_writes
    (mem_names_addSection hsafe), keysAt_addSection hsafe]

theorem count_rewritten (hcount : doc.names.count updater ≤ 1) :
    (rewritten doc s).names.count updater ≤ 1 := by
  have hsafe : updater ∈ doc.names ∨ NameSafe updater := .inr nameSafe_updater
  obtain ⟨heq, hwhole⟩ := rewritten_eq hdoc hs
  rw [heq, names_reload hwhole, names_writeAll (safeWrite_settings hs) (mem_names_addSection hsafe),
    names_addSection_cases hsafe]
  split_ifs with hmem
  · exact hcount
  · rw [List.count_append, List.count_eq_zero_of_not_mem hmem]
    simp

theorem options_rewritten (f : Field) : winner (options (rewritten doc s) updater) f =
    (putKey ((doc.keysAt updater).filter f.spells)
      (f.key, f.encode (s.get f))).eraseDups.getLast? := by
  have hoptions : options (rewritten doc s) updater =
      ((rewritten doc s).keysAt updater).eraseDups := rfl
  rw [winner, hoptions, filter_eraseDups, keysAt_rewritten hdoc hs, filter_foldl_putKey,
    filter_spells, List.foldl_cons, List.foldl_nil]

theorem winner_rewritten {value : Value} (h : f.encode (s.get f) = some value) :
    winner (options (rewritten doc s) updater) f =
      if f.key ∈ options doc updater then winner (options doc updater) f else some f.key := by
  have hmem : f.key ∈ (doc.keysAt updater).filter f.spells ↔ f.key ∈ options doc updater := by
    rw [List.mem_filter, and_iff_left f.spells_key]
    exact List.mem_eraseDups.symm
  rw [options_rewritten hdoc hs, h, putKey]
  simp only [hmem]
  split_ifs with hown
  · exact (winner_eq doc f).symm
  · exact getLast?_eraseDups_concat (mt hmem.mp hown)

theorem winner_rewritten_none (h : f.encode (s.get f) = none)
    (hnone : winner (options doc updater) f = none) :
    winner (options (rewritten doc s) updater) f = none := by
  rw [options_rewritten hdoc hs, h, putKey, winner_eq_none.mp hnone]
  rfl

theorem rawText_rewritten_key {value : Value} (h : f.encode (s.get f) = some value) :
    rawText (rewritten doc s) f.key =
      valueOf (render f.key value (doc.writtenAt updater f.key).head?) := by
  rw [rawText, get_eq, writtenAt_rewritten hdoc hs, lookup_key, h]
  rfl

theorem writtenAt_rewritten_other (hspells : f.spells key = true) (hne : key ≠ f.key) :
    (rewritten doc s).writtenAt updater key = doc.writtenAt updater key := by
  have hkey : spelling key = f.key := of_decide_eq_true hspells
  have hfields : ∀ g : Field, key ≠ g.key := by
    rintro g rfl
    exact hne (congrArg Field.key (Field.spells_unique g.spells_key hspells))
  have hservice : key ≠ service := by
    rintro rfl
    revert hkey
    cases f <;> decide
  rw [writtenAt_rewritten hdoc hs, lookup_other s hfields hservice]
  rfl

theorem rawText_rewritten_other (hspells : f.spells key = true) (hne : key ≠ f.key) :
    rawText (rewritten doc s) key = rawText doc key := by
  rw [rawText, get_eq, writtenAt_rewritten_other hdoc hs hspells hne, ← get_eq]
  rfl

theorem legacy_rewritten : legacy (rewritten doc s) =
    strip (((doc.writtenAt updater service).tail.head?.map valueOf).getD []) := by
  have hwritten := writtenAt_rewritten hdoc hs service
  rw [lookup_service] at hwritten
  change strip (((rewritten doc s).get updater service).getD []) = _
  rw [get_eq, hwritten]
  rfl

end Rewritten

/-! ## What is loaded after a write -/

/-- The option of the field's own name is there, and one of another spelling counts over it. -/
def Shadowed (doc : CfgDocument) (f : Field) : Prop :=
  f.key ∈ options doc updater ∧ winner (options doc updater) f ≠ some f.key

def secondService (doc : CfgDocument) : Str :=
  strip (((doc.writtenAt updater service).tail.head?.map valueOf).getD [])

/-- Settings the file gives back, written over those it held. -/
structure Faithful (doc : CfgDocument) (before after : Settings) : Prop where
  shadowed : ∀ f, Shadowed doc f → after.get f = before.get f
  storable : ∀ f, ¬ Shadowed doc f → f.Storable (after.get f)
  legacy : after.stopServices = none → secondService doc = []

/-- What a call leaves of the settings it was given. -/
structure Changed (int : Str → Option Int) (before after : Settings) : Prop where
  held : ∀ f : Field, f.Held int (after.get f)
  stopServices : after.stopServices = before.stopServices
  serviceBackend : after.serviceBackend = before.serviceBackend

theorem encode_eq_none {v : f.Value} (h : f.encode v = none) : f = .stopServices := by
  cases f <;> first | rfl | exact absurd h (by simp [Field.encode])

theorem winner_of_mem {keys : List Str} (h : f.key ∈ keys) : ∃ key, winner keys f = some key := by
  have hmem : f.key ∈ keys.filter f.spells := List.mem_filter.mpr ⟨h, f.spells_key⟩
  exact Option.isSome_iff_exists.mp (List.getLast?_isSome.mpr (List.ne_nil_of_mem hmem))

theorem winner_of_no_services {int : Str → Option Int} (h : Loads int doc s)
    (hnone : s.stopServices = none) : winner (options doc updater) .stopServices = none := by
  have hget := h.fields .stopServices
  cases hw : winner (options doc updater) .stopServices with
  | none => rfl
  | some key =>
    rw [hw] at hget
    exact nomatch hnone.symm.trans hget

section Saved
variable {int : Str → Option Int} {before after : Settings} (hdoc : doc.Whole)
  (hbefore : Loads int doc before) (hafter : Changed int before after)
  (hwords : ∀ f : Field, f.Words (after.get f))

include hafter hwords in
theorem safeSettings : SafeSettings after := by
  intro w hw value hvalue
  rw [settingsWrites_eq, List.mem_append, List.mem_map, List.mem_singleton] at hw
  rcases hw with ⟨f, -, rfl⟩ | rfl
  · exact whole_encode (hafter.held f) (hwords f) hvalue
  · exact nomatch hvalue

include hdoc hbefore hafter hwords

theorem readable_rewritten : Readable int (rewritten doc after) (options (rewritten doc after) updater) := by
  have hs := safeSettings hafter hwords
  intro key hkey f hspells
  by_cases hne : key = f.key
  · subst hne
    cases henc : f.encode (after.get f) with
    | none =>
      obtain rfl := encode_eq_none henc
      rfl
    | some value =>
      have hex : ∀ item ∈ (doc.writtenAt updater f.key).head?, CfgDoc.Whole item := fun item hitem =>
        hdoc.of_mem_writtenAt (List.mem_of_head? hitem)
      obtain ⟨v, hread, -⟩ := read_encode hex (hafter.held f) (hwords f) henc
      rw [rawText_rewritten_key hdoc hs henc, hread]
      rfl
  · have hmem : key ∈ options doc updater := by
      rw [options, List.mem_eraseDups] at hkey ⊢
      refine mem_keysAt.mpr ?_
      rw [← writtenAt_rewritten_other hdoc hs hspells hne]
      exact mem_keysAt.mp hkey
    rw [rawText_rewritten_other hdoc hs hspells hne]
    exact hbefore.readable key hmem f hspells

theorem get_of_shadowed (h : Shadowed doc f) :
    (winner (options (rewritten doc after) updater) f).elim (absent (rewritten doc after) f)
      (readAt int (rewritten doc after) f) = before.get f := by
  have hs := safeSettings hafter hwords
  obtain ⟨hown, hother⟩ := h
  obtain ⟨key, hkey⟩ := winner_of_mem hown
  have hne : key ≠ f.key := fun he => hother (he ▸ hkey)
  have hspells := (mem_of_winner hkey).2
  have hbef := hbefore.fields f
  rw [hkey, Option.elim_some] at hbef
  cases henc : f.encode (after.get f) with
  | none =>
    obtain rfl := encode_eq_none henc
    have hnone : before.stopServices = none := by
      rw [← hafter.stopServices]
      exact Option.map_eq_none_iff.mp henc
    exact nomatch (winner_of_no_services hbefore hnone).symm.trans hkey
  | some value =>
    rw [winner_rewritten hdoc hs henc, if_pos hown, hkey, Option.elim_some, hbef, readAt, readAt,
      rawText_rewritten_other hdoc hs hspells hne]

omit hbefore in
theorem get_iff_storable (h : ¬ Shadowed doc f) {value : CfgDoc.Value}
    (henc : f.encode (after.get f) = some value) :
    after.get f = (winner (options (rewritten doc after) updater) f).elim
        (absent (rewritten doc after) f) (readAt int (rewritten doc after) f) ↔
      f.Storable (after.get f) := by
  have hs := safeSettings hafter hwords
  have hwinner : winner (options (rewritten doc after) updater) f = some f.key := by
    rw [winner_rewritten hdoc hs henc]
    split_ifs with hown
    · exact not_not.mp fun hne => h ⟨hown, hne⟩
    · rfl
  have hex : ∀ item ∈ (doc.writtenAt updater f.key).head?, CfgDoc.Whole item := fun item hitem =>
    hdoc.of_mem_writtenAt (List.mem_of_head? hitem)
  obtain ⟨v, hread, hiff⟩ := read_encode hex (hafter.held f) (hwords f) henc
  rw [hwinner, Option.elim_some, readAt, rawText_rewritten_key hdoc hs henc, hread]
  exact hiff

theorem get_without_services (hnone : after.stopServices = none) :
    winner (options (rewritten doc after) updater) .stopServices = none ∧
      absent (rewritten doc after) .stopServices =
        if secondService doc = [] then none else some [secondService doc] := by
  have hs := safeSettings hafter hwords
  have henc : Field.stopServices.encode (after.get .stopServices) = none :=
    Option.map_eq_none_iff.mpr hnone
  refine ⟨winner_rewritten_none hdoc hs henc
    (winner_of_no_services hbefore (hafter.stopServices ▸ hnone)), ?_⟩
  rw [absent, legacy_rewritten hdoc hs]
  rfl

theorem rewritten_loads_iff :
    settingsFromDoc int (rewritten doc after) = .ok after ↔ Faithful doc before after := by
  have hs := safeSettings hafter hwords
  rw [settingsFromDoc_ok]
  constructor
  · intro h
    refine ⟨fun f hf => ?_, fun f hf => ?_, fun hnone => ?_⟩
    · rw [h.fields f]
      exact get_of_shadowed hdoc hbefore hafter hwords hf
    · cases henc : f.encode (after.get f) with
      | none =>
        obtain rfl := encode_eq_none henc
        have hnone : after.stopServices = none := Option.map_eq_none_iff.mp henc
        exact fun units he => nomatch hnone.symm.trans he
      | some value => exact (get_iff_storable hdoc hafter hwords hf henc).mp (h.fields f)
    · obtain ⟨hwinner, habsent⟩ := get_without_services hdoc hbefore hafter hwords hnone
      have hget := h.fields .stopServices
      rw [hwinner, Option.elim_none, habsent] at hget
      by_contra hsecond
      rw [if_neg hsecond] at hget
      exact nomatch hnone.symm.trans hget
  · intro h
    refine ⟨count_rewritten hdoc hs hbefore.single, readable_rewritten hdoc hbefore hafter hwords,
      fun f => ?_, hafter.serviceBackend ▸ hbefore.backend⟩
    by_cases hf : Shadowed doc f
    · rw [h.shadowed f hf]
      exact (get_of_shadowed hdoc hbefore hafter hwords hf).symm
    cases henc : f.encode (after.get f) with
    | none =>
      obtain rfl := encode_eq_none henc
      have hnone : after.stopServices = none := Option.map_eq_none_iff.mp henc
      obtain ⟨hwinner, habsent⟩ := get_without_services hdoc hbefore hafter hwords hnone
      rw [hwinner, Option.elim_none, habsent, if_pos (h.legacy hnone)]
      exact hnone
    | some value => exact (get_iff_storable hdoc hafter hwords hf henc).mpr (h.storable f hf)

end Saved

/-! ## What a call leaves -/

section Calls
variable {int : Str → Option Int} {before mid : Settings} {call : Call}
  {edit : Settings → Settings} {text text' : Str}

theorem Changed.refl (h : ∀ f : Field, f.Held int (before.get f)) : Changed int before before :=
  ⟨h, rfl, rfl⟩

/-- A field of this host's wiring is no call's to set. -/
def Wiring (f : Field) : Prop := f = .stopServices ∨ f = .serviceBackend

theorem Changed.put (h : Changed int before mid) {v : f.Value} (hf : ¬ Wiring f) (hv : f.Held int v) :
    Changed int before (mid.put f v) := by
  have hkeep : ∀ g : Field, Wiring g → (mid.put f v).get g = mid.get g := fun g hg =>
    Settings.get_put_of_ne mid v fun he => hf (he ▸ hg)
  refine ⟨fun g => ?_, (hkeep .stopServices (.inl rfl)).trans h.stopServices,
    (hkeep .serviceBackend (.inr rfl)).trans h.serviceBackend⟩
  by_cases hg : g = f
  · subst hg
    rw [Settings.get_put_self]
    exact hv
  · rw [Settings.get_put_of_ne mid v hg]
    exact h.held g

theorem isHexColor_spec {w : Str} (h : isHexColor w = true) :
    ∃ digits, PlainWord digits ∧ (w = '#' :: digits ∨ w = '#' :: (digits ++ ['\n'])) := by
  simp only [isHexColor, Bool.and_eq_true, Bool.or_eq_true, decide_eq_true_eq, List.all_eq_true] at h
  obtain ⟨⟨⟨hsign, hlength⟩, hhex⟩, hend⟩ := h
  have hsplit : w = '#' :: ((w.drop 1).take 6 ++ w.drop 7) := by
    calc w = w.take 1 ++ w.drop 1 := (List.take_append_drop 1 w).symm
      _ = ['#'] ++ ((w.drop 1).take 6 ++ (w.drop 1).drop 6) := by rw [hsign, List.take_append_drop]
      _ = _ := by rw [List.drop_drop]; rfl
  have hplain : PlainWord ((w.drop 1).take 6) :=
    plainWord_of_ascii (List.ne_nil_of_length_eq_add_one hlength) fun c hc => by
      have hc := hhex c hc
      simp only [isHex, Bool.or_eq_true, Bool.and_eq_true, decide_eq_true_eq] at hc
      omega
  refine ⟨_, hplain, ?_⟩
  rcases hend with hend | hend <;> rw [hend] at hsplit
  · exact .inl (by rwa [List.append_nil] at hsplit)
  · exact .inr hsplit

theorem not_wiring_of_settable (h : settableOf key = some f) : ¬ Wiring f := by
  have hmem : f ∈ settable := List.mem_of_find?_eq_some h
  rintro (rfl | rfl) <;> revert hmem <;> decide

theorem held_coerceSetting (hint : ReadsInts int) {raw : PyVal} {v : f.Value}
    (hf : settableOf key = some f) (h : coerceSetting f raw = .ok v) : f.Held int v := by
  have hmem : f ∈ settable := List.mem_of_find?_eq_some hf
  unfold coerceSetting at h
  split at h
  · trivial
  · trivial
  · trivial
  · trivial
  · trivial
  · next text =>
    split_ifs at h with hcolor
    obtain rfl := Except.ok.inj h
    by_cases hnil : text = []
    · exact .inl hnil
    have hhex : isHexColor text = true := by simpa [hnil] using hcolor
    obtain ⟨digits, hplain, rfl | rfl⟩ := isHexColor_spec hhex
    · exact .inr (.inl ⟨digits, keptText_of_plainWord hplain, hplain.word.ne_nil, rfl⟩)
    · exact .inr (.inr ⟨digits, hplain, rfl⟩)
  · exact absurd hmem (by decide)
  · exact absurd hmem (by decide)
  · exact absurd hmem (by decide)
  · split_ifs at h with hbounds
    obtain rfl := Except.ok.inj h
    exact hint.small _ (by omega) (by omega)
  · split_ifs at h with hbounds
    obtain rfl := Except.ok.inj h
    exact hint.small _ (by omega) (by omega)
  · cases h

theorem Changed.setAll {values : List (Σ f : Field, f.Value)} (h : Changed int before mid)
    (hvalues : ∀ v ∈ values, ¬ Wiring v.1 ∧ v.1.Held int v.2) :
    Changed int before (setAll values mid) := by
  induction values generalizing mid with
  | nil => exact h
  | cons v values ih =>
    rw [List.forall_mem_cons] at hvalues
    exact ih (h.put hvalues.1.1 hvalues.1.2) hvalues.2

theorem settingsSet_spec (hint : ReadsInts int) {patch : List (Str × PyVal)}
    {values : List (Σ f : Field, f.Value)} (h : settingsSet patch = .ok values) :
    ∀ v ∈ values, ¬ Wiring v.1 ∧ v.1.Held int v.2 := by
  unfold settingsSet at h
  split_ifs at h
  · cases h
  dsimp only at h
  split_ifs at h
  · cases h
  intro v hv
  obtain ⟨⟨f, raw⟩, hknown, hcoerce⟩ := (mem_mapM h v).mp hv
  obtain ⟨w, hw, hcoerce⟩ := bind_ok hcoerce
  obtain rfl := Except.ok.inj hcoerce
  obtain ⟨⟨key, raw'⟩, -, hknown⟩ := List.mem_filterMap.mp hknown
  obtain ⟨g, hg, he⟩ := Option.map_eq_some_iff.mp hknown
  cases he
  exact ⟨not_wiring_of_settable hg, held_coerceSetting hint hg hw⟩

theorem changed_edit (hint : ReadsInts int) (hbefore : ∀ f : Field, f.Held int (before.get f))
    (h : call.edit = .ok edit) : Changed int before (edit before) := by
  have hrefl := Changed.refl hbefore
  cases call with
  | settingsSet patch =>
    obtain ⟨values, hvalues, h⟩ := bind_ok h
    obtain rfl := Except.ok.inj h
    exact hrefl.setAll (settingsSet_spec hint hvalues)
  | busIgnore | busUnignore | canbusIgnore | canbusUnignore =>
    obtain ⟨x, -, h⟩ := bind_ok h
    obtain rfl := Except.ok.inj h
    exact hrefl.put (by simp [Wiring]) trivial

theorem words_of_faithful {after : Settings} (hwords : ∀ f : Field, f.Words (before.get f))
    (h : Faithful doc before after) (f : Field) : f.Words (after.get f) := by
  by_cases hf : Shadowed doc f
  · rw [h.shadowed f hf]
    exact hwords f
  have hstore := h.storable f hf
  cases f with
  | ignoredSerials | ignoredCanbusUuids => exact fun x hx => (hstore x hx).word
  | _ => trivial

/-- A call's settings are read back just where what it changed is what counts, and is read as it
is written. -/
theorem settings_saved_iff (hint : ReadsInts int)
    (hbefore : settingsFromDoc int (ofText text) = .ok before) (hedit : call.edit = .ok edit)
    (hrun : call.run int text = .ok text') :
    settingsFromDoc int (ofText text') = .ok (edit before) ↔
      edit before = before ∨ Faithful (ofText text) before (edit before) := by
  have hdoc := whole_ofText text
  have hloads := (settingsFromDoc_ok int _).mp hbefore
  have hheld := hloads.held hint hdoc
  have hchanged := changed_edit hint (fun f => (hheld f).1) hedit
  have hmutate : call.run int text = .ok (if edit before = before then text
      else ((settingsWrites (edit before)).foldl (writeOption updater) (ofText text)).render) := by
    rw [Call.run, hedit]
    change (settingsMutate int text fun s => .ok (edit s)).mapError ApiError.config = _
    rw [settingsMutate, hbefore]
    change Except.mapError ApiError.config (if edit before = before then _ else _) = _
    split_ifs <;> rfl
  obtain rfl := Except.ok.inj (hmutate.symm.trans hrun)
  by_cases hsame : edit before = before
  · rw [if_pos hsame, hsame]
    exact iff_of_true hbefore (.inl rfl)
  rw [if_neg hsame, or_iff_right hsame]
  by_cases hwords : ∀ f : Field, f.Words ((edit before).get f)
  · exact rewritten_loads_iff hdoc hloads hchanged hwords
  · refine iff_of_false (fun h => hwords fun f => ?_) fun h => hwords ?_
    · exact (((settingsFromDoc_ok int _).mp h).held hint (whole_ofText _) f).2
    · exact words_of_faithful (fun f => (hheld f).2) h

end Calls

/-! ## Two files -/

def digits (text : Str) : Option Nat :=
  if text ≠ [] ∧ text.all Char.isDigit then some (Nat.ofDigitChars 10 text 0) else none

/-- `int` of a text of digits, with or without a sign -/
def decimal : Str → Option Int
  | '-' :: text => (digits text).map fun n => -(n : Int)
  | text => (digits text).map fun n => (n : Int)

theorem digits_repr (n : Nat) : digits n.repr.toList = some n := by
  have hdigits : (Nat.toDigits 10 n).all Char.isDigit = true := List.all_eq_true.mpr fun c hc =>
    Nat.isDigit_of_mem_toDigits (by decide) (by decide) hc
  rw [digits, Nat.toList_repr, if_pos ⟨Nat.toDigits_ne_nil, hdigits⟩,
    Nat.ofDigitChars_toDigits (by decide) (by decide)]

theorem decimal_toString (n : Int) : decimal (toString n).toList = some n := by
  cases n with
  | ofNat m =>
    have htext : (toString (Int.ofNat m)).toList = m.repr.toList := rfl
    have hhead : ∀ text, m.repr.toList ≠ '-' :: text := fun text he => by
      have hmem : '-' ∈ Nat.toDigits 10 m := by
        rw [← Nat.toList_repr, he]
        exact List.mem_cons_self
      exact absurd (Nat.isDigit_of_mem_toDigits (by decide) (by decide) hmem) (by decide)
    rw [htext, decimal, digits_repr]
    · rfl
    · exact hhead
  | negSucc m =>
    rw [toList_negSucc, decimal, digits_repr]
    rfl

theorem readsInts_decimal : ReadsInts decimal :=
  ⟨fun _ n _ => decimal_toString n, fun n _ _ => decimal_toString n⟩

def fileOf (lines : List String) : Str := lines.flatMap fun line => line.toList ++ ['\n']

def oneSpelling : List String := ["[updater]", "enable_flashing: true"]

def bothSpellings : List String := ["[updater]", "enable_flashing: true", "enable-flashing: true"]

def added : List String := ["make_jobs: 0", "clean_before_build: true", "reseed_on_build: true",
  "service_backend: moonraker", "dry_run: false", "allow_flash_while_printing: false",
  "log_ring_size: 2000", "platformio_bin: ", "flashtool_path: ", "ui_accent_color: ",
  "ignored_serials:", "ignored_canbus_uuids:"]

def disableFlashing : Call := .settingsSet [("enable_flashing".toList, .bool false)]

/-- With one spelling in the file, flashing is disabled by the call that disables it. -/
theorem disabled_flashing_saved : ∃ before edit text',
    settingsFromDoc decimal (ofText (fileOf oneSpelling)) = .ok before ∧
      disableFlashing.edit = .ok edit ∧
      disableFlashing.run decimal (fileOf oneSpelling) = .ok text' ∧
      settingsFromDoc decimal (ofText text') = .ok (edit before) := by
  have hbefore : settingsFromDoc decimal (ofText (fileOf oneSpelling)) =
      .ok { enableFlashing := true } := by decide +kernel
  have hedit : disableFlashing.edit = .ok (setAll [⟨.enableFlashing, false⟩]) := rfl
  have hoptions : options (ofText (fileOf oneSpelling)) updater = [Field.enableFlashing.key] := by
    decide +kernel
  have hnone : ∀ f, ¬ Shadowed (ofText (fileOf oneSpelling)) f := fun f => by
    rw [Shadowed, hoptions]
    cases f <;> decide
  have hok : (disableFlashing.run decimal (fileOf oneSpelling)).toOption.isSome = true := by
    decide +kernel
  cases hrun : disableFlashing.run decimal (fileOf oneSpelling) with
  | error e =>
    rw [hrun] at hok
    cases hok
  | ok text' =>
  refine ⟨_, _, _, hbefore, hedit, rfl,
    (settings_saved_iff readsInts_decimal hbefore hedit hrun).mpr (.inr ⟨?_, ?_, ?_⟩)⟩
  · exact fun f hf => absurd hf (hnone f)
  · intro f _
    cases f with
    | stopServices => exact fun units he => nomatch he
    | ignoredSerials | ignoredCanbusUuids => exact fun x hx => nomatch hx
    | uiAccentColor => exact fun he => nomatch he
    | _ => trivial
  · exact fun _ => by decide +kernel

/-- With the other spelling after it, flashing stays enabled. -/
theorem disabled_flashing_enabled : ∃ before edit text' loaded,
    settingsFromDoc decimal (ofText (fileOf bothSpellings)) = .ok before ∧
      disableFlashing.edit = .ok edit ∧
      disableFlashing.run decimal (fileOf bothSpellings) = .ok text' ∧
      settingsFromDoc decimal (ofText text') = .ok loaded ∧
      (edit before).enableFlashing = false ∧ loaded.enableFlashing = true := by
  have hbefore : settingsFromDoc decimal (ofText (fileOf bothSpellings)) =
      .ok { enableFlashing := true } := by decide +kernel
  have hrun : disableFlashing.run decimal (fileOf bothSpellings) = .ok (fileOf
      (["[updater]", "enable_flashing: false", "enable-flashing: true"] ++ added)) := by
    decide +kernel
  have hloaded : settingsFromDoc decimal (ofText (fileOf
      (["[updater]", "enable_flashing: false", "enable-flashing: true"] ++ added))) =
      .ok { enableFlashing := true } := by decide +kernel
  exact ⟨_, setAll [⟨.enableFlashing, false⟩], _, _, hbefore, rfl, hrun, hloaded, rfl, rfl⟩

end McuUpdater.Agent.SettingsApi
