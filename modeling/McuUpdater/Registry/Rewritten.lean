import McuUpdater.Registry.Exact
import McuUpdater.Registry.PatchText

/-! One option of a type, saved and read again: which texts, lists, words and patches come back
as they were. -/
namespace McuUpdater.Config
open PyText Dict Outline CfgDoc CfgDocument McuUpdater.Registry Typelist ExceptList
open Updater (KeptText PlainWord)
variable {doc final : CfgDocument} {sec key t : Str} {l units : List Str} {value : Option Value}
  {ps : List MakefilePatch}

/-! ## Reading an option -/

theorem strip_get (h : doc.Whole) (sec key : Str) :
    strip ((doc.get sec key).getD []) = joinWith ['\n'] (doc.getList sec key) := by
  rw [getList_eq h, get_eq]
  cases hw : (doc.writtenAt sec key).head? with
  | none => rfl
  | some item => exact strip_valueOf (h.of_mem_writtenAt (List.mem_of_head? hw))

theorem keptLines_getList (h : doc.Whole) (sec key : Str) : KeptLines (doc.getList sec key) :=
  fun _ hx => reads_of_mem_getList h hx

theorem keptText_get (h : doc.Whole) (sec key : Str) : KeptText (strip ((doc.get sec key).getD [])) :=
  ⟨doc.getList sec key, keptLines_getList h sec key, strip_get h sec key⟩

theorem joinWith_eq_nil (h : KeptLines l) : joinWith ['\n'] l = [] ↔ l = [] := by
  cases l with
  | nil => exact iff_of_true rfl rfl
  | cons x l =>
    have hne : x ≠ [] := (h x List.mem_cons_self).2.2
    refine iff_of_false ?_ (by simp)
    rw [joinWith_newline]
    simp [hne]

theorem shown_kept (h : KeptLines l) : shown l = l :=
  shown_eq_self fun x hx => ⟨(h x hx).1, (h x hx).2.2⟩

/-! ## What a save makes of it -/

/-- The next option of a key says nothing, should the first be removed. -/
def Vacant (doc : CfgDocument) (sec key : Str) : Prop :=
  ∀ item ∈ (doc.writtenAt sec key).tail.head?, texts item = []

/-- An option before a save and after it. -/
structure Rewritten (doc final : CfgDocument) (sec key : Str) (value : Option Value) : Prop where
  before : doc.Whole
  after : final.Whole
  safe : value.isSome → KeySafe key ∧ OneLine key
  written : final.writtenAt sec key = putWritten key value (doc.writtenAt sec key)

theorem Rewritten.existing (h : Rewritten doc final sec key value) :
    ∀ item ∈ (doc.writtenAt sec key).head?, Whole item :=
  fun _ hitem => h.before.of_mem_writtenAt (List.mem_of_head? hitem)

theorem Rewritten.get_some {v : Value} (h : Rewritten doc final sec key (some v)) :
    final.get sec key = some (valueOf (render key v (doc.writtenAt sec key).head?)) := by
  rw [get_eq, h.written]
  rfl

theorem Rewritten.getList_none (h : Rewritten doc final sec key none) :
    final.getList sec key = (doc.writtenAt sec key).tail.head?.elim [] texts := by
  rw [getList_eq h.after, h.written]
  rfl

theorem Rewritten.vacant_iff (h : Rewritten doc final sec key none) :
    final.getList sec key = [] ↔ Vacant doc sec key := by
  rw [h.getList_none, Vacant]
  cases (doc.writtenAt sec key).tail.head? <;> simp

theorem Rewritten.getList_some (h : Rewritten doc final sec key (some (.list l)))
    (hl : ∀ x ∈ l, OneLine x) : final.getList sec key = shown l := by
  rw [getList_eq h.after, h.written]
  exact texts_render_list (h.safe rfl).1 h.existing hl

theorem Rewritten.list_iff (h : Rewritten doc final sec key (some (.list l)))
    (hl : ∀ x ∈ l, OneLine x) : final.getList sec key = l ↔ KeptLines l := by
  constructor
  · intro he
    exact he ▸ keptLines_getList h.after sec key
  · intro hkept
    rw [h.getList_some hl, shown_kept hkept]

theorem Rewritten.optional_list_iff
    (h : Rewritten doc final sec key (if l = [] then none else some (.list l)))
    (hl : ∀ x ∈ l, OneLine x) :
    final.getList sec key = l ↔ KeptLines l ∧ (l = [] → Vacant doc sec key) := by
  by_cases hnil : l = []
  · rw [if_pos hnil] at h
    have hkept : KeptLines l := hnil ▸ fun _ hx => absurd hx List.not_mem_nil
    rw [hnil, h.vacant_iff]
    exact ⟨fun hv => ⟨hnil ▸ hkept, fun _ => hv⟩, fun hv => hv.2 rfl⟩
  · rw [if_neg hnil] at h
    rw [h.list_iff hl]
    exact ⟨fun hk => ⟨hk, fun he => absurd he hnil⟩, And.left⟩

theorem Rewritten.text_iff (h : Rewritten doc final sec key (some (.text t))) :
    strip ((final.get sec key).getD []) = t ↔ KeptText t := by
  constructor
  · intro he
    exact he ▸ keptText_get h.after sec key
  · rintro ⟨lines, hlines, rfl⟩
    rw [h.get_some]
    exact strip_valueOf_text (h.safe rfl).1 (h.safe rfl).2 h.existing hlines

theorem Rewritten.optional_text_iff
    (h : Rewritten doc final sec key (if strip t = [] then none else some (.text (strip t)))) :
    strip ((final.get sec key).getD []) = t ↔ KeptText t ∧ (t = [] → Vacant doc sec key) := by
  by_cases hnil : strip t = []
  · rw [if_pos hnil] at h
    rw [← h.vacant_iff, strip_get h.after]
    constructor
    · intro he
      have hkept : KeptText t := ⟨_, keptLines_getList h.after sec key, he.symm⟩
      rw [strip_of_trimmed hkept.trimmed] at hnil
      rw [hnil] at he
      exact ⟨hkept, fun _ => (joinWith_eq_nil (keptLines_getList h.after sec key)).mp he⟩
    · rintro ⟨hkept, hv⟩
      rw [strip_of_trimmed hkept.trimmed] at hnil
      rw [hv hnil, hnil]
      rfl
  · rw [if_neg hnil] at h
    have hne : t ≠ [] := by
      rintro rfl
      exact hnil rfl
    constructor
    · intro he
      have hkept : KeptText t := he ▸ keptText_get h.after sec key
      exact ⟨hkept, fun he => absurd he hne⟩
    · rintro ⟨hkept, -⟩
      have htrim := strip_of_trimmed hkept.trimmed
      rw [htrim] at h
      exact h.text_iff.mpr hkept

theorem Rewritten.words_iff
    (h : Rewritten doc final sec key (some (.text (joinWith commaSpace units)))) :
    final.getCsv sec key = some units ↔ ∀ w ∈ units, PlainWord w := by
  rw [getCsv, h.get_some, Option.map_some, Option.some.injEq,
    Updater.csv_joined_iff h.existing (h.safe rfl).1]

/-! ## Patches -/

/-- `get_list` of the patches of a family, each parsed. -/
def parsePatches (type : Str) (raws : List Str) : Except Error (List MakefilePatch) :=
  raws.mapM fun raw =>
    match parsePatch raw with
    | some patch => .ok patch
    | none => .error (.corrupt (.badPatch type raw))

theorem parsePatches_render {type : Str} (h : ∀ p ∈ ps, KeptPatch p) :
    parsePatches type (ps.map renderPatch) = .ok ps := by
  induction ps with
  | nil => rfl
  | cons p ps ih =>
    rw [List.forall_mem_cons] at h
    have hrest := ih h.2
    rw [parsePatches] at hrest
    rw [parsePatches, List.map_cons, List.mapM_cons, hrest, h.1.parse]
    rfl

theorem length_parsePatches {type : Str} {raws : List Str} (h : parsePatches type raws = .ok ps) :
    ps.length = raws.length := by
  induction raws generalizing ps with
  | nil =>
    cases h
    rfl
  | cons raw raws ih =>
    obtain ⟨p, rest, -, hrest, rfl⟩ := mapM_cons_ok h
    rw [List.length_cons, List.length_cons, ih hrest]

theorem mem_parsePatches {type : Str} {raws : List Str} (h : parsePatches type raws = .ok ps) :
    (∀ p ∈ ps, ∃ raw ∈ raws, parsePatch raw = some p) ∧ ∀ raw ∈ raws, (parsePatch raw).isSome := by
  refine ⟨fun p hp => ?_, fun raw hraw => ?_⟩
  · obtain ⟨raw, hraw, hparse⟩ := (mem_mapM h p).mp hp
    split at hparse
    · next patch hpatch => exact ⟨raw, hraw, Except.ok.inj hparse ▸ hpatch⟩
    · cases hparse
  · obtain ⟨p, hparse⟩ := ok_of_mapM h hraw
    split at hparse
    · next patch hpatch => rw [hpatch]; rfl
    · cases hparse

section Patches
variable {type : Str} {read : List MakefilePatch} (h : Rewritten doc final sec key
  (if ps.filter (·.isValid) = [] then none else some (.list ((ps.filter (·.isValid)).map renderPatch))))
include h

theorem Rewritten.parsePatches_of_kept (hkept : ∀ p ∈ ps, KeptPatch p)
    (hvacant : ps = [] → Vacant doc sec key) :
    parsePatches type (final.getList sec key) = .ok ps := by
  have hvalid : ps.filter (·.isValid) = ps :=
    List.filter_eq_self.mpr fun p hp => (hkept p hp).isValid
  rw [hvalid] at h
  by_cases hnil : ps = []
  · rw [if_pos hnil] at h
    rw [h.vacant_iff.mpr (hvacant hnil), hnil]
    rfl
  · rw [if_neg hnil] at h
    have hlines : KeptLines (ps.map renderPatch) :=
      List.forall_mem_map.mpr fun p hp => (hkept p hp).reads
    rw [h.getList_some fun x hx => (hlines x hx).2.1, shown_kept hlines]
    exact parsePatches_render hkept

theorem Rewritten.kept_of_parsePatches (hone : ∀ p ∈ ps, OneLine p.file ∧ OneLine p.line)
    (hparse : parsePatches type (final.getList sec key) = .ok read) (hsub : ps ⊆ read)
    (hempty : ps = [] → read = []) :
    (∀ p ∈ ps, KeptPatch p) ∧ (ps = [] → Vacant doc sec key) := by
  obtain ⟨hfrom, hall⟩ := mem_parsePatches hparse
  have hread : ∀ p ∈ ps, ReadPatch p := fun p hp => by
    obtain ⟨raw, hraw, hpatch⟩ := hfrom p (hsub hp)
    have hkept := keptLines_getList h.after sec key raw hraw
    exact readPatch_of_parse ⟨hkept.1, hkept.2.1⟩ hpatch
  have hvalid : ps.filter (·.isValid) = ps := List.filter_eq_self.mpr fun p hp => by
    simp [MakefilePatch.isValid, (hread p hp).file.2.2, (hread p hp).line.2.2]
  rw [hvalid] at h
  by_cases hnil : ps = []
  · rw [if_pos hnil] at h
    refine ⟨fun p hp => absurd (hnil ▸ hp) List.not_mem_nil, fun _ => h.vacant_iff.mp ?_⟩
    exact List.eq_nil_of_length_eq_zero (by rw [← length_parsePatches hparse, hempty hnil]; rfl)
  · rw [if_neg hnil] at h
    refine ⟨fun p hp => (hread p hp).kept ?_, fun he => absurd he hnil⟩
    have hlist := h.getList_some (l := ps.map renderPatch) (List.forall_mem_map.mpr fun p hp =>
      oneLine_renderPatch (hone p hp).1 (hone p hp).2)
    cases hc : isComment p.line with
    | false => rfl
    | true =>
      -- the line is cut off, and what is left of the patch does not parse
      obtain ⟨hne, hnone⟩ := (hread p hp).lost hc
      have hmem : reads (renderPatch p) ∈ final.getList sec key := by
        rw [hlist]
        exact mem_shown.mpr ⟨⟨_, List.mem_map_of_mem hp, rfl⟩, hne⟩
      have hsome := hall _ hmem
      rw [hnone] at hsome
      cases hsome

end Patches

end McuUpdater.Config
