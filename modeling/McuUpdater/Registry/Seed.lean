import Mathlib.Data.List.Nodup
import McuUpdater.Lib.Lines
import McuUpdater.Registry.CfgValues

/-! `seed.py`: the sections of Klipper and Katapult, added to a config that does not declare them.
The source path of each is given as the text that is written for it. -/
namespace McuUpdater.Seed
open PyText CfgDoc CfgDocument Outline

/-- `FAMILIES` -/
def families : List Str := ["klipper".toList, "katapult".toList]

def sectionOf (fw : Str) : Str := "firmware ".toList ++ fw

/-- `SEEDED_KEYS` -/
def seededKeys (fw : Str) : List (Str × Str) :=
  if fw = "klipper".toList then [("flashers".toList, "flashtool".toList)]
  else if fw = "katapult".toList then [("flashers".toList, "dfu_util, bootsel".toList)]
  else []

def optionLine (key value : Str) : Str := key ++ ':' :: ' ' :: value

def options (fw source : Str) : List (Str × Str) := ("source".toList, source) :: seededKeys fw

def optionLines (fw source : Str) : List Str :=
  (options fw source).map fun option => optionLine option.1 option.2

/-- `section_lines` -/
def sectionLines (fw source : Str) : Str :=
  joinWith ['\n'] (headerLine (sectionOf fw) :: optionLines fw source) ++ ['\n', '\n']

/-- `_FIRST_BLOCK_RE` matches here. -/
def opensBlock (s : Str) : Bool :=
  ((after "[firmware".toList s).or (after "[type".toList s)).any (·.head?.any isSpace)

/-- The lines above the first that opens a block, and those from it on. -/
def cutAtBlock : List Str → Option (List Str × List Str)
  | [] => none
  | line :: lines =>
    if opensBlock (joinWith ['\n'] (line :: lines)) then some ([], line :: lines)
    else (cutAtBlock lines).map fun found => (line :: found.1, found.2)

/-- The text above `_insert_at`, and the text from there on. -/
def insertAt (text : Str) : Option (Str × Str) :=
  (cutAtBlock (text.splitOn '\n')).map fun found =>
    let kept := found.1.rdropWhile (·.head? = some '#')
    (kept.flatMap (· ++ ['\n']), joinWith ['\n'] (found.1.drop kept.length ++ found.2))

def missing (text : Str) : List Str :=
  families.filter fun fw => !(CfgDocument.ofText text).hasSection (sectionOf fw)

def padded (text : Str) : Str :=
  let text := if text ≠ [] ∧ ¬['\n'] <:+ text then text ++ ['\n'] else text
  if text ≠ [] ∧ ¬['\n', '\n'] <:+ text then text ++ ['\n'] else text

/-- `seed_firmware_sections`: the new text, and the families added. -/
def seedFirmwareSections (source : Str → Str) (text : Str) : Str × List Str :=
  let missing := missing text
  if missing = [] then (text, [])
  else
    let block := missing.flatMap fun fw => sectionLines fw (source fw)
    match insertAt text with
    | none => (padded text ++ block, missing)
    | some (above, below) => (above ++ block ++ below, missing)

def PlainText (text : Str) : Prop := ∀ c ∈ text, isBreak c = true → c = '\n'

/-- The line that is taken for the first header is one. -/
def HeaderFound (text : Str) : Prop :=
  ∀ line ∈ (cutAtBlock (text.splitOn '\n')).bind (·.2.head?), isHeader line = true

/-- What is written for a source is read back as it is. -/
def Readable (s : Str) : Prop := OneLine s ∧ reads s = s

instance (text : Str) : Decidable (PlainText text) :=
  List.decidableBAll (fun c => isBreak c = true → c = '\n') text

instance (s : Str) : Decidable (Readable s) := inferInstanceAs (Decidable (_ ∧ _))

/-- The config declares both families and says all that it said before. -/
structure Seeded (source : Str → Str) (text : Str) : Prop where
  declared : ∀ fw ∈ families,
    sectionOf fw ∈ (ofText (seedFirmwareSections source text).1).names
  names : (ofText (seedFirmwareSections source text).1).names.Perm
    ((ofText text).names ++ (missing text).map sectionOf)
  /-- a family that was missing is declared once, any other section as often as before -/
  counted : ∀ name, (ofText (seedFirmwareSections source text).1).names.count name =
    if name ∈ (missing text).map sectionOf then 1 else (ofText text).names.count name
  written : ∀ fw ∈ missing text, ∀ option ∈ options fw (source fw),
    (ofText (seedFirmwareSections source text).1).get (sectionOf fw) option.1 = some option.2
  kept : ∀ name, (∀ fw ∈ missing text, name ≠ sectionOf fw) → ∀ key,
    (ofText (seedFirmwareSections source text).1).get name key = (ofText text).get name key
  lines : (ofText text).lines.Sublist (ofText (seedFirmwareSections source text).1).lines
  again : ∀ source', seedFirmwareSections source' (seedFirmwareSections source text).1 =
    ((seedFirmwareSections source text).1, [])

/-! ## What a document says -/

section Said
variable {line : Str} {lines above below body : List Str}

def said (lines : List Str) : List (Str × (Str → List (Block Str))) :=
  (cut isHeader lines).blocks.map fun sec => (nameOf sec, written sec.body)

theorem names_eq (doc : CfgDocument) : doc.names = (said doc.lines).map Prod.fst := by
  rw [said, List.map_map]
  rfl

theorem writtenAt_eq (doc : CfgDocument) (name key : Str) : doc.writtenAt name key =
    ((said doc.lines).find? (·.1 = name)).elim [] fun sec => sec.2 key := by
  rw [writtenAt, section?, said, List.find?_map]
  change _ = (Option.map _ (doc.sections.find? (nameOf · = name))).elim _ _
  cases doc.sections.find? (nameOf · = name) <;> rfl

/-- A line that opens no section and is no option. -/
structure Inert (line : Str) : Prop where
  header : isHeader line = false
  starts : startsItem line = true
  keyless : keyOf ⟨line, []⟩ = none

theorem inert_nil : Inert [] := ⟨rfl, rfl, rfl⟩

theorem inert_comment (h : line.head? = some '#') : Inert line := by
  cases line with
  | nil => exact nomatch h
  | cons c s =>
    obtain rfl := Option.some.inj h
    exact ⟨rfl, rfl, rfl⟩

theorem cut_starts (h : ∀ line ∈ lines, startsItem line = true) :
    cut startsItem lines = ⟨[], lines.map (⟨·, []⟩)⟩ := by
  induction lines with
  | nil => rfl
  | cons line lines ih =>
    rw [List.forall_mem_cons] at h
    simp [cut, ih h.2, h.1]

theorem written_append_inert (body : List Str) (h : ∀ line ∈ lines, Inert line) :
    written (body ++ lines) = written body := by
  funext key
  have hcut := cut_starts fun line hline => (h line hline).starts
  have hnone : (lines.map (⟨·, []⟩)).filter (fun item : Block Str => keyOf item = some key) = [] := by
    rw [List.filter_eq_nil_iff]
    rintro _ hitem
    obtain ⟨line, hline, rfl⟩ := List.mem_map.mp hitem
    simp [(h line hline).keyless]
  rw [written, items, cut_append_heading (by rw [hcut]), hcut, List.filter_append, hnone,
    List.append_nil]
  rfl

theorem said_append_inert (above : List Str) (h : ∀ line ∈ lines, Inert line) :
    said (above ++ lines) = said above := by
  suffices hcut : (∃ more, (∀ line ∈ more, Inert line) ∧
      (cut isHeader (above ++ lines)).lead = (cut isHeader above).lead ++ more) ∧
      said (above ++ lines) = said above from hcut.2
  induction above with
  | nil =>
    have hcut := cut_append (p := isHeader) (fun line hline => (h line hline).header) []
    rw [List.append_nil] at hcut
    exact ⟨⟨lines, h, by simp [hcut, cut]⟩, by simp [said, hcut, cut]⟩
  | cons line above ih =>
    obtain ⟨⟨more, hmore, hlead⟩, hsaid⟩ := ih
    rw [List.cons_append]
    simp only [said, cut] at hsaid ⊢
    split_ifs
    · refine ⟨⟨[], by simp, rfl⟩, ?_⟩
      rw [List.map_cons, List.map_cons, hsaid, hlead, written_append_inert _ hmore]
      rfl
    · exact ⟨⟨more, hmore, by rw [hlead, List.cons_append]⟩, hsaid⟩

theorem said_append (above : List Str) (h : (cut isHeader below).lead = []) :
    said (above ++ below) = said above ++ said below := by
  rw [said, cut_append_heading h, List.map_append]
  rfl

end Said

/-! ## The lines of a text -/

section Lines
variable {s t text : Str} {lines above below : List Str}

theorem joinWith_append (h : below ≠ []) : joinWith ['\n'] (above ++ below) =
    above.flatMap (· ++ ['\n']) ++ joinWith ['\n'] below := by
  induction above with
  | nil => rfl
  | cons line above ih =>
    obtain ⟨next, rest, hrest⟩ := List.exists_cons_of_ne_nil (show above ++ below ≠ [] by simp [h])
    rw [List.cons_append, hrest, joinWith_cons_cons, ← hrest, ih, List.flatMap_cons]
    simp only [List.append_assoc]

theorem joinWith_splitOn (text : Str) : joinWith ['\n'] (text.splitOn '\n') = text := by
  induction text with
  | nil => rfl
  | cons c text ih =>
    obtain ⟨line, rest, hsplit, -⟩ := Lines.splitOn_spec '\n' text
    rw [hsplit] at ih
    rw [List.splitOn_cons_eq_if_modifyHead, hsplit]
    by_cases hc : c = '\n'
    · simp [hc, joinWith_cons_cons, ih]
    · cases rest <;> simpa [hc, joinWith, List.modifyHead] using ih

theorem PlainText.oneLine (h : PlainText text) : ∀ line ∈ text.splitOn '\n', OneLine line := by
  intro line hline c hc
  by_contra hbreak
  have hmem := (Lines.isInfix_of_mem_splitOn hline).subset hc
  obtain rfl := h c hmem (by simpa using hbreak)
  exact Lines.eol_notMem_of_mem_splitOn hline hc

theorem cutAtBlock_some (h : cutAtBlock lines = some (above, below)) :
    lines = above ++ below ∧ opensBlock (joinWith ['\n'] below) = true := by
  induction lines generalizing above with
  | nil => cases h
  | cons line lines ih =>
    rw [cutAtBlock] at h
    split_ifs at h with hopen
    · cases h
      exact ⟨rfl, hopen⟩
    · obtain ⟨⟨above', below'⟩, hfound, heq⟩ := Option.map_eq_some_iff.mp h
      cases heq
      obtain ⟨hlines, hopen⟩ := ih hfound
      exact ⟨by rw [hlines, List.cons_append], hopen⟩

theorem PlainText.ended (h : PlainText text) : ∃ (lines : List Str) (last : Str),
    text = lines.flatMap (· ++ ['\n']) ++ last ∧ (∀ line ∈ lines, OneLine line) ∧ OneLine last := by
  have hline := h.oneLine
  have hjoin := joinWith_splitOn text
  have hne : text.splitOn '\n' ≠ [] := by
    obtain ⟨line, rest, hsplit, -⟩ := Lines.splitOn_spec '\n' text
    simp [hsplit]
  rw [← List.dropLast_append_getLast hne] at hline hjoin
  rw [joinWith_append (by simp)] at hjoin
  exact ⟨(text.splitOn '\n').dropLast, (text.splitOn '\n').getLast hne, hjoin.symm,
    fun line hmem => hline line (by simp [hmem]), hline _ (by simp)⟩

theorem padded_eq (text : Str) : ∃ n, padded text = text ++ List.replicate n '\n' ∧
    (n = 0 → text = [] ∨ ['\n'] <:+ text) := by
  unfold padded
  dsimp only
  split_ifs with hopen hmore hmore
  · exact ⟨2, by simp, by simp⟩
  · exact ⟨1, by simp, by simp⟩
  · exact ⟨1, by simp, by simp⟩
  · exact ⟨0, by simp, fun _ => by tauto⟩

theorem splitlines_newlines (n : Nat) (t : Str) : splitlines (List.replicate n '\n' ++ t) =
    List.replicate n [] ++ splitlines t := by
  induction n with
  | zero => rfl
  | succ n ih =>
    rw [List.replicate_succ, List.cons_append, ← List.nil_append (_ :: _),
      splitlines_append_newline oneLine_nil, ih]
    rfl

theorem splitlines_padded (h : PlainText text) : ∃ n, ∀ t,
    splitlines (padded text ++ t) = splitlines text ++ List.replicate n [] ++ splitlines t := by
  obtain ⟨n, hpad, hend⟩ := padded_eq text
  obtain ⟨lines, last, heq, hlines, hlast⟩ := h.ended
  by_cases hnil : last = []
  · refine ⟨n, fun t => ?_⟩
    have htext := splitlines_flatMap hlines []
    rw [hpad, heq, hnil, List.append_assoc, List.append_assoc, splitlines_flatMap hlines, htext,
      List.nil_append, splitlines_newlines]
    simp [splitlines]
  · cases n with
    | zero =>
      have hbreak : last.getLast? = some '\n' := by
        rcases hend rfl with hempty | ⟨init, hinit⟩
        · simp [heq, hnil] at hempty
        · rw [← hinit] at heq
          have := congrArg List.getLast? heq
          rw [List.getLast?_concat, List.getLast?_append] at this
          cases hl : last.getLast? with
          | none => exact absurd (List.getLast?_eq_none_iff.mp hl) hnil
          | some c => simpa [hl] using this.symm
      exact absurd (hlast _ (List.mem_of_getLast? hbreak)) (by decide)
    | succ n =>
      refine ⟨n, fun t => ?_⟩
      rw [hpad, heq, List.replicate_succ]
      simp only [List.append_assoc, List.cons_append]
      rw [splitlines_flatMap hlines, splitlines_append_newline hlast, splitlines_newlines,
        splitlines_flatMap hlines, splitlines_oneLine hlast hnil]
      simp

end Lines

/-! ## The sections that are added -/

section Sections
variable {fw key value text : Str} {fws : List Str} {source : Str → Str} {option : Str × Str}

def block (fw source : Str) : Block Str := ⟨headerLine (sectionOf fw), optionLines fw source ++ [[]]⟩

theorem sectionOf_inj {fw fw' : Str} (h : sectionOf fw = sectionOf fw') : fw = fw' :=
  List.append_cancel_left h

theorem nameSafe_sectionOf (h : fw ∈ families) : NameSafe (sectionOf fw) := by
  rcases List.mem_pair.mp h with rfl | rfl <;> exact ⟨by decide, by decide, by decide⟩

theorem seededKeys_eq (h : fw ∈ families) : ∃ flashers, Readable flashers ∧
    seededKeys fw = [("flashers".toList, flashers)] := by
  rcases List.mem_pair.mp h with rfl | rfl <;> exact ⟨_, by decide, rfl⟩

theorem keySafe_source : KeySafe "source".toList := keySafe_of_check (by decide)

theorem keySafe_flashers : KeySafe "flashers".toList := keySafe_of_check (by decide)

theorem optionOf_optionLine (hkey : KeySafe key) (h : Readable value) :
    optionOf (optionLine key value) = some (key, value) := by
  have hend : toEnd (' ' :: value) = true := toEnd_of_oneLine (oneLine_cons.mpr ⟨by decide, h.1⟩)
  have hread : reads (' ' :: value) = value := by
    rw [← List.singleton_append, reads_append_space (List.forall_mem_singleton.mpr rfl), h.2]
  rw [optionLine, optionOf_key hkey hend]
  exact congrArg (some ∘ Prod.mk key) hread

theorem optionLines_eq (h : fw ∈ families) (value : Str) : ∃ flashers, Readable flashers ∧
    options fw value = [("source".toList, value), ("flashers".toList, flashers)] := by
  obtain ⟨flashers, hread, hkeys⟩ := seededKeys_eq h
  exact ⟨flashers, hread, by rw [options, hkeys]⟩

theorem written_block (h : fw ∈ families) (hvalue : Readable value) (hoption : option ∈ options fw value) :
    (written (block fw value).body option.1).head?.map valueOf = some option.2 := by
  obtain ⟨flashers, hread, heq⟩ := optionLines_eq h value
  have hsource := optionOf_optionLine keySafe_source hvalue
  have hflashers := optionOf_optionLine keySafe_flashers hread
  have hcut : cut startsItem (optionLines fw value) = ⟨[], (optionLines fw value).map (⟨·, []⟩)⟩ := by
    refine cut_starts fun line hline => ?_
    rw [optionLines, heq] at hline
    rcases List.mem_pair.mp hline with rfl | rfl
    · exact keySafe_source.heads.startsItem
    · exact keySafe_flashers.heads.startsItem
  rw [block, written_append_inert _ (by simp [inert_nil]), written, items, hcut, optionLines, heq]
  rw [heq] at hoption
  have hne : "source".toList ≠ "flashers".toList := by decide
  generalize "source".toList = skey, "flashers".toList = fkey at hsource hflashers hne hoption ⊢
  rcases List.mem_pair.mp hoption with rfl | rfl
  · simp [keyOf, hsource, valueOf]
  · simp [keyOf, hsource, hflashers, hne, valueOf]

theorem block_fits (h : fw ∈ families) (value : Str) : (block fw value).Fits isHeader := by
  obtain ⟨flashers, -, heq⟩ := optionLines_eq h value
  refine ⟨by rw [block, isHeader, sectionName_header (nameSafe_sectionOf h)]; rfl, fun line hline => ?_⟩
  simp only [block, optionLines, heq, List.map_cons, List.map_nil, List.cons_append, List.nil_append,
    List.mem_cons, List.not_mem_nil, or_false] at hline
  rcases hline with rfl | rfl | rfl <;> rfl

theorem joinWith_newline {lines : List Str} (h : lines ≠ []) (t : Str) :
    joinWith ['\n'] lines ++ '\n' :: t = lines.flatMap (· ++ ['\n']) ++ t := by
  have hlast : joinWith ['\n'] lines =
      lines.dropLast.flatMap (· ++ ['\n']) ++ lines.getLast h := by
    conv_lhs => rw [← List.dropLast_append_getLast h, joinWith_append (by simp)]
    rfl
  conv_rhs => rw [← List.dropLast_append_getLast h]
  rw [hlast]
  simp

theorem oneLine_optionLine (hkey : OneLine key) (h : OneLine value) : OneLine (optionLine key value) :=
  oneLine_append.mpr ⟨hkey, oneLine_cons.mpr ⟨by decide, oneLine_cons.mpr ⟨by decide, h⟩⟩⟩

theorem splitlines_sectionLines (h : fw ∈ families) (hvalue : OneLine value) (t : Str) :
    splitlines (sectionLines fw value ++ t) = (block fw value).lines ++ splitlines t := by
  obtain ⟨flashers, hread, heq⟩ := optionLines_eq h value
  have hlines : ∀ line ∈ (block fw value).lines, OneLine line := by
    intro line hline
    simp only [Block.lines, block, optionLines, heq, List.map_cons, List.map_nil, List.cons_append,
      List.nil_append, List.mem_cons, List.not_mem_nil, or_false] at hline
    rcases hline with rfl | rfl | rfl | rfl
    · rcases List.mem_pair.mp h with rfl | rfl <;> decide
    · exact oneLine_optionLine (by decide) hvalue
    · exact oneLine_optionLine (by decide) hread.1
    · exact oneLine_nil
  have htext : sectionLines fw value ++ t = (block fw value).lines.flatMap (· ++ ['\n']) ++ t := by
    rw [sectionLines, List.append_assoc]
    exact (joinWith_newline (by simp) ('\n' :: t)).trans (by simp [Block.lines, block])
  rw [htext, splitlines_flatMap hlines]

theorem splitlines_sections (h : ∀ fw ∈ fws, fw ∈ families) (hsource : ∀ fw ∈ families, Readable (source fw))
    (t : Str) : splitlines (fws.flatMap (fun fw => sectionLines fw (source fw)) ++ t) =
      fws.flatMap (fun fw => (block fw (source fw)).lines) ++ splitlines t := by
  induction fws with
  | nil => rfl
  | cons fw fws ih =>
    rw [List.forall_mem_cons] at h
    rw [List.flatMap_cons, List.append_assoc, splitlines_sectionLines h.1 (hsource fw h.1).1, ih h.2,
      List.flatMap_cons, List.append_assoc]

theorem cut_sections (h : ∀ fw ∈ fws, fw ∈ families) :
    cut isHeader (fws.flatMap fun fw => (block fw (source fw)).lines) =
      ⟨[], fws.map fun fw => block fw (source fw)⟩ := by
  have hfits : Cut.Fits isHeader ⟨[], fws.map fun fw => block fw (source fw)⟩ := by
    refine ⟨by simp, fun b hb => ?_⟩
    obtain ⟨fw, hfw, rfl⟩ := List.mem_map.mp hb
    exact block_fits (h fw hfw) (source fw)
  rw [← cut_lines hfits, Cut.lines, List.flatMap_map]
  rfl

theorem missing_families (h : fw ∈ missing text) : fw ∈ families := (List.mem_filter.mp h).1

theorem not_named_of_missing (h : fw ∈ missing text) : sectionOf fw ∉ (ofText text).names := by
  rw [← hasSection_iff]
  simpa using (List.mem_filter.mp h).2

theorem seeded_lines (hplain : PlainText text) (hhead : HeaderFound text)
    (hsource : ∀ fw ∈ families, Readable (source fw)) (hmissing : missing text ≠ []) :
    ∃ above pad comments below, splitlines text = above ++ (comments ++ below) ∧
      splitlines (seedFirmwareSections source text).1 = above ++ pad ++
        ((missing text).flatMap (fun fw => (block fw (source fw)).lines) ++ (comments ++ below)) ∧
      (∀ line ∈ pad, Inert line) ∧ (∀ line ∈ comments, Inert line) ∧ (cut isHeader below).lead = [] := by
  have hsections := fun t => splitlines_sections (fun fw => @missing_families fw text) hsource t
  rw [seedFirmwareSections, if_neg hmissing]
  cases hat : insertAt text with
  | none =>
    obtain ⟨n, hpad⟩ := splitlines_padded hplain
    refine ⟨splitlines text, List.replicate n [], [], [], by simp, ?_,
      fun line hline => List.eq_of_mem_replicate hline ▸ inert_nil, by simp, rfl⟩
    dsimp only
    rw [hpad, ← List.append_nil (List.flatMap _ _), hsections]
    rfl
  | some place =>
    obtain ⟨⟨above, below⟩, hcut, rfl⟩ := Option.map_eq_some_iff.mp hat
    obtain ⟨hsplit, hopen⟩ := cutAtBlock_some hcut
    cases below with
    | nil => exact absurd hopen (by decide)
    | cons line rest =>
      have hheader := hhead line (by rw [hcut]; rfl)
      have hone := hplain.oneLine
      rw [hsplit] at hone
      obtain ⟨kept, comments, habove, hkept, hcomments⟩ : ∃ kept comments, above = kept ++ comments ∧
          above.rdropWhile (·.head? = some '#') = kept ∧
          ∀ line ∈ comments, line.head? = some '#' :=
        ⟨_, above.rtakeWhile (·.head? = some '#'), (List.rdropWhile_append_rtakeWhile).symm, rfl,
          fun line hline => by simpa using List.mem_rtakeWhile_imp hline⟩
      dsimp only
      rw [hkept, habove, List.drop_left, List.append_assoc, joinWith_append (by simp)]
      rw [habove] at hsplit hone
      have htext : text = kept.flatMap (· ++ ['\n']) ++ (comments.flatMap (· ++ ['\n']) ++
          joinWith ['\n'] (line :: rest)) := by
        rw [← joinWith_append (by simp), ← joinWith_append (by simp), ← List.append_assoc, ← hsplit,
          joinWith_splitOn]
      have hone_kept : ∀ line ∈ kept, OneLine line := fun line hline => hone line (by simp [hline])
      have hone_comments : ∀ line ∈ comments, OneLine line := fun line hline =>
        hone line (by simp [hline])
      refine ⟨kept, [], comments, splitlines (joinWith ['\n'] (line :: rest)), ?_, ?_, by simp,
        fun line hline => inert_comment (hcomments line hline), ?_⟩
      · rw [htext, splitlines_flatMap hone_kept, splitlines_flatMap hone_comments]
      · rw [List.append_assoc, splitlines_flatMap hone_kept, hsections,
          splitlines_flatMap hone_comments, List.nil_append]
      · obtain ⟨tail, htail⟩ : ∃ tail, splitlines (joinWith ['\n'] (line :: rest)) = line :: tail := by
          have hline : OneLine line := hone line (by simp)
          cases rest with
          | nil => exact ⟨[], splitlines_oneLine hline (by rintro rfl; exact absurd hheader (by decide))⟩
          | cons next rest =>
            rw [joinWith_cons_cons, List.append_assoc, List.singleton_append,
              splitlines_append_newline hline]
            exact ⟨_, rfl⟩
        rw [htail, cut, if_pos hheader]

theorem said_seeded (hplain : PlainText text) (hhead : HeaderFound text)
    (hsource : ∀ fw ∈ families, Readable (source fw)) (hmissing : missing text ≠ []) :
    ∃ above below, said (splitlines text) = above ++ below ∧
      said (splitlines (seedFirmwareSections source text).1) = above ++ ((missing text).map fun fw =>
        (sectionOf fw, written (block fw (source fw)).body)) ++ below ∧
      (splitlines text).Sublist (splitlines (seedFirmwareSections source text).1) := by
  obtain ⟨above, pad, comments, below, hold, hnew, hpad, hcomments, hlead⟩ :=
    seeded_lines hplain hhead hsource hmissing
  have hcut := @cut_sections _ source fun fw => @missing_families fw text
  have hsections : said ((missing text).flatMap fun fw => (block fw (source fw)).lines) =
      (missing text).map fun fw => (sectionOf fw, written (block fw (source fw)).body) := by
    rw [said, hcut, List.map_map]
    refine List.map_congr_left fun fw hfw => ?_
    rw [Function.comp_apply, nameOf, block,
      sectionName_header (nameSafe_sectionOf (missing_families hfw))]
    rfl
  refine ⟨said above, said below, ?_, ?_, ?_⟩
  · rw [hold, ← List.append_assoc, said_append _ hlead, said_append_inert _ hcomments]
  · rw [hnew, ← List.append_assoc _ comments, ← List.append_assoc, ← List.append_assoc,
      said_append _ hlead, said_append_inert _ hcomments, said_append _ (by rw [hcut]),
      said_append_inert _ hpad, hsections]
  · rw [hold, hnew]
    exact (List.sublist_append_left _ _).append (List.sublist_append_right _ _)

theorem mem_missing : fw ∈ missing text ↔ fw ∈ families ∧ sectionOf fw ∉ (ofText text).names := by
  rw [← hasSection_iff]
  simp [missing]

theorem missing_nodup (text : Str) : (missing text).Nodup :=
  List.Nodup.sublist List.filter_sublist (by decide)

theorem names_seeded (hplain : PlainText text) (hhead : HeaderFound text)
    (hsource : ∀ fw ∈ families, Readable (source fw)) (hmissing : missing text ≠ []) :
    (ofText (seedFirmwareSections source text).1).names.Perm
      ((ofText text).names ++ (missing text).map sectionOf) := by
  obtain ⟨above, below, hold, hnew, -⟩ := said_seeded hplain hhead hsource hmissing
  have hnames : (ofText text).names = above.map Prod.fst ++ below.map Prod.fst := by
    rw [names_eq]
    simp [ofText, hold]
  have hnames' : (ofText (seedFirmwareSections source text).1).names =
      above.map Prod.fst ++ (missing text).map sectionOf ++ below.map Prod.fst := by
    rw [names_eq]
    simp [ofText, hnew, Function.comp_def]
  rw [hnames', hnames, List.append_assoc, List.append_assoc]
  exact List.perm_append_comm.append_left _

theorem get_seeded_of_ne {name : Str} (hplain : PlainText text) (hhead : HeaderFound text)
    (hsource : ∀ fw ∈ families, Readable (source fw)) (hmissing : missing text ≠ [])
    (hname : ∀ fw ∈ missing text, name ≠ sectionOf fw) (key : Str) :
    (ofText (seedFirmwareSections source text).1).get name key = (ofText text).get name key := by
  obtain ⟨above, below, hold, hnew, -⟩ := said_seeded hplain hhead hsource hmissing
  have hnone : ((missing text).map fun fw =>
      (sectionOf fw, written (block fw (source fw)).body)).find? (·.1 = name) = none := by
    refine List.find?_eq_none.mpr fun sec hsec => ?_
    obtain ⟨fw, hfw, rfl⟩ := List.mem_map.mp hsec
    simpa using Ne.symm (hname fw hfw)
  rw [get_eq, get_eq, writtenAt_eq, writtenAt_eq]
  simp only [ofText, hold, hnew, List.find?_append, hnone, Option.or_none]

theorem get_seeded_self (hplain : PlainText text) (hhead : HeaderFound text)
    (hsource : ∀ fw ∈ families, Readable (source fw)) (hfw : fw ∈ missing text)
    (hoption : option ∈ options fw (source fw)) :
    (ofText (seedFirmwareSections source text).1).get (sectionOf fw) option.1 = some option.2 := by
  obtain ⟨above, below, hold, hnew, -⟩ :=
    said_seeded hplain hhead hsource (List.ne_nil_of_mem hfw)
  have hnot := not_named_of_missing hfw
  have habove : above.find? (·.1 = sectionOf fw) = none := by
    refine List.find?_eq_none.mpr fun sec hsec => ?_
    have hmem : sec.1 ∈ (ofText text).names := by
      rw [names_eq]
      exact List.mem_map_of_mem (hold ▸ List.mem_append_left below hsec)
    simpa using fun heq : sec.1 = sectionOf fw => hnot (heq ▸ hmem)
  have hfound : (missing text).find? (sectionOf · = sectionOf fw) = some fw := by
    obtain ⟨fw', hfw'⟩ := Option.isSome_iff_exists.mp
      (List.find?_isSome.mpr ⟨fw, hfw, by simp⟩ : ((missing text).find? (sectionOf · = sectionOf fw)).isSome)
    have heq : sectionOf fw' = sectionOf fw := by simpa using List.find?_some hfw'
    rw [hfw', sectionOf_inj heq]
  rw [get_eq, writtenAt_eq]
  simp only [ofText, hnew, List.find?_append, habove, List.find?_map, Function.comp_def, hfound]
  exact written_block (missing_families hfw) (hsource fw (missing_families hfw)) hoption

end Sections

/-- Installing it over a config loses nothing in it, and a second time changes nothing. -/
theorem seeding_keeps {source : Str → Str} {text : Str} (hplain : PlainText text)
    (hhead : HeaderFound text) (hsource : ∀ fw ∈ families, Readable (source fw)) :
    Seeded source text := by
  by_cases hmissing : missing text = []
  · have hsame : ∀ source, seedFirmwareSections source text = (text, []) := fun source => by
      rw [seedFirmwareSections, if_pos hmissing]
    have hall : ∀ fw ∈ families, sectionOf fw ∈ (ofText text).names := fun fw hfw => by
      by_contra hnot
      simpa [hmissing] using mem_missing.mpr ⟨hfw, hnot⟩
    refine ⟨?_, ?_, ?_, ?_, ?_, ?_, ?_⟩ <;> simp only [hsame, hmissing]
    · exact hall
    · simp
    · simp
    · simp
    · simp
    · exact List.Sublist.refl _
    · simp
  · have hperm := names_seeded hplain hhead hsource hmissing
    have hdeclared : ∀ fw ∈ families,
        sectionOf fw ∈ (ofText (seedFirmwareSections source text).1).names := by
      intro fw hfw
      rw [hperm.mem_iff, List.mem_append]
      by_cases hin : sectionOf fw ∈ (ofText text).names
      · exact .inl hin
      · exact .inr (List.mem_map_of_mem (mem_missing.mpr ⟨hfw, hin⟩))
    have hnodup : ((missing text).map sectionOf).Nodup :=
      (missing_nodup text).map fun _ _ => sectionOf_inj
    refine ⟨hdeclared, hperm, fun name => ?_,
      fun fw hfw option => get_seeded_self hplain hhead hsource hfw,
      fun name => get_seeded_of_ne hplain hhead hsource hmissing,
      (said_seeded hplain hhead hsource hmissing).choose_spec.choose_spec.2.2, fun source' => ?_⟩
    · rw [hperm.count_eq, List.count_append]
      split_ifs with hname
      · have hnew : name ∉ (ofText text).names := by
          obtain ⟨fw, hfw, rfl⟩ := List.mem_map.mp hname
          exact not_named_of_missing hfw
        rw [List.count_eq_zero_of_not_mem hnew, List.count_eq_one_of_mem hnodup hname]
      · rw [List.count_eq_zero_of_not_mem hname, Nat.add_zero]
    · rw [seedFirmwareSections, if_pos]
      exact List.filter_eq_nil_iff.mpr fun fw hfw => by
        simpa [hasSection_iff] using hdeclared fw hfw

/-- A config with a board of its own, under a comment, and no family. -/
def ownBoard : Str := "[mcu]\n# boards\n[type ebb]\n".toList

theorem seeding_keeps_ownBoard : Seeded ("~/".toList ++ ·) ownBoard ∧
    (seedFirmwareSections ("~/".toList ++ ·) ownBoard).1 = ("[mcu]\n" ++
      "[firmware klipper]\nsource: ~/klipper\nflashers: flashtool\n\n" ++
      "[firmware katapult]\nsource: ~/katapult\nflashers: dfu_util, bootsel\n\n" ++
      "# boards\n[type ebb]\n").toList :=
  ⟨seeding_keeps (by decide) (by unfold HeaderFound; decide) (by decide), by decide +kernel⟩

end McuUpdater.Seed
