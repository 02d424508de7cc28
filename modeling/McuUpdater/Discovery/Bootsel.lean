import McuUpdater.Kconfig.Tree
import McuUpdater.Lib.Numbers
import Mathlib.Data.Char
import Mathlib.Data.List.Chain
import Mathlib.Data.List.Lex

/-! `discovery/bootsel.py`: the mounted drives of boards in BOOTSEL, and which of them is on the
USB socket that a board was on. -/
namespace McuUpdater.Bootsel
open PyText Numbers
open Kconfig (basename)

/-- `_USB_ALIAS.sub("-usb-", s)` -/
def usbAlias : Str → Str
  | '-' :: 'u' :: 's' :: 'b' :: 'v' :: '2' :: '-' :: s => '-' :: 'u' :: 's' :: 'b' :: '-' :: usbAlias s
  | c :: s => c :: usbAlias s
  | [] => []

/-- `$` -/
def atEnd (s : Str) : Bool := s = [] || s = ['\n']

/-- `-port[0-9]+$` starts here. -/
def portAt (s : Str) : Bool := ((after "-port".toList s).bind digits).any atEnd

/-- `_SERIAL_INTERFACE` matches here. -/
def interfaceAt (s : Str) : Bool :=
  ((after [':'] s).bind digits).any fun s =>
    ((after ['.'] s).bind digits).any fun s => atEnd s || portAt s

/-- Where `_SERIAL_INTERFACE.search` finds it. -/
def serialInterface (s : Str) : Option Nat := s.tails.findIdx? interfaceAt

/-- `_normalize_serial_topology`, or its `ValueError`. -/
def normalizeSerialTopology (name : Str) : Option Str :=
  let topology := usbAlias (basename name)
  (serialInterface topology).map fun start => topology.take start

/-- What a character is in `[A-Za-z0-9_-]`. -/
def tagChar (c : Char) : Char := if c.isAlphanum || c = '_' || c = '-' then c else '_'

/-- `re.search(r":1\.0-port[0-9]+$", s)` -/
def endsWithPort (s : Str) : Bool :=
  s.tails.any fun s => (after ":1.0".toList s).any portAt

/-- `_topology_tag_prefix` -/
def topologyTagPrefix (topology : Str) : Option Str := do
  let parent := usbAlias (basename topology)
  -- the last part of a canonical topology is a port, not an interface
  let parent ← if ":1.0".toList.isSuffixOf parent || endsWithPort parent then
    normalizeSerialTopology parent else some parent
  return parent.map tagChar

/-- `_[0-9]+_[0-9]+-scsi(?:[-_].*)?` is all that is there. -/
def scsiSuffix (s : Str) : Bool :=
  ((after ['_'] s).bind digits).any fun s =>
    ((after ['_'] s).bind digits).any fun s =>
      (after "-scsi".toList s).any fun s =>
        match s with
        | [] => true
        | c :: s => (c = '-' || c = '_') && '\n' ∉ s

/-- `_mount_matches_topology`, or the `ValueError` of the topology. -/
def mountMatchesTopology (mount topology : Str) : Option Bool :=
  (topologyTagPrefix topology).map fun tagPrefix =>
    (after tagPrefix (usbAlias (basename mount))).any scsiSuffix

/-! ## The mounted drives -/

/-- What `bootsel_scan` sees of the file system. -/
structure BootselView where
  roots : List Str
  /-- `glob.glob(<root>/BOOTSEL/by-path/*)` -/
  byPath : Str → List Str
  /-- `os.path.isfile(<candidate>/INFO_UF2.TXT)` -/
  marked : Str → Bool

def volumeName : Str := "RPI-RP2".toList

def unknownPathLeaf : Str := "unknown".toList

/-- `os.path.join(root, name)` -/
def joinPath (root name : Str) : Str :=
  if root = [] || root.getLast? = some '/' then root ++ name else root ++ '/' :: name

def sorted (names : List Str) : List Str := names.mergeSort fun a b => decide (a ≤ b)

/-- `bootsel_scan` -/
def bootselScan (view : BootselView) : List Str :=
  (sorted view.roots).flatMap fun root =>
    (joinPath root volumeName :: sorted (view.byPath root)).filter view.marked

structure FlashError where
  message : Str
  topology : Str
  mounts : List Str := []
  legacyMounts : List Str := []
  unknownMounts : List Str := []
  deriving DecidableEq

/-- `_no_match_error`, with `_unmatchable`. -/
def noMatchError (topology : Str) (mounts : List Str) : FlashError :=
  let legacy := mounts.filter (basename · = volumeName)
  let unknown := mounts.filter (basename · = unknownPathLeaf)
  let message := "no mounted BOOTSEL volume appeared for topology ".toList ++ topology
  { message :=
      if legacy ≠ [] then
        message ++ " - but a BOOTSEL volume is mounted at the legacy path ".toList ++
          joinWith ", ".toList legacy ++
          (". Re-run install.sh to update the udev rule; until it mounts by USB topology, no " ++
            "board can be matched to a port and this write cannot be aimed.").toList
      else if unknown ≠ [] then
        message ++ " - but a BOOTSEL volume is mounted at ".toList ++
          joinWith ", ".toList unknown ++
          (", where udev could not name the USB path (ID_PATH_TAG was unset). It cannot be " ++
            "matched to the board this write is for, and is not written to on the chance that " ++
            "it is.").toList
      else message
    topology, legacyMounts := legacy, unknownMounts := unknown }

def ambiguousError (topology : Str) (found : List Str) : FlashError where
  message := "BOOTSEL topology ".toList ++ topology ++ " is ambiguous: ".toList ++
    Nat.toDigits 10 found.length ++ " matching volumes are mounted".toList
  topology := topology
  mounts := found

/-- One look at the drives, and whether the deadline has passed after it. -/
structure Look where
  view : BootselView
  late : Bool

/-- The mounts of a scan that are on this topology. The `ValueError` is not followed: where
`_topology_tag_prefix` takes an interface off, there is one. -/
def matchingMounts (mounts : List Str) (topology : Str) : List Str :=
  mounts.filter fun mount => mountMatchesTopology mount topology = some true

/-- `mount_for_topology`; with no look left it still waits. -/
def mountForTopology (topology : Str) : List Look → Option (Except FlashError Str)
  | [] => none
  | look :: looks =>
    let mounts := bootselScan look.view
    match matchingMounts mounts topology with
    | [mount] => some (.ok mount)
    | [] =>
      if look.late then some (.error (noMatchError topology mounts))
      else mountForTopology topology looks
    | found => some (.error (ambiguousError topology found))

theorem mountForTopology_ok {topology mount : Str} {looks : List Look}
    (h : mountForTopology topology looks = some (.ok mount)) :
    ∃ look ∈ looks, matchingMounts (bootselScan look.view) topology = [mount] := by
  induction looks with
  | nil => cases h
  | cons look looks ih =>
    rw [mountForTopology] at h
    split at h
    case h_1 found hfound =>
      cases h
      exact ⟨look, List.mem_cons_self, hfound⟩
    case h_2 =>
      split_ifs at h
      · cases h
      · obtain ⟨later, hlater, hmatch⟩ := ih h
        exact ⟨later, List.mem_cons_of_mem _ hlater, hmatch⟩
    case h_3 => cases h

/-! ## Topologies and their tags -/

/-- A USB socket: the path of its controller, and the chain of ports that leads to it. -/
structure Topology where
  controller : Str
  ports : List Nat
  deriving DecidableEq

/-- `usb` or its second name -/
def usbWord (v2 : Bool) : Str := (if v2 then "usbv2" else "usb").toList

/-- The path of the socket under either spelling. -/
def Topology.text (T : Topology) (v2 : Bool) : Str :=
  T.controller ++ '-' :: (usbWord v2 ++ '-' :: ('0' :: ':' :: numbers '.' T.ports))

/-- A character `ID_PATH_TAG` does not hold, or the one it puts in its place. -/
def isSeparator (c : Char) : Bool := !(c.isAlphanum || c = '-')

/-- What udev makes of the rest of a path, after this last character of the tag. -/
def tagFrom (last : Option Char) : Str → Str
  | [] => []
  | c :: s =>
    if isSeparator c then
      -- none at the start, and no two together
      if last = none || last = some '_' then tagFrom last s else '_' :: tagFrom (some '_') s
    else c :: tagFrom (some c) s

/-- `ID_PATH_TAG`, as udev makes it of `ID_PATH`. -/
def idPathTag (path : Str) : Str := (tagFrom none path).rdropWhile (· = '_')

/-- The path of the drive of a board on this socket: its USB interface, and its SCSI address. -/
def Topology.drive (T : Topology) (v2 : Bool) (interface : Nat × Nat) (host channel target lun : Nat) :
    Str :=
  T.text v2 ++ ':' :: (numbers '.' [interface.1, interface.2] ++
    '-' :: ("scsi".toList ++ '-' :: numbers ':' [host, channel, target, lun]))

def Topology.mountTag (T : Topology) (v2 : Bool) (interface : Nat × Nat)
    (host channel target lun : Nat) : Str :=
  idPathTag (T.drive v2 interface host channel target lun)

/-- Separators stand alone and inside. -/
structure Tidy (s : Str) : Prop where
  spaced : s.IsChain fun a b => ¬(isSeparator a = true ∧ isSeparator b = true)
  first : ∀ c ∈ s.head?, isSeparator c = false
  last : ∀ c ∈ s.getLast?, isSeparator c = false

/-- A controller's path as udev writes it, and ports that are numbered from 1. -/
structure Topology.WellFormed (T : Topology) : Prop where
  tidy : Tidy T.controller
  nonempty : T.controller ≠ []
  slash : '/' ∉ T.controller
  /-- no second bus is named on the way -/
  words : ∀ w ∈ T.controller.splitOn '-', w ≠ "usbv2".toList ∧ ¬"scsi".toList <+: w
  ports : T.ports ≠ []
  positive : ∀ port ∈ T.ports, 0 < port

section Text
variable {s t w : Str} {c : Char} {n : Nat} {ns : List Nat} {parts : List Str}

theorem usbAlias_cons (hc : c ≠ '-') : usbAlias (c :: s) = c :: usbAlias s := by
  rw [usbAlias]
  intro rest he
  exact absurd he hc

theorem usbAlias_hyphen (h : ∀ rest, s ≠ "usbv2".toList ++ '-' :: rest) :
    usbAlias ('-' :: s) = '-' :: usbAlias s := by
  rw [usbAlias]
  intro rest _ he
  exact h rest he

/-- The word that is renamed starts no text whose first word is another. -/
theorem ne_usbv2 (h : ∀ first ∈ (s.splitOn '-').head?, first ≠ "usbv2".toList) (rest : Str) :
    s ≠ "usbv2".toList ++ '-' :: rest := by
  intro he
  refine h "usbv2".toList ?_ rfl
  have hword : '-' ∉ "usbv2".toList := by decide
  rw [he, List.splitOn_append_cons_self, List.splitOn_eq_singleton hword]
  rfl

theorem tail_splitOn_cons (hc : c ≠ '-') : ((c :: s).splitOn '-').tail = (s.splitOn '-').tail := by
  rw [List.splitOn_cons_eq_if_modifyHead, if_neg (by simpa using hc)]
  cases s.splitOn '-' <;> rfl

theorem splitOn_hyphen : ('-' :: s).splitOn '-' = [] :: s.splitOn '-' :=
  List.splitOn_append_cons_self [] s

theorem usbAlias_append (h : ∀ w ∈ (s.splitOn '-').tail, w ≠ "usbv2".toList) :
    usbAlias (s ++ '-' :: t) = s ++ usbAlias ('-' :: t) := by
  induction s with
  | nil => rfl
  | cons c s ih =>
    rw [List.cons_append, List.cons_append]
    by_cases hc : c = '-'
    · rw [hc, splitOn_hyphen, List.tail_cons] at h
      have hfirst : ∀ first ∈ ((s ++ '-' :: t).splitOn '-').head?, first ≠ "usbv2".toList := by
        rw [List.splitOn_append_cons_self]
        intro first hmem
        obtain ⟨w, ws, hws⟩ := List.exists_cons_of_ne_nil (List.splitOn_ne_nil '-' s)
        rw [hws] at hmem h
        rw [← Option.mem_some.mp hmem]
        exact h w List.mem_cons_self
      rw [hc, usbAlias_hyphen (ne_usbv2 hfirst), ih fun w hw => h w (List.mem_of_mem_tail hw)]
    · rw [tail_splitOn_cons hc] at h
      rw [usbAlias_cons hc, ih h]

theorem usbAlias_eq (h : ∀ w ∈ (s.splitOn '-').tail, w ≠ "usbv2".toList) : usbAlias s = s := by
  induction s with
  | nil => rfl
  | cons c s ih =>
    by_cases hc : c = '-'
    · rw [hc, splitOn_hyphen, List.tail_cons] at h
      have hfirst : ∀ first ∈ (s.splitOn '-').head?, first ≠ "usbv2".toList := fun first hmem =>
        h first (List.mem_of_mem_head? hmem)
      rw [hc, usbAlias_hyphen (ne_usbv2 hfirst), ih fun w hw => h w (List.mem_of_mem_tail hw)]
    · rw [tail_splitOn_cons hc] at h
      rw [usbAlias_cons hc, ih h]

theorem usbAlias_v2 : usbAlias ('-' :: ("usbv2".toList ++ '-' :: s)) =
    '-' :: ("usb".toList ++ '-' :: usbAlias s) := rfl

/-! ## Tags -/

theorem tagChar_eq (c : Char) : tagChar c = if isSeparator c then '_' else c := by
  by_cases h : c.isAlphanum
  · simp [tagChar, isSeparator, h]
  · by_cases hc : c = '-'
    · simp [tagChar, isSeparator, hc]
    · by_cases hu : c = '_' <;> simp [tagChar, isSeparator, h, hc, hu]

/-- A tag's character that is no `_` is the path's own. -/
theorem of_tagChar_eq {d : Char} (h : tagChar c = d) (hd : d ≠ '_') : c = d := by
  rw [tagChar_eq] at h
  split_ifs at h
  · exact absurd h.symm hd
  · exact h

theorem of_map_tagChar_eq (h : s.map tagChar = t) (ht : '_' ∉ t) : s = t := by
  induction s generalizing t with
  | nil => exact h
  | cons c s ih =>
    cases t with
    | nil => cases h
    | cons d t =>
      rw [List.map_cons, List.cons.injEq] at h
      rw [List.mem_cons, not_or] at ht
      rw [of_tagChar_eq h.1 (Ne.symm ht.1), ih h.2 ht.2]

theorem tagChar_self (h : isSeparator c = false) : tagChar c = c := by
  rw [tagChar_eq, h]
  rfl

theorem isSeparator_digit (h : c.isDigit = true) : isSeparator c = false := by
  simp [isSeparator, Char.isAlphanum, h]

theorem map_tagChar_plain (h : ∀ c ∈ s, isSeparator c = false) : s.map tagChar = s := by
  conv_rhs => rw [← List.map_id s]
  exact List.map_congr_left fun c hc => tagChar_self (h c hc)

theorem map_tagChar_numbers {sep : Char} (hsep : isSeparator sep = true) :
    (numbers sep ns).map tagChar = numbers '_' ns := by
  have hdigits : ∀ n, (Nat.toDigits 10 n).map tagChar = Nat.toDigits 10 n := fun n =>
    map_tagChar_plain fun c hc => isSeparator_digit (isDigit_toDigits hc)
  induction ns with
  | nil => rfl
  | cons n ns ih =>
    cases hns : ns with
    | nil => exact hdigits n
    | cons m rest =>
      rw [hns] at ih
      rw [numbers_cons, numbers_cons, List.map_append, List.map_cons, hdigits, ih, tagChar_eq, hsep]
      rfl

theorem splitOn_map_tagChar : (s.map tagChar).splitOn '-' = (s.splitOn '-').map (List.map tagChar) := by
  induction s with
  | nil => rfl
  | cons c s ih =>
    obtain ⟨w, ws, hws⟩ := List.exists_cons_of_ne_nil (List.splitOn_ne_nil '-' s)
    rw [List.map_cons, List.splitOn_cons_eq_if_modifyHead, List.splitOn_cons_eq_if_modifyHead, ih]
    by_cases hc : c = '-'
    · simp [hc, tagChar]
    · have htag : tagChar c ≠ '-' := fun he => hc (of_tagChar_eq he (by decide))
      simp [hc, htag, hws]

theorem tagFrom_eq {last : Option Char}
    (hspaced : s.IsChain fun a b => ¬(isSeparator a = true ∧ isSeparator b = true))
    (hfirst : ∀ c ∈ s.head?, isSeparator c = true → last ≠ none ∧ last ≠ some '_') :
    tagFrom last s = s.map tagChar := by
  induction s generalizing last with
  | nil => rfl
  | cons c s ih =>
    have htail := hspaced.tail
    have hnext : ∀ d ∈ s.head?, ¬(isSeparator c = true ∧ isSeparator d = true) := by
      intro d hd
      obtain ⟨rest, hrest⟩ := List.head?_eq_some_iff.mp hd
      rw [hrest] at hspaced
      exact (List.isChain_cons_cons.mp hspaced).1
    rw [tagFrom, List.map_cons, tagChar_eq]
    by_cases hc : isSeparator c = true
    · have hlast := hfirst c rfl hc
      rw [if_pos hc, if_pos hc, if_neg (by simp [hlast]),
        ih htail fun d hd hsep => absurd ⟨hc, hsep⟩ (hnext d hd)]
    · rw [if_neg hc, if_neg hc, ih htail fun d hd hsep => ⟨by simp, ?_⟩]
      rw [Ne, Option.some.injEq]
      rintro rfl
      exact hc (by decide)

theorem Tidy.idPathTag (h : Tidy s) : idPathTag s = s.map tagChar := by
  have hall : tagFrom none s = s.map tagChar :=
    tagFrom_eq h.spaced fun c hc hsep => by
      rw [h.first c hc] at hsep
      cases hsep
  rw [Bootsel.idPathTag, hall, List.rdropWhile_eq_self_iff]
  intro hne
  have hs : s ≠ [] := by simpa using hne
  have hlast := h.last _ (List.getLast?_eq_some_getLast hs)
  rw [List.getLast_map, tagChar_self hlast]
  simp only [decide_eq_true_eq]
  intro he
  rw [he] at hlast
  exact absurd hlast (by decide)

theorem Tidy.append (hs : Tidy s) (ht : Tidy t) : Tidy (s ++ t) := by
  refine ⟨List.isChain_append.mpr ⟨hs.spaced, ht.spaced, fun a ha b _ hab => ?_⟩, fun c hc => ?_,
    fun c hc => ?_⟩
  · rw [hs.last a ha] at hab
    exact absurd hab.1 (by decide)
  · rw [List.head?_append] at hc
    cases hsh : s.head? with
    | none =>
      rw [hsh] at hc
      exact ht.first c hc
    | some d =>
      rw [hsh] at hc
      exact hs.first c (hsh.trans hc)
  · rw [List.getLast?_append] at hc
    cases hth : t.getLast? with
    | none =>
      rw [hth] at hc
      exact hs.last c hc
    | some d =>
      rw [hth] at hc
      exact ht.last c (hth.trans hc)

/-- One separator between two tidy texts. -/
theorem Tidy.between (hs : Tidy s) (ht : Tidy t) (hsn : s ≠ []) (htn : t ≠ []) :
    Tidy (s ++ c :: t) := by
  obtain ⟨d, rest, rfl⟩ := List.exists_cons_of_ne_nil htn
  have hd := ht.first d rfl
  refine ⟨List.isChain_append.mpr ⟨hs.spaced, .cons_cons (fun hab => ?_) ht.spaced,
    fun a ha b _ hab => ?_⟩, fun a ha => ?_, fun a ha => ?_⟩
  · rw [hd] at hab
    exact absurd hab.2 (by decide)
  · rw [hs.last a ha] at hab
    exact absurd hab.1 (by decide)
  · obtain ⟨a', s', rfl⟩ := List.exists_cons_of_ne_nil hsn
    exact hs.first a ha
  · rw [List.getLast?_append_of_ne_nil _ (by simp), List.getLast?_cons_cons] at ha
    exact ht.last a ha

theorem tidy_of_ends (hspaced : s.IsChain fun a b => ¬(isSeparator a = true ∧ isSeparator b = true))
    (hfirst : s.head?.all (!isSeparator ·) = true) (hlast : s.getLast?.all (!isSeparator ·) = true) :
    Tidy s := by
  have hplain : ∀ o : Option Char, o.all (!isSeparator ·) = true →
      ∀ c ∈ o, isSeparator c = false := by
    intro o ho c hc
    rw [Option.mem_def.mp hc, Option.all_some, Bool.not_eq_true'] at ho
    exact ho
  exact ⟨hspaced, hplain _ hfirst, hplain _ hlast⟩

theorem plain_of_all (h : s.all (!isSeparator ·) = true) : ∀ c ∈ s, isSeparator c = false := by
  intro c hc
  simpa using List.all_eq_true.mp h c hc

theorem tidy_of_plain (h : ∀ c ∈ s, isSeparator c = false) : Tidy s := by
  refine ⟨?_, fun c hc => h c (List.mem_of_mem_head? hc), fun c hc => h c (List.mem_of_getLast? hc)⟩
  induction s with
  | nil => exact .nil
  | cons c s ih =>
    have htail := ih fun d hd => h d (List.mem_cons_of_mem _ hd)
    cases s with
    | nil => exact .singleton _
    | cons d s =>
      refine .cons_cons (fun hab => ?_) htail
      rw [h c List.mem_cons_self] at hab
      exact absurd hab.1 (by decide)

theorem tidy_numbers {sep : Char} (h : ns ≠ []) : Tidy (numbers sep ns) := by
  have hdigits : ∀ n, Tidy (Nat.toDigits 10 n) := fun n =>
    tidy_of_plain fun c hc => isSeparator_digit (isDigit_toDigits hc)
  induction ns with
  | nil => exact absurd rfl h
  | cons n ns ih =>
    cases hns : ns with
    | nil => exact hdigits n
    | cons m rest =>
      rw [hns] at ih
      rw [numbers_cons]
      exact (hdigits n).between (ih (by simp)) Nat.toDigits_ne_nil (numbers_ne_nil (by simp))

theorem hyphen_notMem_numbers : '-' ∉ numbers '_' ns := fun h => by
  rcases mem_numbers h with he | hdigit
  · exact absurd he (by decide)
  · exact absurd hdigit (by decide)

/-! ## What is matched -/

theorem scsiSuffix_spec (h : scsiSuffix s = true) : ∃ a b rest : Str, '_' ∉ a ∧ '_' ∉ b ∧
    '-' ∉ a ∧ '-' ∉ b ∧ s = '_' :: (a ++ '_' :: (b ++ '-' :: ("scsi".toList ++ rest))) := by
  have hplain : ∀ ds : Str, (∀ c ∈ ds, c.isDigit = true) → '_' ∉ ds ∧ '-' ∉ ds := fun ds hds =>
    ⟨fun hmem => absurd (hds _ hmem) (by decide), fun hmem => absurd (hds _ hmem) (by decide)⟩
  obtain ⟨s1, h1, h⟩ := (Option.any_eq_true _ _).mp h
  obtain ⟨s0, h0, h1⟩ := Option.bind_eq_some_iff.mp h1
  obtain ⟨s2, h2, h⟩ := (Option.any_eq_true _ _).mp h
  obtain ⟨s3, h3, h2⟩ := Option.bind_eq_some_iff.mp h2
  obtain ⟨rest, h4, -⟩ := (Option.any_eq_true _ _).mp h
  obtain ⟨a, -, ha, rfl⟩ := digits_spec h1
  obtain ⟨b, -, hb, rfl⟩ := digits_spec h2
  refine ⟨a, b, rest, (hplain a ha).1, (hplain b hb).1, (hplain a ha).2, (hplain b hb).2, ?_⟩
  rw [after_eq_some.mp h0, after_eq_some.mp h3, after_eq_some.mp h4]
  rfl

theorem scsiSuffix_of_numbers (i j : Nat) (h : '\n' ∉ s) :
    scsiSuffix ('_' :: (numbers '_' [i, j] ++ '-' :: ("scsi".toList ++ '-' :: s))) = true := by
  have h0 : ∀ rest : Str, after ['_'] ('_' :: rest) = some rest := fun rest =>
    after_eq_some.mpr rfl
  have h4 : after "-scsi".toList ('-' :: ("scsi".toList ++ '-' :: s)) = some ('-' :: s) :=
    after_eq_some.mpr rfl
  have hnum : numbers '_' [i, j] = Nat.toDigits 10 i ++ '_' :: Nat.toDigits 10 j := numbers_cons j
  have hunder : ∀ rest : Str, ∀ c ∈ ('_' :: rest).head?, c.isDigit = false := by
    intro rest c hc
    cases hc
    decide
  have hhyphen : ∀ rest : Str, ∀ c ∈ ('-' :: rest).head?, c.isDigit = false := by
    intro rest c hc
    cases hc
    decide
  rw [hnum, scsiSuffix, h0, List.append_assoc, Option.bind_some, List.cons_append,
    digits_toDigits (hunder _), Option.any_some, h0, Option.bind_some, digits_toDigits (hhyphen _),
    Option.any_some, h4, Option.any_some]
  simp [h]

theorem basename_of_notMem (h : '/' ∉ s) : basename s = s := by
  rw [basename, List.rtakeWhile_eq_self_iff]
  intro c hc
  rw [decide_eq_true_eq]
  rintro rfl
  exact h hc

theorem basename_join (h : '/' ∉ s) : basename (t ++ '/' :: s) = s := by
  have hall : ∀ c ∈ s.reverse, decide (c ≠ '/') = true := by
    intro c hc
    rw [decide_eq_true_eq]
    rintro rfl
    exact h (List.mem_reverse.mp hc)
  have hrev : (t ++ '/' :: s).reverse = s.reverse ++ '/' :: t.reverse := by simp
  rw [basename, List.rtakeWhile, hrev, List.takeWhile_append_of_pos hall]
  simp

end Text

end McuUpdater.Bootsel
