import McuUpdater.Lib.Dict
import McuUpdater.Lib.PyLines

/-! `discovery/bootsel.py`: which device the kernel's mount table says is mounted where. The kernel
separates the fields of a mount by spaces, and writes a character of a path that would be taken
for a separator by its octal code. -/
namespace McuUpdater.MountTable
open PyText Dict

/-- A digit of `[0-7]` -/
def octal (c : Char) : Option Nat :=
  if 48 ≤ c.toNat ∧ c.toNat ≤ 55 then some (c.toNat - 48) else none

/-- `unescape` -/
def unescape : Str → Str
  | [] => []
  | '\\' :: a :: b :: d :: s =>
    match octal a, octal b, octal d with
    | some x, some y, some z => Char.ofNat (64 * x + 8 * y + z) :: unescape s
    | _, _, _ => '\\' :: unescape (a :: b :: d :: s)
  | c :: s => c :: unescape s

def separator : Str := " - ".toList

/-- The mount point and the device of a line, where it has both. -/
def mountLine (line : Str) : Option (Str × Str) := do
  let (head, tail) ← partition separator line
  let point ← (words head)[4]?
  let source ← (words tail)[1]?
  return (unescape point, unescape source)

/-- `mount_sources`, over the text of the table, `none` where it cannot be read. -/
def mountSources (realpath : Str → Str) (text : Option Str) : List (Str × Str) :=
  ((splitlines (text.getD [])).filterMap mountLine).foldl
    (fun out m => dictPut Prod.fst out (realpath m.1, realpath m.2)) []

/-! ## What the kernel writes -/

def octalText (c : Char) : Str :=
  [Char.ofNat (48 + c.toNat / 64), Char.ofNat (48 + c.toNat / 8 % 8), Char.ofNat (48 + c.toNat % 8)]

/-- The fields of a mount, in the order of a line. -/
structure Mount where
  /-- its id, its parent's, the device numbers and the root -/
  ids : List Str
  point : Str
  options : List Str
  type : Str
  source : Str
  superOptions : List Str

section Kernel
-- the characters of a path that the kernel writes by their code
variable (isEscaped : Char → Bool) (m : Mount)

def escape (s : Str) : Str := s.flatMap fun c => if isEscaped c then '\\' :: octalText c else [c]

def Mount.head : List Str := m.ids ++ escape isEscaped m.point :: m.options

def Mount.tail : List Str := m.type :: escape isEscaped m.source :: m.superOptions

def Mount.line : Str :=
  joinWith [' '] (m.head isEscaped) ++ separator ++ joinWith [' '] (m.tail isEscaped)

def table (mounts : List Mount) : Str := mounts.flatMap fun m => m.line isEscaped ++ ['\n']

/-- A field that is written as it is. -/
def Plain (s : Str) : Prop := s ≠ [] ∧ s ≠ ['-'] ∧ ∀ c ∈ s, isSpace c = false

/-- The kernel escapes the white space of a path, and the backslash. -/
structure Mount.Written : Prop where
  ids : m.ids.length = 4
  plain : ∀ s ∈ m.ids ++ m.options ++ m.type :: m.superOptions, Plain s
  point : ∃ rest, m.point = '/' :: rest
  source : m.source ≠ []
  spaces : ∀ c ∈ m.point ++ m.source, isSpace c = true → isEscaped c = true

structure Escapes : Prop where
  backslash : isEscaped '\\' = true
  small : ∀ c, isEscaped c = true → c.toNat < 512
  slash : isEscaped '/' = false

end Kernel

/-! ## What is read -/

section Reading
variable {isEscaped : Char → Bool} {m : Mount} {mounts : List Mount} {c : Char} {s t w : Str}
  {ws : List Str}

theorem octal_ofNat {n : Nat} (h : n < 8) : octal (Char.ofNat (48 + n)) = some n := by
  have hn : n ∈ List.range 8 := List.mem_range.mpr h
  revert n
  decide

theorem unescape_octalText (h : c.toNat < 512) (s : Str) :
    unescape ('\\' :: (octalText c ++ s)) = c :: unescape s := by
  have hhigh := octal_ofNat (n := c.toNat / 64) (by omega)
  have hmid := octal_ofNat (n := c.toNat / 8 % 8) (by omega)
  have hlow := octal_ofNat (n := c.toNat % 8) (by omega)
  have hcode : 64 * (c.toNat / 64) + 8 * (c.toNat / 8 % 8) + c.toNat % 8 = c.toNat := by omega
  simp [octalText, unescape, hhigh, hmid, hlow, hcode]

theorem unescape_cons (h : c ≠ '\\') (s : Str) : unescape (c :: s) = c :: unescape s := by
  rw [unescape]
  rintro a b d rest heq
  simp_all

theorem unescape_escape (h : Escapes isEscaped) (s : Str) : unescape (escape isEscaped s) = s := by
  induction s with
  | nil => rfl
  | cons c s ih =>
    unfold escape at ih ⊢
    rw [List.flatMap_cons]
    split
    · rename_i hc
      rw [List.cons_append, unescape_octalText (h.small c hc), ih]
    · rename_i hc
      have hne : c ≠ '\\' := fun heq => hc (heq ▸ h.backslash)
      rw [List.singleton_append, unescape_cons hne, ih]

theorem separator_eq : separator = [' ', '-', ' '] := rfl

theorem space_prefix_iff : separator <+: c :: s ↔ c = ' ' ∧ ['-', ' '] <+: s := by
  rw [separator_eq, List.cons_prefix_cons]
  exact and_congr_left' eq_comm

theorem partition_cons (h : c ≠ ' ') (s : Str) : partition separator (c :: s) =
    (partition separator s).map fun (before, after) => (c :: before, after) := by
  rw [partition, if_neg fun hstart => h (space_prefix_iff.mp hstart).1]

theorem partition_word (h : ∀ c ∈ w, isSpace c = false) (s : Str) :
    partition separator (w ++ s) =
      (partition separator s).map fun (before, after) => (w ++ before, after) := by
  induction w with
  | nil => simp
  | cons c w ih =>
    rw [List.forall_mem_cons] at h
    have hne : c ≠ ' ' := fun heq => by simp [heq, isSpace] at h
    rw [List.cons_append, partition_cons hne, ih h.2, Option.map_map]
    rfl

theorem partition_space (h : Plain w) (s : Str) : partition separator (' ' :: (w ++ ' ' :: s)) =
    (partition separator (w ++ ' ' :: s)).map fun (before, after) => (' ' :: before, after) := by
  rw [partition, if_neg]
  intro hstart
  obtain ⟨hne, hhyphen, hspace⟩ := h
  obtain ⟨c, w, rfl⟩ := List.exists_cons_of_ne_nil hne
  have hrest := (space_prefix_iff.mp hstart).2
  rw [List.cons_append, List.cons_prefix_cons] at hrest
  obtain ⟨rfl, hrest⟩ := hrest
  cases w with
  | nil => exact hhyphen rfl
  | cons d w =>
    rw [List.cons_append, List.cons_prefix_cons] at hrest
    have hd := hspace d (by simp)
    simp [← hrest.1, isSpace] at hd

theorem partition_head (hws : ws ≠ []) (h : ∀ w ∈ ws, Plain w) (t : Str) :
    partition separator (joinWith [' '] ws ++ separator ++ t) = some (joinWith [' '] ws, t) := by
  induction ws with
  | nil => exact absurd rfl hws
  | cons w ws ih =>
    rw [List.forall_mem_cons] at h
    cases ws with
    | nil =>
      have hend : partition separator (separator ++ t) = some ([], t) := by
        simp [separator_eq, partition]
      rw [joinWith, List.append_assoc, partition_word h.1.2.2, hend]
      simp
    | cons v ws =>
      have hrest := ih (List.cons_ne_nil v ws) h.2
      obtain ⟨rest, heq⟩ : ∃ rest, joinWith [' '] (v :: ws) ++ separator ++ t = v ++ ' ' :: rest := by
        cases ws with
        | nil => exact ⟨'-' :: ' ' :: t, by simp [joinWith, separator_eq]⟩
        | cons u ws => exact ⟨joinWith [' '] (u :: ws) ++ separator ++ t, by simp [joinWith_cons_cons]⟩
      have hv := h.2 v List.mem_cons_self
      rw [heq] at hrest
      rw [joinWith_cons_cons, List.append_assoc, List.append_assoc, List.append_assoc,
        ← List.append_assoc (joinWith _ _), heq, partition_word h.1.2.2, List.singleton_append,
        partition_space hv, hrest]
      simp

theorem isSpace_escape (h : Escapes isEscaped) (hs : ∀ c ∈ s, isSpace c = true → isEscaped c = true) :
    ∀ c ∈ escape isEscaped s, isSpace c = false := by
  intro c hc
  obtain ⟨d, hd, hc⟩ := List.mem_flatMap.mp hc
  split at hc
  · rename_i hesc
    have hlt := h.small d hesc
    have hdigit : ∀ n < 8, isSpace (Char.ofNat (48 + n)) = false := by decide
    rcases List.mem_cons.mp hc with rfl | hc
    · decide
    · simp only [octalText, List.mem_cons, List.not_mem_nil, or_false] at hc
      rcases hc with rfl | rfl | rfl <;> exact hdigit _ (by omega)
  · rename_i hesc
    rw [List.mem_singleton.mp hc]
    by_contra hspace
    exact hesc (hs d hd (by simpa using hspace))

theorem plain_point (h : Escapes isEscaped) (hm : m.Written isEscaped) :
    Plain (escape isEscaped m.point) := by
  obtain ⟨rest, hpoint⟩ := hm.point
  have hstart : escape isEscaped m.point = '/' :: escape isEscaped rest := by
    simp [escape, hpoint, h.slash]
  refine ⟨by simp [hstart], by simp [hstart], isSpace_escape h fun c hc => ?_⟩
  exact hm.spaces c (List.mem_append_left _ hc)

theorem escape_ne_nil (hs : s ≠ []) : escape isEscaped s ≠ [] := by
  obtain ⟨c, s, rfl⟩ := List.exists_cons_of_ne_nil hs
  rw [escape, List.flatMap_cons]
  split <;> simp

theorem plain_head (h : Escapes isEscaped) (hm : m.Written isEscaped) :
    ∀ w ∈ m.head isEscaped, Plain w := by
  intro w hw
  rcases List.mem_append.mp hw with hw | hw
  · exact hm.plain w (by simp [hw])
  · rcases List.mem_cons.mp hw with rfl | hw
    · exact plain_point h hm
    · exact hm.plain w (by simp [hw])

theorem unspaced_tail (h : Escapes isEscaped) (hm : m.Written isEscaped) :
    ∀ w ∈ m.tail isEscaped, w ≠ [] ∧ ∀ c ∈ w, isSpace c = false := by
  intro w hw
  rcases List.mem_cons.mp hw with rfl | hw
  · have htype := hm.plain m.type (by simp)
    exact ⟨htype.1, htype.2.2⟩
  · rcases List.mem_cons.mp hw with rfl | hw
    · exact ⟨escape_ne_nil hm.source, isSpace_escape h fun c hc =>
        hm.spaces c (List.mem_append_right _ hc)⟩
    · have hsuper := hm.plain w (by simp [hw])
      exact ⟨hsuper.1, hsuper.2.2⟩

theorem mountLine_line (h : Escapes isEscaped) (hm : m.Written isEscaped) :
    mountLine (m.line isEscaped) = some (m.point, m.source) := by
  have hhead := plain_head h hm
  have hwords := words_joinWith fun w hw => ⟨(hhead w hw).1, (hhead w hw).2.2⟩
  have hfour : (m.head isEscaped)[4]? = some (escape isEscaped m.point) := by
    rw [Mount.head, List.getElem?_append_right hm.ids.le, hm.ids]
    rfl
  rw [mountLine, Mount.line, partition_head (by simp [Mount.head]) hhead]
  simp only [Option.bind_eq_bind, Option.bind_some, hwords, hfour,
    words_joinWith (unspaced_tail h hm)]
  simp [Mount.tail, unescape_escape h]

theorem isBreak_of_field (h : ∀ w ∈ ws, ∀ c ∈ w, isSpace c = false) (hc : c ∈ joinWith [' '] ws) :
    isBreak c = false := by
  rcases mem_joinWith hc with hc | ⟨w, hw, hc⟩
  · rw [List.mem_singleton.mp hc]
    decide
  · by_contra hbreak
    have hspace := isSpace_of_isBreak (by simpa using hbreak)
    simp [h w hw c hc] at hspace

theorem oneLine_line (h : Escapes isEscaped) (hm : m.Written isEscaped) :
    OneLine (m.line isEscaped) := by
  have hseparator : OneLine separator := by decide
  refine oneLine_append.mpr ⟨oneLine_append.mpr ⟨fun c hc => ?_, hseparator⟩, fun c hc => ?_⟩
  · exact isBreak_of_field (fun w hw => (plain_head h hm w hw).2.2) hc
  · exact isBreak_of_field (fun w hw => (unspaced_tail h hm w hw).2) hc

theorem mountLines_table (h : Escapes isEscaped) (hms : ∀ m ∈ mounts, m.Written isEscaped) :
    (splitlines (table isEscaped mounts)).filterMap mountLine =
      mounts.map fun m => (m.point, m.source) := by
  induction mounts with
  | nil => rfl
  | cons m mounts ih =>
    rw [List.forall_mem_cons] at hms
    have htable : table isEscaped (m :: mounts) =
        m.line isEscaped ++ '\n' :: table isEscaped mounts := by
      simp [table]
    rw [htable, splitlines_append_newline (oneLine_line h hms.1),
      List.filterMap_cons_some (mountLine_line h hms.1), ih hms.2, List.map_cons]

end Reading

/-- Of what the kernel mounted on a path, the last is read as what is there. -/
theorem mount_table_read {isEscaped : Char → Bool} (h : Escapes isEscaped) {mounts : List Mount}
    (hms : ∀ m ∈ mounts, m.Written isEscaped) (realpath : Str → Str) (path : Str) :
    (mountSources realpath (some (table isEscaped mounts))).lookup path =
      ((mounts.filter (realpath ·.point = path)).getLast?).map (realpath ·.source) := by
  have hlines := mountLines_table h hms
  have hfold : mountSources realpath (some (table isEscaped mounts)) =
      (mounts.map fun m => (realpath m.point, realpath m.source)).foldl (dictPut Prod.fst) [] := by
    rw [mountSources, Option.getD_some, hlines, List.foldl_map, List.foldl_map]
  rw [hfold, lookup_foldl_dictPut, List.filter_map]
  simp [Function.comp_def]

/-- What Linux escapes in a mount point. -/
def kernelEscapes (c : Char) : Bool := c ∈ [' ', '\t', '\n', '\\']

theorem escapes_kernel : Escapes kernelEscapes := by
  refine ⟨by decide, fun c hc => ?_, by decide⟩
  have hmem : c ∈ [' ', '\t', '\n', '\\'] := by simpa [kernelEscapes] using hc
  simp only [List.mem_cons, List.not_mem_nil, or_false] at hmem
  rcases hmem with rfl | rfl | rfl | rfl <;> decide

theorem plain_of_all {s : Str} (h : s ≠ [] ∧ s ≠ ['-'] ∧ s.all (!isSpace ·) = true) : Plain s :=
  ⟨h.1, h.2.1, fun c hc => by simpa using List.all_eq_true.mp h.2.2 c hc⟩

def spaced : Mount where
  ids := ["36".toList, "25".toList, "8:1".toList, "/".toList]
  point := "/media/a b/RPI-RP2".toList
  options := ["rw".toList, "shared:1".toList]
  type := "vfat".toList
  source := "/dev/sda1".toList
  superOptions := ["rw".toList]

theorem mount_table_read_spaced :
    (mountSources id (some (table kernelEscapes [spaced]))).lookup "/media/a b/RPI-RP2".toList =
      some "/dev/sda1".toList :=
  mount_table_read escapes_kernel (by
    rw [List.forall_mem_singleton]
    have hplain : ∀ s ∈ spaced.ids ++ spaced.options ++ spaced.type :: spaced.superOptions,
        s ≠ [] ∧ s ≠ ['-'] ∧ s.all (!isSpace ·) = true := by decide
    have hspaces : (spaced.point ++ spaced.source).all fun c => !isSpace c || kernelEscapes c := by
      decide
    refine ⟨rfl, fun s hs => plain_of_all (hplain s hs), ⟨_, rfl⟩, by decide, fun c hc hspace => ?_⟩
    simpa [hspace] using List.all_eq_true.mp hspaces c hc) id _

end McuUpdater.MountTable
