import McuUpdater.Lib.PyText

/-! Python's lines of a text, the words of a list written with commas, and what stripping
leaves. Nothing here names a program. -/
namespace McuUpdater.PyText
variable {s t : Str} {lines : List Str} {c : Char}

/-- The characters `str.splitlines` ends a line at. -/
def isBreak (c : Char) : Bool :=
  let n := c.toNat
  (10 ≤ n && n ≤ 13) || (28 ≤ n && n ≤ 30) || n = 0x85 || n = 0x2028 || n = 0x2029

/-- `str.splitlines`: a carriage return and a line feed after it are one break. -/
def splitlines : Str → List Str
  | [] => []
  | '\r' :: '\n' :: s => [] :: splitlines s
  | c :: s =>
    if isBreak c then [] :: splitlines s
    else match splitlines s with
      | [] => [[c]]
      | line :: rest => (c :: line) :: rest

/-- The lines that iterating over a text file gives, without their ends: a carriage return and a line
feed after it are one end, as either is alone. -/
def fileLines : Str → List Str
  | [] => []
  | '\r' :: '\n' :: s => [] :: fileLines s
  | c :: s =>
    if c = '\n' ∨ c = '\r' then [] :: fileLines s
    else match fileLines s with
      | [] => [[c]]
      | line :: rest => (c :: line) :: rest

/-- `[part for part in re.split(r"[,\s]+", raw) if part]` -/
def csv (raw : Str) : List Str :=
  (raw.splitOnP fun c => c = ',' || isSpace c).filter (· ≠ [])

/-- `str.split()` -/
def words (s : Str) : List Str := (s.splitOnP isSpace).filter (· ≠ [])

/-- `s.partition(sep)`, where `sep` occurs in `s`. -/
def partition (sep : Str) : Str → Option (Str × Str)
  | [] => none
  | c :: s =>
    if sep <+: c :: s then some ([], (c :: s).drop sep.length)
    else (partition sep s).map fun (before, after) => (c :: before, after)

def OneLine (s : Str) : Prop := ∀ c ∈ s, isBreak c = false

instance (s : Str) : Decidable (OneLine s) := List.decidableBAll (fun c => isBreak c = false) s

def Unbroken (s : Str) : Prop := '\n' ∉ s ∧ '\r' ∉ s

instance (s : Str) : Decidable (Unbroken s) := instDecidableAnd

theorem isSpace_of_isBreak (h : isBreak c = true) : isSpace c = true := by
  simp only [isBreak, isSpace, Bool.or_eq_true, Bool.and_eq_true, decide_eq_true_eq] at *
  omega

theorem isBreak_newline : isBreak '\n' = true := by decide

theorem oneLine_nil : OneLine [] := by simp [OneLine]

theorem oneLine_append : OneLine (s ++ t) ↔ OneLine s ∧ OneLine t := by
  simp [OneLine, or_imp, forall_and]

theorem oneLine_cons : OneLine (c :: s) ↔ isBreak c = false ∧ OneLine s := by
  simp [OneLine]

theorem OneLine.newline_notMem (h : OneLine s) : '\n' ∉ s := fun hm => by
  have := h _ hm
  simp [isBreak_newline] at this

theorem OneLine.sublist (h : OneLine s) (hs : t.Sublist s) : OneLine t :=
  fun c hc => h c (hs.subset hc)

theorem splitlines_cons (h : ∀ t, c :: s ≠ '\r' :: '\n' :: t) : splitlines (c :: s) =
    if isBreak c then [] :: splitlines s
    else match splitlines s with
      | [] => [[c]]
      | line :: rest => (c :: line) :: rest := by
  rw [splitlines.eq_def]
  split
  · next he => exact nomatch he
  · next he => exact absurd he (h _)
  · next he =>
    obtain ⟨rfl, rfl⟩ := List.cons.inj he
    rfl

theorem splitlines_cons_of_not_break (h : isBreak c = false) : splitlines (c :: s) =
    match splitlines s with
      | [] => [[c]]
      | line :: rest => (c :: line) :: rest := by
  rw [splitlines_cons fun t he => ?_, if_neg (by simp [h])]
  rw [(List.cons.inj he).1] at h
  exact absurd h (by decide)

/-- A line and its end are cut off the text. -/
theorem splitlines_append_newline (hs : OneLine s) (t : Str) :
    splitlines (s ++ '\n' :: t) = s :: splitlines t := by
  induction s with
  | nil => rfl
  | cons c s ih =>
    rw [oneLine_cons] at hs
    rw [List.cons_append, splitlines_cons_of_not_break hs.1, ih hs.2]

theorem splitlines_oneLine (hs : OneLine s) (hne : s ≠ []) : splitlines s = [s] := by
  induction s with
  | nil => exact absurd rfl hne
  | cons c s ih =>
    rw [oneLine_cons] at hs
    rw [splitlines_cons_of_not_break hs.1]
    cases s with
    | nil => rfl
    | cons d s => rw [ih hs.2 (by simp)]

theorem oneLine_of_mem_splitlines (s : Str) : ∀ line ∈ splitlines s, OneLine line := by
  fun_induction splitlines s with
  | case1 => simp
  | case2 s ih => simpa [oneLine_nil] using ih
  | case3 c s _ hc ih => simpa [oneLine_nil] using ih
  | case4 c s _ hc heq ih => simp [oneLine_cons, oneLine_nil, hc]
  | case5 c s _ hc line rest heq ih =>
    rw [heq, List.forall_mem_cons] at ih
    exact List.forall_mem_cons.mpr ⟨oneLine_cons.mpr ⟨by simpa using hc, ih.1⟩, ih.2⟩

/-! ## The lines of a file -/

theorem splitlines_flatMap (h : ∀ line ∈ lines, OneLine line) (t : Str) :
    splitlines (lines.flatMap (· ++ ['\n']) ++ t) = lines ++ splitlines t := by
  induction lines with
  | nil => rfl
  | cons line lines ih =>
    rw [List.forall_mem_cons] at h
    rw [List.flatMap_cons, List.append_assoc, List.append_assoc, List.singleton_append,
      splitlines_append_newline h.1, ih h.2, List.cons_append]

theorem joinWith_cons_cons (sep l m : Str) (ls : List Str) :
    joinWith sep (l :: m :: ls) = l ++ sep ++ joinWith sep (m :: ls) := rfl

theorem mem_joinWith {sep : Str} (h : c ∈ joinWith sep lines) : c ∈ sep ∨ ∃ l ∈ lines, c ∈ l := by
  induction lines with
  | nil => cases h
  | cons l ls ih =>
    cases ls with
    | nil => exact Or.inr ⟨l, List.mem_cons_self, h⟩
    | cons m ls =>
      rw [joinWith_cons_cons, List.append_assoc, List.mem_append, List.mem_append] at h
      rcases h with h | h | h
      · exact Or.inr ⟨l, List.mem_cons_self, h⟩
      · exact Or.inl h
      · rcases ih h with h | ⟨k, hk, h⟩
        · exact Or.inl h
        · exact Or.inr ⟨k, List.mem_cons_of_mem l hk, h⟩

@[simp] theorem unbroken_nil : Unbroken [] := by simp [Unbroken]

theorem unbroken_append : Unbroken (s ++ t) ↔ Unbroken s ∧ Unbroken t := by
  simp only [Unbroken, List.mem_append, not_or]
  tauto

theorem unbroken_cons : Unbroken (c :: s) ↔ ¬(c = '\n' ∨ c = '\r') ∧ Unbroken s := by
  simp only [Unbroken, List.mem_cons, not_or, eq_comm]
  tauto

theorem Unbroken.sublist (h : Unbroken s) (hs : t.Sublist s) : Unbroken t :=
  ⟨fun hn => h.1 (hs.subset hn), fun hr => h.2 (hs.subset hr)⟩

theorem fileLines_cons (h : ¬(c = '\n' ∨ c = '\r')) : fileLines (c :: s) =
    match fileLines s with
      | [] => [[c]]
      | line :: rest => (c :: line) :: rest := by
  rw [fileLines.eq_def]
  split
  · next he => cases he
  · next he =>
    cases he
    exact absurd (.inr rfl) h
  · next he =>
    cases he
    rw [if_neg h]

theorem fileLines_append_newline (hs : Unbroken s) (t : Str) :
    fileLines (s ++ '\n' :: t) = s :: fileLines t := by
  induction s with
  | nil => rfl
  | cons c s ih =>
    rw [unbroken_cons] at hs
    rw [List.cons_append, fileLines_cons hs.1, ih hs.2]

/-- What was written a line at a time is read so. -/
theorem fileLines_joinWith (h : ∀ line ∈ lines, Unbroken line) (hne : lines ≠ []) :
    fileLines (joinWith ['\n'] lines ++ ['\n']) = lines := by
  induction lines with
  | nil => exact absurd rfl hne
  | cons l ls ih =>
    rw [List.forall_mem_cons] at h
    cases ls with
    | nil => exact fileLines_append_newline h.1 []
    | cons m ls =>
      rw [joinWith_cons_cons, List.append_assoc, List.append_assoc, List.singleton_append,
        fileLines_append_newline h.1, ih h.2 (List.cons_ne_nil m ls)]

/-! ## Stripping -/

def Trimmed (s : Str) : Prop :=
  (∀ c ∈ s.head?, isSpace c = false) ∧ ∀ c ∈ s.getLast?, isSpace c = false

instance (s : Str) : Decidable (Trimmed s) :=
  @instDecidableAnd _ _ (Option.decidableForallMem s.head?) (Option.decidableForallMem s.getLast?)

theorem strip_sublist (s : Str) : (strip s).Sublist s :=
  (List.rdropWhile_prefix isSpace _).sublist.trans (List.dropWhile_sublist _)

theorem strip_of_trimmed (h : Trimmed s) : strip s = s := by
  have hl : lstrip s = s := by
    cases s with
    | nil => rfl
    | cons c s => simp [lstrip, h.1 c rfl]
  rw [strip, hl, rstrip, List.rdropWhile_eq_self_iff]
  intro hne
  simpa using h.2 _ (List.getLast?_eq_some_getLast hne)

theorem trimmed_rstrip (h : ∀ c ∈ s.head?, isSpace c = false) : Trimmed (rstrip s) := by
  refine ⟨fun c hc => ?_, fun c hc => ?_⟩
  · obtain ⟨t, ht⟩ := List.rdropWhile_prefix isSpace s
    refine h c (ht ▸ ?_)
    rw [rstrip] at hc
    rw [List.head?_append, Option.mem_def.mp hc]
    rfl
  · have hne : rstrip s ≠ [] := by
      rintro he
      simp [he] at hc
    rw [rstrip] at hne hc
    rw [List.getLast?_eq_some_getLast hne] at hc
    obtain rfl := Option.some.inj hc
    simpa using List.rdropWhile_last_not isSpace s hne

theorem trimmed_strip (s : Str) : Trimmed (strip s) := by
  refine trimmed_rstrip fun c hc => ?_
  have hne : lstrip s ≠ [] := by
    rintro he
    simp [he] at hc
  rw [lstrip] at hne hc
  rw [List.head?_eq_some_head hne] at hc
  obtain rfl := Option.some.inj hc
  simpa using List.head_dropWhile_not isSpace hne

theorem strip_strip (s : Str) : strip (strip s) = strip s := strip_of_trimmed (trimmed_strip s)

theorem strip_eq_nil_iff : strip s = [] ↔ ∀ c ∈ s, isSpace c = true := by
  rw [strip, rstrip, List.rdropWhile_eq_nil_iff, lstrip]
  refine ⟨fun h => ?_, fun h c hc => h c ((List.dropWhile_sublist _).subset hc)⟩
  by_contra hcon
  simp only [not_forall] at hcon
  obtain ⟨c, hc, hsp⟩ := hcon
  have hne : s.dropWhile isSpace ≠ [] := by
    rw [Ne, List.dropWhile_eq_nil_iff]
    exact fun hall => hsp (hall c hc)
  have hhead := h _ (List.head_mem hne)
  simp [List.head_dropWhile_not isSpace hne] at hhead

/-! ## The text of a list of lines -/

/-- The lines joined, with a line feed at the end where the text has none. -/
def textOf (lines : List Str) : Str :=
  let text := joinWith ['\n'] lines
  if text.getLast? = some '\n' ∨ text = [] then text else text ++ ['\n']

theorem textOf_cons_cons (l m : Str) (ls : List Str) :
    textOf (l :: m :: ls) = l ++ '\n' :: textOf (m :: ls) := by
  simp only [textOf, joinWith_cons_cons, List.append_assoc, List.singleton_append]
  cases h : joinWith ['\n'] (m :: ls) with
  | nil => simp
  | cons c t => simp [List.getLast?_append, List.getLast?_cons]; split_ifs <;> simp

/-- Read back, the lines are the same, but an empty one at the end is not seen. -/
theorem splitlines_textOf (h : ∀ line ∈ lines, OneLine line) : splitlines (textOf lines) =
    if lines.getLast? = some [] then lines.dropLast else lines := by
  induction lines with
  | nil => rfl
  | cons l ls ih =>
    rw [List.forall_mem_cons] at h
    cases ls with
    | nil =>
      by_cases hl : l = []
      · simp [hl, textOf, joinWith, splitlines]
      · have hlast : l.getLast? ≠ some '\n' := fun he =>
          h.1.newline_notMem (List.mem_of_getLast? he)
        have htext : textOf [l] = l ++ ['\n'] := by simp [textOf, joinWith, hl, hlast]
        rw [htext, splitlines_append_newline h.1]
        simp [hl, splitlines]
    | cons m ls =>
      rw [textOf_cons_cons, splitlines_append_newline h.1, ih h.2, List.getLast?_cons_cons]
      split_ifs <;> simp

/-! ## Words -/

theorem words_append_cons (hc : isSpace c = true) (s t : Str) :
    words (s ++ c :: t) = words s ++ words t := by
  rw [words, List.splitOnP_append_cons s t hc, List.filter_append, words, words]

theorem words_word (hne : s ≠ []) (h : ∀ c ∈ s, isSpace c = false) : words s = [s] := by
  rw [words, List.splitOnP_eq_singleton h]
  simp [hne]

theorem words_joinWith {ws : List Str} (h : ∀ w ∈ ws, w ≠ [] ∧ ∀ c ∈ w, isSpace c = false) :
    words (joinWith [' '] ws) = ws := by
  induction ws with
  | nil => rfl
  | cons w ws ih =>
    rw [List.forall_mem_cons] at h
    cases ws with
    | nil => exact words_word h.1.1 h.1.2
    | cons v ws =>
      have hspace : isSpace ' ' = true := by decide
      rw [joinWith_cons_cons, List.append_assoc, List.singleton_append, words_append_cons hspace,
        words_word h.1.1 h.1.2, ih h.2, List.singleton_append]

/-! ## Lists written with commas -/

/-- What `csv` splits a text at. -/
def isSeparator (c : Char) : Bool := c = ',' || isSpace c

@[simp] theorem csv_nil : csv [] = [] := rfl

theorem csv_eq (s : Str) : csv s = (s.splitOnP isSeparator).filter (· ≠ []) := rfl

theorem csv_append_cons (hc : isSeparator c = true) (s t : Str) :
    csv (s ++ c :: t) = csv s ++ csv t := by
  rw [csv_eq, List.splitOnP_append_cons s t hc, List.filter_append, csv_eq, csv_eq]

theorem csv_word (h : ∀ c ∈ s, isSeparator c = false) (hne : s ≠ []) : csv s = [s] := by
  rw [csv_eq, List.splitOnP_eq_singleton h]
  simp [hne]

/-- Separators at the end are not seen. -/
theorem csv_append_separators (ht : ∀ c ∈ t, isSeparator c = true) (s : Str) :
    csv (s ++ t) = csv s := by
  induction t generalizing s with
  | nil => rw [List.append_nil]
  | cons c t ih =>
    rw [List.forall_mem_cons] at ht
    have hrest : csv t = [] := ih ht.2 []
    rw [csv_append_cons ht.1, hrest, List.append_nil]

theorem csv_rstrip (s : Str) : csv (rstrip s) = csv s := by
  have hsplit : s = rstrip s ++ s.rtakeWhile isSpace :=
    (List.rdropWhile_append_rtakeWhile ..).symm
  conv_rhs => rw [hsplit]
  refine (csv_append_separators (fun c hc => ?_) _).symm
  simp [isSeparator, List.mem_rtakeWhile_imp hc]

/-- The words of a text of lines are those of each line. -/
theorem csv_lines (s : Str) (lines : List Str) :
    csv (s ++ lines.flatMap ('\n' :: ·)) = csv s ++ lines.flatMap csv := by
  induction lines generalizing s with
  | nil => simp
  | cons line lines ih =>
    have hbreak : isSeparator '\n' = true := by decide
    rw [List.flatMap_cons, List.cons_append, csv_append_cons hbreak, ih, List.flatMap_cons]

end McuUpdater.PyText
