import McuUpdater.Lib.PyValue

/-! `json.dumps` with its default arguments, and which values it encodes. Nothing here
names a program. -/
namespace McuUpdater.PyJson
open PyText PyValue

/-- A character that stands for itself in ASCII. -/
def Printable (c : Char) : Prop := 0x20 ≤ c.toNat ∧ c.toNat ≤ 0x7e

instance (c : Char) : Decidable (Printable c) := inferInstanceAs (Decidable (_ ∧ _))

/-- The text of a finite float; which digits it has is not fixed here. -/
structure FloatText where
  text : Int → Int → Str
  printable : ∀ m e, ∀ c ∈ text m e, Printable c

def quote : Char := Char.ofNat 34
def backslash : Char := Char.ofNat 92

/-- `\uXXXX` -/
def unicodeEscape (n : Nat) : Str :=
  [backslash, 'u', Nat.digitChar (n / 4096 % 16), Nat.digitChar (n / 256 % 16),
    Nat.digitChar (n / 16 % 16), Nat.digitChar (n % 16)]

/-- One character of a string under `ensure_ascii`. -/
def escape (c : Char) : Str :=
  if c = quote ∨ c = backslash then [backslash, c]
  else if Printable c then [c]
  else
    match c.toNat with
    | 8 => [backslash, 'b']
    | 9 => [backslash, 't']
    | 10 => [backslash, 'n']
    | 12 => [backslash, 'f']
    | 13 => [backslash, 'r']
    | n =>
      if n < 0x10000 then unicodeEscape n
      -- a surrogate pair
      else unicodeEscape (0xd800 + (n - 0x10000) / 0x400) ++
        unicodeEscape (0xdc00 + (n - 0x10000) % 0x400)

def quoted (s : Str) : Str := quote :: s.flatMap escape ++ [quote]

/-- `sys.get_int_max_str_digits()` -/
def maxStrDigits : Nat := 4300

def intText (n : Int) : Except PyError Str :=
  let digits := Nat.toDigits 10 n.natAbs
  if digits.length ≤ maxStrDigits then .ok (if n < 0 then '-' :: digits else digits)
  else .error .valueError

def floatText (ft : FloatText) : PyFloat → Str
  | .finite m e => ft.text m e
  | .inf false => "Infinity".toList
  | .inf true => "-Infinity".toList
  | .nan => "NaN".toList

def boolText (b : Bool) : Str := if b then "true".toList else "false".toList

/-- The text of a dict key, before it is quoted. -/
def keyText (ft : FloatText) : PyVal → Except PyError Str
  | .str s => .ok s
  | .none => .ok "null".toList
  | .bool b => .ok (boolText b)
  | .int n => intText n
  | .float x => .ok (floatText ft x)
  | _ => .error .typeError

/-- `", ".join(parts)` -/
def joined : List Str → Str
  | [] => []
  | [part] => part
  | part :: parts => part ++ ", ".toList ++ joined parts

mutual
/-- `json.dumps(v)`; `limit` is how deep containers may still nest. -/
def dumps (ft : FloatText) (limit : Nat) : PyVal → Except PyError Str
  | .none => .ok "null".toList
  | .bool b => .ok (boolText b)
  | .int n => intText n
  | .float x => .ok (floatText ft x)
  | .str s => .ok (quoted s)
  | .list xs | .tuple xs =>
    match limit with
    | 0 => .error .recursionError
    | limit + 1 => (dumpsItems ft limit xs).map fun parts => '[' :: joined parts ++ [']']
  | .dict items =>
    match limit with
    | 0 => .error .recursionError
    | limit + 1 => (dumpsFields ft limit items).map fun parts =>
      Char.ofNat 123 :: joined parts ++ [Char.ofNat 125]
  -- a value of another class, or a container that contains itself
  | .object _ => .error .typeError

def dumpsItems (ft : FloatText) (limit : Nat) : List PyVal → Except PyError (List Str)
  | [] => .ok []
  | x :: xs =>
    match dumps ft limit x with
    | .error e => .error e
    | .ok part => (dumpsItems ft limit xs).map (part :: ·)

def dumpsFields (ft : FloatText) (limit : Nat) :
    List (PyVal × PyVal) → Except PyError (List Str)
  | [] => .ok []
  | (key, x) :: items =>
    match keyText ft key, dumps ft limit x with
    | .error e, _ => .error e
    | _, .error e => .error e
    | .ok k, .ok part =>
      (dumpsFields ft limit items).map ((quoted k ++ ": ".toList ++ part) :: ·)
end

/-- An int whose digits may be written out. -/
def Writable (n : Int) : Bool := (Nat.toDigits 10 n.natAbs).length ≤ maxStrDigits

def DumpableKey : PyVal → Bool
  | .str _ | .none | .bool _ | .float _ => true
  | .int n => Writable n
  | _ => false

mutual
/-- Scalars, and lists, tuples and dicts of them that nest no deeper than `limit`. -/
def Dumpable (limit : Nat) : PyVal → Bool
  | .none | .bool _ | .float _ | .str _ => true
  | .int n => Writable n
  | .list xs | .tuple xs =>
    match limit with
    | 0 => false
    | limit + 1 => DumpableItems limit xs
  | .dict items =>
    match limit with
    | 0 => false
    | limit + 1 => DumpableFields limit items
  | .object _ => false

def DumpableItems (limit : Nat) : List PyVal → Bool
  | [] => true
  | x :: xs => Dumpable limit x && DumpableItems limit xs

def DumpableFields (limit : Nat) : List (PyVal × PyVal) → Bool
  | [] => true
  | (key, x) :: items => DumpableKey key && Dumpable limit x && DumpableFields limit items
end

variable {ft : FloatText} {limit : Nat} {s text : Str}

@[simp] theorem isOk_ok {α : Type} (a : α) : (.ok a : Except PyError α).isOk = true := rfl
@[simp] theorem isOk_error {α : Type} (e : PyError) :
    (.error e : Except PyError α).isOk = false := rfl

@[simp] theorem isOk_map {α β : Type} (f : α → β) (r : Except PyError α) :
    (r.map f).isOk = r.isOk := by
  cases r <;> rfl

theorem intText_isOk (n : Int) : (intText n).isOk = Writable n := by
  by_cases h : (Nat.toDigits 10 n.natAbs).length ≤ maxStrDigits <;> simp [intText, Writable, h]

theorem keyText_isOk (ft : FloatText) (v : PyVal) : (keyText ft v).isOk = DumpableKey v := by
  cases v with
  | int n => exact intText_isOk n
  | _ => rfl

mutual
/-- `json.dumps` succeeds on exactly the dumpable values. -/
theorem dumps_isOk (ft : FloatText) (limit : Nat) :
    ∀ v, (dumps ft limit v).isOk = Dumpable limit v
  | .none | .bool _ | .float _ | .str _ | .object _ => rfl
  | .int n => intText_isOk n
  | .list xs | .tuple xs => by
    cases limit with
    | zero => rfl
    | succ limit => simp [dumps, Dumpable, dumpsItems_isOk ft limit xs]
  | .dict items => by
    cases limit with
    | zero => rfl
    | succ limit => simp [dumps, Dumpable, dumpsFields_isOk ft limit items]

theorem dumpsItems_isOk (ft : FloatText) (limit : Nat) :
    ∀ xs, (dumpsItems ft limit xs).isOk = DumpableItems limit xs
  | [] => rfl
  | x :: xs => by
    rw [DumpableItems, ← dumps_isOk ft limit x, ← dumpsItems_isOk ft limit xs]
    cases hd : dumps ft limit x <;> simp [dumpsItems, hd]

theorem dumpsFields_isOk (ft : FloatText) (limit : Nat) :
    ∀ items, (dumpsFields ft limit items).isOk = DumpableFields limit items
  | [] => rfl
  | (key, x) :: items => by
    rw [DumpableFields, ← keyText_isOk ft key, ← dumps_isOk ft limit x,
      ← dumpsFields_isOk ft limit items]
    cases hk : keyText ft key <;> cases hd : dumps ft limit x <;> simp [dumpsFields, hk, hd]
end

def AllPrintable (s : Str) : Prop := ∀ c ∈ s, Printable c

instance (s : Str) : Decidable (AllPrintable s) := List.decidableBAll Printable s

theorem allPrintable_append {s t : Str} :
    AllPrintable (s ++ t) ↔ AllPrintable s ∧ AllPrintable t := by
  simp [AllPrintable, or_imp, forall_and]

theorem allPrintable_cons {c : Char} : AllPrintable (c :: s) ↔ Printable c ∧ AllPrintable s := by
  simp [AllPrintable]

theorem printable_digitChar : ∀ d < 16, Printable (Nat.digitChar d) := by decide

theorem allPrintable_unicodeEscape (n : Nat) : AllPrintable (unicodeEscape n) := by
  have hd (k : Nat) : Printable (Nat.digitChar (k % 16)) :=
    printable_digitChar _ (Nat.mod_lt _ (by decide))
  have hfix : Printable backslash ∧ Printable 'u' := by decide
  simp [AllPrintable, unicodeEscape, hd, hfix.1, hfix.2]

theorem allPrintable_escape (c : Char) : AllPrintable (escape c) := by
  unfold escape
  split_ifs with hq hp
  · rcases hq with rfl | rfl <;> decide
  · simpa [AllPrintable] using hp
  · split
    case h_6 =>
      split_ifs
      · exact allPrintable_unicodeEscape _
      · exact allPrintable_append.mpr
          ⟨allPrintable_unicodeEscape _, allPrintable_unicodeEscape _⟩
    all_goals decide

theorem allPrintable_quoted (s : Str) : AllPrintable (quoted s) := by
  have hq : Printable quote := by decide
  refine allPrintable_append.mpr ⟨allPrintable_cons.mpr ⟨hq, fun c hc => ?_⟩, by simpa [AllPrintable]⟩
  obtain ⟨d, -, hd⟩ := List.mem_flatMap.mp hc
  exact allPrintable_escape d c hd

theorem allPrintable_intText {n : Int} (h : intText n = .ok text) : AllPrintable text := by
  have hdigits : AllPrintable (Nat.toDigits 10 n.natAbs) := fun c hc => by
    have hd := Nat.isDigit_of_mem_toDigits (by decide) (by decide) hc
    simp only [Char.isDigit, Bool.and_eq_true, decide_eq_true_eq, UInt32.le_iff_toNat_le] at hd
    exact ⟨le_trans (by decide) hd.1, le_trans hd.2 (by decide)⟩
  unfold intText at h
  by_cases hlen : (Nat.toDigits 10 n.natAbs).length ≤ maxStrDigits
  · simp only [if_pos hlen, Except.ok.injEq] at h
    subst h
    split_ifs
    · exact allPrintable_cons.mpr ⟨by decide, hdigits⟩
    · exact hdigits
  · simp only [if_neg hlen] at h
    cases h

theorem allPrintable_floatText (ft : FloatText) (x : PyFloat) : AllPrintable (floatText ft x) := by
  have hinf : AllPrintable "Infinity".toList ∧ AllPrintable "-Infinity".toList ∧
      AllPrintable "NaN".toList := by decide
  rcases x with ⟨m, e⟩ | ⟨_ | _⟩ | _
  · exact ft.printable m e
  · exact hinf.1
  · exact hinf.2.1
  · exact hinf.2.2

theorem allPrintable_joined {parts : List Str} (h : ∀ part ∈ parts, AllPrintable part) :
    AllPrintable (joined parts) := by
  induction parts with
  | nil => simp [joined, AllPrintable]
  | cons part parts ih =>
    have ih := ih fun p hp => h p (List.mem_cons_of_mem _ hp)
    have hpart := h part (by simp)
    cases parts with
    | nil => exact hpart
    | cons p parts =>
      have hsep : AllPrintable ", ".toList := by decide
      exact allPrintable_append.mpr ⟨allPrintable_append.mpr ⟨hpart, hsep⟩, ih⟩

theorem map_eq_ok {α β : Type} {f : α → β} {r : Except PyError α} {b : β}
    (h : r.map f = .ok b) : ∃ a, r = .ok a ∧ f a = b := by
  cases r with
  | error e => cases h
  | ok a =>
    cases h
    exact ⟨a, rfl, rfl⟩

mutual
/-- The text `json.dumps` gives is printable ASCII. -/
theorem allPrintable_dumps (ft : FloatText) (limit : Nat) :
    ∀ v text, dumps ft limit v = .ok text → AllPrintable text
  | .none, text, h => by
    cases h
    decide
  | .bool b, text, h => by
    cases h
    cases b <;> decide
  | .int n, text, h => allPrintable_intText h
  | .float x, text, h => by
    cases h
    exact allPrintable_floatText ft x
  | .str s, text, h => by
    cases h
    exact allPrintable_quoted s
  | .list xs, text, h | .tuple xs, text, h => by
    cases limit with
    | zero => cases h
    | succ limit =>
      obtain ⟨parts, hp, rfl⟩ := map_eq_ok h
      have hj := allPrintable_joined (allPrintable_dumpsItems ft limit xs parts hp)
      exact allPrintable_append.mpr ⟨allPrintable_cons.mpr ⟨by decide, hj⟩, by decide⟩
  | .dict items, text, h => by
    cases limit with
    | zero => cases h
    | succ limit =>
      obtain ⟨parts, hp, rfl⟩ := map_eq_ok h
      have hj := allPrintable_joined (allPrintable_dumpsFields ft limit items parts hp)
      exact allPrintable_append.mpr ⟨allPrintable_cons.mpr ⟨by decide, hj⟩, by decide⟩
  | .object _, text, h => by cases h

theorem allPrintable_dumpsItems (ft : FloatText) (limit : Nat) :
    ∀ xs parts, dumpsItems ft limit xs = .ok parts → ∀ part ∈ parts, AllPrintable part
  | [], parts, h => by
    cases h
    simp
  | x :: xs, parts, h => by
    cases hd : dumps ft limit x with
    | error e =>
      simp only [dumpsItems, hd] at h
      cases h
    | ok part =>
      simp only [dumpsItems, hd] at h
      obtain ⟨rest, hr, rfl⟩ := map_eq_ok h
      intro p hp
      rcases List.mem_cons.mp hp with rfl | hp
      · exact allPrintable_dumps ft limit x p hd
      · exact allPrintable_dumpsItems ft limit xs rest hr p hp

theorem allPrintable_dumpsFields (ft : FloatText) (limit : Nat) :
    ∀ items parts, dumpsFields ft limit items = .ok parts → ∀ part ∈ parts, AllPrintable part
  | [], parts, h => by
    cases h
    simp
  | (key, x) :: items, parts, h => by
    cases hk : keyText ft key with
    | error e =>
      simp only [dumpsFields, hk] at h
      cases h
    | ok k =>
      cases hd : dumps ft limit x with
      | error e =>
        simp only [dumpsFields, hk, hd] at h
        cases h
      | ok part =>
        simp only [dumpsFields, hk, hd] at h
        obtain ⟨rest, hr, rfl⟩ := map_eq_ok h
        intro p hp
        rcases List.mem_cons.mp hp with rfl | hp
        · have hsep : AllPrintable ": ".toList := by decide
          exact allPrintable_append.mpr ⟨allPrintable_append.mpr ⟨allPrintable_quoted k, hsep⟩,
            allPrintable_dumps ft limit x part hd⟩
        · exact allPrintable_dumpsFields ft limit items rest hr p hp
end

/-- Printable text is its own encoding, and holds no control byte. -/
theorem notMem_encode_of_allPrintable (h : AllPrintable s) {b : UInt8} (hb : b.toNat < 0x20) :
    b ∉ encode s := by
  intro hm
  obtain ⟨c, hc, hm⟩ := List.mem_flatMap.mp hm
  obtain ⟨hlo, hhi⟩ := h c hc
  have hle : c.val.toNat ≤ 0x7f := le_trans hhi (by decide)
  rw [String.utf8EncodeChar, if_pos hle, List.mem_singleton] at hm
  have hn : c.val.toNat = c.toNat := rfl
  rw [hm, UInt8.toNat_ofNat', hn] at hb
  omega

end McuUpdater.PyJson
