import McuUpdater.Kconfig.Session

/-! `providers/kconfig.py`: what a refused `set_value` leaves behind, and the runs of a session
with and without it. -/
namespace McuUpdater.Kconfig
open PyText

section Rejected
variable {L : Library} (int : Nat → Str → Option Int)

/-! ## What kconfiglib is relied on for -/

def SymbolType.written : SymbolType → Bool
  | .string | .int | .hex => true
  | _ => false

/-- What kconfiglib says of `set_value`, `assignable` and the user value of a written symbol. -/
structure Library.Documented (L : Library) : Prop where
  /-- A value that is invalid for the type is ignored and not stored. -/
  ignored : ∀ s name text, (L.setValue s name text).1 = false → (L.setValue s name text).2 = s
  /-- A value in `assignable` is respected. -/
  respected : ∀ s name value, value ∈ L.assignable s name →
    (L.setValue s name (triToStr value)).1 = true ∧
      L.strValue (L.setValue s name (triToStr value)).2 name = triToStr value
  /-- A user value of a visible symbol within its active range is kept in the form it was given. -/
  stored : ∀ s name type text, type.written = true → 0 < L.visibility s (.symbol name type) →
    (L.setValue s name text).1 = true →
    (∀ range, L.activeRange s name = some range → type ≠ .string →
      ∃ v low high, int (baseOf type) text = some v ∧ int (baseOf type) range.1 = some low ∧
        int (baseOf type) range.2 = some high ∧ low ≤ v ∧ v ≤ high) →
    L.strValue (L.setValue s name text).2 name = text

/-! ## A session and the file it is saved to -/

structure Desk (L : Library) where
  session : Session L
  saved : Option Str

inductive Call
  | setValue (id text : Str)
  | enter (id : Str)
  | up
  | save
  deriving DecidableEq

def Desk.call (desk : Desk L) : Call → Desk L
  | .setValue id text => { desk with session := (desk.session.setValue int id text).2 }
  | .enter id =>
    match desk.session.enter id with
    | .ok session => { desk with session }
    | .error _ => desk
  | .up => { desk with session := desk.session.up }
  | .save =>
    { session := { desk.session with dirty := false }, saved := some (L.written desk.session.kconf) }

def Desk.raises (desk : Desk L) : Call → Bool
  | .setValue id text =>
    match (desk.session.setValue int id text).1 with
    | .ok _ => false
    | .error _ => true
  | .enter id =>
    match desk.session.enter id with
    | .ok _ => false
    | .error _ => true
  | .up | .save => false

def Desk.run : List Call → Desk L → Desk L
  | [], desk => desk
  | call :: calls, desk => run calls (desk.call int call)

def Desk.accepted : List Call → Desk L → List Call
  | [], _ => []
  | call :: calls, desk =>
    if desk.raises int call then accepted calls (desk.call int call)
    else call :: accepted calls (desk.call int call)

/-- A choice that can be changed is only asked for an option that can be chosen now. -/
def Session.Choosable (session : Session L) (id text : Str) : Prop :=
  ∀ node, session.find id = .ok node → node.entry.item.isChoice = true →
    editable L session.kconf node = true → strip text ∈ (optionsOf node).map Prod.fst →
      2 ∈ L.assignable session.kconf (strip text)

def Desk.Choosable (desk : Desk L) : Call → Prop
  | .setValue id text => desk.session.Choosable id text
  | _ => True

/-- Every call of the run is so, where the run has come to. -/
def Desk.Choosing : List Call → Desk L → Prop
  | [], _ => True
  | call :: calls, desk => desk.Choosable call ∧ Choosing calls (desk.call int call)

instance (session : Session L) (id text : Str) : Decidable (session.Choosable id text) :=
  match h : session.find id with
  | .error _ => .isTrue fun _ hn => by cases h.symm.trans hn
  | .ok node =>
    decidable_of_iff (node.entry.item.isChoice = true → editable L session.kconf node = true →
        strip text ∈ (optionsOf node).map Prod.fst → 2 ∈ L.assignable session.kconf (strip text))
      ⟨fun hnode m hm => Except.ok.inj (h.symm.trans hm) ▸ hnode, fun hall => hall node h⟩

instance : ∀ (desk : Desk L) (call : Call), Decidable (desk.Choosable call)
  | desk, .setValue id text => inferInstanceAs (Decidable (desk.session.Choosable id text))
  | _, .enter _ | _, .up | _, .save => .isTrue trivial

instance : ∀ (calls : List Call) (desk : Desk L), Decidable (desk.Choosing int calls)
  | [], _ => .isTrue trivial
  | call :: calls, desk =>
    have := instDecidableChoosing calls (desk.call int call)
    inferInstanceAs (Decidable (_ ∧ _))

/-! ## A refused value -/

variable {int} {session : Session L} {s : L.State} {node : MenuNode} {name wanted id text : Str}
  {type : SymbolType} {e : KconfigError}

theorem sameValue_self (int : Nat → Str → Option Int) (type : SymbolType) (text : Str) :
    sameValue int type text text = true := by
  cases type with
  | hex => cases h : int 16 text <;> simp [sameValue, h]
  | int => cases h : int 10 text <;> simp [sameValue, h]
  | bool | tristate | string | unknown => simp [sameValue]

theorem assign_refused (hL : L.Documented int) (h : (assign int s node name type wanted).1 = some e)
    (htakes : (valueRange L s node).bind (checkRange int node type wanted) = none →
      (L.setValue s name wanted).1 = true → L.strValue (L.setValue s name wanted).2 name = wanted) :
    (assign int s node name type wanted).2 = s := by
  rw [assign] at h ⊢
  cases hrange : (valueRange L s node).bind (checkRange int node type wanted) with
  | some e => rfl
  | none =>
    rw [hrange] at h
    dsimp only at h ⊢
    cases haccepted : (L.setValue s name wanted).1 with
    | false =>
      rw [Bool.not_false, Bool.true_or, if_pos rfl]
      exact hL.ignored s name wanted haccepted
    | true =>
      rw [htakes hrange haccepted, haccepted, sameValue_self] at h
      simp at h

theorem checkRange_none {range : Str × Str} (h : checkRange int node type wanted range = none) :
    ∃ v low high, int (baseOf type) wanted = some v ∧ int (baseOf type) range.1 = some low ∧
      int (baseOf type) range.2 = some high ∧ low ≤ v ∧ v ≤ high := by
  rw [checkRange] at h
  split at h
  next v low high hv hlow hhigh =>
    split_ifs at h with hwithin
    exact ⟨v, low, high, hv, hlow, hhigh, hwithin⟩
  next => cases h

theorem written_takes (hL : L.Documented int) (hitem : node.entry.item = .symbol name type)
    (hwritten : type.written = true) (hvisible : 0 < L.visibility s (.symbol name type))
    (hrange : (valueRange L s node).bind (checkRange int node type wanted) = none)
    (haccepted : (L.setValue s name wanted).1 = true) :
    L.strValue (L.setValue s name wanted).2 name = wanted := by
  refine hL.stored s name type wanted hwritten hvisible haccepted fun range hactive hstring => ?_
  have hvalue : valueRange L s node = L.activeRange s name := by
    cases type <;> simp_all [valueRange, SymbolType.written]
  rw [hvalue, hactive] at hrange
  exact checkRange_none hrange

theorem selectChoice_refused (hL : L.Documented int)
    (h : (selectChoice int s node wanted).1 = some e)
    (hchoosable : wanted ∈ (optionsOf node).map Prod.fst → 2 ∈ L.assignable s wanted) :
    (selectChoice int s node wanted).2 = s := by
  rw [selectChoice] at h ⊢
  cases hoption : (optionsOf node).lookup wanted with
  | none => rfl
  | some target =>
    rw [hoption] at h
    have hmem : wanted ∈ (optionsOf node).map Prod.fst := by
      rw [List.lookup_eq_some_iff] at hoption
      obtain ⟨before, after, hsplit, -⟩ := hoption
      simp [hsplit]
    exact assign_refused hL h fun _ _ => (hL.respected s wanted 2 (hchoosable hmem)).2

theorem visible_of_editable (hitem : node.entry.item = .symbol name type)
    (hwritten : type.written = true) (heditable : editable L s node = true) :
    0 < L.visibility s (.symbol name type) := by
  by_contra hhidden
  have hnone : assignable L s node = [] := by
    cases type with
    | string | int | hex => rw [assignable, hitem]; exact if_neg hhidden
    | bool | tristate | unknown => cases hwritten
  cases type with
  | string | int | hex => simp only [editable, hitem, hnone, ne_eq, not_true_eq_false,
      decide_false, Bool.false_eq_true] at heditable
  | bool | tristate | unknown => cases hwritten

theorem editable_of_refusal (h : refusal session node id = none) :
    editable L session.kconf node = true := by
  by_contra hnot
  rw [refusal, if_neg hnot] at h
  split at h
  · cases h
  · cases h
  · cases h
  · cases hparent : node.parent with
    | none => rw [hparent] at h; cases h
    | some parent =>
      rw [hparent] at h
      dsimp only at h
      split_ifs at h

theorem setNode_refused (hL : L.Documented int)
    (h : (setNode int session node id wanted).1 = some e) (hset : refusal session node id = none)
    (hchoosable : node.entry.item.isChoice = true → wanted ∈ (optionsOf node).map Prod.fst →
      2 ∈ L.assignable session.kconf wanted) :
    (setNode int session node id wanted).2 = session.kconf := by
  rw [setNode] at h ⊢
  cases hitem : node.entry.item with
  | menu | comment => rfl
  | choice object name =>
    simp only [hitem] at h hchoosable ⊢
    exact selectChoice_refused hL h (hchoosable rfl)
  | symbol name type =>
    simp only [hitem] at h ⊢
    split_ifs at h ⊢ with hallowed
    · rfl
    · refine assign_refused hL h fun hrange haccepted => ?_
      cases type with
      | bool | tristate =>
        have hmem : wanted ∈ (L.assignable session.kconf name).map triToStr := by
          simpa [assignable, hitem] using hallowed
        obtain ⟨value, hvalue, rfl⟩ := List.mem_map.1 hmem
        exact (hL.respected _ name value hvalue).2
      | string | int | hex =>
        have hvisible := visible_of_editable hitem rfl (editable_of_refusal hset)
        exact written_takes hL hitem rfl hvisible hrange haccepted
      | unknown => rw [refusal, hitem] at hset; cases hset

theorem setValue_refused (hL : L.Documented int) (h : (session.setValue int id text).1 = .error e)
    (hchoosable : session.Choosable id text) : (session.setValue int id text).2 = session := by
  rw [Session.setValue] at h ⊢
  cases hfind : session.find id with
  | error e => rfl
  | ok node =>
    rw [hfind] at h
    dsimp only at h ⊢
    cases hrefusal : refusal session node id with
    | some e => rfl
    | none =>
      rw [hrefusal] at h
      dsimp only at h ⊢
      rcases hset : setNode int session node id (strip text) with ⟨_ | e, kconf⟩
      · rw [hset] at h; cases h
      · have hsame := setNode_refused hL (by rw [hset]) hrefusal fun hchoice =>
          hchoosable node hfind hchoice (editable_of_refusal hrefusal)
        rw [hset] at hsame
        dsimp only at hsame ⊢
        rw [hsame]

/-! ## Runs -/

variable {desk : Desk L} {call : Call}

theorem call_of_raises (hL : L.Documented int) (h : desk.raises int call = true)
    (hchoosable : desk.Choosable call) : desk.call int call = desk := by
  cases call with
  | setValue id text =>
    rw [Desk.raises] at h
    cases hset : (desk.session.setValue int id text).1 with
    | ok changed => simp [hset] at h
    | error e => rw [Desk.call, setValue_refused hL hset hchoosable]
  | enter id =>
    rw [Desk.raises] at h
    cases henter : desk.session.enter id with
    | ok session => simp [henter] at h
    | error e => simp [Desk.call, henter]
  | up | save => cases h

theorem run_append (before after : List Call) (desk : Desk L) :
    Desk.run int (before ++ after) desk = Desk.run int after (Desk.run int before desk) := by
  induction before generalizing desk with
  | nil => rfl
  | cons call before ih => exact ih (desk.call int call)

theorem choosable_of_choosing {before : List Call} {call : Call} {after : List Call} {desk : Desk L}
    (h : desk.Choosing int (before ++ call :: after)) : (desk.run int before).Choosable call := by
  induction before generalizing desk with
  | nil => exact h.1
  | cons first before ih => exact ih h.2

theorem run_accepted (hL : L.Documented int) {calls : List Call} {desk : Desk L}
    (h : desk.Choosing int calls) : desk.run int calls = desk.run int (desk.accepted int calls) := by
  induction calls generalizing desk with
  | nil => rfl
  | cons call calls ih =>
    rw [Desk.run, Desk.accepted, ih h.2]
    split_ifs with hraises
    · rw [call_of_raises hL hraises h.1]
    · rfl

/-- In a run whose choices are asked for what can be chosen, a call that raised changes nothing,
and everything after it is what it would be without it; so for all of them at once. -/
theorem refused_calls_leave_no_trace (L : Library) (int : Nat → Str → Option Int)
    (hL : L.Documented int) (desk : Desk L) (calls : List Call) (h : desk.Choosing int calls) :
    (∀ before call after, calls = before ++ call :: after →
      (desk.run int before).raises int call = true →
        (desk.run int before).call int call = desk.run int before ∧
          ∀ later, desk.run int (before ++ call :: later) = desk.run int (before ++ later)) ∧
    desk.run int calls = desk.run int (desk.accepted int calls) := by
  refine ⟨fun before call after hsplit hraises => ?_, run_accepted hL h⟩
  have hsame := call_of_raises hL hraises (choosable_of_choosing (hsplit ▸ h))
  refine ⟨hsame, fun later => ?_⟩
  rw [run_append, run_append, Desk.run, hsame]

end Rejected

/-! ## A choice with an option that is not always there -/

/-- The user's values: of a bool, of a choice and of an int. -/
structure Answers where
  hasCan : Bool := false
  picked : Option Str := none
  baud : Option Str := none
  deriving DecidableEq

def optionNames : List Str := [['U'], ['S'], ['C']]

/-- Of the options of the choice `C` depends on the bool `D`; `N` is the int. -/
def Answers.visibility (s : Answers) : Item → Nat
  | .symbol name .bool =>
    if name = ['C'] then if s.hasCan then 2 else 0
    else if name ∈ [['D'], ['U'], ['S']] then 2 else 0
  | .symbol name .int => if name = ['N'] then 2 else 0
  | .choice .. => 2
  | _ => 0

def Answers.selection (s : Answers) : Str :=
  match s.picked with
  | some name => if 0 < s.visibility (.symbol name .bool) then name else ['U']
  | none => ['U']

def Answers.strValue (s : Answers) (name : Str) : Str :=
  if name = ['D'] then if s.hasCan then ['y'] else ['n']
  else if name = ['N'] then s.baud.getD ['9', '6']
  else if name = s.selection then ['y'] else ['n']

def Answers.assignable (s : Answers) (name : Str) : List Nat :=
  if name = ['D'] then [0, 2]
  else if name ∈ optionNames ∧ 0 < s.visibility (.symbol name .bool) then [2] else []

def isDecimal (text : Str) : Bool := text ≠ [] && text.all Char.isDigit

def Answers.setValue (s : Answers) (name text : Str) : Bool × Answers :=
  if name = ['D'] then
    if text = ['y'] then (true, { s with hasCan := true })
    else if text = ['n'] then (true, { s with hasCan := false })
    else (false, s)
  else if name ∈ optionNames then
    if text = ['y'] then (true, { s with picked := some name })
    else (text = ['n'], s)
  else if name = ['N'] ∧ isDecimal text then (true, { s with baud := some text })
  else (false, s)

def Answers.written (s : Answers) : Str :=
  [['D'], ['U'], ['S'], ['C'], ['N']].flatMap fun name => name ++ '=' :: s.strValue name ++ ['\n']

abbrev board : Library where
  State := Answers
  promptValue s entry := s.visibility entry.item
  visibility := Answers.visibility
  strValue := Answers.strValue
  assignable := Answers.assignable
  activeRange _ _ := none
  selection s
    | .choice .. => some s.selection
    | _ => none
  setValue := Answers.setValue
  written := Answers.written

theorem strValue_picked {s : Answers} {name : Str} (hoption : name ∈ optionNames)
    (hvisible : 0 < s.visibility (.symbol name .bool)) :
    { s with picked := some name }.strValue name = ['y'] := by
  have hselection : { s with picked := some name }.selection = name := if_pos hvisible
  have hd : name ≠ ['D'] := fun h => by subst h; exact absurd hoption (by decide)
  have hn : name ≠ ['N'] := fun h => by subst h; exact absurd hoption (by decide)
  rw [Answers.strValue, if_neg hd, if_neg hn, if_pos hselection.symm]

theorem setValue_option {s : Answers} {name : Str} (hoption : name ∈ optionNames) :
    s.setValue name ['y'] = (true, { s with picked := some name }) := by
  have hd : name ≠ ['D'] := fun h => by subst h; exact absurd hoption (by decide)
  simp only [Answers.setValue, hd, hoption, if_true, if_false]

theorem setValue_int (s : Answers) (text : Str) : s.setValue ['N'] text =
    if isDecimal text then (true, { s with baud := some text }) else (false, s) := by
  simp [Answers.setValue, optionNames]

theorem board_documented (int : Nat → Str → Option Int) : board.Documented int where
  ignored s name text h := by
    simp only [board, Answers.setValue] at h ⊢
    split_ifs at h ⊢ <;> rfl
  respected s name value h := by
    simp only [board, Answers.assignable] at h ⊢
    split_ifs at h with hd hoption
    · subst hd
      rcases List.mem_pair.1 h with rfl | rfl <;> exact ⟨rfl, rfl⟩
    · obtain rfl := List.mem_singleton.1 h
      have hset := setValue_option (s := s) hoption.1
      exact ⟨congrArg Prod.fst hset,
        (congrArg (fun r => r.2.strValue name) hset).trans (strValue_picked hoption.1 hoption.2)⟩
    · cases h
  stored s name type text hwritten hvisible haccepted _ := by
    obtain rfl : name = ['N'] := by
      by_contra hn
      cases type <;> simp [SymbolType.written, Answers.visibility, hn] at hwritten hvisible
    change (Answers.setValue s ['N'] text).1 = true at haccepted
    change (Answers.setValue s ['N'] text).2.strValue ['N'] = text
    rw [setValue_int] at haccepted ⊢
    split_ifs at haccepted ⊢
    rfl

def entryOf (ref : Nat) (item : Item) (prompt : Str) : Entry where
  ref
  item
  prompt := some prompt
  filename := ['K']
  linenr := ref
  help := none
  isMenuconfig := false

def boardTree : Nodes :=
  .node (entryOf 1 (.symbol ['D'] .bool) ['d']) .nil <|
  .node (entryOf 2 (.choice 0 (some ['H'])) ['h'])
    (.node (entryOf 3 (.symbol ['U'] .bool) ['u']) .nil <|
     .node (entryOf 4 (.symbol ['S'] .bool) ['s']) .nil <|
     .node (entryOf 5 (.symbol ['C'] .bool) ['c']) .nil .nil) <|
  .node (entryOf 6 (.symbol ['N'] .int) ['n']) .nil .nil

/-- The choice stands at `S`, which is not its default. -/
def boardDesk : Desk board where
  session := {
    top := ⟨entryOf 0 .menu [], boardTree, none⟩
    kconf := ({ picked := some ['S'] } : Answers) }
  saved := none

def decimal (base : Nat) (text : Str) : Option Int :=
  if base = 10 ∧ isDecimal text then
    some (text.foldl (fun n c => n * 10 + (c.toNat - '0'.toNat : Int)) 0)
  else none

theorem refused_calls_leave_no_trace_board :
    boardDesk.raises decimal (.setValue ['N'] ['x']) = true ∧
      boardDesk.run decimal [.setValue ['N'] ['x'], .setValue ['H'] ['U'], .save] =
        boardDesk.run decimal [.setValue ['H'] ['U'], .save] :=
  ⟨by decide, (refused_calls_leave_no_trace board decimal (board_documented decimal) boardDesk
    [.setValue ['N'] ['x'], .setValue ['H'] ['U'], .save] (by decide)).2.trans rfl⟩

/-- The option `C` is not there, and being asked for it drops the selection of `S`; once `D` is
set, `C` is what the choice has. -/
theorem refused_option_unselects :
    let refused : Call := .setValue ['H'] ['C']
    let later : Call := .setValue ['D'] ['y']
    let value (desk : Desk board) (name : Str) : Str := board.strValue desk.session.kconf name
    boardDesk.raises decimal refused = true ∧
      value boardDesk ['S'] = ['y'] ∧ value (boardDesk.call decimal refused) ['S'] = ['n'] ∧
      value (boardDesk.run decimal [later]) ['C'] = ['n'] ∧
      value (boardDesk.run decimal [refused, later]) ['C'] = ['y'] := by
  decide

end McuUpdater.Kconfig
