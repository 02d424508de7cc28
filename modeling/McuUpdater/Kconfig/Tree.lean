import McuUpdater.Lib.PyText

/-! `providers/kconfig.py`: a parsed Kconfig tree and what `Serializer` shows of it. What
kconfiglib works out of the user's values is read through a `Library`. -/
namespace McuUpdater.Kconfig
open PyText

inductive SymbolType
  | bool
  | tristate
  | string
  | int
  | hex
  | unknown
  deriving DecidableEq

/-- The object a node stands for: a symbol is the one of its name, a choice may have none. -/
inductive Item
  | menu
  | comment
  | symbol (name : Str) (type : SymbolType)
  | choice (object : Nat) (name : Option Str)
  deriving DecidableEq

/-- `getattr(item, "name", None)` -/
def Item.name : Item → Option Str
  | .menu | .comment => none
  | .symbol name _ => some name
  | .choice _ name => name

/-- A `MenuNode` but for its place in the tree; `ref` is which node it is. -/
structure Entry where
  ref : Nat
  item : Item
  prompt : Option Str
  filename : Str
  linenr : Nat
  help : Option Str
  isMenuconfig : Bool
  deriving DecidableEq

/-- A node with its `list` and its `next`. -/
inductive Nodes
  | nil
  | node (entry : Entry) (list next : Nodes)
  deriving DecidableEq

structure MenuNode where
  entry : Entry
  list : Nodes
  parent : Option Entry
  deriving DecidableEq

/-- `_iter_siblings` -/
def Nodes.siblings (parent : Option Entry) : Nodes → List MenuNode
  | .nil => []
  | .node entry list next => ⟨entry, list, parent⟩ :: next.siblings parent

/-- `_walk` -/
def Nodes.walk (parent : Option Entry) : Nodes → List MenuNode
  | .nil => []
  | .node entry list next => ⟨entry, list, parent⟩ :: (list.walk (some entry) ++ next.walk parent)

/-- kconfiglib: `State` is what a `Kconfig` object holds of the user's values. -/
structure Library where
  State : Type
  /-- `expr_value(node.prompt[1])` -/
  promptValue : State → Entry → Nat
  visibility : State → Item → Nat
  strValue : State → Str → Str
  /-- `sorted(sym.assignable)` -/
  assignable : State → Str → List Nat
  /-- the bounds of the first range whose condition holds -/
  activeRange : State → Str → Option (Str × Str)
  selection : State → Item → Option Str
  /-- `sym.set_value(value)` -/
  setValue : State → Str → Str → Bool × State
  /-- `write_config` -/
  written : State → Str

inductive Kind
  | menu
  | comment
  | choice
  | symbol (type : SymbolType)
  deriving DecidableEq

/-- `kind` -/
def Item.kind : Item → Kind
  | .menu => .menu
  | .comment => .comment
  | .symbol _ type => .symbol type
  | .choice .. => .choice

def Item.isSymbol : Item → Bool
  | .symbol .. => true
  | _ => false

def Item.isChoice : Item → Bool
  | .choice .. => true
  | _ => false

def triToStr (value : Nat) : Str := if value = 0 then ['n'] else if value = 1 then ['m'] else ['y']

section Serializer
variable (L : Library) (s : L.State)

/-- The test of `visible`, over whether a child is visible. -/
def shown (entry : Entry) (visibleChild : Bool) : Bool :=
  entry.prompt.isSome && L.promptValue s entry ≠ 0 &&
    if entry.item.isSymbol || entry.item.isChoice then
      0 < L.visibility s entry.item || visibleChild
    else true

/-- `has_visible_child` -/
def hasVisibleChild : Nodes → Bool
  | .nil => false
  | .node entry list next => shown L s entry (hasVisibleChild list) || hasVisibleChild next

def visible (node : MenuNode) : Bool := shown L s node.entry (hasVisibleChild L s node.list)

def enterable (node : MenuNode) : Bool :=
  if node.entry.item = .menu then true
  else if node.entry.item.isChoice then false
  else node.entry.isMenuconfig && node.list ≠ .nil

/-- `_choice_pairs` -/
def choicePairs (node : MenuNode) : List (Str × Str) :=
  (node.list.siblings (some node.entry)).filterMap fun child =>
    match child.entry.item with
    | .symbol name _ =>
      if name ≠ [] ∧ 0 < L.visibility s child.entry.item then
        some (name, child.entry.prompt.getD [])
      else none
    | _ => none

def choiceOptions (node : MenuNode) : List Str := (choicePairs L s node).map Prod.fst

/-- `prompt or name` -/
def labelOr (name prompt : Str) : Str := if prompt = [] then name else prompt

/-- `choice_labels` -/
def choiceLabels (node : MenuNode) : List (Str × Str) :=
  (choicePairs L s node).map fun (name, prompt) => (name, labelOr name prompt)

def value (node : MenuNode) : Option Str :=
  match node.entry.item with
  | .menu | .comment => none
  | .choice .. => L.selection s node.entry.item
  | .symbol name _ => some (L.strValue s name)

def valueLabel (node : MenuNode) : Option Str :=
  if node.entry.item.isChoice then
    (L.selection s node.entry.item).map fun selected =>
      match (choicePairs L s node).find? (·.1 = selected) with
      | some (name, prompt) => labelOr name prompt
      | none => selected
  else none

def assignable (node : MenuNode) : List Str :=
  match node.entry.item with
  | .menu | .comment => []
  | .choice .. => choiceOptions L s node
  | .symbol name .bool | .symbol name .tristate => (L.assignable s name).map triToStr
  | item => if 0 < L.visibility s item then ["<value>".toList] else []

def editable (node : MenuNode) : Bool :=
  let options := assignable L s node
  match node.entry.item with
  | .symbol _ .bool | .symbol _ .tristate | .choice .. => 1 < options.length
  | _ => options ≠ []

def valueRange (node : MenuNode) : Option (Str × Str) :=
  match node.entry.item with
  | .symbol name .int | .symbol name .hex => L.activeRange s name
  | _ => none

/-- `os.path.basename` -/
def basename (path : Str) : Str := path.rtakeWhile (· ≠ '/')

/-- `f"@{base}:{line}:{prompt}"` -/
def unnamedId (base : Str) (line : Nat) (prompt : Str) : Str :=
  '@' :: (base ++ ':' :: ((toString line).toList ++ ':' :: prompt))

/-- `node_id` -/
def nodeId (node : MenuNode) : Str :=
  let unnamed :=
    unnamedId (basename node.entry.filename) node.entry.linenr (node.entry.prompt.getD [])
  match node.entry.item.name with
  | some name => if name = [] then unnamed else name
  | none => unnamed

structure Row where
  id : Str
  kind : Kind
  name : Option Str
  prompt : Str
  depth : Nat
  value : Option Str
  visible : Bool
  assignable : List Str
  options : Option (List (Str × Str))
  valueLabel : Option Str
  editable : Bool
  range : Option (Str × Str)
  hasHelp : Bool
  isMenuconfig : Bool
  enterable : Bool
  deriving DecidableEq

/-- `Serializer.node` -/
def row (node : MenuNode) (depth : Nat) : Row where
  id := nodeId node
  kind := node.entry.item.kind
  name := node.entry.item.name
  prompt := node.entry.prompt.getD []
  depth
  value := value L s node
  visible := visible L s node
  assignable := assignable L s node
  options := if node.entry.item.isChoice then some (choiceLabels L s node) else none
  valueLabel := valueLabel L s node
  editable := editable L s node
  range := valueRange L s node
  hasHelp := node.entry.help.any (· ≠ [])
  isMenuconfig := node.entry.isMenuconfig
  enterable := enterable node

/-- The nodes `_collect` makes rows of, each with its depth. -/
def collect (parent : Option Entry) (depth : Nat) : Nodes → List (MenuNode × Nat)
  | .nil => []
  | .node entry list next =>
    let node : MenuNode := ⟨entry, list, parent⟩
    (if visible L s node then
      (node, depth) ::
        if entry.item ≠ .menu ∧ !entry.isMenuconfig ∧ !entry.item.isChoice then
          collect (some entry) (depth + 1) list
        else []
    else []) ++ collect parent depth next

/-- `Serializer.menu`, on the children of a node. -/
def menuRows (node : MenuNode) : List Row :=
  (collect L s (some node.entry) 0 node.list).map fun (n, depth) => row L s n depth

end Serializer

/-! ## A walk of the tree -/

variable {L : Library} {s : L.State} {parent : Option Entry} {nodes : Nodes} {n m : MenuNode}

theorem walk_subset (h : n ∈ nodes.walk parent) :
    n.list.walk (some n.entry) ⊆ nodes.walk parent := by
  induction nodes generalizing parent with
  | nil => exact absurd h List.not_mem_nil
  | node entry list next ihlist ihnext =>
    rw [Nodes.walk, List.mem_cons, List.mem_append] at h
    intro m hm
    rw [Nodes.walk, List.mem_cons, List.mem_append]
    rcases h with rfl | h | h
    · exact .inr (.inl hm)
    · exact .inr (.inl (ihlist h hm))
    · exact .inr (.inr (ihnext h hm))

theorem mem_walk_of_collect {depth d : Nat} (h : (n, d) ∈ collect L s parent depth nodes) :
    n ∈ nodes.walk parent ∧ visible L s n = true := by
  induction nodes generalizing parent depth with
  | nil => exact absurd h List.not_mem_nil
  | node entry list next ihlist ihnext =>
    rw [collect, List.mem_append] at h
    rw [Nodes.walk, List.mem_cons, List.mem_append]
    rcases h with h | h
    · split_ifs at h with hvisible hlist
      · rcases List.mem_cons.1 h with h | h
        · obtain ⟨rfl, -⟩ := Prod.mk.inj h
          exact ⟨.inl rfl, hvisible⟩
        · exact (ihlist h).imp_left fun h => .inr (.inl h)
      · obtain ⟨rfl, -⟩ := Prod.mk.inj (List.mem_singleton.1 h)
        exact ⟨.inl rfl, hvisible⟩
      · exact absurd h List.not_mem_nil
    · exact (ihnext h).imp_left fun h => .inr (.inr h)

end McuUpdater.Kconfig
