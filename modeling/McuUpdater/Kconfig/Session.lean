import Mathlib.Data.List.DropRight
import Mathlib.Data.List.Infix
import Mathlib.Data.List.Lex
import Mathlib.Data.Char
import McuUpdater.Kconfig.Tree

/-! `providers/kconfig.py`: `KconfigSession`, an open configuration that is walked a menu at a
time and assigned a symbol at a time. -/
namespace McuUpdater.Kconfig
open PyText

inductive KconfigError
  | noSuchEntry (id : Str)
  | nothingToEnter (id : Str)
  | noValue (id : Str)
  | optionOfChoice (id choice : Str)
  | held (id : Str)
  | notAllowed (id : Str) (allowed : List Str) (wanted : Str)
  | notAnOption (choice : Str) (wanted : Str) (options : List Str)
  | notANumber (id wanted : Str)
  | outsideRange (id wanted : Str) (range : Str × Str)
  | notAccepted (id wanted actual : Str)
  deriving DecidableEq

/-- The part of a session a request reads or changes; `below` is `_path` without its first
entry, which is always the top menu. -/
structure Session (L : Library) where
  top : MenuNode
  kconf : L.State
  below : List MenuNode := []
  dirty : Bool := false
  revision : Nat := 0

section Session
variable {L : Library}

namespace Session
variable (session : Session L)

def current : MenuNode := session.below.getLast?.getD session.top

/-- `_walk(self._kconf.top_node.list)` -/
def nodes : List MenuNode := session.top.list.walk (some session.top.entry)

/-- `_find` -/
def find (id : Str) : Except KconfigError MenuNode :=
  match session.nodes.find? (nodeId · = id) with
  | some node => .ok node
  | none => .error (.noSuchEntry id)

def menu : List Row := menuRows L session.kconf session.current

def enter (id : Str) : Except KconfigError (Session L) := do
  let node ← session.find id
  if enterable node then .ok { session with below := session.below ++ [node] }
  else .error (.nothingToEnter id)

def up : Session L := { session with below := session.below.dropLast }

/-- `_reanchor` -/
def reanchor : Session L :=
  { session with below := session.below.rdropWhile fun node => !visible L session.kconf node }

/-- The nodes `search` makes rows of, over `str.lower`; a limit below one stops at the first. -/
def found (lower : Str → Str) (query : Str) (limit : Nat) : List MenuNode :=
  let needle := lower (strip query)
  if needle = [] then []
  else (session.nodes.filter fun node => visible L session.kconf node &&
    (needle <:+: lower (node.entry.item.name.getD []) ||
      needle <:+: lower (node.entry.prompt.getD []))).take (max limit 1)

/-- `search`, with whether it was cut short. -/
def search (lower : Str → Str) (query : Str) (limit : Nat) : List Row × Bool :=
  let rows := (session.found lower query limit).map fun node => row L session.kconf node 0
  (rows, lower (strip query) ≠ [] && limit ≤ rows.length)

/-- `unique_defined_syms` -/
def symbols : List Item :=
  ((session.nodes.map (·.entry.item)).filter fun item =>
    item.isSymbol && item.name ≠ some []).eraseDups

/-- `_diff` of two states -/
def diff (before after : L.State) : List Str :=
  ((session.symbols.filter fun item =>
      L.strValue before (item.name.getD []) ≠ L.strValue after (item.name.getD []) ||
        decide (0 < L.visibility before item) ≠ decide (0 < L.visibility after item)).filterMap
    Item.name).mergeSort fun a b => decide (a ≤ b)

end Session

/-! ## Assigning a symbol -/

section Assigning
-- `int(text, base)`
variable (int : Nat → Str → Option Int)

def baseOf : SymbolType → Nat
  | .hex => 16
  | _ => 10

/-- `same_value`, where `str.lower` changes ASCII letters alone. -/
def sameValue (type : SymbolType) (requested actual : Str) : Bool :=
  match type with
  | .hex =>
    match int 16 requested, int 16 actual with
    | some a, some b => a = b
    | _, _ => (strip requested).map Char.toLower = (strip actual).map Char.toLower
  | .int =>
    match int 10 requested, int 10 actual with
    | some a, some b => a = b
    | _, _ => strip requested = strip actual
  | _ => strip requested = strip actual

/-- `_check_range` -/
def checkRange (node : MenuNode) (type : SymbolType) (wanted : Str) (range : Str × Str) :
    Option KconfigError :=
  match int (baseOf type) wanted, int (baseOf type) range.1, int (baseOf type) range.2 with
  | some v, some low, some high =>
    if low ≤ v ∧ v ≤ high then none else some (.outsideRange (nodeId node) wanted range)
  | _, _, _ => some (.notANumber (nodeId node) wanted)

/-- `_assign`: what the library made of the value stays, also where the value is refused. -/
def assign (s : L.State) (node : MenuNode) (name : Str) (type : SymbolType) (wanted : Str) :
    Option KconfigError × L.State :=
  match (valueRange L s node).bind (checkRange int node type wanted) with
  | some e => (some e, s)
  | none =>
    let (accepted, after) := L.setValue s name wanted
    let actual := L.strValue after name
    if !accepted || !sameValue int type wanted actual then
      (some (.notAccepted (nodeId node) wanted actual), after)
    else (none, after)

/-- The options `_select_choice` knows; of two with one name the later one. -/
def optionsOf (node : MenuNode) : List (Str × MenuNode) :=
  ((node.list.siblings (some node.entry)).filterMap fun child =>
    match child.entry.item with
    | .symbol name _ => if name = [] then none else some (name, child)
    | _ => none).reverse

/-- `_select_choice` -/
def selectChoice (s : L.State) (node : MenuNode) (wanted : Str) : Option KconfigError × L.State :=
  match (optionsOf node).lookup wanted with
  | none =>
    let names := ((optionsOf node).map Prod.fst).eraseDups.mergeSort fun a b => decide (a ≤ b)
    (some (.notAnOption (nodeId node) wanted names), s)
  | some target => assign int s target wanted .bool ['y']

/-- The refusals of `set_value` before anything is assigned. -/
def refusal (session : Session L) (node : MenuNode) (id : Str) : Option KconfigError :=
  match node.entry.item with
  | .menu | .comment | .symbol _ .unknown => some (.noValue id)
  | _ =>
    if editable L session.kconf node then none
    else match node.parent with
      | some parent =>
        if parent.item.isChoice then
          some (.optionOfChoice id (nodeId { entry := parent, list := .nil, parent := none }))
        else some (.held id)
      | none => some (.held id)

/-- What `set_value` does with an entry that can be changed. -/
def setNode (session : Session L) (node : MenuNode) (id wanted : Str) :
    Option KconfigError × L.State :=
  match node.entry.item with
  | .choice .. => selectChoice int session.kconf node wanted
  | .symbol name type =>
    let allowed := assignable L session.kconf node
    if (type = .bool ∨ type = .tristate) ∧ wanted ∉ allowed then
      (some (.notAllowed id allowed wanted), session.kconf)
    else assign int session.kconf node name type wanted
  | _ => (some (.noValue id), session.kconf)

/-- `set_value`, with the names whose value or visibility moved. -/
def Session.setValue (session : Session L) (id text : Str) :
    Except KconfigError (List Str) × Session L :=
  match session.find id with
  | .error e => (.error e, session)
  | .ok node =>
    match refusal session node id with
    | some e => (.error e, session)
    | none =>
      match setNode int session node id (strip text) with
      | (some e, kconf) => (.error e, { session with kconf })
      | (none, kconf) =>
        (.ok (session.diff session.kconf kconf), ({ session with
          kconf
          dirty := true
          revision := session.revision + 1 } : Session L).reanchor)

end Assigning
end Session
end McuUpdater.Kconfig
