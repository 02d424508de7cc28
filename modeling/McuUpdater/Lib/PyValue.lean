import Mathlib.Data.List.Basic
import McuUpdater.Lib.PyText

/-! Python values as the JSON-shaped data of a program: truth, emptiness, hashing and
equality with the built-in scalars. Nothing here names a program. -/
namespace McuUpdater.PyValue
open PyText

/-- A double: a dyadic rational `m * 2 ^ e`, or one of the non-numbers. -/
inductive PyFloat
  | finite (m e : Int)
  | inf (negative : Bool)
  | nan
  deriving DecidableEq

/-- A dict is the list of its items in order. `object` is a value of any other class;
of it only whether it is hashable is kept. -/
inductive PyVal
  | none
  | bool (b : Bool)
  | int (n : Int)
  | float (x : PyFloat)
  | str (s : Str)
  | list (xs : List PyVal)
  | tuple (xs : List PyVal)
  | dict (items : List (PyVal × PyVal))
  | object (hashable : Bool)

/-- `x == n` for a float `x`. -/
def PyFloat.eqInt (n : Int) : PyFloat → Bool
  | .finite m e => if 0 ≤ e then m * Int.pow 2 e.toNat == n else m == n * Int.pow 2 (-e).toNat
  | _ => false

/-- `x == y` -/
def PyFloat.eq : PyFloat → PyFloat → Bool
  | .finite m e, .finite m' e' =>
    m * Int.pow 2 (e - min e e').toNat == m' * Int.pow 2 (e' - min e e').toNat
  | .inf negative, .inf negative' => negative == negative'
  | _, _ => false

/-- `v == n`; a bool is the int it stands for. -/
def PyVal.eqInt (n : Int) : PyVal → Bool
  | .bool b => (if b then 1 else 0) == n
  | .int k => k == n
  | .float x => x.eqInt n
  | _ => false

/-- `v == x` for a float `x`. -/
def PyVal.eqFloat (x : PyFloat) : PyVal → Bool
  | .bool b => x.eqInt (if b then 1 else 0)
  | .int n => x.eqInt n
  | .float y => y.eq x
  | _ => false

/-- `v == s` for a string `s`. -/
def PyVal.eqStr (s : Str) : PyVal → Bool
  | .str t => t == s
  | _ => false

@[simp] theorem PyVal.eqStr_iff {v : PyVal} {s : Str} : v.eqStr s = true ↔ v = .str s := by
  cases v <;> simp [eqStr]

/-- `v.get(key)` of a dict; nothing of any other value. -/
def PyVal.item (key : String) : PyVal → Option PyVal
  | .dict items => (items.find? fun kv => kv.1.eqStr key.toList).map Prod.snd
  | _ => Option.none

def PyVal.isNone : PyVal → Bool
  | .none => true
  | _ => false

/-- None or an empty container or string. -/
def PyVal.isBlank : PyVal → Bool
  | .none | .str [] | .list [] | .tuple [] | .dict [] => true
  | _ => false

/-- `bool(v)`; a value of another class counts as true. -/
def PyVal.truthy : PyVal → Bool
  | .bool b => b
  | .int n => n != 0
  | .float (.finite m _) => m != 0
  | v => !v.isBlank

@[simp] theorem PyVal.truthy_none : PyVal.none.truthy = false := rfl

mutual
/-- Whether `hash(v)` succeeds. -/
def PyVal.hashable : PyVal → Bool
  | .list _ | .dict _ => false
  | .tuple xs => allHashable xs
  | .object h => h
  | _ => true
def allHashable : List PyVal → Bool
  | [] => true
  | x :: xs => x.hashable && allHashable xs
end

/-- A mapping with string keys. -/
abbrev Mapping := List (String × PyVal)

/-- `m.get(key)` -/
def Mapping.get (m : Mapping) (key : String) : PyVal := (m.lookup key).getD .none

/-- `{**a, **b}` -/
def Mapping.merge (a b : Mapping) : Mapping :=
  a.map (fun kv => (kv.1, (b.lookup kv.1).getD kv.2)) ++ b.filter fun kv => (a.lookup kv.1).isNone

@[simp] theorem Mapping.get_nil (key : String) : Mapping.get [] key = .none := rfl

inductive PyError
  | typeError
  | valueError
  | recursionError
  deriving DecidableEq

end McuUpdater.PyValue
