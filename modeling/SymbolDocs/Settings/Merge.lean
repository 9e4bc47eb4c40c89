import SymbolDocs.Fault
import SymbolDocs.Value.Basic

/-!
# Merging settings

Settings are laid over others. Mappings are merged key by key; anything else replaces what it is laid
over, except the list of excluded files, to which the new ones are added, each of them once.

* `Value.unionItems` adds items to a list;
* `Value.mergeFields` lays fields over others;
* `Value.merge` lays one value over another.
-/

namespace SymbolDocs.Value

/-- The item as a key; a value with parts cannot be one. -/
def asKey : Value → Except Fault Scalar
  | .scalar s => .ok s
  | _ => .error .wrongShape

/-- Keys without those that have occurred before; `seen` have. -/
def distinctFrom : List Scalar → List Scalar → List Scalar
  | _, [] => []
  | seen, k :: rest =>
    if seen.any fun s => s.same k then distinctFrom seen rest
    else k :: distinctFrom (seen ++ [k]) rest

/-- The items of both lists in the order first seen, each of them once. -/
def unionItems (xs ys : List Value) : Except Fault (List Value) := do
  let keys ← (xs ++ ys).mapM asKey
  return (distinctFrom [] keys).map .scalar

/-- Is a list under this key added to? -/
def isAdditive (key : Scalar) : Bool :=
  key.same (.text "exclude")

mutual

/-- The value at a key after another is laid over the current one. -/
def mergeAt (key : Scalar) (current : Option Value) : Value → Except Fault Value
  | .map update =>
    match current with
    | some (.map base) => (mergeFields base update).map .map
    | _ => .ok (.map update)
  | .list ys =>
    match current with
    | some (.list xs) => if isAdditive key then (unionItems xs ys).map .list else .ok (.list ys)
    | _ => .ok (.list ys)
  | .scalar s => .ok (.scalar s)

/-- Fields with others laid over them, one after the other. -/
def mergeFields (base : Fields) : List (Scalar × Value) → Except Fault Fields
  | [] => .ok base
  | (k, v) :: rest => do
    let merged ← mergeAt k (Fields.get? k base) v
    mergeFields (Fields.insert k merged base) rest

end

/-- A mapping with another laid over it. -/
def merge (base update : Value) : Except Fault Value :=
  match base, update with
  | .map fields, .map changes => (mergeFields fields changes).map .map
  | .list items, .map [] => .ok (.list items)
  | _, _ => .error .notMapping

end SymbolDocs.Value
