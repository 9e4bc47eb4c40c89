import SymbolDocs.Digest
import SymbolDocs.Fault
import SymbolDocs.Json.Writer

/-!
# The digest of settings

Settings that make the same site have the same digest: the digest of their canonical JSON text, whose
keys are sorted at every level, without the keys that say only where files go.

* `Value.sortKeys` sorts the keys;
* `canonicalText` is the text, `settingsDigest` its digest.
-/

namespace SymbolDocs

/-- A key that is a number, in units of the smallest one. -/
def Scalar.scaled? : Scalar → Option Int
  | .bool b => (Double.ofInt (if b then 1 else 0)).scaled?
  | .int n => some (n * Nat.pow 2 1074)
  | .real d => d.scaled?
  | _ => none

/-- May one key stand before another? There is no answer for keys of different sorts. -/
def Scalar.precedes? (a b : Scalar) : Option Bool :=
  match a, b with
  | .text s, .text t => some (decide (s ≤ t))
  | a, b =>
    match a.scaled?, b.scaled? with
    | some m, some n => some (decide (m ≤ n))
    | _, _ => none

/-- Can all keys be told apart by their order? -/
def Fields.isSortable : Fields → Bool
  | [] => true
  | (k, _) :: rest => (rest.all fun e => (k.precedes? e.1).isSome) && isSortable rest

/-- Can a key be written? A day cannot. -/
def Scalar.isKey : Scalar → Bool
  | .date _ _ _ => false
  | _ => true

/-- Fields in the order of their keys. -/
def Fields.sort (fields : Fields) : Fields :=
  fields.mergeSort fun a b => (a.1.precedes? b.1).getD true

namespace Value

mutual

/-- The value with the keys of all its mappings sorted. -/
def sortKeys : Value → Except Fault Value
  | .scalar s => .ok (.scalar s)
  | .list items => (sortItems items).map .list
  | .map fields => do
    let fields ← sortFields fields
    if Fields.isSortable fields && fields.all fun e => e.1.isKey then return .map (Fields.sort fields)
    else .error .wrongShape

/-- The same for items. -/
def sortItems : List Value → Except Fault (List Value)
  | [] => .ok []
  | v :: rest => do
    let v ← sortKeys v
    let rest ← sortItems rest
    return v :: rest

/-- The same for the values of fields. -/
def sortFields : List (Scalar × Value) → Except Fault Fields
  | [] => .ok []
  | (k, v) :: rest => do
    let v ← sortKeys v
    let rest ← sortFields rest
    return (k, v) :: rest

end

end Value

/-- The keys that say only where files go. -/
def isLocationKey (key : Scalar) : Bool :=
  key.same (.text "output_dir") || key.same (.text "debug")

/-- The canonical text of settings. -/
def canonicalText (fields : Fields) : Except Fault String := do
  let sorted ← (Value.map (fields.filter fun e => !isLocationKey e.1)).sortKeys
  return Json.write Json.Style.canonical sorted

/-- The digest of settings. -/
def settingsDigest (fields : Fields) : Except Fault String := do
  let text ← canonicalText fields
  return Digest.sha256 text.toUTF8.toList

end SymbolDocs
