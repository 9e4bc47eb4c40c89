import SymbolDocs.Documentation.Codec
import SymbolDocs.Graph.Load
import SymbolDocs.Summary.Record

/-!
# Summary records as values

A record is written as a mapping in a fixed order of keys that leaves out what is empty, and read
back from one. In a type position text is a type's text, a number is the id of a declaration, and a
mapping is a record.

* `Record.toValue` writes a record;
* `Record.ofValue` reads one.
-/

namespace SymbolDocs

/-- A field that is left out when there is nothing to say. -/
def optionalField (key : String) : Option Value → List (Scalar × Value)
  | some v => [(.text key, v)]
  | none => []

/-- Text that is left out when it is empty. -/
def nonEmpty : Option String → Option Value
  | some s => if s = "" then none else some (.text s)
  | none => none

mutual

/-- A record as a mapping. -/
def Record.toValue : Record → Value
  | ⟨kind, id, name, flags, value, docs, parameters, children, type, typeParameters, resolvedType,
      tsconfig⟩ =>
    .map ([(.text "kind", .int kind.code)] ++
      optionalField "id" (id.map .scalar) ++
      optionalField "name" (nonEmpty name) ++
      optionalField "flags" (if flags.bits = 0 then none else some (.int flags.bits)) ++
      optionalField "value" (if value.isNull then none else some value) ++
      optionalField "docs" (docs.map Documentation.toValue) ++
      optionalField "parameters" (Record.listToValue? parameters) ++
      optionalField "children" (Record.listToValue? children) ++
      optionalField "type" (Record.typeToValue? type) ++
      optionalField "typeP" (Record.listToValue? typeParameters) ++
      optionalField "resolvedType" (Record.typeToValue? resolvedType) ++
      optionalField "tsconfig" (nonEmpty tsconfig))

/-- A list of records, when there is one. -/
def Record.listToValue? : Option (List Record) → Option Value
  | none => none
  | some rs => some (.list (Record.listToValues rs))

/-- The records of a list. -/
def Record.listToValues : List Record → List Value
  | [] => []
  | r :: rs => Record.toValue r :: Record.listToValues rs

/-- What stands in a type position, when something does. -/
def Record.typeToValue? : Option (TypeValue Record) → Option Value
  | none => none
  | some (.inline s) => some (.text s)
  | some (.ref id) => some (.scalar id)
  | some (.embedded r) => some (Record.toValue r)

end

/-- What stands in a type position. -/
def TypeValue.toValue : TypeValue Record → Value
  | .inline s => .text s
  | .ref id => .scalar id
  | .embedded r => r.toValue

/-- A kind by its number, which may be written with a fraction of zero. -/
def Kind.ofNumber (v : Value) : Except Fault Kind :=
  let code? :=
    match v with
    | .scalar s =>
      match s.norm with
      | .int n => Kind.ofCode? n
      | _ => none
    | _ => none
  match code? with
  | some k => .ok k
  | none => .error (.value (.invalidKind v))

mutual

/-- Reads a record. -/
def Record.ofValue (raw : Value) : Except Fault Record :=
  match raw with
  | .map fields => do
    let kind ←
      match Fields.get? (.text "kind") fields with
      | some v => Kind.ofNumber v
      | none => .error .missingKey
    let id ← Node.idOfValue ((Value.map fields).field "id")
    let name ← ((Value.map fields).field "name").optionalText
    let flags ← Flags.ofValue ((Value.map fields).field "flags")
    let docs ←
      if ((Value.map fields).field "docs").isNull then pure none
      else (Documentation.ofValue ((Value.map fields).field "docs")).map some
    let parameters ← Record.listOfField "parameters" fields
    let children ← Record.listOfField "children" fields
    let type ← Record.typeOfField "type" fields
    let typeParameters ← Record.listOfField "typeP" fields
    let resolvedType ← Record.typeOfField "resolvedType" fields
    let tsconfig ← ((Value.map fields).field "tsconfig").optionalText
    return ⟨kind, id, name, flags, (Value.map fields).field "value", docs, parameters, children,
      type, typeParameters, resolvedType, tsconfig⟩
  | _ => .error .notMapping
termination_by (sizeOf raw, 0)
decreasing_by all_goals simp_wf; omega

/-- Reads a list of records at a key. -/
def Record.listOfField (key : String) (fields : Fields) : Except Fault (Option (List Record)) :=
  match _h : Fields.get? (.text key) fields with
  | none => .ok none
  | some (.scalar .null) => .ok none
  | some (.list items) => do return some (← Record.listOfValues items)
  | some (.scalar (.text s)) => if s = "" then .ok (some []) else .error .notMapping
  | some (.map inner) => if inner.isEmpty then .ok (some []) else .error .notMapping
  | some (.scalar _) => .error .wrongShape
termination_by (sizeOf fields, 1)
decreasing_by
  have := Value.sizeOf_get?_lt _h
  simp at this ⊢
  omega

/-- Reads records one after the other. -/
def Record.listOfValues (raws : List Value) : Except Fault (List Record) :=
  match raws with
  | [] => .ok []
  | raw :: rest => do
    let r ← Record.ofValue raw
    let rs ← Record.listOfValues rest
    return r :: rs
termination_by (sizeOf raws, 1)
decreasing_by all_goals simp_wf; omega

/-- Reads what stands in a type position at a key. -/
def Record.typeOfField (key : String) (fields : Fields) : Except Fault (Option (TypeValue Record)) :=
  match _h : Fields.get? (.text key) fields with
  | none => .ok none
  | some v => Record.typeOfValue v
termination_by (sizeOf fields, 2)
decreasing_by
  exact Prod.Lex.left _ _ (Value.sizeOf_get?_lt _h)

/-- Reads what stands in a type position. -/
def Record.typeOfValue (raw : Value) : Except Fault (Option (TypeValue Record)) :=
  match raw with
  | .scalar .null => .ok none
  | .scalar (.bool b) => .error (.value (.invalidTypeValue b))
  | .scalar (.int n) => .ok (some (.ref (.int n)))
  | .scalar (.text s) => .ok (some (.inline s))
  | v => do return some (.embedded (← Record.ofValue v))
termination_by (sizeOf raw, 1)
decreasing_by
  exact Prod.Lex.right _ (by decide)

end

end SymbolDocs
