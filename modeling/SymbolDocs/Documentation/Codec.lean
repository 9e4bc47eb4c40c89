import SymbolDocs.Documentation.Basic
import SymbolDocs.Fault

/-!
# Documentation blocks as values

A documentation block is read from a mapping, or from bare text, which is one prose item. It is
written back as a mapping that leaves out empty tags and marks that are not set.

* `Documentation.ofValue` reads a block;
* `Documentation.toValue` writes it.
-/

namespace SymbolDocs

/-- The items of a value that is walked through: those of a list, the characters of a text, the keys
of a mapping. -/
def Value.items : Value → Except Fault (List Value)
  | .list xs => .ok xs
  | .scalar (.text s) => .ok (s.toList.map fun c => .text (String.singleton c))
  | .map fields => .ok (fields.map fun (k, _) => .scalar k)
  | .scalar _ => .error .wrongShape

/-- A value that has to be text when it is there. -/
def Value.optionalText : Value → Except Fault (Option String)
  | .scalar .null => .ok none
  | .scalar (.text s) => .ok (some s)
  | _ => .error .wrongShape

/-- The value at a key that is empty text when the key is absent. -/
def Value.textField (key : String) (fields : Fields) : Except Fault String :=
  match Fields.get? (.text key) fields with
  | none => .ok ""
  | some (.scalar (.text s)) => .ok s
  | some _ => .error .wrongShape

namespace DocSpan

/-- A span: bare text, or a mapping. -/
def ofValue : Value → Except Fault DocSpan
  | .scalar (.text s) => .ok ⟨s, none⟩
  | .map fields => do
    let value ← Value.textField "value" fields
    let tag ← (Value.map fields |>.field "tag").optionalText
    return ⟨value, tag⟩
  | _ => .error .notMapping

/-- A span as a mapping; an empty tag is left out. -/
def toValue (span : DocSpan) : Value :=
  match span.tag with
  | some tag =>
    if tag = "" then .record [("value", .text span.value)]
    else .record [("tag", .text tag), ("value", .text span.value)]
  | none => .record [("value", .text span.value)]

end DocSpan

namespace DocText

/-- What an item says: text, or a list of spans; empty text when nothing is given. -/
def ofFields (fields : Fields) : Except Fault DocText :=
  match Fields.get? (.text "value") fields with
  | some (.list items) => (items.mapM DocSpan.ofValue).map DocText.spans
  | _ => (Value.textField "value" fields).map DocText.plain

end DocText

namespace DocItem

/-- An item: bare text, or a mapping. -/
def ofValue : Value → Except Fault DocItem
  | .scalar (.text s) => .ok ⟨.plain s, none⟩
  | .map fields => do
    let value ← DocText.ofFields fields
    let tag ← (Value.map fields |>.field "tag").optionalText
    return ⟨value, tag⟩
  | _ => .error .notMapping

/-- The value of an item. -/
def textValue : DocText → Value
  | .plain s => .text s
  | .spans items => .list (items.map DocSpan.toValue)

/-- An item as a mapping; an empty tag is left out. -/
def toValue (item : DocItem) : Value :=
  match item.tag with
  | some tag =>
    if tag = "" then .record [("value", textValue item.value)]
    else .record [("tag", .text tag), ("value", textValue item.value)]
  | none => .record [("value", textValue item.value)]

end DocItem

namespace Documentation

/-- A documentation block. -/
def ofValue : Value → Except Fault Documentation
  | .scalar (.text s) => .ok ⟨[⟨.plain s, none⟩], false, none, none⟩
  | .map fields => do
    let raw := Value.map fields
    let content ←
      if (raw.field "content").truthy then
        (raw.field "content").items >>= fun items => items.mapM DocItem.ofValue
      else pure []
    let tagName ← (raw.field "tagName").optionalText
    let role ← (raw.field "role").optionalText
    return ⟨content, (raw.field "beta").truthy, tagName, role⟩
  | _ => .error .notMapping

/-- A mark of a block as a field, when it is set and not empty. -/
def markField (key : String) : Option String → List (String × Value)
  | some s => if s = "" then [] else [(key, .text s)]
  | none => []

/-- A documentation block as a mapping. -/
def toValue (docs : Documentation) : Value :=
  .record ([("content", .list (docs.content.map DocItem.toValue))] ++
    (if docs.beta then [("beta", .bool true)] else []) ++
    markField "tagName" docs.tagName ++ markField "role" docs.role)

end Documentation

end SymbolDocs
