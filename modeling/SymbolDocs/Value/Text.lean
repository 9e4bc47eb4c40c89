import SymbolDocs.Decimal.Shortest
import SymbolDocs.Text.Quoted
import SymbolDocs.Text.Search
import SymbolDocs.Value.Basic

/-!
# The text of a value

A value that is not text is shown in two ways: plainly, as it enters a name, and in detail, as it
stands inside a list or a message, where text is quoted. Lists stand in square brackets, mappings
in braces, and the words for nothing and the truth values are capitalised.
-/

namespace SymbolDocs

/-- Digits padded with zeros to a width. -/
def padNat (width n : Nat) : String :=
  let s := Text.natText n
  String.ofList (List.replicate (width - s.length) '0') ++ s

namespace Scalar

/-- The plain text of a scalar. -/
def plain : Scalar → String
  | .null => "None"
  | .bool b => if b then "True" else "False"
  | .int n => Text.intText n
  | .real d => d.text
  | .text s => s
  | .date y m d => padNat 4 y ++ "-" ++ padNat 2 m ++ "-" ++ padNat 2 d

/-- The text of a scalar in detail. -/
def detail : Scalar → String
  | .text s => Text.quoted s
  | .date y m d =>
    "datetime.date(" ++ Text.natText y ++ ", " ++ Text.natText m ++ ", " ++ Text.natText d ++ ")"
  | s => s.plain

/-- The word for the kind of a scalar. -/
def kindWord : Scalar → String
  | .null => "NoneType"
  | .bool _ => "bool"
  | .int _ => "int"
  | .real _ => "float"
  | .text _ => "str"
  | .date _ _ _ => "date"

end Scalar

namespace Value

mutual

/-- The text of a value in detail. -/
def detail : Value → String
  | .scalar s => s.detail
  | .list items => "[" ++ Text.joinWith ", " (detailItems items) ++ "]"
  | .map fields => "\x7b" ++ Text.joinWith ", " (detailFields fields) ++ "\x7d"

/-- The texts of the items. -/
def detailItems : List Value → List String
  | [] => []
  | x :: xs => detail x :: detailItems xs

/-- The texts of the fields. -/
def detailFields : List (Scalar × Value) → List String
  | [] => []
  | (k, v) :: rest => (k.detail ++ ": " ++ detail v) :: detailFields rest

end

/-- The plain text of a value. -/
def plain : Value → String
  | .scalar s => s.plain
  | v => v.detail

/-- The word for the kind of a value. -/
def kindWord : Value → String
  | .scalar s => s.kindWord
  | .list _ => "list"
  | .map _ => "dict"

end Value

end SymbolDocs
