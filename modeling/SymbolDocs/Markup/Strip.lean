import SymbolDocs.Markup.Entity
import SymbolDocs.Markup.Escape

/-!
# The visible text of markup

What a reader sees of markup: tags are removed and references replaced. A tag is an opening bracket,
at least one character, and everything up to the next closing bracket, so a pair of brackets with
nothing between them is text.
-/

namespace SymbolDocs.Markup

/-- How many characters a tag takes after its opening bracket. -/
def tagLength? (cs : List Char) : Option Nat :=
  let body := cs.takeWhile (· != '>')
  if body.isEmpty || body.length = cs.length then none else some (body.length + 1)

/-- Removes tags from the left; `skip` characters of one already removed are passed over. -/
def stripTagsFrom : Nat → List Char → List Char
  | _, [] => []
  | skip + 1, _ :: cs => stripTagsFrom skip cs
  | 0, c :: cs =>
    if c = '<' then
      match tagLength? cs with
      | some n => stripTagsFrom n cs
      | none => c :: stripTagsFrom 0 cs
    else c :: stripTagsFrom 0 cs

/-- Markup without its tags. -/
def stripTags (cs : List Char) : List Char :=
  stripTagsFrom 0 cs

/-- The visible text of markup. -/
def visible (markup : String) : String :=
  String.ofList (unescapeChars (stripTags markup.toList))

end SymbolDocs.Markup
