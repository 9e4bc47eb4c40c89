/-!
# Escaping text into markup

Text of the graph enters markup with the characters that could open a tag, an entity or end an
attribute written as entities. Signs that the printer itself writes also have their closing bracket
escaped. Page templates escape both quotes as well, by number.
-/

namespace SymbolDocs.Markup

/-- One character of text of the graph. -/
def escapeChar (c : Char) : List Char :=
  if c = '&' then ['&', 'a', 'm', 'p', ';']
  else if c = '<' then ['&', 'l', 't', ';']
  else if c = '"' then ['&', 'q', 'u', 'o', 't', ';']
  else [c]

/-- Text of the graph as markup. -/
def escapeChars (cs : List Char) : List Char :=
  cs.flatMap escapeChar

/-- Text of the graph as markup. -/
def escape (s : String) : String :=
  String.ofList (escapeChars s.toList)

/-- One character of a sign. -/
def signChar (c : Char) : List Char :=
  if c = '>' then ['&', 'g', 't', ';'] else escapeChar c

/-- A sign of the printer as markup. -/
def sign (s : String) : String :=
  String.ofList (s.toList.flatMap signChar)

/-- Code as markup: quotes are escaped too, the double one by name. -/
def escapeCode (s : String) : String :=
  String.ofList (s.toList.flatMap fun c =>
    if c = '\x27' then ['&', '#', '3', '9', ';'] else signChar c)

/-- A value set into a page template: both quotes are escaped by number. -/
def escapeField (s : String) : String :=
  String.ofList (s.toList.flatMap fun c =>
    if c = '\x27' then ['&', '#', '3', '9', ';']
    else if c = '"' then ['&', '#', '3', '4', ';']
    else signChar c)

@[simp] theorem escapeChars_append (a b : List Char) :
    escapeChars (a ++ b) = escapeChars a ++ escapeChars b := by
  simp [escapeChars]

/-- Escaped text opens no tag. -/
theorem not_mem_escapeChars (cs : List Char) : '<' ∉ escapeChars cs := by
  simp only [escapeChars, List.mem_flatMap, not_exists, not_and]
  intro c _ h
  simp only [escapeChar] at h
  split at h
  · simp at h
  split at h
  · simp at h
  split at h
  · simp at h
  · simp at h; exact absurd h.symm ‹¬ c = '<'›

/-- Escaped text ends no attribute. -/
theorem quote_not_mem_escapeChars (cs : List Char) : '"' ∉ escapeChars cs := by
  simp only [escapeChars, List.mem_flatMap, not_exists, not_and]
  intro c _ h
  simp only [escapeChar] at h
  split at h
  · simp at h
  split at h
  · simp at h
  split at h
  · simp at h
  · simp at h; exact absurd h.symm ‹¬ c = '"'›

end SymbolDocs.Markup
