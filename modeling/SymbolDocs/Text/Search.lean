/-!
# Finding and cutting text

Small functions on lists of characters that the readers of the library share: does a pattern
stand at the front, where does it first occur, how is text cut at a character, and what is left
when every occurrence of a pattern is replaced. All of them walk the list once from the left.
-/

namespace SymbolDocs.Text

/-- What follows `pat` when `pat` stands at the front. -/
def afterPrefix? : List Char → List Char → Option (List Char)
  | [], cs => some cs
  | p :: ps, c :: cs => if p = c then afterPrefix? ps cs else none
  | _ :: _, [] => none

/-- Does the text start with the pattern? -/
def startsWith (cs pat : List Char) : Bool :=
  (afterPrefix? pat cs).isSome

/-- Does the text end with the pattern? -/
def endsWith (cs pat : List Char) : Bool :=
  startsWith cs.reverse pat.reverse

/-- What stands before the first occurrence of the pattern and what stands after it. -/
def cutAt? (pat : List Char) : List Char → Option (List Char × List Char)
  | [] => if pat.isEmpty then some ([], []) else none
  | c :: cs =>
    match afterPrefix? pat (c :: cs) with
    | some rest => some ([], rest)
    | none => (cutAt? pat cs).map fun (a, b) => (c :: a, b)

/-- Does the pattern occur? -/
def contains (cs pat : List Char) : Bool :=
  (cutAt? pat cs).isSome

/-- The pieces between the characters that satisfy `p`; there is always one more than there are
such characters. -/
def splitOn (p : Char → Bool) : List Char → List (List Char)
  | [] => [[]]
  | c :: cs =>
    if p c then [] :: splitOn p cs
    else
      match splitOn p cs with
      | [] => [[c]]
      | w :: ws => (c :: w) :: ws

/-- The lines of a text; a final line end opens one more, empty line. -/
def lines (cs : List Char) : List (List Char) :=
  splitOn (· == '\n') cs

/-- One line end for each of the three ways to write it. -/
def normalizeBreaks : List Char → List Char
  | [] => []
  | '\r' :: '\n' :: cs => '\n' :: normalizeBreaks cs
  | '\r' :: cs => '\n' :: normalizeBreaks cs
  | c :: cs => c :: normalizeBreaks cs

/-- Walks the text, writing `sub` for each occurrence of `pat`; `skip` characters of an occurrence
already written are still to be passed over. -/
def replaceFrom (pat sub : List Char) : Nat → List Char → List Char
  | _, [] => []
  | skip + 1, _ :: cs => replaceFrom pat sub skip cs
  | 0, c :: cs =>
    if startsWith (c :: cs) pat then sub ++ replaceFrom pat sub (pat.length - 1) cs
    else c :: replaceFrom pat sub 0 cs

/-- Every occurrence of `pat` replaced, from the left and without overlap. -/
def replaceAll (pat sub cs : List Char) : List Char :=
  if pat.isEmpty then cs else replaceFrom pat sub 0 cs

/-- Pieces joined with a separator. -/
def join (sep : List Char) : List (List Char) → List Char
  | [] => []
  | [w] => w
  | w :: ws => w ++ sep ++ join sep ws

/-- Texts joined with a separator. -/
def joinWith (sep : String) : List String → String
  | [] => ""
  | [w] => w
  | w :: ws => w ++ sep ++ joinWith sep ws

/-- What follows a start that is there is the rest. -/
theorem afterPrefix?_append (pat cs : List Char) : afterPrefix? pat (pat ++ cs) = some cs := by
  induction pat with
  | nil => rfl
  | cons p ps ih => simp [afterPrefix?, ih]

/-- A start that is found and the rest make up the text. -/
theorem eq_append_of_afterPrefix? {pat cs rest : List Char}
    (h : afterPrefix? pat cs = some rest) : cs = pat ++ rest := by
  induction pat generalizing cs with
  | nil => simpa [afterPrefix?] using h
  | cons p ps ih =>
    cases cs with
    | nil => simp [afterPrefix?] at h
    | cons c cs =>
      by_cases hc : p = c
      · simp [afterPrefix?, hc] at h
        simp [hc, ih h]
      · simp [afterPrefix?, hc] at h

theorem startsWith_iff {cs pat : List Char} : startsWith cs pat = true ↔ ∃ rest, cs = pat ++ rest := by
  rw [startsWith, Option.isSome_iff_exists]
  constructor
  · intro ⟨rest, h⟩
    exact ⟨rest, eq_append_of_afterPrefix? h⟩
  · intro ⟨rest, h⟩
    exact ⟨rest, h ▸ afterPrefix?_append pat rest⟩

end SymbolDocs.Text
