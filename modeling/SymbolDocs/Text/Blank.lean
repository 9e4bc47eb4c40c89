/-!
# Blank characters

The characters that count as blank when text is trimmed, split into words or tested for being
empty, and the trimming functions built on them. Besides the usual six the class holds the four
information separators, the next-line mark, the no-break space and the wide spaces.

* `isBlank` is the class;
* `trimStart`, `trimEnd`, `trim` drop blanks at the ends of a list of characters;
* `strip`, `stripEnd` are the same on text;
* `stripMarks` drops chosen characters instead of blanks.
-/

namespace SymbolDocs.Text

/-- The blank characters. -/
def isBlank (c : Char) : Bool :=
  let n := c.toNat
  (9 ≤ n && n ≤ 13) || (28 ≤ n && n ≤ 32) || n == 0x85 || n == 0xA0 || n == 0x1680 ||
    (0x2000 ≤ n && n ≤ 0x200A) || n == 0x2028 || n == 0x2029 || n == 0x202F || n == 0x205F ||
    n == 0x3000

/-- The characters after the leading ones that satisfy `p`, up to the trailing ones that do. -/
def trimWhile (p : Char → Bool) (cs : List Char) : List Char :=
  ((cs.dropWhile p).reverse.dropWhile p).reverse

/-- Without the blanks in front. -/
def trimStart (cs : List Char) : List Char :=
  cs.dropWhile isBlank

/-- Without the blanks at the end. -/
def trimEnd (cs : List Char) : List Char :=
  (cs.reverse.dropWhile isBlank).reverse

/-- Without the blanks at either end. -/
def trim (cs : List Char) : List Char :=
  trimEnd (trimStart cs)

/-- Text without the blanks at either end. -/
def strip (s : String) : String :=
  String.ofList (trim s.toList)

/-- Text without the blanks at its end. -/
def stripEnd (s : String) : String :=
  String.ofList (trimEnd s.toList)

/-- Text without the given characters at either end. -/
def stripMarks (p : Char → Bool) (s : String) : String :=
  String.ofList (trimWhile p s.toList)

/-- Text without the given characters at its end. -/
def stripEndMarks (p : Char → Bool) (s : String) : String :=
  String.ofList ((s.toList.reverse.dropWhile p).reverse)

/-- Blanks in front of text make no difference to it without its blanks in front. -/
theorem trimStart_append_of_blank {a b : List Char} (h : a.all isBlank = true) :
    trimStart (a ++ b) = trimStart b := by
  induction a with
  | nil => rfl
  | cons c r ih =>
    simp only [List.all_cons, Bool.and_eq_true] at h
    simpa [trimStart, List.dropWhile_cons, h.1] using ih h.2

end SymbolDocs.Text
