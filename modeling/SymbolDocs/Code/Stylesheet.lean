/-!
# The style sheet of highlighted code

One rule for each class that highlighted code can have.
-/

namespace SymbolDocs.Code

/-- The classes with the looks of their elements. -/
def looks : List (String × String) :=
  [("c1", "color: #3D7B7B; font-style: italic"), ("err", "border: 1px solid #F00"),
    ("kd", "color: #008000; font-weight: bold"), ("ow", "color: #AA22FF; font-weight: bold"),
    ("o", "color: #666666"), ("mf", "color: #666666"), ("na", "color: #687822"),
    ("nt", "color: #008000; font-weight: bold"), ("s", "color: #BA2121"), ("s1", "color: #BA2121"),
    ("s2", "color: #BA2121"), ("w", "color: #bbbbbb")]

/-- The style sheet. -/
def stylesheet : String :=
  looks.foldl (fun sheet (name, look) => sheet ++ ".highlight ." ++ name ++ " \x7b " ++ look ++ " \x7d\n")
    ".highlight \x7b background: #f8f8f8; \x7d\n"

end SymbolDocs.Code
