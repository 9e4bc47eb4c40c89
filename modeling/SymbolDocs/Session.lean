import SymbolDocs.Page.Plan
import SymbolDocs.Summary.Record

/-!
# Sessions

Printing keeps what it has printed. A session holds the markup of the nodes printed so far, the
summary records made so far, and the warnings given, and a piece of `Work` may fail while what it
has done to the session stays.

* `Site` is what a session works on: a graph, its page plan and the options;
* `Work` is a computation in a session.
-/

namespace SymbolDocs

/-- A graph with the plan of its pages. -/
structure Site where
  /-- The graph. -/
  graph : Graph
  /-- The names of its pages. -/
  plan : PagePlan
  /-- The options. -/
  options : Options
  deriving Inhabited

/-- What has been done so far. -/
structure Session where
  /-- The markup of the nodes printed, the last one first. -/
  markup : List (Place × String) := []
  /-- The records of the nodes summarised, the last one first. -/
  records : List (Place × Record) := []
  /-- The warnings given, in order. -/
  warnings : List Warning := []
  deriving Inhabited

/-- A computation in a session, which may fail. -/
abbrev Work := ExceptT Fault (StateM Session)

namespace Work

/-- Gives a warning. -/
def warn (w : Warning) : Work Unit :=
  modify fun s => { s with warnings := s.warnings ++ [w] }

/-- An answer or a failure that concerns no session. -/
def ofExcept {α : Type} : Except Fault α → Work α
  | .ok a => pure a
  | .error e => throw e

/-- The markup printed for a node. -/
def markup? (p : Place) : Work (Option String) := do
  return (← get).markup.lookup p

/-- Keeps the markup of a node. -/
def rememberMarkup (p : Place) (m : String) : Work Unit :=
  modify fun s => { s with markup := (p, m) :: s.markup }

/-- The record made for a node. -/
def record? (p : Place) : Work (Option Record) := do
  return (← get).records.lookup p

/-- Keeps the record of a node. -/
def rememberRecord (p : Place) (r : Record) : Work Unit :=
  modify fun s => { s with records := (p, r) :: s.records }

end Work

end SymbolDocs
