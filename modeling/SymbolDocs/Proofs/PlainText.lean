import Mathlib
import SymbolDocs.Printing.Render

/-!
# The plain text of types

Rendering keeps markup, cuts cycles, and can fail at a link or at a part that is missing. The plain
text of a type has none of that: the rules of printing are applied by direct recursion, text is left
as it is, tags are left out, and a link reads as its label.

* `Layout.shown` reads a layout, given what types and links read as;
* `Graph.shownType` is the plain text of a node in a type position;
* `Graph.Above` says that there is depth for all that can be printed inside a node;
* `shownFrom_of_finite` says that it satisfies the rule of its node when no chain of printed parts
  runs on for ever.
-/

namespace SymbolDocs

open Relation

/-- Where every chain ends, none comes back. -/
theorem not_circular_of_acc {α : Type} {R : α → α → Prop} {a : α} (h : Acc (fun b a => R a b) a) :
    ¬ TransGen R a a := by
  induction h with
  | intro a _ ih =>
    intro haa
    obtain ⟨b, hb, hba⟩ := TransGen.head'_iff.mp haa
    exact ih b hb (TransGen.tail' hba hb)

/-- What is seen of a piece of markup, and whether there is any markup at all. A heading leaves out
the blank before its heritage clause only when nothing at all is printed for the clause. -/
structure Shown where
  /-- The text. -/
  text : String
  /-- Is nothing printed? -/
  blank : Bool

namespace Layout

/-- The nodes that a layout prints in type positions. -/
def types : Layout → List Place
  | .empty | .text _ | .sign _ | .link _ | .broken _ _ => []
  | .append a b => a.types ++ b.types
  | .type p | .spaced p => [p]
  | .element _ _ body | .members body => body.types
  | .heritage entries => entries.map Prod.fst

/-- The members of an object type between braces, after a short form when they are too long. -/
def membersText (t : String) : String :=
  let body := "\x7b " ++ t ++ " \x7d"
  if collapseThreshold < t.length then "\x7b ... \x7d" ++ body else body

/-- The two lists of a heritage clause, each with its word, those with no entry left out. -/
def heritageParts (entries : List (String × Bool)) : List String :=
  let extended := (entries.filter Prod.snd).map Prod.fst
  let implemented := (entries.filter fun e => !e.2).map Prod.fst
  (if extended.isEmpty then [] else ["extends " ++ Text.joinWith ", " extended]) ++
    (if implemented.isEmpty then [] else ["implements " ++ Text.joinWith ", " implemented])

/-- A heritage clause. -/
def heritageText (entries : List (String × Bool)) : String :=
  Text.joinWith " " (heritageParts entries)

/-- Every entry is in one of the two lists. -/
theorem heritageParts_eq_nil_iff {entries : List (String × Bool)} :
    heritageParts entries = [] ↔ entries = [] := by
  cases entries with
  | nil => simp [heritageParts]
  | cons e rest => rcases h : e.2 with _ | _ <;> simp [heritageParts, h]

/-- What is seen of a layout. -/
def shown (type : Place → Shown) (link : Place → String) : Layout → Shown
  | .empty => ⟨"", true⟩
  | .text s | .sign s => ⟨s, s == ""⟩
  | .append a b => ⟨(a.shown type link).text ++ (b.shown type link).text,
      (a.shown type link).blank && (b.shown type link).blank⟩
  | .type p => type p
  | .spaced p => if (type p).blank then ⟨"", true⟩ else ⟨" " ++ (type p).text, false⟩
  | .link p => ⟨link p, false⟩
  | .element _ _ body => ⟨(body.shown type link).text, false⟩
  | .heritage entries => ⟨heritageText (entries.map fun e => ((type e.1).text, e.2)), entries.isEmpty⟩
  | .members body => ⟨membersText (body.shown type link).text, false⟩
  | .broken _ _ => ⟨"", true⟩

theorem types_append (a b : Layout) : (a ++ b).types = a.types ++ b.types := rfl

/-- What is seen of a layout depends on the nodes it prints only. -/
theorem shown_congr {type type' : Place → Shown} (link : Place → String) {l : Layout}
    (h : ∀ q ∈ l.types, type q = type' q) : l.shown type link = l.shown type' link := by
  induction l with
  | empty | text | sign | link | broken => rfl
  | append a b iha ihb =>
    simp only [shown, iha fun q hq => h q (List.mem_append_left _ hq),
      ihb fun q hq => h q (List.mem_append_right _ hq)]
  | type p => exact h p List.mem_cons_self
  | spaced p => simp only [shown, h p List.mem_cons_self]
  | element _ _ body ih => simp only [shown, ih h]
  | heritage entries =>
    have : entries.map (fun e => ((type e.1).text, e.2)) =
        entries.map fun e => ((type' e.1).text, e.2) :=
      List.map_congr_left fun e he => by rw [h e.1 (List.mem_map_of_mem he)]
    simp only [shown, this]
  | members body ih => simp only [shown, ih h]

end Layout

/-- The label of a node as text. -/
def Node.label (n : Node) : String :=
  if n.name != "" then n.name else if n.has .defaultExport then "default" else "(Unknown)"

/-- Dots in front of what is seen of a node that takes the remaining items. -/
def Node.dotted (n : Node) (s : Shown) : Shown :=
  if n.has .rest then ⟨"..." ++ s.text, false⟩ else s

namespace Graph

/-- What is seen of a node by direct recursion on the rules of printing, to a depth. -/
def shownFrom (g : Graph) : Nat → Place → Shown
  | 0, _ => ⟨"", true⟩
  | depth + 1, p =>
    (g.typeRule p).shown (fun q => (g.node q).dotted (shownFrom g depth q)) fun q => (g.node q).label

/-- What is seen of a node in a type position. -/
def shownType (g : Graph) (p : Place) : Shown :=
  (g.node p).dotted (g.shownFrom (g.size + 1) p)

/-- What is seen of a layout. -/
def shownLayout (g : Graph) (l : Layout) : Shown :=
  l.shown g.shownType fun q => (g.node q).label

/-- Does the rule of the first node print the second one? -/
def Prints (g : Graph) (p q : Place) : Prop :=
  q ∈ (g.typeRule p).types

/-- Every chain of printed parts from the node ends. The table is finite, so this says that no node
on such a chain is met again on it. -/
def PrintsFinitely (g : Graph) (p : Place) : Prop :=
  Acc (fun q p => g.Prints p q) p

theorem PrintsFinitely.step {g : Graph} {p q : Place} (h : g.PrintsFinitely p) (hq : g.Prints p q) :
    g.PrintsFinitely q :=
  Acc.inv h hq

/-- Nothing printed finitely is a part of itself. -/
theorem PrintsFinitely.not_circular {g : Graph} {p : Place} (h : g.PrintsFinitely p) :
    ¬ TransGen g.Prints p p :=
  not_circular_of_acc h

/-- Badges print no node. -/
theorem types_nodeChips (n : Node) : (nodeChips n).types = [] := by
  have hchip : ∀ label color, (chip label color).types = [] := fun _ _ => rfl
  have hfold : ∀ (bs : List (String × Flag × Color)) (l : Layout), l.types = [] →
      (bs.foldl (fun l b => if n.has b.2.1 then l ++ chip b.1 b.2.2 else l) l).types = [] := by
    intro bs
    induction bs with
    | nil => exact fun _ h => h
    | cons b bs ih =>
      obtain ⟨label, flag, color⟩ := b
      intro l hl
      refine ih _ ?_
      dsimp only
      split
      · rw [Layout.types_append, hl, hchip, List.append_nil]
      · exact hl
  refine hfold _ _ ?_
  unfold betaChip
  split
  · split <;> rfl
  · rfl

/-- Outside the table there is nothing to print. -/
theorem types_typeRule_of_size_le {g : Graph} {p : Place} (h : g.size ≤ p) :
    (g.typeRule p).types = [] := by
  have hn : g.node p = Node.bare .unknown := by
    rw [node, Array.getD_eq_getD_getElem?, Array.getElem?_eq_none h]
    rfl
  simp only [typeRule, signature, signatureText, headingFrom, hn, Node.bare]
  simp [Layout.types_append, types_nodeChips, Layout.types, signatureName, typeArguments,
    signatureParameters, signatureType, signatureValue]

/-- Places of the table, each of them once: there are no more of them than nodes. -/
theorem length_le_size {g : Graph} {ps : List Place} (hnodup : ps.Nodup)
    (hinside : ∀ a ∈ ps, a < g.size) : ps.length ≤ g.size := by
  have hsub := List.subperm_of_subset hnodup fun a ha => List.mem_range.mpr (hinside a ha)
  simpa using hsub.length_le

/-- The nodes `above` are on the way to `p`, and with them there is enough depth for whatever can
follow. -/
structure Above (g : Graph) (depth : Nat) (above : List Place) (p : Place) : Prop where
  nodup : above.Nodup
  inside : ∀ a ∈ above, a < g.size
  leads : ∀ a ∈ above, TransGen g.Prints a p
  room : g.size < depth + above.length

namespace Above

variable {g : Graph} {depth : Nat} {above : List Place} {p q : Place}

theorem top (g : Graph) (p : Place) : g.Above (g.size + 1) [] p :=
  ⟨List.nodup_nil, by simp, by simp, by simp⟩

/-- There is depth left, because the table has no more nodes than it has. -/
theorem exists_succ (h : g.Above depth above p) : ∃ d, depth = d + 1 := by
  have hlen := length_le_size h.nodup h.inside
  have hroom := h.room
  exact ⟨depth - 1, by omega⟩

/-- Where a node is not above itself, its parts can follow. -/
theorem step (h : g.Above (depth + 1) above p) (hnew : p ∉ above) (hq : g.Prints p q) :
    g.Above depth (p :: above) q := by
  -- a place outside the table has no parts
  have hsize : p < g.size := by
    by_contra hge
    rw [Prints, types_typeRule_of_size_le (Nat.le_of_not_lt hge)] at hq
    cases hq
  refine ⟨List.nodup_cons.mpr ⟨hnew, h.nodup⟩, ?_, ?_, ?_⟩
  · intro a ha
    rcases List.mem_cons.mp ha with rfl | ha
    · exact hsize
    · exact h.inside a ha
  · intro a ha
    rcases List.mem_cons.mp ha with rfl | ha
    · exact .single hq
    · exact (h.leads a ha).tail hq
  · have hroom := h.room
    rw [List.length_cons]
    omega

theorem not_mem (h : g.Above depth above p) (hp : g.PrintsFinitely p) : p ∉ above :=
  fun hmem => hp.not_circular (h.leads p hmem)

end Above

/-- At a node that is printed finitely one more step of depth changes nothing, once the depth exceeds
the number of nodes that are not yet on the way to it. -/
theorem shownFrom_succ {g : Graph} {p : Place} (hp : g.PrintsFinitely p) :
    ∀ (depth : Nat) (above : List Place), g.Above depth above p →
      g.shownFrom depth p = g.shownFrom (depth + 1) p := by
  induction hp with
  | intro p hp ih =>
    intro depth above habove
    have hnew : p ∉ above := habove.not_mem ⟨p, hp⟩
    obtain ⟨depth, rfl⟩ := habove.exists_succ
    refine Layout.shown_congr _ fun q hq => congrArg _ ?_
    exact ih q hq depth (p :: above) (habove.step hnew hq)

/-- **The plain text follows the rules**: what is seen of a node is what is seen of its rule. -/
theorem shownFrom_of_finite {g : Graph} {p : Place} (hp : g.PrintsFinitely p) :
    g.shownFrom (g.size + 1) p = g.shownLayout (g.typeRule p) :=
  shownFrom_succ hp (g.size + 1) [] (.top g p)

end Graph

end SymbolDocs
