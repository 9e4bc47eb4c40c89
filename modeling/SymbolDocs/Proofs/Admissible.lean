import SymbolDocs.Proofs.Direct
import SymbolDocs.Proofs.Headings

/-!
# Types that survive a summary

A summary keeps less than the graph: most types become text, and the reader of it has rules of its
own. This module says for which types and headings nothing is lost that is printed.

* `Graph.Admissible` is about types in type positions, `Graph.Branch` about entries of a union,
  `Graph.Heading` about headings of declarations, `Graph.Clause` about heritage clauses;
* `Graph.HeadingEnds` says that the work on the parts of a heading ends.
-/

namespace SymbolDocs

open Relation

namespace Graph

/-- A reference that is printed under the name of the declaration that it names. -/
structure Labels (g : Graph) (p t : Place) : Prop where
  kind : (g.node p).kind = .reference
  plain : (g.node p).has .rest = false
  type : (g.node p).type = some t
  name : (g.node p).name = (g.node t).name
  named : (g.node t).name ≠ ""

/-- Such a reference to a declaration that is listed. -/
structure Names (g : Graph) (p t : Place) : Prop extends Labels g p t where
  listed : t ∈ Site.summaryNodes g

/-- An interface without type parameters that is carried in place. -/
structure PlainInterface (g : Graph) (t : Place) : Prop where
  kind : (g.node t).kind = .interfaceDecl
  carried : (g.node t).isStructural = true
  unexported : (g.node t).exportedId? = none
  arguments : (g.node t).arguments = []

mutual

/-- Types that are read back as they are printed. -/
inductive Admissible (g : Graph) : Place → Prop
  /-- Types that are carried as text. -/
  | text {p : Place} (hrest : (g.node p).kind = .baseType → (g.node p).has .rest = false)
    (hmention : (g.node p).mention? = none) (hid : (g.node p).exportedId? = none)
    (hclause : (g.node p).kind ≠ .classType) (hs : (g.node p).isStructural = false) : Admissible g p
  /-- References that are carried as text. -/
  | quoted {p t : Place} (hmention : (g.node p).mention? = some t)
    (hid : (g.node t).exportedId? = none)
    (htext : (g.node p).arguments ≠ [] ∨ (g.node t).isStructural = false) : Admissible g p
  /-- References to interfaces that are carried in place. -/
  | interface {p t : Place} (h : g.Labels p t) (ht : g.PlainInterface t)
    (hargs : (g.node p).arguments = []) : Admissible g p
  /-- Mentions of exported declarations. -/
  | mention {p : Place} (h : Mention g p) : Admissible g p
  /-- Types that are carried in place. -/
  | structural {p : Place} (hid : (g.node p).exportedId? = none) (h : Structural g p) : Admissible g p

/-- References to exported declarations with type arguments. -/
inductive Mention (g : Graph) : Place → Prop
  | mk {p t : Place} (h : g.Names p t) (hexported : (g.node t).has .exported = true)
    (hkinds : ∀ a ∈ (g.node p).arguments, (g.node a).kind ≠ .typeParameter)
    (harguments : ∀ a ∈ (g.node p).arguments, Admissible g a) : Mention g p

/-- Structural types. -/
inductive Structural (g : Graph) : Place → Prop
  /-- Function types. -/
  | function {p : Place} (hrest : (g.node p).has .rest = false)
    (hk : (g.node p).kind = .functionType) (h : Signature g p)
    (htype : ∀ t, (g.node p).type = some t → Admissible g t) : Structural g p
  /-- Object types that are not too long to be shown at once. -/
  | object {p : Place} (hrest : (g.node p).has .rest = false) (hk : (g.node p).kind = .objectType)
    (hkinds : ∀ c ∈ (g.node p).members, (g.node c).kind ≠ .spread)
    (hmembers : ∀ c ∈ (g.node p).members, Heading g c)
    (hlength : (g.shownLayout (Layout.separated (.text "; ") ((g.node p).members.map
      g.property))).text.length ≤ Layout.collapseThreshold) : Structural g p
  /-- Unions. -/
  | union {p : Place} (hrest : (g.node p).has .rest = false) (hk : (g.node p).kind = .typeUnion)
    (hmembers : ∀ c ∈ (g.node p).members, Branch g c) : Structural g p

/-- Types that are read back as they are printed when they stand in a list. -/
inductive Branch (g : Graph) : Place → Prop
  /-- Names. -/
  | leaf {p : Place} (hrest : (g.node p).has .rest = false)
    (hk : (g.node p).kind = .baseType ∨ (g.node p).kind = .literal) : Branch g p
  /-- Arrays. -/
  | array {p t : Place} (hrest : (g.node p).has .rest = false) (hk : (g.node p).kind = .array)
    (ht : (g.node p).type = some t) (h : Admissible g t) : Branch g p
  /-- Mentions of exported declarations. -/
  | mention {p : Place} (h : Mention g p) : Branch g p
  /-- References to declarations that are not exported and have the same text. -/
  | quoted {p t : Place} (hrest : (g.node p).has .rest = false) (hk : (g.node p).kind = .reference)
    (ht : (g.node p).type = some t) (hid : (g.node t).exportedId? = none)
    (hs : (g.node t).isStructural = false) (htype : Admissible g t)
    (hlabel : (g.shownType t).text = (g.node p).label)
    (harguments : ∀ a ∈ (g.node p).arguments, Admissible g a) : Branch g p
  /-- References to interfaces that are carried in place. -/
  | interface {p t : Place} (h : g.Labels p t) (ht : g.PlainInterface t)
    (harguments : ∀ a ∈ (g.node p).arguments, Admissible g a) : Branch g p
  /-- Structural types. -/
  | structural {p : Place} (h : Structural g p) : Branch g p
  /-- Indexed types with parts in the order of their names. -/
  | indexed {p a b : Place} {rest : List Place} (hrest : (g.node p).has .rest = false)
    (hk : (g.node p).kind = .indexedType) (hmembers : (g.node p).members = a :: b :: rest)
    (ha : Branch g a) (hb : Branch g b)
    (hsorted : (g.node p).members.Pairwise fun c d => (g.node c).name ≤ (g.node d).name) : Branch g p

/-- The type parameters and parameters of a heading or a function type. -/
inductive Signature (g : Graph) : Place → Prop
  | mk {p : Place}
    (harguments : ∀ a ∈ (g.node p).arguments, (g.node a).kind ≠ .typeParameter → Admissible g a)
    (hparameters : ∀ q ∈ (g.node p).parameters.getD [], ∀ t, (g.node q).type = some t →
      Admissible g t) : Signature g p

/-- Heritage clauses. -/
inductive Clause (g : Graph) : Place → Prop
  | mk {p : Place} (hrest : (g.node p).has .rest = false) (hid : (g.node p).exportedId? = none)
    (hk : (g.node p).kind = .classType)
    (hentries : ∀ c ∈ (g.node p).members, ∃ t, g.Names c t)
    (hkinds : ∀ c ∈ (g.node p).members, ∀ a ∈ (g.node c).arguments,
      (g.node a).kind ≠ .typeParameter)
    (harguments : ∀ c ∈ (g.node p).members, ∀ a ∈ (g.node c).arguments, Admissible g a)
    (howner : ∀ o, g.heritageOwner? p = some o → (g.node o).kind = .interfaceDecl →
      o ∈ Site.summaryNodes g) : Clause g p

/-- Headings. -/
inductive Heading (g : Graph) : Place → Prop
  /-- Modules. -/
  | moduleFile {p : Place} (hk : (g.node p).kind = .moduleFile) : Heading g p
  /-- Index signatures, whose keys are headings. -/
  | indexSignature {p : Place} (hk : (g.node p).kind = .indexSignature)
    (hkeys : ∀ q ∈ (g.node p).parameters.getD [], Heading g q)
    (htype : ∀ t, (g.node p).type = some t → Admissible g t) : Heading g p
  /-- Classes, interfaces and components. -/
  | heritage {p : Place} (hk : (g.node p).kind.hasHeritage = true) (h : Signature g p)
    (htype : ∀ t, (g.node p).type = some t → Clause g t) : Heading g p
  /-- All other declarations. -/
  | plain {p : Place} (hk : (g.node p).kind ≠ .moduleFile) (hk' : (g.node p).kind ≠ .indexSignature)
    (hheritage : (g.node p).kind.hasHeritage = false) (h : Signature g p)
    (htype : ∀ t, (g.node p).type = some t → Admissible g t) : Heading g p

end

variable {g : Graph}

theorem mention?_of_reference {p t : Place} (hk : (g.node p).kind = .reference)
    (ht : (g.node p).type = some t) : (g.node p).mention? = some t := by
  rw [Node.mention?, hk, ht]
  rfl

theorem Labels.mention? {p t : Place} (h : g.Labels p t) : (g.node p).mention? = some t :=
  mention?_of_reference h.kind h.type

/-- A structural type is carried in place unless it is foreign. -/
theorem Structural.kind {p : Place} (h : g.Structural p) :
    (g.node p).has .rest = false ∧ (g.node p).kind.isEmbedded = true ∧
      (g.node p).kind.isReference = false := by
  cases h with
  | function hrest hk | object hrest hk | union hrest hk =>
    rw [hk]
    exact ⟨hrest, rfl, rfl⟩

/-- What is listed is no mention. -/
theorem mention?_of_listed {p : Place} (h : p ∈ Site.summaryNodes g) : (g.node p).mention? = none := by
  have hp := (List.mem_filter.mp h).2
  rw [Node.mention?, if_neg]
  intro hk
  simp only [Kind.isReference, Bool.or_eq_true, beq_iff_eq] at hk
  rcases hk with hk | hk <;> simp [Node.hasOwnPage, hk] at hp

/-- What is seen of a reference. -/
theorem Labels.shown {p t : Place} (h : g.Labels p t) (hp : g.PrintsFinitely p) :
    (g.shownType p).text =
      (g.node p).label ++ (g.shownLayout (g.typeArguments (g.node p).typeParameters)).text :=
  shownType_reference hp h.plain h.kind

/-- What is read as it is printed from a list is so from a type position, unless it is exported. -/
theorem Branch.admissible {p : Place} (hp : g.Branch p)
    (hid : (g.node p).mention? = none → (g.node p).exportedId? = none) : g.Admissible p := by
  have htext : (g.node p).has .rest = false → (g.node p).kind.isReference = false →
      (g.node p).kind ≠ .classType → (g.node p).kind.isEmbedded = false → g.Admissible p := by
    intro hrest hreference hclause hembedded
    have hmention : (g.node p).mention? = none := by simp [Node.mention?, hreference]
    exact .text (fun _ => hrest) hmention (hid hmention) hclause (by simp [Node.isStructural, hembedded])
  cases hp with
  | leaf hrest hk =>
    rcases hk with hk | hk <;>
      exact htext hrest (by rw [hk]; rfl) (by rw [hk]; decide) (by rw [hk]; rfl)
  | array hrest hk | indexed hrest hk =>
    exact htext hrest (by rw [hk]; rfl) (by rw [hk]; decide) (by rw [hk]; rfl)
  | mention h => exact .mention h
  | quoted _ hk ht hid' hs => exact .quoted (mention?_of_reference hk ht) hid' (.inr hs)
  | interface h ht =>
    by_cases hargs : (g.node p).arguments = []
    · exact .interface h ht hargs
    · exact .quoted h.mention? ht.unexported (.inl hargs)
  | structural h => exact .structural (hid (by simp [Node.mention?, h.kind.2.2])) h

/-- What is seen of a heritage clause. -/
theorem Clause.shown {p : Place} (h : g.Clause p) (hp : g.Ends (.position p)) :
    g.shownType p = ⟨Layout.heritageText ((g.node p).members.map fun c =>
      ((g.shownType c).text, g.isExtended p c)), (g.node p).members.isEmpty⟩ := by
  obtain ⟨hrest, -, hk⟩ := h
  rw [shownType_eq hp.of_position hrest, typeRule]
  simp only [hk]
  simp [classType, shownLayout, Layout.shown, List.map_map, Function.comp_def]

theorem Clause.blank_iff {p : Place} (h : g.Clause p) (hp : g.Ends (.position p)) :
    (g.shownType p).blank = true ↔ (g.shownType p).text = "" := by
  rw [h.shown hp, heritageText_eq_empty_iff, List.map_eq_nil_iff, List.isEmpty_iff]

/-! ## The work on a heading -/

/-- What a heading is made from. -/
def headingTasks (g : Graph) (p : Place) : List Task :=
  (g.node p).type.toList.map .position ++ (g.node p).arguments.map .position ++
    ((g.node p).arguments.flatMap fun a => (g.typeArgument a).types).map .text ++
    ((g.node p).parameters.getD []).map .record

/-- The work on the parts of a heading ends. Members do not matter for that. -/
def HeadingEnds (g : Graph) (p : Place) : Prop :=
  ∀ t ∈ g.headingTasks p, g.Ends t

theorem headingEnds_of_ends {p : Place} (h : g.Ends (.body p)) : g.HeadingEnds p := by
  intro t ht
  simp only [headingTasks, List.mem_append, List.mem_map, List.mem_flatMap] at ht
  rcases ht with ((⟨q, hq, rfl⟩ | ⟨a, ha, rfl⟩) | ⟨q, ⟨a, ha, hq⟩, rfl⟩) | ⟨q, hq, rfl⟩
  · exact h.step (.typePart (List.mem_append_left _ (List.mem_append_left _ hq)))
  · exact h.step (.typePart (List.mem_append_right _ ha))
  · exact h.step (.bound ha hq)
  · exact h.step (.part (List.mem_append_right _ hq))

/-- The nodes that a heading prints are among its tasks. -/
theorem HeadingEnds.printsFinitely_of_mem {p : Place} (h : g.HeadingEnds p) {q : Place}
    (hq : q ∈ (g.node p).type.toList ∨
      q ∈ (g.node p).arguments.flatMap (fun a => (g.typeArgument a).types) ∨
      q ∈ ((g.node p).parameters.getD []).flatMap fun c => (g.node c).type.toList) :
    g.PrintsFinitely q := by
  rcases hq with hq | hq | hq
  · refine (h (.position q) ?_).of_position
    simp only [headingTasks, List.mem_append, List.mem_map]
    exact .inl (.inl (.inl ⟨q, hq, rfl⟩))
  · refine (h (.text q) ?_).printsFinitely
    simp only [headingTasks, List.mem_append, List.mem_map]
    exact .inl (.inr ⟨q, hq, rfl⟩)
  · obtain ⟨c, hc, hq⟩ := List.mem_flatMap.mp hq
    have hrecord := h (.record c) (List.mem_append_right _ (List.mem_map_of_mem hc))
    refine ((hrecord.step (.make c)).step (.typePart (t := q) ?_)).of_position
    exact List.mem_append_left _ (List.mem_append_left _ hq)

/-- Everything that a heading prints is printed finitely. -/
theorem HeadingEnds.printsFinitely {p : Place} (h : g.HeadingEnds p) :
    ∀ q ∈ (g.signatureText p).types, g.PrintsFinitely q := by
  suffices hall : ∀ n p, g.HeadingEnds p → ∀ q ∈ (g.headingFrom n p).types, g.PrintsFinitely q from
    hall _ p h
  intro n
  induction n with
  | zero => exact fun _ _ q hq => by cases hq
  | succ n ih =>
    intro p hp q hq
    rw [headingFrom] at hq
    split at hq
    · cases hq
    · -- the keys are headings in turn
      simp only [Layout.types_append, Layout.types_separated, Layout.types, List.flatMap_map,
        List.mem_append, List.mem_flatMap, List.nil_append, List.append_nil] at hq
      rcases hq with ⟨c, hc, hq⟩ | hq
      · have hrecord := hp (.record c) (List.mem_append_right _ (List.mem_map_of_mem hc))
        exact ih c (headingEnds_of_ends (hrecord.step (.make c))) q hq
      · refine hp.printsFinitely_of_mem (.inl ?_)
        unfold indexValue at hq
        split at hq
        · rename_i t ht
          rw [ht]
          exact hq
        · cases hq
    · refine hp.printsFinitely_of_mem ?_
      simp only [Layout.types_append, List.mem_append, types_signatureType, types_signatureValue,
        types_typeArguments, types_signatureParameters] at hq
      rcases hq with (((hq | hq) | hq) | hq) | hq
      · cases hq
      · exact .inr (.inl hq)
      · exact .inr (.inr hq)
      · exact .inl hq
      · cases hq

end Graph

end SymbolDocs
