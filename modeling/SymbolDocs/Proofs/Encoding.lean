import SymbolDocs.Proofs.Rendering
import SymbolDocs.Summary.Serialize

/-!
# What a record says of its node

A record is made from the records of members and parameters, the encodings of types, and texts. The
two recursive parts of that are left open here: `S` is what is known of the record of a node, and `P`
what is known of the encoding of a type position.

* `Site.RecordOf` says how a record is put together from its parts, `Site.PositionOf` the same of the
  encoding of a type position, with one case for each way it can come about;
* `Site.recordWith_spec` and `Site.positionWith_spec` say that the programs follow them;
* `Graph.Needs` says which tasks the work on a task leads to;
* `Site.Closed.ensures` carries any `S` and `P` that these steps respect through a whole run, with
  the nodes in progress and the tables of the session.
-/

namespace SymbolDocs

open Relation Work

namespace Node

/-- The declaration that a reference or an import type names. -/
def mention? (n : Node) : Option Place :=
  if n.kind.isReference then n.type else none

/-- The id by which an exported declaration appears in type positions. -/
def exportedId? (n : Node) : Option Scalar :=
  if n.has .exported then n.id else none

/-- The type parameters or type arguments. -/
def arguments (n : Node) : List Place :=
  n.typeParameters.getD []

/-- The members and parameters, whose records are part of the record of the node. -/
def parts (n : Node) : List Place :=
  n.members ++ n.parameters.getD []

theorem mem_owned_of_mem_parts {n : Node} {c : Place} (h : c ∈ n.parts) : c ∈ n.owned := by
  rw [owned]
  exact List.mem_append_left _ h

/-- The nodes in the type positions of the node. -/
def typeParts (n : Node) : List Place :=
  n.type.toList ++ n.resolvedType.toList ++ n.arguments

/-- Can the structure of the node be carried in a type position? -/
def isStructural (n : Node) : Bool :=
  !n.isForeign && n.kind.isEmbedded

/-- What appears for a node whose record is being made. -/
def stub (n : Node) : Record :=
  { kind := n.kind, id := n.id, name := n.name? }

end Node

namespace Graph

/-- The node whose structure the encoding of `p` carries: `p` itself, or what it mentions without
type arguments. -/
def Carries (g : Graph) (p q : Place) : Prop :=
  (g.node q).isStructural = true ∧ (g.node q).exportedId? = none ∧
    ((g.node p).mention? = none ∧ q = p ∨
      (g.node p).mention? = some q ∧ (g.node p).arguments = [])

/-- A piece of the work on a summary. -/
inductive Task where
  /-- The record of a node, or what appears for it. -/
  | record (p : Place)
  /-- The making of the record of a node. -/
  | body (p : Place)
  /-- The encoding of a type position. -/
  | position (p : Place)
  /-- The text of a node. -/
  | text (p : Place)

/-- What the work on a task can lead to. -/
inductive Needs (g : Graph) : Task → Task → Prop
  /-- A record has to be made. -/
  | make (p : Place) : Needs g (.record p) (.body p)
  /-- It holds the records of its members and parameters. -/
  | part {p c : Place} (h : c ∈ (g.node p).parts) : Needs g (.body p) (.record c)
  /-- It holds the encodings of its types. -/
  | typePart {p t : Place} (h : t ∈ (g.node p).typeParts) : Needs g (.body p) (.position t)
  /-- It holds its type parameters as text. -/
  | bound {p a q : Place} (ha : a ∈ (g.node p).arguments) (hq : q ∈ (g.typeArgument a).types) :
    Needs g (.body p) (.text q)
  /-- A mention is encoded with its type arguments. -/
  | argument {p a : Place} (h : a ∈ (g.node p).arguments) : Needs g (.position p) (.position a)
  /-- So are the entries of a heritage clause. -/
  | heritage {p c a : Place} (hp : (g.node p).kind = .classType) (hc : c ∈ (g.node p).members)
    (ha : a ∈ (g.node c).arguments) : Needs g (.position p) (.position a)
  /-- A structural type is carried in place. -/
  | carry {p q : Place} (h : g.Carries p q) : Needs g (.position p) (.body q)
  /-- Any other type is text. -/
  | text (p : Place) : Needs g (.position p) (.text p)
  /-- Text is printed from parts. -/
  | printed {p q : Place} (h : g.Prints p q) : Needs g (.text p) (.text q)

end Graph

/-! ## The parts of a record -/

/-- A list made of what is known of each place; an empty list is left out. -/
inductive AnyOf {α : Type} (Q : Place → α → Prop) : List Place → Option (List α) → Prop
  | none : AnyOf Q [] none
  | some {ps : List Place} {as : List α} (hne : ps ≠ []) (h : List.Forall₂ Q ps as) :
    AnyOf Q ps (some as)

theorem AnyOf.forall₂ {α : Type} {Q : Place → α → Prop} {ps : List Place} {as : Option (List α)}
    (h : AnyOf Q ps as) : List.Forall₂ Q ps (as.getD []) := by
  cases h with
  | none => exact .nil
  | some _ h => exact h

theorem AnyOf.exists_of_mem {α : Type} {Q : Place → α → Prop} {ps : List Place}
    {as : Option (List α)} (h : AnyOf Q ps as) {a : α} (ha : a ∈ as.getD []) : ∃ p ∈ ps, Q p a :=
  exists_of_mem_forall₂ h.forall₂ ha

namespace Site

variable (site : Site)

/-- The text of a node in a type position. -/
def TextOf (p : Place) (s : String) : Prop :=
  site.Clean → site.graph.PrintsFinitely p → s = (site.graph.shownType p).text

/-- The text of a type parameter with its bound. -/
def ParameterTextOf (p : Place) (s : String) : Prop :=
  site.Clean → (∀ q ∈ (site.graph.typeArgument p).types, site.graph.PrintsFinitely q) →
    s = (site.graph.shownLayout (site.graph.typeArgument p)).text

/-- A type argument as a record. -/
def ArgumentOf (P : Place → TypeValue Record → Prop) (p : Place) (r : Record) : Prop :=
  ∃ v, P p v ∧ r = v.asRecord

/-- A type parameter or type argument as a record. -/
inductive EntryOf (P : Place → TypeValue Record → Prop) (p : Place) : Record → Prop
  | parameter (hk : (site.graph.node p).kind = .typeParameter) {s : String}
    (hs : site.ParameterTextOf p s) :
    EntryOf P p { kind := (site.graph.node p).kind, id := (site.graph.node p).id,
                  name := (site.graph.node p).name?, flags := (site.graph.node p).flags,
                  docs := (site.graph.node p).docs, type := some (.inline s) }
  | argument (hk : (site.graph.node p).kind ≠ .typeParameter) {r : Record} (h : ArgumentOf P p r) :
    EntryOf P p r

/-- What the type of a node comes to. -/
inductive ResolvedOf (P : Place → TypeValue Record → Prop) (p : Place) :
    Option (TypeValue Record) → Prop
  | none (hq : (site.graph.node p).resolvedType = none) : ResolvedOf P p none
  | name {q t : Place} (hq : (site.graph.node p).resolvedType = some q)
    (ht : (site.graph.node q).type = some t) (hback : (site.graph.node t).type = some p) :
    ResolvedOf P p (some (.inline (site.graph.node q).name))
  | encoded {q : Place} (hq : (site.graph.node p).resolvedType = some q)
    (hback : ∀ t, (site.graph.node q).type = some t → (site.graph.node t).type ≠ some p)
    {v : TypeValue Record} (h : P q v) : ResolvedOf P p (some v)

/-- How the record of a node is put together. -/
structure RecordOf (S : Place → Record → Prop) (P : Place → TypeValue Record → Prop) (p : Place)
    (r : Record) : Prop where
  kind : r.kind = (site.graph.node p).kind
  id : r.id = (site.graph.node p).id
  name : r.name = (site.graph.node p).name?
  flags : r.flags = (site.graph.node p).flags
  value : r.value = .ofText? (site.graph.node p).value
  docs : r.docs = (site.graph.node p).docs
  tsconfig : r.tsconfig = (site.graph.node p).tsconfigName
  children : ∃ rs, AnyOf S (site.graph.node p).members rs ∧
    r.children = if (site.graph.node p).kind.keepsOrder then rs else rs.map Record.sortByName
  parameters : Option.Rel (List.Forall₂ S) (site.graph.node p).parameters r.parameters
  typeParameters : AnyOf (site.EntryOf P) (site.graph.node p).arguments r.typeParameters
  type : Option.Rel P (site.graph.node p).type r.type
  resolvedType : ∃ o, site.ResolvedOf P p o ∧ r.resolvedType = dropSame o r.type

/-- What is left of a resolved type is the resolved type. -/
theorem dropSame_eq_some {resolved type : Option (TypeValue Record)} {v : TypeValue Record}
    (h : dropSame resolved type = some v) : resolved = some v := by
  unfold dropSame at h
  split at h
  · split at h
    · cases h
    · exact h
  · exact h

namespace RecordOf

variable {site} {S : Place → Record → Prop} {P : Place → TypeValue Record → Prop} {p : Place}
  {r : Record}

/-- Sorted or not, the records of members are those of the members. -/
theorem exists_of_mem_children (h : site.RecordOf S P p r) {c : Record}
    (hc : c ∈ r.children.getD []) : ∃ q ∈ (site.graph.node p).members, S q c := by
  obtain ⟨rs, hrs, hchildren⟩ := h.children
  refine hrs.exists_of_mem ?_
  rw [hchildren] at hc
  split at hc
  · exact hc
  · cases rs with
    | none => exact hc
    | some rs => exact List.mem_mergeSort.mp hc

theorem exists_of_mem_parameters (h : site.RecordOf S P p r) {c : Record}
    (hc : c ∈ r.parameters.getD []) : ∃ q ∈ (site.graph.node p).parameters.getD [], S q c := by
  have hrel := h.parameters
  generalize (site.graph.node p).parameters = ps at hrel ⊢
  generalize r.parameters = rs at hrel hc
  cases hrel with
  | none => cases hc
  | some hps => exact exists_of_mem_forall₂ hps hc

/-- Each member and parameter has its record. -/
theorem exists_of_mem_parts (h : site.RecordOf S P p r) {c : Place}
    (hc : c ∈ (site.graph.node p).parts) :
    ∃ x, (x ∈ r.children.getD [] ∨ x ∈ r.parameters.getD []) ∧ S c x := by
  rcases List.mem_append.mp hc with hc | hc
  · obtain ⟨rs, hrs, hchildren⟩ := h.children
    generalize (site.graph.node p).members = ps at hrs hc
    cases hrs with
    | none => cases hc
    | @some _ rs _ hrs =>
      obtain ⟨x, hx, hcx⟩ := exists_of_mem_forall₂ hrs.flip hc
      refine ⟨x, .inl ?_, hcx⟩
      rw [hchildren]
      split
      · exact hx
      · exact List.mem_mergeSort.mpr hx
  · have hrel := h.parameters
    generalize (site.graph.node p).parameters = ps at hrel hc
    generalize r.parameters = rs at hrel
    cases hrel with
    | none => cases hc
    | some hps =>
      obtain ⟨x, hx, hcx⟩ := exists_of_mem_forall₂ hps.flip hc
      exact ⟨x, .inr hx, hcx⟩

/-- Parts that keep the order written are in the order of the members. -/
theorem forall₂_children (h : site.RecordOf S P p r)
    (hk : (site.graph.node p).kind.keepsOrder = true) :
    List.Forall₂ S (site.graph.node p).members (r.children.getD []) := by
  obtain ⟨rs, hrs, hchildren⟩ := h.children
  rw [hchildren, if_pos hk]
  exact hrs.forall₂

theorem exists_of_type (h : site.RecordOf S P p r) {v : TypeValue Record} (hv : r.type = some v) :
    ∃ t, (site.graph.node p).type = some t ∧ P t v := by
  have hrel := h.type
  rw [hv] at hrel
  generalize (site.graph.node p).type = t at hrel ⊢
  cases hrel with
  | some ht => exact ⟨_, rfl, ht⟩

theorem exists_type (h : site.RecordOf S P p r) {t : Place} (ht : (site.graph.node p).type = some t) :
    ∃ v, r.type = some v ∧ P t v := by
  have hrel := h.type
  rw [ht] at hrel
  generalize r.type = v at hrel ⊢
  cases hrel with
  | some hv => exact ⟨_, rfl, hv⟩

theorem exists_of_resolvedType (h : site.RecordOf S P p r) {v : TypeValue Record}
    (hv : r.resolvedType = some v) : ∃ q, (site.graph.node p).resolvedType = some q ∧
      (P q v ∨ v = .inline (site.graph.node q).name) := by
  obtain ⟨o, ho, hresolved⟩ := h.resolvedType
  rw [hresolved] at hv
  obtain rfl := dropSame_eq_some hv
  cases ho with
  | name hq => exact ⟨_, hq, .inr rfl⟩
  | encoded hq _ h => exact ⟨_, hq, .inl h⟩

end RecordOf

/-- What an entry of a heritage clause names. -/
inductive HeritageTargetOf (p : Place) : TypeValue Record → Prop
  | ref {t : Place} {id : Scalar} (ht : (site.graph.node p).type = some t)
    (hid : (site.graph.node t).id = some id) : HeritageTargetOf p (.ref id)
  | text (hid : ∀ t, (site.graph.node p).type = some t → (site.graph.node t).id = none) {s : String}
    (hs : site.TextOf p s) : HeritageTargetOf p (.inline s)

/-- An entry of a heritage clause. -/
def HeritageEntryOf (P : Place → TypeValue Record → Prop) (p : Place) (r : Record) : Prop :=
  ∃ v args, site.HeritageTargetOf p v ∧ AnyOf (ArgumentOf P) (site.graph.node p).arguments args ∧
    r = { kind := .reference, name := (site.graph.node p).name?, type := some v,
          typeParameters := args }

/-- The entries of a heritage clause that are carried. -/
def heritageEntries (p : Place) : List Place :=
  (site.graph.node p).members.filter fun c => (site.graph.node c).kind == .reference

/-- A type that is carried in place or as text; `B` is what is known of a record carried whole. -/
inductive FlattenedOf (active : List Place) (P : Place → TypeValue Record → Prop)
    (B : Place → Record → Prop) (p : Place) : TypeValue Record → Prop
  | heritage (hk : (site.graph.node p).kind = .classType) {rs : List Record}
    (hrs : List.Forall₂ (site.HeritageEntryOf P) (site.heritageEntries p) rs) :
    FlattenedOf active P B p (.embedded { kind := .classType, children := some rs
                                          type := ((site.graph.heritageOwner? p).bind fun o =>
                                            (site.graph.node o).id).map .ref })
  | base (hk : (site.graph.node p).kind = .baseType) :
    FlattenedOf active P B p (.inline (site.graph.node p).name)
  | text (hk : (site.graph.node p).kind ≠ .classType) (hbase : (site.graph.node p).kind ≠ .baseType)
    (hs : (site.graph.node p).isStructural = false) {s : String} (h : site.TextOf p s) :
    FlattenedOf active P B p (.inline s)
  | cut (hs : (site.graph.node p).isStructural = true) (hp : p ∈ active) {id : Scalar}
    (hid : (site.graph.node p).id = some id) : FlattenedOf active P B p (.ref id)
  | cutText (hs : (site.graph.node p).isStructural = true) (hp : p ∈ active)
    (hid : (site.graph.node p).id = none) (s : String) : FlattenedOf active P B p (.inline s)
  | carried (hs : (site.graph.node p).isStructural = true) (hp : p ∉ active) {r : Record}
    (h : B p r) : FlattenedOf active P B p (.embedded r)

/-- The encoding of a type position. -/
inductive PositionOf (active : List Place) (P : Place → TypeValue Record → Prop)
    (B : Place → Record → Prop) (p : Place) : TypeValue Record → Prop
  | ref {id : Scalar}
    (hid : (site.graph.node ((site.graph.node p).mention?.getD p)).exportedId? = some id)
    (harg : (site.graph.node p).mention? = none ∨ (site.graph.node p).mention? = some p ∨
      (site.graph.node p).arguments = []) : PositionOf active P B p (.ref id)
  | mention {t : Place} {id : Scalar} (ht : (site.graph.node p).mention? = some t) (hne : t ≠ p)
    (hid : (site.graph.node t).exportedId? = some id) (harg : (site.graph.node p).arguments ≠ [])
    {rs : List Record} (hrs : List.Forall₂ (ArgumentOf P) (site.graph.node p).arguments rs) :
    PositionOf active P B p
      (.embedded { kind := .reference, type := some (.ref id), typeParameters := some rs })
  | text {t : Place} (ht : (site.graph.node p).mention? = some t)
    (hid : (site.graph.node t).exportedId? = none)
    (harg : (site.graph.node p).arguments ≠ [] ∨ (site.graph.node t).isStructural = false)
    {s : String} (h : site.TextOf p s) : PositionOf active P B p (.inline s)
  | followed {t : Place} (ht : (site.graph.node p).mention? = some t)
    (hid : (site.graph.node t).exportedId? = none) (harg : (site.graph.node p).arguments = [])
    (hs : (site.graph.node t).isStructural = true) {v : TypeValue Record}
    (h : site.FlattenedOf active P B t v) : PositionOf active P B p v
  | own (ht : (site.graph.node p).mention? = none) (hid : (site.graph.node p).exportedId? = none)
    {v : TypeValue Record} (h : site.FlattenedOf active P B p v) : PositionOf active P B p v

end Site

/-- A node that is neither a mention nor exported is carried in place or as text. -/
theorem Site.PositionOf.flattened {site : Site} {active : List Place}
    {P : Place → TypeValue Record → Prop} {B : Place → Record → Prop} {p : Place}
    {v : TypeValue Record} (h : site.PositionOf active P B p v)
    (hmention : (site.graph.node p).mention? = none)
    (hid : (site.graph.node p).exportedId? = none) : site.FlattenedOf active P B p v := by
  cases h with
  | ref hid' => simp [hmention, hid] at hid'
  | mention ht => simp [hmention] at ht
  | text ht => simp [hmention] at ht
  | followed ht => simp [hmention] at ht
  | own _ _ h => exact h

/-! ## Knowing less of the parts -/

theorem forall₂_imp_mem {α β : Type} {Q Q' : α → β → Prop} {as : List α} {bs : List β}
    (h : ∀ a ∈ as, ∀ b, Q a b → Q' a b) (has : List.Forall₂ Q as bs) : List.Forall₂ Q' as bs :=
  ((List.forall₂_and_left as bs).mpr ⟨fun _ ha => ha, has⟩).imp fun a b hab => h a hab.1 b hab.2

theorem optionRel_imp {α β : Type} {Q Q' : α → β → Prop} {a : Option α} {b : Option β}
    (h : ∀ x, a = some x → ∀ y, Q x y → Q' x y) (hab : Option.Rel Q a b) : Option.Rel Q' a b := by
  cases hab with
  | none => exact .none
  | some hab => exact .some (h _ rfl _ hab)

theorem forall₂_getD {α β : Type} {Q : α → β → Prop} {as : Option (List α)} {bs : Option (List β)}
    (h : Option.Rel (List.Forall₂ Q) as bs) : List.Forall₂ Q (as.getD []) (bs.getD []) := by
  cases h with
  | none => exact .nil
  | some h => exact h

theorem AnyOf.imp {α : Type} {Q Q' : Place → α → Prop} {ps : List Place} {as : Option (List α)}
    (h : ∀ p ∈ ps, ∀ a, Q p a → Q' p a) (has : AnyOf Q ps as) : AnyOf Q' ps as := by
  cases has with
  | none => exact .none
  | some hne has => exact .some hne (forall₂_imp_mem h has)

namespace Site

variable {site : Site} {S S' : Place → Record → Prop} {P P' : Place → TypeValue Record → Prop}
  {B B' : Place → Record → Prop} {p : Place} {r : Record} {v : TypeValue Record}

/-- A structural type is neither a heritage clause nor a built-in type. -/
theorem isStructural_kind {n : Node} (h : n.isStructural = true) :
    n.kind ≠ .classType ∧ n.kind ≠ .baseType ∧ n.isForeign = false ∧ n.kind.isEmbedded = true := by
  simp only [Node.isStructural, Bool.and_eq_true, Bool.not_eq_true'] at h
  refine ⟨fun hk => ?_, fun hk => ?_, h.1, h.2⟩ <;>
  · have := h.2
    rw [hk] at this
    exact absurd this (by decide)

theorem ArgumentOf.imp (hP : ∀ v, P p v → P' p v) (h : ArgumentOf P p r) : ArgumentOf P' p r := by
  obtain ⟨v, hv, rfl⟩ := h
  exact ⟨v, hP v hv, rfl⟩

theorem EntryOf.imp (hP : ∀ v, P p v → P' p v) (h : site.EntryOf P p r) : site.EntryOf P' p r := by
  cases h with
  | parameter hk hs => exact .parameter hk hs
  | argument hk h => exact .argument hk (h.imp hP)

theorem ResolvedOf.imp {o : Option (TypeValue Record)}
    (hP : ∀ q, (site.graph.node p).resolvedType = some q → ∀ v, P q v → P' q v)
    (h : site.ResolvedOf P p o) : site.ResolvedOf P' p o := by
  cases h with
  | none hq => exact .none hq
  | name hq ht hback => exact .name hq ht hback
  | encoded hq hback h => exact .encoded hq hback (hP _ hq _ h)

theorem RecordOf.imp (hS : ∀ c ∈ (site.graph.node p).parts, ∀ r, S c r → S' c r)
    (hP : ∀ t ∈ (site.graph.node p).typeParts, ∀ v, P t v → P' t v) (h : site.RecordOf S P p r) :
    site.RecordOf S' P' p r where
  kind := h.kind
  id := h.id
  name := h.name
  flags := h.flags
  value := h.value
  docs := h.docs
  tsconfig := h.tsconfig
  children := by
    obtain ⟨rs, hrs, hchildren⟩ := h.children
    exact ⟨rs, hrs.imp fun c hc => hS c (List.mem_append_left _ hc), hchildren⟩
  parameters := by
    refine optionRel_imp (fun ps hps _ h => forall₂_imp_mem (fun c hc => hS c ?_) h) h.parameters
    exact List.mem_append_right _ (by simpa [hps] using hc)
  typeParameters := h.typeParameters.imp fun a ha _ h => h.imp (hP a (List.mem_append_right _ ha))
  type := by
    refine optionRel_imp (fun t ht => hP t ?_) h.type
    exact List.mem_append_left _ (List.mem_append_left _ (by simp [ht]))
  resolvedType := by
    obtain ⟨o, ho, hresolved⟩ := h.resolvedType
    refine ⟨o, ho.imp fun q hq => hP q ?_, hresolved⟩
    exact List.mem_append_left _ (List.mem_append_right _ (by simp [hq]))

theorem HeritageEntryOf.imp (hP : ∀ a ∈ (site.graph.node p).arguments, ∀ v, P a v → P' a v)
    (h : site.HeritageEntryOf P p r) : site.HeritageEntryOf P' p r := by
  obtain ⟨v, args, hv, hargs, rfl⟩ := h
  exact ⟨v, args, hv, hargs.imp fun a ha _ h => h.imp (hP a ha), rfl⟩

/-- It does not matter either which nodes are in progress, apart from the one that is carried. -/
theorem FlattenedOf.imp {active active' : List Place}
    (hactive : (site.graph.node p).isStructural = true → (p ∈ active ↔ p ∈ active'))
    (hP : (site.graph.node p).kind = .classType → ∀ c ∈ (site.graph.node p).members,
      ∀ a ∈ (site.graph.node c).arguments, ∀ v, P a v → P' a v)
    (hB : (site.graph.node p).isStructural = true → ∀ r, B p r → B' p r)
    (h : site.FlattenedOf active P B p v) : site.FlattenedOf active' P' B' p v := by
  cases h with
  | heritage hk hrs =>
    refine .heritage hk (forall₂_imp_mem (fun c hc _ h => h.imp fun a ha => ?_) hrs)
    exact hP hk c (List.mem_of_mem_filter hc) a ha
  | base hk => exact .base hk
  | text hk hbase hs h => exact .text hk hbase hs h
  | cut hs hp hid => exact .cut hs ((hactive hs).mp hp) hid
  | cutText hs hp hid s => exact .cutText hs ((hactive hs).mp hp) hid s
  | carried hs hp h => exact .carried hs (hp ∘ (hactive hs).mpr) (hB hs _ h)

theorem PositionOf.imp {active active' : List Place}
    (hactive : ∀ q, site.graph.Carries p q → (q ∈ active ↔ q ∈ active'))
    (hP : ∀ a, site.graph.Needs (.position p) (.position a) → ∀ v, P a v → P' a v)
    (hB : ∀ q, site.graph.Carries p q → ∀ r, B q r → B' q r)
    (h : site.PositionOf active P B p v) : site.PositionOf active' P' B' p v := by
  cases h with
  | ref hid harg => exact .ref hid harg
  | mention ht hne hid harg hrs =>
    exact .mention ht hne hid harg
      (forall₂_imp_mem (fun a ha _ h => h.imp (hP a (.argument ha))) hrs)
  | text ht hid harg h => exact .text ht hid harg h
  | @followed t ht hid harg hs v h =>
    have hcarries : site.graph.Carries p t := ⟨hs, hid, .inr ⟨ht, harg⟩⟩
    refine .followed ht hid harg hs
      (h.imp (fun _ => hactive t hcarries) (fun hk => ?_) fun _ => hB t hcarries)
    exact absurd hk (isStructural_kind hs).1
  | own ht hid h =>
    have hcarries : (site.graph.node p).isStructural = true → site.graph.Carries p p :=
      fun hs => ⟨hs, hid, .inl ⟨ht, rfl⟩⟩
    exact .own ht hid (h.imp (fun hs => hactive p (hcarries hs))
      (fun hk c hc a ha => hP a (.heritage hk hc ha)) fun hs => hB p (hcarries hs))

end Site

/-! ## The ways a type position is encoded -/

namespace Site

variable {μ : Type → Type} [Monad μ] [Printer μ] {site : Site} {active : List Place}
  {position : Place → μ (TypeValue Record)} {enter : Place → μ Record} {p : Place}

/-- A type that mentions nothing is carried itself. -/
theorem flattenWith_of_none (h : (site.graph.node p).mention? = none) :
    site.flattenWith active position enter p = site.flattenNode active position enter p := by
  rw [Node.mention?] at h
  simp only [flattenWith, h]

/-- A mention is followed when it has no type arguments and names a structural type. -/
theorem flattenWith_of_some {t : Place} (h : (site.graph.node p).mention? = some t) :
    site.flattenWith active position enter p =
      if (site.graph.node p).arguments ≠ [] ∨ (site.graph.node t).isStructural = false then do
        return .inline (← site.text p)
      else site.flattenNode active position enter t := by
  have hbool : (!(site.graph.node p).arguments.isEmpty || (site.graph.node t).isForeign ||
      !(site.graph.node t).kind.isEmbedded) = true ↔
      ((site.graph.node p).arguments ≠ [] ∨ (site.graph.node t).isStructural = false) := by
    rw [Bool.or_assoc, Bool.or_eq_true, Node.isStructural]
    cases (site.graph.node t).isForeign <;> simp
  rw [Node.mention?] at h
  simp only [flattenWith, h]
  exact if_congr hbool rfl rfl

/-- An exported declaration is given by its id, and a mention of it with its type arguments. -/
theorem positionWith_of_some {id : Scalar}
    (h : (site.graph.node ((site.graph.node p).mention?.getD p)).exportedId? = some id) :
    site.positionWith active position enter p =
      if (site.graph.node p).mention?.isSome && (site.graph.node p).mention? != some p &&
          !(site.graph.node p).arguments.isEmpty then do
        let arguments ← eachPlace (argumentRecord position) (site.graph.node p).arguments
        return .embedded { kind := .reference, type := some (.ref id), typeParameters := arguments }
      else pure (.ref id) := by
  rw [Node.exportedId?, Node.mention?] at h
  simp only [positionWith, h]
  rfl

theorem positionWith_of_none
    (h : (site.graph.node ((site.graph.node p).mention?.getD p)).exportedId? = none) :
    site.positionWith active position enter p = site.flattenWith active position enter p := by
  rw [Node.exportedId?, Node.mention?] at h
  simp only [positionWith, h]

end Site

/-! ## The programs follow the steps -/

section

variable {α : Type} {M : Place → String → Prop} {R : Place → Record → Prop} {Q : Place → α → Prop}
  {f : Place → Work α}

theorem eachPlace_spec {ps : List Place} (h : ∀ p ∈ ps, Ensures M R (f p) (Q p)) :
    Ensures M R (eachPlace f ps) (List.Forall₂ Q ps) := by
  induction ps with
  | nil => exact .pure .nil
  | cons p rest ih =>
    refine (h p List.mem_cons_self).bind fun a ha => ?_
    refine (ih fun q hq => h q (List.mem_cons_of_mem _ hq)).bind fun more hmore => ?_
    exact .pure (.cons ha hmore)

theorem eachOf_spec {ps : Option (List Place)} (h : ∀ p ∈ ps.getD [], Ensures M R (f p) (Q p)) :
    Ensures M R (eachOf f ps) (Option.Rel (List.Forall₂ Q) ps) := by
  cases ps with
  | none => exact .pure .none
  | some ps => exact (eachPlace_spec h).bind fun _ has => .pure (.some has)

theorem eachIfAny_spec {ps : List Place} (h : ∀ p ∈ ps, Ensures M R (f p) (Q p)) :
    Ensures M R (eachIfAny f ps) (AnyOf Q ps) := by
  unfold eachIfAny
  split
  · rename_i hps
    obtain rfl := List.isEmpty_iff.mp hps
    exact .pure .none
  · rename_i hps
    exact (eachPlace_spec h).bind fun _ has => .pure (.some (fun h => hps (by simp [h])) has)

theorem onPlace_spec {p : Option Place} (h : ∀ q, p = some q → Ensures M R (f q) (Q q)) :
    Ensures M R (onPlace f p) (Option.Rel Q p) := by
  cases p with
  | none => exact .pure .none
  | some q => exact (h q rfl).bind fun _ ha => .pure (.some ha)

end

namespace Site

variable {site : Site} {R : Place → Record → Prop} {S : Place → Record → Prop}
  {P : Place → TypeValue Record → Prop} {B : Place → Record → Prop}
  {summarize : Place → Work Record} {position : Place → Work (TypeValue Record)}
  {enter : Place → Work Record} {p : Place}

theorem argumentRecord_spec (h : Ensures site.Shows R (position p) (P p)) :
    Ensures site.Shows R (argumentRecord position p) (ArgumentOf P p) :=
  h.bind fun v hv => .pure ⟨v, hv, rfl⟩

theorem typeParameterRecord_spec (h : Ensures site.Shows R (position p) (P p)) :
    Ensures site.Shows R (site.typeParameterRecord position p) (site.EntryOf P p) := by
  unfold typeParameterRecord
  dsimp only
  split
  · rename_i hk
    exact (argumentRecord_spec h).mono fun r hr => .argument (by simpa using hk) hr
  · rename_i hk
    refine (site.print_reads _).bind fun m hm => .pure (.parameter (by simpa using hk) ?_)
    exact fun hc hfinite => (hm hc hfinite).reads.visible

theorem resolvedPosition_spec
    (h : ∀ q, (site.graph.node p).resolvedType = some q → Ensures site.Shows R (position q) (P q)) :
    Ensures site.Shows R (site.resolvedPosition position p) (site.ResolvedOf P p) := by
  unfold resolvedPosition
  cases hq : (site.graph.node p).resolvedType with
  | none => exact .pure (.none hq)
  | some q =>
    have hposition : (∀ t, (site.graph.node q).type = some t → (site.graph.node t).type ≠ some p) →
        Ensures site.Shows R (do return some (← position q)) (site.ResolvedOf P p) :=
      fun hback => (h q hq).bind fun v hv => .pure (.encoded hq hback hv)
    dsimp only
    split
    · rename_i t ht
      split
      · rename_i hback
        exact .pure (.name hq ht hback)
      · rename_i hback
        refine hposition fun t' h => ?_
        obtain rfl : t = t' := Option.some.inj (ht.symm.trans h)
        exact hback
    · rename_i ht
      exact hposition fun t h => by simp [ht] at h

/-- The record of a node is put together as `RecordOf` says. -/
theorem recordWith_spec
    (hS : ∀ c ∈ (site.graph.node p).parts, Ensures site.Shows R (summarize c) (S c))
    (hP : ∀ t ∈ (site.graph.node p).typeParts, Ensures site.Shows R (position t) (P t)) :
    Ensures site.Shows R (site.recordWith summarize position p) (site.RecordOf S P p) := by
  refine (eachIfAny_spec fun c hc => hS c (List.mem_append_left _ hc)).bind fun children hch => ?_
  refine (eachOf_spec fun c hc => hS c (List.mem_append_right _ hc)).bind fun parameters hps => ?_
  refine (eachIfAny_spec fun a ha => typeParameterRecord_spec
    (hP a (List.mem_append_right _ ha))).bind fun typeParameters htps => ?_
  refine (onPlace_spec fun t ht => hP t ?_).bind fun type htype => ?_
  · exact List.mem_append_left _ (List.mem_append_left _ (by simp [ht]))
  refine (resolvedPosition_spec fun q hq => hP q ?_).bind fun resolved hresolved => ?_
  · exact List.mem_append_left _ (List.mem_append_right _ (by simp [hq]))
  exact .pure ⟨rfl, rfl, rfl, rfl, rfl, rfl, rfl, ⟨children, hch, rfl⟩, hps, htps, htype,
    ⟨resolved, hresolved, rfl⟩⟩

theorem heritageTarget_spec : Ensures site.Shows R (site.heritageTarget p)
    (site.HeritageTargetOf p) := by
  unfold heritageTarget
  cases ht : (site.graph.node p).type with
  | none =>
    exact (site.renderText_reads p).bind fun s hs => .pure (.text (fun t h => by simp [ht] at h) hs)
  | some t =>
    cases hid : (site.graph.node t).id with
    | none =>
      simp only [Option.bind_some, hid]
      refine (site.renderText_reads p).bind fun s hs => .pure (.text (fun t' h => ?_) hs)
      rw [ht] at h
      cases h
      exact hid
    | some id =>
      simp only [Option.bind_some, hid]
      exact .pure (.ref ht hid)

theorem heritageEntry_spec
    (hP : ∀ a ∈ (site.graph.node p).arguments, Ensures site.Shows R (position a) (P a)) :
    Ensures site.Shows R (site.heritageEntry position p) (site.HeritageEntryOf P p) := by
  refine heritageTarget_spec.bind fun v hv => ?_
  refine (eachIfAny_spec fun a ha => argumentRecord_spec (hP a ha)).bind fun args hargs => ?_
  exact .pure ⟨v, args, hv, hargs, rfl⟩

theorem heritageRecord_spec
    (hP : ∀ c ∈ (site.graph.node p).members, ∀ a ∈ (site.graph.node c).arguments,
      Ensures site.Shows R (position a) (P a)) :
    Ensures site.Shows R (site.heritageRecord position p) fun r =>
      ∃ rs, List.Forall₂ (site.HeritageEntryOf P) (site.heritageEntries p) rs ∧
        r = { kind := .classType, children := some rs
              type := ((site.graph.heritageOwner? p).bind fun o => (site.graph.node o).id).map .ref } :=
  (eachPlace_spec fun c hc => heritageEntry_spec (hP c (List.mem_of_mem_filter hc))).bind
    fun rs hrs => .pure ⟨rs, hrs, rfl⟩

theorem flattenNode_spec {active : List Place}
    (hP : (site.graph.node p).kind = .classType → ∀ c ∈ (site.graph.node p).members,
      ∀ a ∈ (site.graph.node c).arguments, Ensures site.Shows R (position a) (P a))
    (hB : (site.graph.node p).isStructural = true → p ∉ active →
      Ensures site.Shows R (enter p) (B p)) :
    Ensures site.Shows R (site.flattenNode active position enter p)
      (site.FlattenedOf active P B p) := by
  unfold flattenNode
  dsimp only
  split
  · rename_i hk
    have hk : (site.graph.node p).kind = .classType := by simpa using hk
    refine (heritageRecord_spec (hP hk)).bind fun r hr => ?_
    obtain ⟨rs, hrs, rfl⟩ := hr
    exact .pure (.heritage hk hrs)
  rename_i hclass
  split
  · rename_i hk
    exact .pure (.base (by simpa using hk))
  rename_i hbase
  split
  · rename_i hs
    refine (site.renderText_reads p).bind fun s hs' =>
      .pure (.text (by simpa using hclass) (by simpa using hbase) ?_ hs')
    simpa [Node.isStructural, ← Bool.not_eq_true, imp_iff_not_or] using hs
  rename_i hs
  have hs : (site.graph.node p).isStructural = true := by
    simpa [Node.isStructural] using hs
  split
  · rename_i hp
    split
    · rename_i id hid
      exact .pure (.cut hs hp hid)
    · rename_i hid
      split
      · exact .pure (.cutText hs hp hid _)
      · exact (site.renderText_reads p).bind fun s _ => .pure (.cutText hs hp hid s)
  · rename_i hp
    exact (hB hs hp).bind fun r hr => .pure (.carried hs hp hr)

theorem flattenWith_spec {active : List Place}
    (hid : (site.graph.node ((site.graph.node p).mention?.getD p)).exportedId? = none)
    (hP : ∀ a, site.graph.Needs (.position p) (.position a) → Ensures site.Shows R (position a) (P a))
    (hB : ∀ q, site.graph.Carries p q → q ∉ active → Ensures site.Shows R (enter q) (B q)) :
    Ensures site.Shows R (site.flattenWith active position enter p)
      (site.PositionOf active P B p) := by
  cases ht : (site.graph.node p).mention? with
  | none =>
    rw [ht] at hid
    rw [flattenWith_of_none ht]
    refine (flattenNode_spec (fun hk c hc a ha => hP a (.heritage hk hc ha)) fun hs hp => ?_).mono
      fun v hv => .own ht hid hv
    exact hB p ⟨hs, hid, .inl ⟨ht, rfl⟩⟩ hp
  | some t =>
    rw [ht] at hid
    rw [flattenWith_of_some ht]
    split
    · rename_i hcond
      exact (site.renderText_reads p).bind fun s hs => .pure (.text ht hid hcond hs)
    · rename_i hcond
      have hargs : (site.graph.node p).arguments = [] := by
        by_contra h
        exact hcond (.inl h)
      have hs : (site.graph.node t).isStructural = true := by
        by_contra h
        exact hcond (.inr (by simpa using h))
      refine (flattenNode_spec (fun hk => ?_) fun hs hp => ?_).mono
        fun v hv => .followed ht hid hargs hs hv
      · exact absurd hk (isStructural_kind hs).1
      · exact hB t ⟨hs, hid, .inr ⟨ht, hargs⟩⟩ hp

/-- A type position is encoded as `PositionOf` says. -/
theorem positionWith_spec {active : List Place}
    (hP : ∀ a, site.graph.Needs (.position p) (.position a) → Ensures site.Shows R (position a) (P a))
    (hB : ∀ q, site.graph.Carries p q → q ∉ active → Ensures site.Shows R (enter q) (B q)) :
    Ensures site.Shows R (site.positionWith active position enter p)
      (site.PositionOf active P B p) := by
  cases hid : (site.graph.node ((site.graph.node p).mention?.getD p)).exportedId? with
  | some id =>
    rw [positionWith_of_some hid]
    split
    · rename_i hcond
      obtain ⟨t, ht⟩ : ∃ t, (site.graph.node p).mention? = some t := by
        rw [← Option.isSome_iff_exists]
        simp_all
      rw [ht] at hcond hid
      refine (eachPlace_spec fun a ha => argumentRecord_spec (hP a (.argument ha))).bind
        fun rs hrs => .pure (.mention ht ?_ hid ?_ hrs)
      · simp at hcond
        exact hcond.1
      · simp at hcond
        exact hcond.2
    · rename_i hcond
      refine .pure (.ref hid ?_)
      cases ht : (site.graph.node p).mention? with
      | none => exact .inl rfl
      | some t =>
        rw [ht] at hcond
        by_cases h : t = p
        · exact .inr (.inl (by rw [h]))
        · exact .inr (.inr (by simpa [h] using hcond))
  | none =>
    rw [positionWith_of_none hid]
    exact flattenWith_spec hid hP hB

/-! ## Whole runs -/

/-- What is known of records (`S`), of records kept in the session (`R`) and of type positions (`P`)
is respected by every step. `C` says what is known of the nodes in progress when a task is taken
up. -/
structure Closed (site : Site) (C : List Place → Graph.Task → Prop) (S R : Place → Record → Prop)
    (P : Place → TypeValue Record → Prop) : Prop where
  /-- A task that puts no node in progress is taken up as the one that leads to it. -/
  step : ∀ {active t t'}, C active t → site.graph.Needs t t' → (∀ q, t' ≠ .body q) → C active t'
  /-- The making of a record puts its node in progress. -/
  enter : ∀ {active t q}, C active t → site.graph.Needs t (.body q) → q ∉ active →
    C (q :: active) (.body q)
  kept : ∀ {p r}, R p r → S p r
  cut : ∀ {active p}, C active (.record p) → p ∈ active → S p (site.graph.node p).stub
  record : ∀ {p r}, site.RecordOf S P p r → R p r
  position : ∀ {active p v}, C active (.position p) →
    site.PositionOf active P (site.RecordOf S P) p v → P p v

namespace Closed

variable {C : List Place → Graph.Task → Prop}

/-- The making of a record, from what holds of the calls it makes. -/
theorem body_spec (h : site.Closed C S R P) {active : List Place} (hC : C active (.body p))
    (hS : ∀ c, C active (.record c) → Ensures site.Shows R (summarize c) (S c))
    (hP : ∀ t, C active (.position t) → Ensures site.Shows R (position t) (P t)) :
    Ensures site.Shows R (site.recordWith summarize position p) (site.RecordOf S P p) :=
  recordWith_spec (fun c hc => hS c (h.step hC (.part hc) (by simp)))
    fun t ht => hP t (h.step hC (.typePart ht) (by simp))

/-- The two programs call each other with less fuel, so what the steps respect holds of both. -/
theorem ensures (h : site.Closed C S R P) (fuel : Nat) :
    (∀ active p, C active (.record p) →
      Ensures site.Shows R (site.summarizeFrom fuel active p) fun r =>
        S p r ∧ (p ∉ active → R p r)) ∧
    ∀ active p, C active (.position p) →
      Ensures site.Shows R (site.positionFrom fuel active p) (P p) := by
  induction fuel with
  | zero =>
    refine ⟨fun _ _ _ => ?_, fun _ _ _ => ?_⟩
    · rw [summarizeFrom]
      exact .throw _ _
    · rw [positionFrom]
      exact .throw _ _
  | succ fuel ih =>
    obtain ⟨ih, ihP⟩ := ih
    have ihS : ∀ active p, C active (.record p) →
        Ensures site.Shows R (site.summarizeFrom fuel active p) (S p) :=
      fun active p hC => (ih active p hC).mono fun _ hr => hr.1
    refine ⟨fun active p hC => ?_, fun active p hC => ?_⟩
    · rw [summarizeFrom]
      refine (Ensures.record? p).bind fun o ho => ?_
      cases o with
      | some r => exact .pure ⟨h.kept (ho r rfl), fun _ => ho r rfl⟩
      | none =>
        dsimp only
        split
        · rename_i hp
          exact .pure ⟨h.cut hC hp, fun hp' => absurd hp hp'⟩
        · rename_i hp
          refine (h.body_spec (h.enter hC (.make p) hp) (ihS _) (ihP _)).bind fun r hr => ?_
          have hr := h.record hr
          exact (Ensures.rememberRecord hr).bind fun _ _ => .pure ⟨h.kept hr, fun _ => hr⟩
    · rw [positionFrom]
      refine (positionWith_spec (fun a ha => ihP active a (h.step hC ha (by simp)))
        fun q hq hq' => ?_).mono fun v hv => h.position hC hv
      exact h.body_spec (h.enter hC (.carry hq) hq') (ihS _) (ihP _)

theorem summarize_spec (h : site.Closed C S R P) (hC : C [] (.record p)) :
    Ensures site.Shows R (site.summarize p) (R p) :=
  ((h.ensures _).1 [] p hC).mono fun _ hr => hr.2 List.not_mem_nil

theorem position_spec (h : site.Closed C S R P) (hC : C [] (.position p)) :
    Ensures site.Shows R (site.position p) (P p) :=
  (h.ensures _).2 [] p hC

/-- The records of the document, before they are sorted, are those of the nodes listed. -/
theorem summaryRecords_spec (h : site.Closed C S R P)
    (hC : ∀ p ∈ summaryNodes site.graph, C [] (.record p)) :
    Ensures site.Shows R site.summaryRecords fun rs =>
      ∃ rs', List.Forall₂ R (summaryNodes site.graph) rs' ∧ rs = Record.sortByName rs' :=
  (eachPlace_spec fun p hp => h.summarize_spec (hC p hp)).bind fun rs' hrs =>
    .pure ⟨rs', hrs, rfl⟩

end Closed

/-- The sessions that printing and summarising lead to, in any order. A call that fails leaves
behind what it has done so far. -/
inductive Reached (site : Site) : Session → Prop
  | fresh : Reached site {}
  | print (l : Layout) {s : Session} (h : Reached site s) : Reached site ((site.print l).run.run s).2
  | summarize (p : Place) {s : Session} (h : Reached site s) :
    Reached site ((site.summarize p).run.run s).2
  | position (p : Place) {s : Session} (h : Reached site s) :
    Reached site ((site.position p).run.run s).2
  | summary {s : Session} (h : Reached site s) : Reached site (site.summaryRecords.run.run s).2

/-- **What the steps respect holds in every session**, when nothing has to be known of the nodes in
progress to begin with. -/
theorem Reached.keeps {C : List Place → Graph.Task → Prop} (h : site.Closed C S R P)
    (hC : ∀ t, C [] t) {s : Session} (hs : site.Reached s) : s.Keeps site.Shows R := by
  induction hs with
  | fresh => exact Session.keeps_fresh _ _
  | print l _ ih => exact (site.print_reads l _ ih).1
  | summarize p _ ih => exact (h.summarize_spec (hC _) _ ih).1
  | position p _ ih => exact (h.position_spec (hC _) _ ih).1
  | summary _ ih => exact (h.summaryRecords_spec (fun _ _ => hC _) _ ih).1

end Site

end SymbolDocs
