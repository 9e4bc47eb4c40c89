import SymbolDocs.Proofs.Encoding

/-!
# Records at every depth

A record holds other records in five fields. Many facts about a summary concern each record in it by
itself, at whatever depth it stands.

* `Record.Part` is a part of a record, `Record.All` says something of a record and of all that is in
  it;
* `Site.Made` lists the records that are made, given what is known of type positions;
* `Site.closed_all`: what holds of each of these holds of every record in a summary.
-/

namespace SymbolDocs

open Relation Work

/-- The record is one of the node, in full or in short. -/
structure Record.Heads (n : Node) (r : Record) : Prop where
  kind : r.kind = n.kind
  id : r.id = n.id
  name : r.name = n.name?

/-- A part of a record. -/
inductive Record.Part (r : Record) : Record → Prop
  | child {x : Record} (h : x ∈ r.children.getD []) : Part r x
  | parameter {x : Record} (h : x ∈ r.parameters.getD []) : Part r x
  | typeParameter {x : Record} (h : x ∈ r.typeParameters.getD []) : Part r x
  | type {x : Record} (h : r.type = some (.embedded x)) : Part r x
  | resolvedType {x : Record} (h : r.resolvedType = some (.embedded x)) : Part r x

/-- A record and everything in it. -/
def Record.All (Q : Record → Prop) (r : Record) : Prop :=
  ∀ x, ReflTransGen Record.Part r x → Q x

/-- A record in a type position and everything in it. -/
def TypeValue.All (Q : Record → Prop) (v : TypeValue Record) : Prop :=
  ∀ r, v = .embedded r → r.All Q

namespace Record.All

variable {Q : Record → Prop} {r : Record}

theorem here (h : r.All Q) : Q r :=
  h r .refl

theorem part (h : r.All Q) {x : Record} (hx : r.Part x) : x.All Q :=
  fun y hy => h y (.head hx hy)

theorem of_parts (here : Q r) (below : ∀ x, r.Part x → x.All Q) : r.All Q := by
  intro y hy
  rcases ReflTransGen.cases_head hy with rfl | ⟨x, hx, hxy⟩
  · exact here
  · exact below x hx y hxy

/-- A record without lists and records in type positions. -/
theorem of_flat (here : Q r) (hchildren : r.children = none) (hparameters : r.parameters = none)
    (htypeParameters : r.typeParameters = none) (htype : ∀ x, r.type ≠ some (.embedded x))
    (hresolved : r.resolvedType = none) : r.All Q := by
  refine of_parts here ?_
  rintro x (h | h | h | h | h)
  · simp [hchildren] at h
  · simp [hparameters] at h
  · simp [htypeParameters] at h
  · exact absurd h (htype x)
  · simp [hresolved] at h

end Record.All

namespace Site

variable {site : Site} {V : Place → TypeValue Record → Prop} {Q : Record → Prop}

/-- The records that are made, when `V` is what is known of type positions. -/
inductive Made (site : Site) (V : Place → TypeValue Record → Prop) : Record → Prop
  /-- What appears for a node in progress. -/
  | stub (p : Place) : Made site V (site.graph.node p).stub
  /-- The record of a node. -/
  | record {p : Place} {r : Record} (h : site.RecordOf (fun _ _ => True) V p r) : Made site V r
  /-- A type parameter. -/
  | parameter {p : Place} (h : (site.graph.node p).kind = .typeParameter) (s : String) :
    Made site V { kind := .typeParameter, id := (site.graph.node p).id,
                  name := (site.graph.node p).name?, flags := (site.graph.node p).flags,
                  docs := (site.graph.node p).docs, type := some (.inline s) }
  /-- A type argument by its id. -/
  | ref {p : Place} {id : Scalar} (h : V p (.ref id)) :
    Made site V { kind := .reference, type := some (.ref id) }
  /-- A type argument as text. -/
  | inline (s : String) : Made site V { kind := .literal, name := some s }
  /-- A mention of an exported declaration with type arguments. -/
  | mention {t : Place} {id : Scalar} (h : (site.graph.node t).exportedId? = some id)
    {ps : List Place} {rs : List Record} (hrs : List.Forall₂ (ArgumentOf V) ps rs) :
    Made site V { kind := .reference, type := some (.ref id), typeParameters := some rs }
  /-- An entry of a heritage clause. -/
  | entry {p : Place} {r : Record} (h : site.HeritageEntryOf V p r) : Made site V r
  /-- A heritage clause. -/
  | clause (p : Place) (rs : List Record) :
    Made site V { kind := .classType, children := some rs
                  type := ((site.graph.heritageOwner? p).bind fun o => (site.graph.node o).id).map .ref }

/-- What is known of records: which node they are of, and what holds at every depth of them. -/
def DeepRecord (site : Site) (Q : Record → Prop) (p : Place) (r : Record) : Prop :=
  r.Heads (site.graph.node p) ∧ r.All Q

/-- What is known of type positions, with what holds at every depth of them. -/
def Deep (V : Place → TypeValue Record → Prop) (Q : Record → Prop) (p : Place)
    (v : TypeValue Record) : Prop :=
  V p v ∧ v.All Q

section

variable (hQ : ∀ r, site.Made V r → Q r)
include hQ

theorem argument_all {p : Place} {r : Record} (h : ArgumentOf (Deep V Q) p r) : r.All Q := by
  obtain ⟨v, ⟨hV, hv⟩, rfl⟩ := h
  cases v with
  | embedded r => exact hv r rfl
  | ref id => exact .of_flat (hQ _ (.ref hV)) rfl rfl rfl (by simp [TypeValue.asRecord]) rfl
  | inline s => exact .of_flat (hQ _ (.inline s)) rfl rfl rfl (by simp [TypeValue.asRecord]) rfl

theorem record_all {p : Place} {r : Record}
    (h : site.RecordOf (site.DeepRecord Q) (Deep V Q) p r) : r.All Q := by
  refine .of_parts (hQ r (.record (h.imp (fun _ _ _ _ => trivial) fun _ _ _ hv => hv.1))) ?_
  rintro x (hx | hx | hx | hx | hx)
  · obtain ⟨c, -, hc⟩ := h.exists_of_mem_children hx
    exact hc.2
  · obtain ⟨c, -, hc⟩ := h.exists_of_mem_parameters hx
    exact hc.2
  · obtain ⟨a, -, ha⟩ := h.typeParameters.exists_of_mem hx
    cases ha with
    | @parameter hk s _ =>
      refine .of_flat ?_ rfl rfl rfl (by simp) rfl
      rw [hk]
      exact hQ _ (.parameter hk s)
    | argument _ ha => exact argument_all hQ ha
  · obtain ⟨t, -, ht⟩ := h.exists_of_type hx
    exact ht.2 x rfl
  · obtain ⟨q, -, hq | hq⟩ := h.exists_of_resolvedType hx
    · exact hq.2 x rfl
    · cases hq

theorem entry_all {p : Place} {r : Record} (h : site.HeritageEntryOf (Deep V Q) p r) : r.All Q := by
  refine .of_parts (hQ r (.entry (h.imp fun _ _ _ hv => hv.1))) ?_
  obtain ⟨v, args, hv, hargs, rfl⟩ := h
  rintro x (hx | hx | hx | hx | hx)
  · cases hx
  · cases hx
  · obtain ⟨a, -, ha⟩ := hargs.exists_of_mem hx
    exact argument_all hQ ha
  · cases hv <;> cases hx
  · cases hx

theorem flattened_all {active : List Place} {p : Place} {v : TypeValue Record}
    (h : site.FlattenedOf active (Deep V Q) (site.RecordOf (site.DeepRecord Q) (Deep V Q)) p v) :
    v.All Q := by
  cases h with
  | heritage _ hrs =>
    rintro r hr
    cases hr
    refine .of_parts (hQ _ (.clause p _)) ?_
    rintro x (hx | hx | hx | hx | hx)
    · obtain ⟨c, -, hc⟩ := exists_of_mem_forall₂ hrs hx
      exact entry_all hQ hc
    · cases hx
    · cases hx
    · cases howner : (site.graph.heritageOwner? p).bind fun o => (site.graph.node o).id <;>
        simp [howner] at hx
    · cases hx
  | base | text | cut | cutText =>
    rintro r hr
    cases hr
  | carried _ _ h =>
    rintro r hr
    cases hr
    exact record_all hQ h

/-- **What holds of each record made holds at every depth.** -/
theorem closed_all
    (hV : ∀ {active p v}, site.PositionOf active V (site.RecordOf (fun _ _ => True) V) p v → V p v) :
    site.Closed (fun _ _ => True) (site.DeepRecord Q) (site.DeepRecord Q) (Deep V Q) where
  step _ _ _ := trivial
  enter _ _ _ := trivial
  kept h := h
  cut _ _ := ⟨⟨rfl, rfl, rfl⟩, .of_flat (hQ _ (.stub _)) rfl rfl rfl (by simp [Node.stub]) rfl⟩
  record h := ⟨⟨h.kind, h.id, h.name⟩, record_all hQ h⟩
  position {active p v} _ h := by
    refine ⟨hV (h.imp (fun _ _ => .rfl) (fun _ _ _ hv => hv.1) fun _ _ _ hr =>
      hr.imp (fun _ _ _ _ => trivial) fun _ _ _ hv => hv.1), ?_⟩
    cases h with
    | ref | text =>
      rintro r hr
      cases hr
    | mention ht _ hid _ hrs =>
      rintro r hr
      cases hr
      have hmade := hQ _ (.mention hid (hrs.imp fun _ _ h => h.imp fun _ hv => hv.1))
      refine .of_parts hmade ?_
      rintro x (hx | hx | hx | hx | hx)
      · cases hx
      · cases hx
      · obtain ⟨a, -, ha⟩ := exists_of_mem_forall₂ hrs hx
        exact argument_all hQ ha
      · cases hx
      · cases hx
    | followed _ _ _ _ h => exact flattened_all hQ h
    | own _ _ h => exact flattened_all hQ h

end

end Site

end SymbolDocs
