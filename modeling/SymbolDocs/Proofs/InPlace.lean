import SymbolDocs.Proofs.Parts

/-!
# What is never carried in place

A record carries other records in place: in its type and resolved type, and as type arguments. An
exported declaration with an id is never one of them, and neither is anything declared outside the
package: these appear by their id or as text.

* `Record.InPlace` is a part that is carried in place, `Record.Carriable` what it has to satisfy;
* `Site.Appears` says how a node appears in a type position;
* `Site.carried_in_place` says so of every record made in every session, at any depth.

The one exception to the last words above is a heritage clause: it is carried in place whatever its
modifiers, as a record that has no id and no modifiers.
-/

namespace SymbolDocs

open Relation Work

namespace Record

/-- A part that is carried in place: in a type position, or as a type argument. The other entries in a
list of type parameters are type parameters. -/
inductive InPlace (r : Record) : Record → Prop
  | type {x : Record} (h : r.type = some (.embedded x)) : InPlace r x
  | resolvedType {x : Record} (h : r.resolvedType = some (.embedded x)) : InPlace r x
  | argument {x : Record} (h : x ∈ r.typeParameters.getD []) (hk : x.kind ≠ .typeParameter) :
    InPlace r x

/-- Neither an exported declaration with an id nor declared outside the package. -/
def Carriable (r : Record) : Prop :=
  ¬ (r.id.isSome = true ∧ r.flags.has .exported = true) ∧ r.flags.has .external = false ∧
    r.flags.has .defaultLibrary = false

/-- At every depth what is carried in place may be. -/
def CarriesInPlace (r : Record) : Prop :=
  r.All fun y => ∀ x, y.InPlace x → x.Carriable

/-- A record without modifiers. -/
theorem carriable_of_flags {r : Record} (h : r.flags = Flags.empty) : Carriable r := by
  simp [Carriable, h, Flags.has, Flags.empty]

end Record

namespace Site

variable {site : Site}

/-- How a node appears in a type position: what it mentions, or the node itself, counts. -/
structure Appears (site : Site) (p : Place) (v : TypeValue Record) : Prop where
  /-- An exported declaration appears by its id, with its type arguments when it has some. -/
  exported : ∀ id, (site.graph.node ((site.graph.node p).mention?.getD p)).exportedId? = some id →
    v = .ref id ∨
      ∃ args, v = .embedded { kind := .reference, type := some (.ref id), typeParameters := some args }
  /-- What is declared outside the package appears as text, unless it is a heritage clause. -/
  foreign : (site.graph.node ((site.graph.node p).mention?.getD p)).exportedId? = none →
    (site.graph.node ((site.graph.node p).mention?.getD p)).isForeign = true →
    (site.graph.node p).kind ≠ .classType → ∃ s, v = .inline s
  /-- A heritage clause appears in place, without id and modifiers. -/
  clause : (site.graph.node p).exportedId? = none → (site.graph.node p).kind = .classType →
    ∃ r, v = .embedded r ∧ r.kind = .classType ∧ r.id = none ∧ r.flags = Flags.empty

theorem appears_of_position {active : List Place} {P : Place → TypeValue Record → Prop}
    {B : Place → Record → Prop} {p : Place} {v : TypeValue Record}
    (h : site.PositionOf active P B p v) : site.Appears p v := by
  have hmention : (site.graph.node p).kind = .classType → (site.graph.node p).mention? = none := by
    intro hk
    rw [Node.mention?, hk]
    rfl
  cases h with
  | ref hid harg =>
    refine ⟨fun id h => .inl ?_, fun h => ?_, fun h hk => ?_⟩
    · rw [hid] at h
      cases h
      rfl
    · rw [hid] at h
      cases h
    · rw [hmention hk, Option.getD_none, h] at hid
      cases hid
  | mention ht _ hid =>
    refine ⟨fun id h => .inr ?_, fun h => ?_, fun _ hk => ?_⟩
    · rw [ht, Option.getD_some, hid] at h
      cases h
      exact ⟨_, rfl⟩
    · rw [ht, Option.getD_some, hid] at h
      cases h
    · rw [hmention hk] at ht
      cases ht
  | text ht hid =>
    refine ⟨fun id h => ?_, fun _ _ _ => ⟨_, rfl⟩, fun _ hk => ?_⟩
    · rw [ht, Option.getD_some, hid] at h
      cases h
    · rw [hmention hk] at ht
      cases ht
  | followed ht hid _ hs =>
    refine ⟨fun id h => ?_, fun _ h => ?_, fun _ hk => ?_⟩
    · rw [ht, Option.getD_some, hid] at h
      cases h
    · rw [ht, Option.getD_some, (isStructural_kind hs).2.2.1] at h
      cases h
    · rw [hmention hk] at ht
      cases ht
  | own ht hid h =>
    refine ⟨fun id h => ?_, fun _ hforeign hk => ?_, fun _ hk => ?_⟩
    · rw [ht, Option.getD_none, hid] at h
      cases h
    · rw [ht, Option.getD_none] at hforeign
      cases h with
      | heritage hk' => exact absurd hk' hk
      | base | text | cutText => exact ⟨_, rfl⟩
      | cut hs | carried hs =>
        rw [(isStructural_kind hs).2.2.1] at hforeign
        cases hforeign
    · cases h with
      | heritage _ _ => exact ⟨_, rfl, rfl, rfl, rfl⟩
      | base hk' => simp [hk] at hk'
      | text hk' => exact absurd hk hk'
      | cut hs | cutText hs | carried hs => exact absurd hk (isStructural_kind hs).1

/-- What a type position carries may be carried. -/
theorem carriable_of_position {active : List Place} {P : Place → TypeValue Record → Prop}
    {S : Place → Record → Prop} {p : Place} {r : Record}
    (h : site.PositionOf active P (site.RecordOf S P) p (.embedded r)) : r.Carriable := by
  have hflattened : ∀ {q}, (site.graph.node q).exportedId? = none →
      site.FlattenedOf active P (site.RecordOf S P) q (.embedded r) → r.Carriable := by
    intro q hid h
    cases h with
    | heritage => exact Record.carriable_of_flags rfl
    | carried hs _ hr =>
      have hforeign := (isStructural_kind hs).2.2.1
      simp only [Node.isForeign, Node.hasAny, Flags.hasAny, List.any_cons, List.any_nil,
        Bool.or_false, Bool.or_eq_false_iff] at hforeign
      rw [Record.Carriable, hr.id, hr.flags]
      refine ⟨fun hboth => ?_, hforeign⟩
      rw [Node.exportedId?, Node.has, hboth.2, if_pos rfl] at hid
      rw [hid] at hboth
      simp at hboth
  cases h with
  | mention => exact Record.carriable_of_flags rfl
  | followed _ hid _ _ h => exact hflattened hid h
  | own _ hid h => exact hflattened hid h

/-- What is known of a type position. -/
def Allowed (site : Site) (p : Place) (v : TypeValue Record) : Prop :=
  (∀ r, v = .embedded r → r.Carriable) ∧ site.Appears p v

theorem argument_carriable {p : Place} {r : Record} (h : ArgumentOf site.Allowed p r) :
    r.Carriable := by
  obtain ⟨v, hv, rfl⟩ := h
  cases v with
  | embedded r => exact hv.1 r rfl
  | ref | inline => exact Record.carriable_of_flags rfl

/-- No record that is made carries in place what it may not. -/
theorem made_carriable {r : Record} (h : site.Made site.Allowed r) :
    ∀ x, r.InPlace x → x.Carriable := by
  cases h with
  | stub | parameter | ref | inline => rintro x (hx | hx | ⟨hx, _⟩) <;> cases hx
  | record h =>
    rintro x (hx | hx | ⟨hx, hk⟩)
    · obtain ⟨t, -, ht⟩ := h.exists_of_type hx
      exact ht.1 x rfl
    · obtain ⟨q, -, hq | hq⟩ := h.exists_of_resolvedType hx
      · exact hq.1 x rfl
      · cases hq
    · obtain ⟨a, -, ha⟩ := h.typeParameters.exists_of_mem hx
      cases ha with
      | parameter hk' _ => exact absurd hk' hk
      | argument _ ha => exact argument_carriable ha
  | mention _ hrs =>
    rintro x (hx | hx | ⟨hx, _⟩)
    · cases hx
    · cases hx
    · obtain ⟨a, -, ha⟩ := exists_of_mem_forall₂ hrs hx
      exact argument_carriable ha
  | entry h =>
    obtain ⟨v, args, hv, hargs, rfl⟩ := h
    rintro x (hx | hx | ⟨hx, _⟩)
    · cases hv <;> cases hx
    · cases hx
    · obtain ⟨a, -, ha⟩ := hargs.exists_of_mem hx
      exact argument_carriable ha
  | clause p rs =>
    rintro x (hx | hx | ⟨hx, _⟩)
    · cases howner : (site.graph.heritageOwner? p).bind fun o => (site.graph.node o).id <;>
        simp [howner] at hx
    · cases hx
    · cases hx

theorem closed_carriesInPlace : site.Closed (fun _ _ => True)
    (site.DeepRecord fun y => ∀ x, y.InPlace x → x.Carriable)
    (site.DeepRecord fun y => ∀ x, y.InPlace x → x.Carriable)
    (Deep site.Allowed fun y => ∀ x, y.InPlace x → x.Carriable) :=
  closed_all (fun _ h => made_carriable h) fun h => by
    refine ⟨fun r hr => ?_, appears_of_position h⟩
    subst hr
    exact carriable_of_position h

/-- **No declaration is carried in place.** In every session, whatever was printed and summarised
before, and whether those calls succeeded:

* in the record of any node, and in every record of the document, no record carried in place at any
  depth has both an id and the export modifier, and none is declared outside the package;
* in a type position, with any nodes in progress, an exported declaration appears by its id and what
  is declared outside the package as text, heritage clauses excepted, which appear without id and
  modifiers. -/
theorem carried_in_place (site : Site) {s : Session} (hs : site.Reached s) :
    (∀ p r, ((site.summarize p).run.run s).1 = .ok r → r.CarriesInPlace) ∧
    (∀ rs, (site.summaryRecords.run.run s).1 = .ok rs → ∀ r ∈ rs, r.CarriesInPlace) ∧
    ∀ depth active p v, ((site.positionFrom depth active p).run.run s).1 = .ok v →
      site.Appears p v := by
  have hkeeps := hs.keeps closed_carriesInPlace fun _ => trivial
  refine ⟨fun p r hr => ?_, fun rs hrs r hr => ?_, fun depth active p v hv => ?_⟩
  · exact ((closed_carriesInPlace.summarize_spec trivial s hkeeps).2 r hr).2
  · obtain ⟨rs', hrs', rfl⟩ :=
      (closed_carriesInPlace.summaryRecords_spec (fun _ _ => trivial) s hkeeps).2 rs hrs
    obtain ⟨p, -, hp⟩ := exists_of_mem_forall₂ hrs' (List.mem_mergeSort.mp hr)
    exact hp.2
  · exact (((closed_carriesInPlace.ensures depth).2 active p trivial s hkeeps).2 v hv).1.2

/-! ## A heritage clause declared outside the package -/

/-- A module with an exported class whose heritage clause is declared outside the package. -/
def clauseDocument : Value :=
  .record [("modules", .list [.record [("kind", .int 1), ("id", .int 1), ("children", .list [
    .record [("kind", .int 3), ("id", .int 2), ("name", .text "C"), ("flags", .int 1),
      ("type", .record [("kind", .int 45), ("flags", .int 32768)])]])]])]

/-- The graph of the document. -/
def clauseGraph : Graph where
  nodes := #[
    { Node.bare .moduleFile with id := some (.int 1), children := some [1] },
    { Node.bare .classDecl with
      id := some (.int 2), name := "C", flags := ⟨1⟩, type := some 2, parent := some 0 },
    { Node.bare .classType with flags := ⟨32768⟩ }]
  modules := [0]
  index := [(.int 1, 0), (.int 2, 1)]

theorem clauseDocument_loads : Graph.ofValue clauseDocument = .ok clauseGraph := by
  cbv

/-- The record of the clause. -/
def clauseRecord : Record := { kind := .classType, children := some [] }

/-- The record of the class carries the clause in place, and the clause has no modifiers. -/
theorem carried_in_place_clause :
    Graph.ofValue clauseDocument = .ok clauseGraph ∧
      (⟨clauseGraph, .empty false, {}⟩ : Site).Appears 2 (.embedded clauseRecord) ∧
      Record.CarriesInPlace { kind := .classDecl, id := some (.int 2), name := some "C", flags := ⟨1⟩,
                              type := some (.embedded clauseRecord) } := by
  have h := carried_in_place ⟨clauseGraph, .empty false, {}⟩ (.summary .fresh)
  refine ⟨clauseDocument_loads, ?_, ?_⟩
  · exact h.2.2 (summaryDepth clauseGraph) [] 2 _ (by cbv)
  · exact h.1 1 _ (by cbv)

/-- A node declared outside the package can appear neither by an id nor as text. -/
theorem foreign_clause_in_place :
    Graph.ofValue clauseDocument = .ok clauseGraph ∧ (clauseGraph.node 2).has .external = true ∧
      (((⟨clauseGraph, .empty false, {}⟩ : Site).position 2).run.run {}).1 =
        .ok (.embedded clauseRecord) :=
  ⟨clauseDocument_loads, by cbv, by cbv⟩

end Site

end SymbolDocs
