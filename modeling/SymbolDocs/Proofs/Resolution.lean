import SymbolDocs.Proofs.Lookup

/-!
# Which references a reader resolves

Every id in a type position of a summary is the id of a node. A reader of the summary finds it when
the node is declared in it: listed at the top level, or a member or parameter of a declared node.

There is one gap in this. A node whose structure can be carried in a type position may be in progress
there when its turn comes as a member, and then it appears in short, without its own members. So the
members of such a node are declared only when it is listed itself.

* `Graph.Declared` is the set of nodes that are found;
* `Graph.Expanded` says how far a record goes, `Site.closed_expanded` that records go that far;
* `Site.references_resolve` is the result for the document of a graph.

Types written in place and referred to by id are not declared. A reader prints a question mark for a
reference to one, as `dangling_reference` shows.
-/

namespace SymbolDocs

open Relation Work

/-- The ids in the type positions of a record. -/
def Record.RefersTo (r : Record) (id : Scalar) : Prop :=
  r.type = some (.ref id) ∨ r.resolvedType = some (.ref id)

namespace Graph

/-- Can the node be entered from a type position? -/
def Enterable (g : Graph) (p : Place) : Prop :=
  (g.node p).isStructural = true ∧ (g.node p).exportedId? = none

/-- The nodes that can be in progress without their owner. -/
def Entered (g : Graph) (p : Place) : Prop :=
  g.Enterable p ∨ p ∈ Site.summaryNodes g

/-- The nodes that a reader of the summary finds. -/
inductive Declared (g : Graph) : Place → Prop
  /-- Nodes at the top level. -/
  | listed {p : Place} (h : p ∈ Site.summaryNodes g) : Declared g p
  /-- Members and parameters. -/
  | part {o c : Place} (h : Declared g o) (ho : g.Enterable o → o ∈ Site.summaryNodes g)
    (hc : c ∈ (g.node o).parts) : Declared g c

/-- The record is one of the node, and holds the records of its members and parameters, and so on
down to nodes that can be in progress. -/
inductive Expanded (g : Graph) : Place → Record → Prop
  | short {p : Place} {r : Record} (hp : g.Entered p) (hr : r.Heads (g.node p)) : Expanded g p r
  | full {p : Place} {r : Record} (hr : r.Heads (g.node p)) (part : Place → Record)
    (hpart : ∀ c ∈ (g.node p).parts, r.Counts (part c))
    (h : ∀ c ∈ (g.node p).parts, Expanded g c (part c)) : Expanded g p r

/-- The record holds the records of members and parameters in any case. -/
structure FullyExpanded (g : Graph) (p : Place) (r : Record) : Prop where
  heads : r.Heads (g.node p)
  parts : ∀ c ∈ (g.node p).parts, ∃ x, r.Counts x ∧ g.Expanded c x

theorem FullyExpanded.expanded {g : Graph} {p : Place} {r : Record} (h : g.FullyExpanded p r) :
    g.Expanded p r := by
  obtain ⟨hheads, hparts⟩ := h
  choose! part hpart using hparts
  exact .full hheads part (fun c hc => (hpart c hc).1) fun c hc => (hpart c hc).2

theorem Expanded.heads {g : Graph} {p : Place} {r : Record} (h : g.Expanded p r) :
    r.Heads (g.node p) := by
  cases h with
  | short _ hr => exact hr
  | full hr _ _ _ => exact hr

/-- A record is in short only for a node that can be in progress. -/
theorem Expanded.fully {g : Graph} {p : Place} {r : Record} (h : g.Expanded p r)
    (hp : ¬ g.Entered p) : g.FullyExpanded p r := by
  cases h with
  | short hp' => exact absurd hp' hp
  | full hr part hpart h => exact ⟨hr, fun c hc => ⟨part c, hpart c hc, h c hc⟩⟩

/-! ## The nodes in progress -/

/-- A node in progress was entered from a type position or from the top level, or its owner is in
progress too. -/
def Rooted (g : Graph) (active : List Place) : Prop :=
  ∀ a ∈ active, g.Entered a ∨ ∃ o ∈ active, a ∈ (g.node o).parts

/-- What is known when a task is taken up. -/
def TakenUp (g : Graph) (active : List Place) : Task → Prop
  | .record p => (p ∈ active → g.Entered p) ∧
      (p ∈ Site.summaryNodes g ∨ ∃ o ∈ active, p ∈ (g.node o).parts)
  | .body q => ∃ rest, active = q :: rest ∧ q ∉ rest ∧ g.Rooted rest
  | .position _ | .text _ => True

end Graph

namespace Site

variable {site : Site}

theorem closed_expanded (hg : site.graph.Sound) :
    site.Closed (fun active t => site.graph.Rooted active ∧ site.graph.TakenUp active t)
      site.graph.Expanded site.graph.FullyExpanded fun _ _ => True where
  step {active t t'} hC hneeds hbody := by
    refine ⟨hC.1, ?_⟩
    cases hneeds with
    | make p => exact absurd rfl (hbody p)
    | carry h => exact absurd rfl (hbody _)
    | typePart | bound | argument | heritage | text | printed => trivial
    | @part o c hc =>
      -- the owner is in progress for the first time, so no other way can have led to `c`
      obtain ⟨rest, rfl, ho, hrooted⟩ := hC.2
      refine ⟨fun hactive => ?_, .inr ⟨o, List.mem_cons_self, hc⟩⟩
      have howned := Node.mem_owned_of_mem_parts hc
      rcases List.mem_cons.mp hactive with rfl | hrest
      · exact absurd (hg.owned howned).1 (Nat.lt_irrefl _)
      · rcases hrooted c hrest with h | ⟨o', ho', hc'⟩
        · exact h
        · obtain rfl := hg.owner howned (Node.mem_owned_of_mem_parts hc')
          exact absurd ho' ho
  enter {active t q} hC hneeds hq := by
    have hroot : site.graph.Entered q ∨ ∃ o ∈ active, q ∈ (site.graph.node o).parts := by
      cases hneeds with
      | make => exact hC.2.2.imp_left .inr
      | carry h => exact .inl (.inl ⟨h.1, h.2.1⟩)
    refine ⟨fun a ha => ?_, active, rfl, hq, hC.1⟩
    have hcons : ∀ {a}, (∃ o ∈ active, a ∈ (site.graph.node o).parts) →
        ∃ o ∈ q :: active, a ∈ (site.graph.node o).parts := by
      rintro a ⟨o, ho, ha⟩
      exact ⟨o, List.mem_cons_of_mem _ ho, ha⟩
    rcases List.mem_cons.mp ha with rfl | ha
    · exact hroot.imp_right hcons
    · exact (hC.1 a ha).imp_right hcons
  kept h := h.expanded
  cut hC hp := .short (hC.2.1 hp) ⟨rfl, rfl, rfl⟩
  record {p r} h := by
    exact ⟨⟨h.kind, h.id, h.name⟩, fun c hc => h.exists_of_mem_parts hc⟩
  position _ _ := trivial

/-! ## The document -/

/-- In a session without records the records of the document are fully expanded. -/
theorem expanded_of_summaryRecords (hg : site.graph.Sound) {s : Session} (hs : site.Reached s)
    (hnew : s.records = []) {rs : List Record} (h : (site.summaryRecords.run.run s).1 = .ok rs) :
    ∀ p ∈ summaryNodes site.graph, ∃ r ∈ rs, site.graph.FullyExpanded p r := by
  have hkeeps : s.Keeps site.Shows site.graph.FullyExpanded :=
    ⟨(hs.keeps closed_known fun _ => trivial).markup, by simp [hnew]⟩
  obtain ⟨rs', hrs', rfl⟩ := ((closed_expanded hg).summaryRecords_spec
    (fun p hp => ⟨by simp [Graph.Rooted], by simp [Graph.TakenUp, hp]⟩) s hkeeps).2 rs h
  intro p hp
  obtain ⟨r, hr, hpr⟩ := exists_of_mem_forall₂ hrs'.flip hp
  exact ⟨r, List.mem_mergeSort.mpr hr, hpr⟩

/-- Every node that is declared has a record that counts. -/
theorem exists_record_of_declared {rs : List Record}
    (hrs : ∀ p ∈ summaryNodes site.graph, ∃ r ∈ rs, site.graph.FullyExpanded p r) {p : Place}
    (hp : site.graph.Declared p) :
    ∃ r ∈ rs, ∃ d ∈ r.declared, d.Heads (site.graph.node p) ∧
      ((site.graph.Enterable p → p ∈ summaryNodes site.graph) → site.graph.FullyExpanded p d) := by
  have hlisted : ∀ {p}, p ∈ summaryNodes site.graph → ∃ r ∈ rs, ∃ d ∈ r.declared,
      d.Heads (site.graph.node p) ∧
        ((site.graph.Enterable p → p ∈ summaryNodes site.graph) → site.graph.FullyExpanded p d) := by
    intro p hp
    obtain ⟨r, hr, hfull⟩ := hrs p hp
    exact ⟨r, hr, r, Record.mem_declared.mpr (.inl rfl), hfull.heads, fun _ => hfull⟩
  induction hp with
  | listed h => exact hlisted h
  | @part o c _ ho hc ih =>
    by_cases hclisted : c ∈ summaryNodes site.graph
    · exact hlisted hclisted
    obtain ⟨r, hr, d, hd, -, hfull⟩ := ih
    obtain ⟨x, hx, hexpanded⟩ := (hfull ho).parts c hc
    refine ⟨r, hr, x, ?_, hexpanded.heads, fun henter => hexpanded.fully ?_⟩
    · exact Record.mem_declared_iff.mpr ((Record.mem_declared_iff.mp hd).tail hx)
    · rintro (h | h)
      · exact hclisted (henter h)
      · exact hclisted h

/-- **References resolve.** The document of a graph with integer ids, made in a session without
records, can be read. Every id in a type position of it, at any depth, is the id of a node, and if
that node is declared, the reader finds a record of it and prints it as a link. -/
theorem references_resolve {doc : Value} (hload : Graph.ofValue doc = .ok site.graph)
    (hint : site.graph.IntIds) {s : Session} (hs : site.Reached s) (hnew : s.records = []) {v : Value}
    (hv : (site.summary.run.run s).1 = .ok v) (link : Record → String) :
    ∃ rd, Reader.ofValue link v = .ok rd ∧
      ∀ r ∈ rd.index, r.All fun x => ∀ id, x.RefersTo id → ∃ p, (site.graph.node p).id = some id ∧
        (site.graph.Declared p → ∃ d, rd.refRecord? (some (.ref id)) = some d ∧
          d.Heads (site.graph.node p) ∧ rd.typeText (some (.ref id)) = .ok (link d)) := by
  have hg := Graph.sound_of_load hload
  obtain ⟨rs, hrs, rfl⟩ := summary_eq_ok hv
  obtain ⟨hknown, -⟩ := known_of_summaryRecords hs hrs
  have hexpanded := expanded_of_summaryRecords hg hs hnew hrs
  have hfaithful := Reader.faithful_of_known hg link hknown
  refine ⟨_, reader_of_summaryRecords hint hs hrs link, fun r hr => ?_⟩
  obtain ⟨r₀, hr₀, rfl⟩ := List.mem_map.mp hr
  refine (hknown r₀ hr₀).normal fun x hx id hid => ?_
  obtain ⟨p, hp⟩ : ∃ p, (site.graph.node p).id = some id := by
    cases x
    rw [Record.normal] at hid
    rcases hid with hid | hid
    · exact hx.type id (Record.ref_of_normalType hid)
    · exact hx.resolvedType id (Record.ref_of_normalType hid)
  refine ⟨p, hp, fun hdeclared => ?_⟩
  obtain ⟨r', hr', d', hd', hheads, -⟩ := exists_record_of_declared hexpanded hdeclared
  obtain ⟨d, hd⟩ := Reader.find?_isSome link hr' hd' (hheads.id.trans hp)
  refine ⟨d, hd, hfaithful p id d hp hd, ?_⟩
  rw [Reader.typeText, Reader.typeTextIn, hd]
  rfl

/-! ## A type that is referred to from within -/

/-- A module with an exported named type, which the module has as its type. The type that it names is
a function type with an id, which returns itself. -/
def nextDocument : Value :=
  .record [("modules", .list [.record [("kind", .int 1), ("id", .int 1), ("type", .int 2),
    ("children", .list [.record [("kind", .int 14), ("id", .int 2), ("flags", .int 1),
      ("type", .record [("kind", .int 37), ("id", .int 7), ("type", .int 7)])]])]])]

/-- The site of the document. -/
def nextSite : Site where
  graph :=
    { nodes := #[
        { Node.bare .moduleFile with id := some (.int 1), type := some 1, children := some [1] },
        { Node.bare .typeAlias with
          id := some (.int 2), flags := ⟨1⟩, type := some 2, parent := some 0 },
        { Node.bare .functionType with id := some (.int 7), type := some 2 }]
      modules := [0]
      index := [(.int 1, 0), (.int 2, 1), (.int 7, 2)] }
  plan := .empty false
  options := {}

theorem nextDocument_loads : Graph.ofValue nextDocument = .ok nextSite.graph := by
  cbv

theorem nextSite_intIds : nextSite.graph.IntIds := by
  intro p id h
  match p with
  | 0 | 1 | 2 =>
    cases h
    exact ⟨_, rfl⟩
  | p + 3 =>
    rw [Graph.node_of_size_le (by simp [nextSite, Graph.size])] at h
    cases h

/-- The record of the named type. -/
def nextRecord : Record :=
  { kind := .typeAlias, id := some (.int 2), flags := ⟨1⟩
    type := some (.embedded { kind := .functionType, id := some (.int 7)
                              type := some (.ref (.int 7)) }) }

/-- The records of the document. -/
def nextRecords : List Record :=
  [{ kind := .moduleFile, id := some (.int 1), type := some (.ref (.int 2))
     children := some [nextRecord] }, nextRecord]

theorem nextSite_records : (nextSite.summaryRecords.run.run {}).1 = .ok nextRecords := by
  cbv

/-- The reader of the document. -/
def nextReader : Reader :=
  Reader.ofRecords Record.plainLink (nextRecords.map Record.normal)

theorem nextReader_eq : Reader.ofValue Record.plainLink
    (.record [("index", .list (nextRecords.map Record.toValue))]) = .ok nextReader :=
  reader_of_summaryRecords nextSite_intIds .fresh nextSite_records _

/-- The module refers to the named type, which is listed and so found. -/
theorem references_resolve_next : ∃ d, nextReader.refRecord? (some (.ref (.int 2))) = some d ∧
    d.Heads (nextSite.graph.node 1) := by
  obtain ⟨rd, hrd, hrefs⟩ := references_resolve nextDocument_loads nextSite_intIds .fresh rfl
    (summary_of_records nextSite_records) Record.plainLink
  obtain rfl : nextReader = rd := by
    rw [nextReader_eq] at hrd
    exact Except.ok.inj hrd
  have hmem : (nextRecords.map Record.normal)[0] ∈ nextReader.index := List.getElem_mem _
  obtain ⟨p, hid, hp⟩ := (hrefs _ hmem).here (.int 2) (.inl (by cbv))
  obtain rfl : p = 1 := (Graph.sound_of_load nextDocument_loads).eq_of_same hid rfl rfl
  obtain ⟨d, hd, hheads, -⟩ := hp (.listed (by decide))
  exact ⟨d, hd, hheads⟩

/-- The function type refers to itself, but it is written in place. -/
theorem dangling_reference : Graph.ofValue nextDocument = .ok nextSite.graph ∧
    nextSite.graph.IntIds ∧ (∀ m ∈ nextSite.graph.modules, (nextSite.graph.node m).id ≠ none) ∧
    (∃ v, (nextSite.summary.run.run {}).1 = .ok v ∧
      Reader.ofValue Record.plainLink v = .ok nextReader) ∧
    (∃ r ∈ nextReader.index, ¬ r.All fun x => ∀ id, x.RefersTo id →
      nextReader.refRecord? (some (.ref id)) ≠ none) ∧
    nextReader.typeText (some (.ref (.int 7))) = .ok "?" := by
  refine ⟨nextDocument_loads, nextSite_intIds, by decide,
    ⟨_, summary_of_records nextSite_records, nextReader_eq⟩, ?_, ?_⟩
  · refine ⟨(nextRecords.map Record.normal)[1], List.getElem_mem _, fun h => ?_⟩
    have hpart := h.part (.type rfl)
    exact hpart.here (.int 7) (.inl rfl) (by cbv)
  · cbv

end Site

end SymbolDocs
