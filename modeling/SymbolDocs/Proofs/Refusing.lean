import SymbolDocs.Proofs.Reflecting

/-!
# Which documents are refused

A document can be checked node by node: every node is a mapping, its kind and modifiers are known, its id
is its own, and the ids that it names are ids of nodes. A document that fails the check is refused, any
other one is read, and the graph is what it describes.

* `Graph.not_refused_of_load`: what is read passes the check;
* `Graph.load_exact` is the result for all documents with fields of the documented kinds.
-/

namespace SymbolDocs

namespace Value

/-- The nodes that are described inside a node, in one list. -/
def inside (raw : Value) : List Value :=
  (raw.field "children").entries ++ (raw.field "parameters").entries ++
    (raw.field "typeParameters").entries ++
    [raw.field "type", raw.field "resolvedType"].filter (fun v => !(v.isNull || v.reference?.isSome)) ++
    (raw.field "extendedBy").entries.filter (!·.reference?.isSome)

theorem mem_inside {raw v : Value} {s : Trail.Step} (h : s.described? raw = some v) : v ∈ raw.inside := by
  simp only [inside, List.mem_append]
  cases s with
  | owned l i =>
    have hmem := List.mem_of_getElem? h
    cases l with
    | children => exact .inl (.inl (.inl (.inl hmem)))
    | parameters => exact .inl (.inl (.inl (.inr hmem)))
    | typeParameters => exact .inl (.inl (.inr hmem))
  | linked slot =>
    rw [Trail.Step.described?] at h
    split at h
    · cases h
    · rename_i hnode
      cases h
      refine .inl (.inr (List.mem_filter.mpr ⟨?_, by simpa using hnode⟩))
      cases slot <;> simp [LinkSlot.key]
  | extension i =>
    obtain ⟨w, hw, h⟩ := Option.bind_eq_some_iff.mp h
    split at h
    · cases h
    · rename_i hnode
      cases h
      exact .inr (List.mem_filter.mpr ⟨List.mem_of_getElem? hw, by simpa using hnode⟩)

/-- A property of all nodes of a document, by what is described inside what. -/
theorem of_nodeAt? {doc raw : Value} (P : Value → Prop) {t : Trail} (ht : doc.nodeAt? t = some raw)
    (hmodules : ∀ v ∈ (doc.field "modules").entries, P v)
    (hinside : ∀ v, P v → ∀ w ∈ v.inside, P w) : P raw := by
  induction t generalizing raw with
  | module i => exact hmodules raw (List.mem_of_getElem? ht)
  | step owner s ih =>
    obtain ⟨v, hv, hs⟩ := Option.bind_eq_some_iff.mp ht
    exact hinside v (ih hv) raw (mem_inside hs)

end Value

namespace Graph

variable {doc : Value} {g : Graph}

/-- In a graph that is what the document describes, every id that a node names is found. -/
theorem Reflects.find?_of_mem_references (h : g.Reflects doc) {t : Trail} {raw : Value} {r : Scalar}
    (ht : doc.nodeAt? t = some raw) (hr : r ∈ raw.references) : ∃ q, g.find? r = some q := by
  obtain ⟨p, -, hp, -⟩ := h.built ht
  obtain ⟨v, hv, hreference⟩ := List.mem_filterMap.mp hr
  rcases List.mem_cons.mp hv with rfl | hv
  · obtain ⟨q, hq, -⟩ := h.linked .type ht hp hreference
    exact ⟨q, hq⟩
  rcases List.mem_cons.mp hv with rfl | hv
  · obtain ⟨q, hq, -⟩ := h.linked .resolvedType ht hp hreference
    exact ⟨q, hq⟩
  · obtain ⟨i, hi⟩ := List.mem_iff_getElem?.mp hv
    obtain ⟨q, hq, -⟩ := h.extensions ht hp hi hreference
    exact ⟨q, hq⟩

/-- A document that is read is not to be refused. -/
theorem not_refused_of_load (h : ofValue doc = .ok g) : ¬ doc.Refused := by
  have hreflects := reflects_of_load h
  rintro (hmodules | ⟨ht, hmapping⟩ | ⟨ht, hkind⟩ | ⟨ht, hname, hflag⟩ |
    ⟨ht, ht', hne, hid, hid', hsame⟩ | ⟨ht, hr, hunknown⟩)
  · unfold ofValue at h
    split at h
    · rename_i modules hfield
      rw [hfield] at hmodules
      cases hmodules
    · cases h
  · obtain ⟨p, -, -, hbuilt⟩ := hreflects.built ht
    rw [hbuilt.mapping] at hmapping
    cases hmapping
  · obtain ⟨p, -, -, hbuilt⟩ := hreflects.built ht
    exact hbuilt.known.1 hkind
  · obtain ⟨p, -, -, hbuilt⟩ := hreflects.built ht
    exact hbuilt.known.2 _ hname hflag
  · obtain ⟨p, -, hp, -⟩ := hreflects.built ht
    obtain ⟨p', -, hp', -⟩ := hreflects.built ht'
    have hmem := hreflects.index.mpr ⟨_, _, ht, hid, hp⟩
    have hmem' := hreflects.index.mpr ⟨_, _, ht', hid', hp'⟩
    have heq := (sound_of_load h).distinct hmem hmem' hsame
    exact hne (hreflects.apart ht ht' (by rw [hp, hp', heq]))
  · obtain ⟨q, hq⟩ := hreflects.find?_of_mem_references ht hr
    obtain ⟨t', raw', id, ht', hid, hsame, -⟩ := hreflects.found.mp hq
    rw [hunknown t' raw' id ht' hid] at hsame
    cases hsame

/-- **Loading is exact.** Let the fields of all nodes of a document be of the documented kinds. Then

* loading fails, and fails as loading does, exactly when there is no list of modules, a node is no
  mapping, a kind or a modifier is unknown, two nodes have the same id, or a node names an id that no
  node has;
* otherwise it gives a graph that is what the document describes. -/
theorem load_exact (doc : Value) (h : doc.Documented) :
    ((∃ c, ofValue doc = .error (.load c)) ↔ doc.Refused) ∧
    (¬ doc.Refused → ∃ g, ofValue doc = .ok g ∧ g.Reflects doc) := by
  rcases hload : ofValue doc with e | g
  · obtain ⟨⟨c, rfl⟩, hrefused⟩ := faulted_of_load hload h
    exact ⟨⟨fun _ => hrefused, fun _ => ⟨c, rfl⟩⟩, fun hnot => absurd hrefused hnot⟩
  · have hnot := not_refused_of_load hload
    refine ⟨⟨?_, fun hrefused => absurd hrefused hnot⟩, fun _ => ⟨g, rfl, reflects_of_load hload⟩⟩
    rintro ⟨c, hc⟩
    cases hc

/-- An interface whose type is the first one again. -/
def derivedValue : Value := .record [("kind", .text "interface"), ("id", .int 2), ("type", .int 1)]

/-- An interface that names by its id an interface described among its own extending declarations. -/
def baseValue : Value :=
  .record [("kind", .text "interface"), ("id", .int 1), ("type", .int 2),
    ("extendedBy", .list [derivedValue, .int 1])]

/-- A module with an interface in it. -/
def moduleValue : Value := .record [("kind", .text "module"), ("children", .list [baseValue])]

/-- Two interfaces that refer to each other, one of them met only when references are filled in. -/
def extendingDocument : Value := .record [("modules", .list [moduleValue])]

theorem extendingDocument_documented : extendingDocument.Documented := by
  intro t raw ht
  have hraw : raw = moduleValue ∨ raw = baseValue ∨ raw = derivedValue := by
    refine Value.of_nodeAt? (fun v => v = moduleValue ∨ v = baseValue ∨ v = derivedValue) ht
      (fun v hv => .inl (List.mem_singleton.mp hv)) ?_
    rintro v (rfl | rfl | rfl) w hw
    · exact .inr (.inl (List.mem_singleton.mp hw))
    · exact .inr (.inr (List.mem_singleton.mp hw))
    · exact absurd hw List.not_mem_nil
  rcases hraw with rfl | rfl | rfl <;>
    exact ⟨rfl, rfl, fun l => by cases l <;> rfl, rfl, rfl, rfl⟩

theorem load_exact_extending : extendingDocument.Documented ∧
    ∃ g, ofValue extendingDocument = .ok g ∧ g.Reflects extendingDocument := by
  have hdoc := extendingDocument_documented
  refine ⟨hdoc, (load_exact _ hdoc).2 fun hrefused => ?_⟩
  obtain ⟨c, hc⟩ := (load_exact _ hdoc).1.mpr hrefused
  have hok : (ofValue extendingDocument).isOk = true := by cbv
  rw [hc] at hok
  cases hok

end Graph

end SymbolDocs
