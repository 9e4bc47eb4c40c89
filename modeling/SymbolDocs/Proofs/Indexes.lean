import SymbolDocs.Proofs.Refusing
import SymbolDocs.Proofs.Walk

/-!
# Two ways to the index of ids

Loading notes the ids in the order of the document. They can also be found in the graph: a search from the
modules follows every link and notes the ids of what it meets, each node once and each id for the node
that has it first. The search stops at nodes that it has seen, so cycles do not keep it going.

* `Graph.unboundedIndex` is the search, without a bound of any kind;
* `Graph.buildIndex_eq` says what the bounded search finds: the ids of what the walk visits;
* `Graph.indexes_agree`: where extending declarations are given by ids only, the two indexes agree.
-/

namespace SymbolDocs

section Reach

variable {links : Place → List Place} {unvisited stack : List Place}

theorem mem_unvisited_of_mem_reach {p : Place} (h : p ∈ reach links unvisited stack) : p ∈ unvisited := by
  fun_induction reach links unvisited stack with
  | case1 => cases h
  | case2 unvisited q rest hq ih =>
    rcases List.mem_cons.mp h with rfl | h
    · exact hq
    · exact List.mem_of_mem_erase (ih h)
  | case3 unvisited q rest hq ih => exact ih h

/-- No place is visited twice. -/
theorem nodup_reach (h : unvisited.Nodup) : (reach links unvisited stack).Nodup := by
  fun_induction reach links unvisited stack with
  | case1 => exact List.nodup_nil
  | case2 unvisited q rest hq ih =>
    refine List.nodup_cons.mpr ⟨fun hmem => ?_, ih (h.erase q)⟩
    exact h.not_mem_erase (mem_unvisited_of_mem_reach hmem)
  | case3 unvisited q rest hq ih => exact ih h

end Reach

namespace Graph

variable {g : Graph} {doc : Value}

/-! ## The search -/

/-- The search for ids: it takes a place from the stack, passes over those seen before, and puts what
the node is linked to on the stack. -/
def unboundedIndex (g : Graph) (seen : List Place) (index : List (Scalar × Place)) (stack : List Place) :
    Option (List (Scalar × Place)) :=
  match stack with
  | [] => some index
  | p :: rest =>
    if p ∈ seen then g |>.unboundedIndex seen index rest
    else g |>.unboundedIndex (p :: seen) (g.addId index p) (g.indexLinks p ++ rest)
partial_fixpoint

/-- The search ends. Outside the table there is nothing to note and nothing to follow, and in it every
place is met once. -/
theorem unboundedIndex_eq {seen unvisited stack : List Place} {index : List (Scalar × Place)}
    (hopen : ∀ q, q ∈ unvisited ↔ q < g.size ∧ q ∉ seen) (hnodup : unvisited.Nodup) :
    g.unboundedIndex seen index stack =
      some ((reach g.indexLinks unvisited stack).foldl g.addId index) := by
  fun_induction reach g.indexLinks unvisited stack generalizing seen index with
  | case1 unvisited => rw [unboundedIndex, List.foldl_nil]
  | case2 unvisited p rest hp ih =>
    rw [unboundedIndex, if_neg ((hopen p).mp hp).2, List.foldl_cons]
    refine ih (fun q => ?_) (hnodup.erase p)
    rw [hnodup.mem_erase_iff, hopen, List.mem_cons, not_or]
    exact ⟨fun h => ⟨h.2.1, h.1, h.2.2⟩, fun h => ⟨h.2.1, h.1, h.2.2⟩⟩
  | case3 unvisited p rest hp ih =>
    rw [unboundedIndex]
    split
    · exact ih hopen hnodup
    · rename_i hseen
      have hsize : g.size ≤ p := Nat.le_of_not_lt fun hlt => hp ((hopen p).mpr ⟨hlt, hseen⟩)
      have hnode := node_of_size_le hsize
      have hadd : g.addId index p = index := by rw [addId, hnode]; rfl
      have hlinks : g.indexLinks p = [] := by rw [indexLinks, hnode]; rfl
      rw [hadd, hlinks, List.nil_append]
      refine ih (fun q => ?_) hnodup
      rw [hopen, List.mem_cons, not_or]
      exact ⟨fun h => ⟨h.1, fun hq => absurd h.1 (hq ▸ Nat.not_lt.mpr hsize), h.2⟩,
        fun h => ⟨h.1, h.2.2⟩⟩

/-! ## What the search finds -/

/-- The entry of a node in an index. -/
def indexed? (g : Graph) (p : Place) : Option (Scalar × Place) :=
  (g.node p).id.map fun id => (id, p)

theorem mem_filterMap_indexed? {ps : List Place} {id : Scalar} {p : Place} :
    (id, p) ∈ ps.filterMap g.indexed? ↔ p ∈ ps ∧ (g.node p).id = some id := by
  rw [List.mem_filterMap]
  constructor
  · rintro ⟨q, hq, hindexed⟩
    obtain ⟨a, ha, heq⟩ := Option.map_eq_some_iff.mp hindexed
    cases heq
    exact ⟨hq, ha⟩
  · rintro ⟨hp, hid⟩
    exact ⟨p, hp, by rw [indexed?, hid]; rfl⟩

/-- No id is passed over, since no other node has it. -/
theorem foldl_addId (hg : g.Sound) {ps : List Place} {index : List (Scalar × Place)} (hps : ps.Nodup)
    (hindex : ∀ e ∈ index, (g.node e.2).id = some e.1 ∧ e.2 ∉ ps) :
    ps.foldl g.addId index = index ++ ps.filterMap g.indexed? := by
  induction ps generalizing index with
  | nil => rw [List.foldl_nil, List.filterMap_nil, List.append_nil]
  | cons p rest ih =>
    obtain ⟨hp, hrest⟩ := List.nodup_cons.mp hps
    have hold : ∀ e ∈ index, (g.node e.2).id = some e.1 ∧ e.2 ∉ rest := fun e he =>
      ⟨(hindex e he).1, fun hmem => (hindex e he).2 (List.mem_cons_of_mem _ hmem)⟩
    rw [List.foldl_cons]
    cases hid : (g.node p).id with
    | none =>
      have hindexed : g.indexed? p = none := by rw [indexed?, hid]; rfl
      have hadd : g.addId index p = index := by rw [addId, hid]
      rw [hadd, ih hrest hold, List.filterMap_cons_none hindexed]
    | some id =>
      have hindexed : g.indexed? p = some (id, p) := by rw [indexed?, hid]; rfl
      have hnone : lookup? id index = none := by
        rw [Option.eq_none_iff_forall_ne_some]
        intro q hq
        obtain ⟨k, hk, hsame⟩ := exists_of_lookup? hq
        have heq := hg.eq_of_same (hindex _ hk).1 hid hsame
        exact (hindex _ hk).2 (heq ▸ List.mem_cons_self)
      have hadd : g.addId index p = index ++ [(id, p)] := by rw [addId, hid]; simp [hnone]
      rw [hadd, ih hrest, List.filterMap_cons_some hindexed, List.append_assoc, List.singleton_append]
      intro e he
      rcases List.mem_append.mp he with he | he
      · exact hold e he
      · cases List.mem_singleton.mp he
        exact ⟨hid, hp⟩

theorem nodup_places (g : Graph) : g.places.Nodup :=
  List.nodup_range

/-- The index that is searched for has the ids of what the walk visits. -/
theorem buildIndex_eq (hg : g.Sound) :
    g.buildIndex = (reach g.indexLinks g.places g.modules).filterMap g.indexed? := by
  rw [buildIndex, foldl_addId hg (nodup_reach g.nodup_places) fun e he => absurd he List.not_mem_nil,
    List.nil_append]

/-- Where extending declarations are given by ids only, every node of the document is visited: the way to
it leads through owned lists and types. -/
theorem Reflects.mem_reach (h : g.Reflects doc)
    (hids : ∀ t raw, doc.nodeAt? t = some raw →
      ∀ v ∈ (raw.field "extendedBy").entries, v.reference?.isSome = true)
    {t : Trail} {raw : Value} {p : Place} (ht : doc.nodeAt? t = some raw) (hp : g.placeAt? t = some p) :
    p ∈ reach g.indexLinks g.places g.modules := by
  have hopen : ∀ {t raw p}, doc.nodeAt? t = some raw → g.placeAt? t = some p → p ∈ g.places := by
    intro t raw p ht hp
    obtain ⟨q, hq, hplace, -⟩ := h.built ht
    cases Option.some.inj (hp.symm.trans hplace)
    exact List.mem_range.mpr hq
  induction t generalizing raw p with
  | module i => exact mem_reach_of_mem_stack (hopen ht hp) (List.mem_of_getElem? hp)
  | step owner s ih =>
    have hplaces := hopen ht hp
    obtain ⟨rawOwner, howner, hs⟩ := Option.bind_eq_some_iff.mp ht
    obtain ⟨o, ho, hplace⟩ := Option.bind_eq_some_iff.mp hp
    refine mem_reach_of_links (ih howner ho) ?_ hplaces
    simp only [indexLinks, List.mem_append, Option.mem_toList]
    cases s with
    | owned l i =>
      have hmem := List.mem_of_getElem? hplace
      cases l with
      | children => exact .inr hmem
      | parameters => exact .inl (.inr hmem)
      | typeParameters => exact .inl (.inl (.inr hmem))
    | linked slot =>
      cases slot with
      | type => exact .inl (.inl (.inl (.inr hplace)))
      | resolvedType => exact .inl (.inl (.inl (.inl hplace)))
    | extension i =>
      obtain ⟨v, hv, hs⟩ := Option.bind_eq_some_iff.mp hs
      rw [if_pos (hids owner rawOwner howner v (List.mem_of_getElem? hv))] at hs
      cases hs

/-- **The indexes agree.** Let a document be loaded, whatever cycles its links run in, in which every
extending declaration is given by its id. Then the search for ids from the modules ends; the index that
it finds is the one that loading built, apart from the order, and every id is found at the same node in
both. -/
theorem indexes_agree (hload : ofValue doc = .ok g)
    (hids : ∀ t raw, doc.nodeAt? t = some raw →
      ∀ v ∈ (raw.field "extendedBy").entries, v.reference?.isSome = true) :
    g.unboundedIndex [] [] g.modules = some g.buildIndex ∧ g.buildIndex.Perm g.index ∧
      ∀ id, lookup? id g.buildIndex = g.find? id := by
  have hg := sound_of_load hload
  have hreflects := reflects_of_load hload
  have hperm : g.buildIndex.Perm g.index := by
    rw [buildIndex_eq hg]
    refine (List.perm_ext_iff_of_nodup ?_ hreflects.nodup).mpr fun ⟨id, p⟩ => ?_
    · refine List.Nodup.filterMap (fun q q' e he he' => ?_) (nodup_reach g.nodup_places)
      obtain ⟨a, -, rfl⟩ := Option.map_eq_some_iff.mp he
      obtain ⟨a', -, heq⟩ := Option.map_eq_some_iff.mp he'
      exact (Prod.mk.inj heq).2.symm
    · rw [mem_filterMap_indexed?]
      refine ⟨fun hmem => hg.indexed hmem.2, fun hmem => ⟨?_, hg.index hmem⟩⟩
      obtain ⟨t, raw, ht, -, hp⟩ := hreflects.index.mp hmem
      exact hreflects.mem_reach hids ht hp
  have hdistinct : ∀ {a b p q}, (a, p) ∈ g.buildIndex → (b, q) ∈ g.buildIndex → a.same b = true → p = q :=
    fun ha hb => hg.distinct (hperm.mem_iff.mp ha) (hperm.mem_iff.mp hb)
  refine ⟨?_, hperm, fun id => ?_⟩
  · refine unboundedIndex_eq (fun q => ?_) g.nodup_places
    rw [places, List.mem_range]
    exact ⟨fun hq => ⟨hq, List.not_mem_nil⟩, And.left⟩
  · ext p
    rw [find?, lookup?_eq_some_iff hdistinct, lookup?_eq_some_iff hg.distinct]
    exact exists_congr fun k => and_congr_left fun _ => hperm.mem_iff

/-- An interface with an id, a type and extending declarations, the last two given by ids. -/
def linkedValue (id type : Int) (extendedBy : List Int) : Value :=
  .record [("kind", .text "interface"), ("id", .int id), ("type", .int type),
    ("extendedBy", .list (extendedBy.map .int))]

/-- A module with three interfaces whose types run in a circle. -/
def circularValue : Value :=
  .record [("kind", .text "module"),
    ("children", .list [linkedValue 1 3 [2], linkedValue 2 1 [], linkedValue 3 2 [1, 3]])]

/-- A document with one module. -/
def circularDocument : Value := .record [("modules", .list [circularValue])]

theorem circularDocument_ids (t : Trail) (raw : Value) (ht : circularDocument.nodeAt? t = some raw) :
    ∀ v ∈ (raw.field "extendedBy").entries, v.reference?.isSome = true := by
  have hraw : raw = circularValue ∨ ∃ id type extendedBy, raw = linkedValue id type extendedBy := by
    refine Value.of_nodeAt? (fun v => v = circularValue ∨ ∃ id type extendedBy,
      v = linkedValue id type extendedBy) ht (fun v hv => .inl (List.mem_singleton.mp hv)) ?_
    rintro v (rfl | ⟨id, type, extendedBy, rfl⟩) w hw
    · have hlist : w ∈ [linkedValue 1 3 [2], linkedValue 2 1 [], linkedValue 3 2 [1, 3]] := hw
      simp only [List.mem_cons, List.not_mem_nil, or_false] at hlist
      rcases hlist with rfl | rfl | rfl <;> exact .inr ⟨_, _, _, rfl⟩
    · have hnone : w ∈ (extendedBy.map Value.int).filter (!·.reference?.isSome) := hw
      obtain ⟨hmem, hreference⟩ := List.mem_filter.mp hnone
      obtain ⟨n, -, rfl⟩ := List.mem_map.mp hmem
      cases hreference
  rcases hraw with rfl | ⟨id, type, extendedBy, rfl⟩
  · exact fun v hv => absurd hv List.not_mem_nil
  · intro v hv
    obtain ⟨n, -, rfl⟩ := List.mem_map.mp (show v ∈ extendedBy.map Value.int from hv)
    rfl

/-- The search follows the type of the first interface to the third one before it meets the second. -/
theorem indexes_agree_circular : ∃ g, ofValue circularDocument = .ok g ∧
    g.index = [(.int 1, 1), (.int 2, 2), (.int 3, 3)] ∧
    g.unboundedIndex [] [] g.modules = some [(.int 1, 1), (.int 3, 3), (.int 2, 2)] ∧
    ∀ id, lookup? id [(.int 1, 1), (.int 3, 3), (.int 2, 2)] = g.find? id := by
  have hindexes : (ofValue circularDocument).map (fun g => (g.index, g.buildIndex)) =
      .ok ([(.int 1, 1), (.int 2, 2), (.int 3, 3)], [(.int 1, 1), (.int 3, 3), (.int 2, 2)]) := by
    cbv
  cases hload : ofValue circularDocument with
  | error e =>
    rw [hload] at hindexes
    cases hindexes
  | ok g =>
    rw [hload] at hindexes
    obtain ⟨hindex, hbuilt⟩ := Prod.mk.inj (Except.ok.inj hindexes)
    obtain ⟨hends, -, hsame⟩ := indexes_agree hload circularDocument_ids
    rw [hbuilt] at hends hsame
    exact ⟨g, rfl, hindex, hends, hsame⟩

end Graph

end SymbolDocs
