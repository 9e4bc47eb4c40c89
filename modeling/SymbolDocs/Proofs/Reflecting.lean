import SymbolDocs.Proofs.Surveying

/-!
# The graph of a document

When everything is met, the references by id are filled in: the types first, then the lists of extending
declarations. Each concerns another place, so the order does not matter, and the ids are all known.

* `Builder.fillPending_meets` and `Builder.fillExtensions_meets` follow the filling in;
* `Builder.Resolved` is the result, with the log beside it;
* `Graph.reflects_of_load` says that a graph that is read is what the document describes;
* `Graph.faulted_of_load` says that a document that is not read is to be refused.
-/

namespace SymbolDocs

/-- The nodes have the same attributes, the same id and own the same nodes. -/
structure Node.Alike (n n' : Node) : Prop where
  plain : n'.plain = n.plain
  id : n'.id = n.id
  lists : ∀ l, n'.list l = n.list l

theorem Node.Alike.refl (n : Node) : n.Alike n :=
  ⟨rfl, rfl, fun _ => rfl⟩

theorem Node.Alike.trans {n n' n'' : Node} (h : n.Alike n') (h' : n'.Alike n'') : n.Alike n'' :=
  ⟨h'.plain.trans h.plain, h'.id.trans h.id, fun l => (h'.lists l).trans (h.lists l)⟩

theorem Node.alike_fill (n : Node) (slot : LinkSlot) (p : Place) : n.Alike (n.fill slot p) := by
  cases slot <;> exact ⟨rfl, rfl, fun l => by cases l <;> rfl⟩

theorem Node.slot_fill (n : Node) (slot slot' : LinkSlot) (p : Place) :
    (n.fill slot p).slot slot' = if slot' = slot then some p else n.slot slot' := by
  cases slot <;> cases slot' <;> rfl

theorem Node.extendedBy_fill (n : Node) (slot : LinkSlot) (p : Place) :
    (n.fill slot p).extendedBy = n.extendedBy := by
  cases slot <;> rfl

theorem Node.BuiltFrom.known {n : Node} {raw : Value} (h : n.BuiltFrom raw) :
    raw.kindField.kind? ≠ none ∧
      ∀ name ∈ (raw.field "flags").flagNames, Flag.ofName? name.plain ≠ none := by
  cases raw with
  | map fields => exact Node.attributes_known h.attributes
  | scalar s | list items => cases h.mapping

namespace Builder

open Log

/-! ## Types -/

theorem lookup_meets {b : Builder} {r : Scalar} {owner : Place} {E : Fault → Prop}
    (hE : Graph.lookup? r b.index = none → ∀ c, E (.load c)) :
    Meets (lookup r owner) b (fun q b' => b = b' ∧ Graph.lookup? r b.index = some q) E := by
  refine Meets.get ?_
  split
  · rename_i q hq
    exact Meets.pure ⟨rfl, hq⟩
  · rename_i hnone
    exact Meets.throw (hE hnone _)

/-- The types that are named by ids are filled in, and nothing else is changed. -/
structure Filled (pending : List (Place × LinkSlot × Scalar)) (b b' : Builder) : Prop where
  size : b'.graph.size = b.graph.size
  index : b'.index = b.index
  alike : ∀ q, (b.graph.node q).Alike (b'.graph.node q)
  extendedBy : ∀ q, (b'.graph.node q).extendedBy = (b.graph.node q).extendedBy
  slots : ∀ q slot, (∃ r x, (q, slot, r) ∈ pending ∧ Graph.lookup? r b.index = some x ∧
      (b'.graph.node q).slot slot = some x) ∨
    (∀ r, (q, slot, r) ∉ pending) ∧ (b'.graph.node q).slot slot = (b.graph.node q).slot slot

theorem Filled.cons {pending : List (Place × LinkSlot × Scalar)} {b b' : Builder} {p x : Place}
    {slot : LinkSlot} {r : Scalar} (hp : p < b.graph.size) (hx : Graph.lookup? r b.index = some x)
    (h : Filled pending (b.changed p fun n => n.fill slot x) b') :
    Filled ((p, slot, r) :: pending) b b' := by
  have hnode := b.node_changed (fun n => n.fill slot x) hp
  refine ⟨h.size.trans (b.size_changed p _), h.index, fun q => ?_, fun q => ?_, fun q slot' => ?_⟩
  · refine Node.Alike.trans ?_ (h.alike q)
    rw [hnode]
    split
    · rename_i hq
      rw [hq]
      exact Node.alike_fill _ slot x
    · exact .refl _
  · rw [h.extendedBy, hnode]
    split
    · rename_i hq
      rw [hq, Node.extendedBy_fill]
    · rfl
  · rcases h.slots q slot' with ⟨r', x', hmem, hx', hslot⟩ | ⟨hnot, hslot⟩
    · exact .inl ⟨r', x', List.mem_cons_of_mem _ hmem, hx', hslot⟩
    · rw [hnode] at hslot
      by_cases hq : q = p ∧ slot' = slot
      · obtain ⟨rfl, rfl⟩ := hq
        rw [if_pos rfl, Node.slot_fill, if_pos rfl] at hslot
        exact .inl ⟨r, x, List.mem_cons_self, hx, hslot⟩
      · refine .inr ⟨fun r' hmem => ?_, ?_⟩
        · rcases List.mem_cons.mp hmem with heq | hmem
          · cases heq
            exact hq ⟨rfl, rfl⟩
          · exact hnot r' hmem
        · rw [hslot]
          split
          · rename_i hqp
            rw [Node.slot_fill, if_neg fun hslot => hq ⟨hqp, hslot⟩, hqp]
          · rfl

theorem fillPending_meets (pending : List (Place × LinkSlot × Scalar)) {b : Builder} {E : Fault → Prop}
    (hpending : ∀ {p slot r}, (p, slot, r) ∈ pending →
      p < b.graph.size ∧ (Graph.lookup? r b.index = none → ∀ c, E (.load c))) :
    Meets (fillPending pending) b (fun _ b' => Filled pending b b') E := by
  induction pending generalizing b with
  | nil => exact Meets.pure ⟨rfl, rfl, fun _ => .refl _, fun _ => rfl, fun _ _ => .inr ⟨by simp, rfl⟩⟩
  | cons e rest ih =>
    obtain ⟨p, slot, r⟩ := e
    obtain ⟨hp, hE⟩ := hpending List.mem_cons_self
    refine Meets.bind (lookup_meets hE) ?_
    rintro x _ ⟨rfl, hx⟩
    refine Meets.bind (Q := fun _ b' => b' = b.changed p fun n => n.fill slot x) rfl ?_
    rintro ⟨⟩ _ rfl
    refine (ih fun {q slot' r'} hmem => ?_).mono fun _ b' hfilled => .cons hp hx hfilled
    rw [b.size_changed]
    exact hpending (List.mem_cons_of_mem _ hmem)

/-! ## Extending declarations -/

/-- The place that an extending declaration comes to. -/
def Extension.LeadsTo (index : List (Scalar × Place)) : Extension → Place → Prop
  | .inl r, p => Graph.lookup? r index = some p
  | .inr q, p => q = p

theorem extensionPlaces_meets (es : List Extension) {b : Builder} {owner : Place} {E : Fault → Prop}
    (hes : ∀ r, .inl r ∈ es → Graph.lookup? r b.index = none → ∀ c, E (.load c)) :
    Meets (extensionPlaces owner es) b
      (fun ps b' => b = b' ∧ List.Forall₂ (Extension.LeadsTo b.index) es ps) E := by
  induction es with
  | nil => exact Meets.pure ⟨rfl, .nil⟩
  | cons e rest ih =>
    have hrest := ih fun r hr => hes r (List.mem_cons_of_mem _ hr)
    cases e with
    | inl r =>
      refine Meets.bind (lookup_meets (hes r List.mem_cons_self)) ?_
      rintro p _ ⟨rfl, hp⟩
      refine Meets.bind hrest ?_
      rintro ps _ ⟨rfl, hps⟩
      exact Meets.pure ⟨rfl, .cons hp hps⟩
    | inr p =>
      refine Meets.bind hrest ?_
      rintro ps _ ⟨rfl, hps⟩
      exact Meets.pure ⟨rfl, .cons rfl hps⟩

/-- The lists of extending declarations are filled in, and nothing else is changed. -/
structure Extended (read : List (Place × List Extension)) (b b' : Builder) : Prop where
  size : b'.graph.size = b.graph.size
  index : b'.index = b.index
  alike : ∀ q, (b.graph.node q).Alike (b'.graph.node q)
  slots : ∀ q slot, (b'.graph.node q).slot slot = (b.graph.node q).slot slot
  extendedBy : ∀ q, (∃ es ps, (q, es) ∈ read ∧ List.Forall₂ (Extension.LeadsTo b.index) es ps ∧
      (b'.graph.node q).extendedBy = some ps) ∨
    (∀ es, (q, es) ∉ read) ∧ (b'.graph.node q).extendedBy = (b.graph.node q).extendedBy

theorem Extended.cons {read : List (Place × List Extension)} {b b' : Builder} {p : Place}
    {es : List Extension} {ps : List Place} (hp : p < b.graph.size)
    (hps : List.Forall₂ (Extension.LeadsTo b.index) es ps)
    (h : Extended read (b.changed p fun n => { n with extendedBy := some ps }) b') :
    Extended ((p, es) :: read) b b' := by
  have hnode := b.node_changed (fun n => { n with extendedBy := some ps }) hp
  refine ⟨h.size.trans (b.size_changed p _), h.index, fun q => ?_, fun q slot => ?_, fun q => ?_⟩
  · refine Node.Alike.trans ?_ (h.alike q)
    rw [hnode]
    split
    · rename_i hq
      rw [hq]
      exact ⟨rfl, rfl, fun l => by cases l <;> rfl⟩
    · exact .refl _
  · rw [h.slots, hnode]
    split
    · rename_i hq
      rw [hq]
      cases slot <;> rfl
    · rfl
  · rcases h.extendedBy q with ⟨es', ps', hmem, hps', hq⟩ | ⟨hnot, hsame⟩
    · exact .inl ⟨es', ps', List.mem_cons_of_mem _ hmem, hps', hq⟩
    · rw [hnode] at hsame
      by_cases hq : q = p
      · subst hq
        rw [if_pos rfl] at hsame
        exact .inl ⟨es, ps, List.mem_cons_self, hps, hsame⟩
      · refine .inr ⟨fun es' hmem => ?_, ?_⟩
        · rcases List.mem_cons.mp hmem with heq | hmem
          · cases heq
            exact hq rfl
          · exact hnot es' hmem
        · rwa [if_neg hq] at hsame

theorem fillExtensions_meets (read : List (Place × List Extension)) {b : Builder} {E : Fault → Prop}
    (hread : ∀ {p es}, (p, es) ∈ read → p < b.graph.size ∧
      ∀ r, .inl r ∈ es → Graph.lookup? r b.index = none → ∀ c, E (.load c)) :
    Meets (fillExtensions read) b (fun _ b' => Extended read b b') E := by
  induction read generalizing b with
  | nil => exact Meets.pure ⟨rfl, rfl, fun _ => .refl _, fun _ _ => rfl, fun _ => .inr ⟨by simp, rfl⟩⟩
  | cons e rest ih =>
    obtain ⟨p, es⟩ := e
    obtain ⟨hp, hE⟩ := hread List.mem_cons_self
    refine Meets.bind (extensionPlaces_meets es hE) ?_
    rintro ps _ ⟨rfl, hps⟩
    refine Meets.bind (Q := fun _ b' => b' = b.changed p fun n => { n with extendedBy := some ps }) rfl ?_
    rintro ⟨⟩ _ rfl
    refine (ih fun {q es'} hmem => ?_).mono fun _ b' hextended => .cons hp hps hextended
    rw [b.size_changed]
    exact hread (List.mem_cons_of_mem _ hmem)

/-! ## The graph with its log -/

/-- Where something in a place for a node leads: to the node with the id, or to the one described
there. -/
def Log.Leads (log : Log) (index : List (Scalar × Place)) (t : Trail) (v : Value) (q : Place) : Prop :=
  match v.reference? with
  | some r => Graph.lookup? r index = some q
  | none => log[q]? = some (t, v)

/-- A node with all its links. -/
structure Log.Complete (log : Log) (index : List (Scalar × Place)) (t : Trail) (raw : Value) (n : Node) :
    Prop where
  lists : ∀ l : OwnedList, WiredList log (fun i => t.step (.owned l i)) (raw.field l.key) (n.list l)
  slots : ∀ s : LinkSlot, if (raw.field s.key).isNull then n.slot s = none
    else ∃ q, n.slot s = some q ∧ Leads log index (t.step (.linked s)) (raw.field s.key) q
  extendedBy : if (raw.field "extendedBy").isNull then n.extendedBy = none
    else ∃ qs, n.extendedBy = some qs ∧ qs.length = (raw.field "extendedBy").entries.length ∧
      ∀ i v, (raw.field "extendedBy").entries[i]? = some v →
        ∃ q, qs[i]? = some q ∧ Leads log index (t.step (.extension i)) v q

/-- Everything is met and filled in. -/
structure Resolved (doc : Value) (log : Log) (places : List Place) (b : Builder) : Prop where
  kept : Kept doc log b
  modules : Listed log .module 0 (doc.field "modules").entries places
  complete : ∀ {p : Place} {t : Trail} {raw : Value}, log[p]? = some (t, raw) →
    Complete log b.index t raw (b.graph.node p)

section

variable {doc raw : Value} {log : Log} {places : List Place} {read : List (Place × List Extension)}
  {b b₁ b₂ : Builder} {t : Trail} {n : Node} {index : List (Scalar × Place)}

theorem Log.Read.leads {k : Nat} {vs : List Value} {es : List Extension} {ps : List Place}
    (h : Read log t k vs es) (hps : List.Forall₂ (Extension.LeadsTo index) es ps) :
    ps.length = vs.length ∧ ∀ i v, vs[i]? = some v →
      ∃ q, ps[i]? = some q ∧ Leads log index (t.step (.extension (k + i))) v q := by
  induction h generalizing ps with
  | nil k =>
    cases hps
    exact ⟨rfl, fun i v hv => nomatch hv⟩
  | @named k w r _ _ hr _ ih =>
    cases hps with
    | @cons _ q _ qs hq hqs =>
      obtain ⟨hlength, hrest⟩ := ih hqs
      refine ⟨by rw [List.length_cons, List.length_cons, hlength], fun i v hv => ?_⟩
      cases i with
      | zero =>
        cases hv
        exact ⟨q, rfl, by rw [Leads, hr]; exact hq⟩
      | succ i =>
        rw [← Nat.add_assoc, Nat.add_right_comm]
        exact hrest i v hv
  | @built k w p _ _ hnone hp _ ih =>
    cases hps with
    | @cons _ q _ qs hq hqs =>
      obtain ⟨hlength, hrest⟩ := ih hqs
      refine ⟨by rw [List.length_cons, List.length_cons, hlength], fun i v hv => ?_⟩
      cases i with
      | zero =>
        cases hv
        cases hq
        exact ⟨p, rfl, by rw [Leads, hnone]; exact hp⟩
      | succ i =>
        rw [← Nat.add_assoc, Nat.add_right_comm]
        exact hrest i v hv

/-- An id that is not found is one that no node of the document has. -/
theorem Surveyed.unknownId (h : Surveyed doc log places read b) {r : Scalar}
    (ht : doc.nodeAt? t = some raw) (hr : r ∈ raw.references) (hnone : Graph.lookup? r b.index = none) :
    doc.Refused := by
  refine .unknownId ht hr fun t' raw' id ht' hid => ?_
  obtain ⟨p, hp⟩ := h.exists_line ht'
  exact Graph.not_same_of_lookup? hnone (id, p) (h.kept.index.mpr ⟨t', raw', hp, hid⟩)

theorem mem_references_of_slot {slot : LinkSlot} {r : Scalar}
    (h : (raw.field slot.key).reference? = some r) : r ∈ raw.references := by
  refine List.mem_filterMap.mpr ⟨raw.field slot.key, ?_, h⟩
  cases slot <;> simp [LinkSlot.key]

theorem mem_references_of_read {k : Nat} {vs : List Value} {es : List Extension} {r : Scalar}
    (h : Read log t k vs es) (hr : .inl r ∈ es) : ∃ v ∈ vs, v.reference? = some r := by
  induction h with
  | nil k => cases hr
  | @named k v r' _ _ hv _ ih =>
    rcases List.mem_cons.mp hr with heq | hr
    · cases heq
      exact ⟨v, List.mem_cons_self, hv⟩
    · obtain ⟨w, hw, hwr⟩ := ih hr
      exact ⟨w, List.mem_cons_of_mem _ hw, hwr⟩
  | built _ _ _ ih =>
    rcases List.mem_cons.mp hr with heq | hr
    · cases heq
    · obtain ⟨w, hw, hwr⟩ := ih hr
      exact ⟨w, List.mem_cons_of_mem _ hw, hwr⟩

theorem Surveyed.resolved (h : Surveyed doc log places read b) (hfilled : Filled b.pending b b₁)
    (hextended : Extended read b₁ b₂) : Resolved doc log places b₂ := by
  have halike : ∀ q, (b.graph.node q).Alike (b₂.graph.node q) := fun q =>
    (hfilled.alike q).trans (hextended.alike q)
  have hindex : b₂.index = b.index := hextended.index.trans hfilled.index
  refine ⟨⟨?_, h.kept.nodup, h.kept.described, fun {p t raw} hline => ?_, hindex ▸ h.kept.unique, ?_⟩,
    h.modules,
    fun {p t raw} hline => ⟨fun l => ?_, fun s => ?_, ?_⟩⟩
  · rw [hextended.size, hfilled.size, h.kept.size]
  · exact (h.kept.attributed hline).congr (halike p).plain (halike p).id
  · rw [hindex]
    exact h.kept.index
  · rw [(halike p).lists l]
    exact (h.wired hline).lists l
  · rw [hextended.slots, hindex]
    rcases hfilled.slots p s with ⟨r, x, hmem, hx, hslot⟩ | ⟨hnot, hslot⟩
    · obtain ⟨t', raw', hline', hr⟩ := h.pending.mp hmem
      cases Option.some.inj (hline.symm.trans hline')
      rw [if_neg (by intro hnull; rw [Value.eq_null hnull] at hr; cases hr)]
      exact ⟨x, hslot, by rw [Leads, hr]; exact hx⟩
    · have hnone : (raw.field s.key).reference? = none := by
        rw [Option.eq_none_iff_forall_ne_some]
        exact fun r hr => hnot r (h.pending.mpr ⟨t, raw, hline, hr⟩)
      have hwired := (h.wired hline).slots s
      rw [WiredSlot, hnone] at hwired
      rw [hslot]
      split
      · rename_i hnull
        rwa [hnull] at hwired
      · rename_i hnull
        rw [Bool.not_eq_true] at hnull
        rw [hnull] at hwired
        obtain ⟨q, hq, hlineq⟩ := hwired
        exact ⟨q, hq, by rw [Leads, hnone]; exact hlineq⟩
  · rcases hextended.extendedBy p with ⟨es, ps, hmem, hps, heq⟩ | ⟨hnot, heq⟩
    · obtain ⟨t', raw', hline', hnull, hread⟩ := h.each hmem
      cases Option.some.inj (hline.symm.trans hline')
      rw [← hextended.index] at hps
      obtain ⟨hlength, hplaces⟩ := hread.leads hps
      rw [hnull]
      refine ⟨ps, heq, hlength, fun i v hv => ?_⟩
      obtain ⟨q, hq, hleads⟩ := hplaces i v hv
      exact ⟨q, hq, by rwa [Nat.zero_add] at hleads⟩
    · rw [heq, hfilled.extendedBy, (h.wired hline).extendedBy]
      split
      · rfl
      · rename_i hnull
        obtain ⟨es, hes⟩ := h.all hline (by simpa using hnull)
        exact absurd hes (hnot es)

/-- Assembling a document ends with everything filled in, or with a fault that it deserves. -/
theorem assemble_meets {modules : List Value} (hmodules : doc.field "modules" = .list modules) :
    Meets (Graph.assemble doc modules) ⟨#[], [], [], []⟩ (fun places b => ∃ log, Resolved doc log places b)
      doc.Faulted := by
  refine survey_meets hmodules fun {places read b log} h => Meets.get ?_
  have hlt : ∀ {p : Place} {line : Trail × Value}, log[p]? = some line → p < b.graph.size := by
    intro p line hline
    rw [h.kept.size]
    exact (List.getElem?_eq_some_iff.mp hline).1
  have hdescribed : ∀ {p : Place} {t : Trail} {raw : Value}, log[p]? = some (t, raw) →
      doc.nodeAt? t = some raw := fun hline => (h.kept.described (List.mem_of_getElem? hline)).1
  refine Meets.bind (fillPending_meets b.pending fun {p slot r} hmem => ?_) ?_
  · obtain ⟨t, raw, hline, hr⟩ := h.pending.mp hmem
    exact ⟨hlt hline, fun hnone c =>
      .of_refused (h.unknownId (hdescribed hline) (mem_references_of_slot hr) hnone)⟩
  rintro ⟨⟩ b₁ hfilled
  refine Meets.bind (fillExtensions_meets read fun {p es} hmem => ?_) ?_
  · obtain ⟨t, raw, hline, -, hread⟩ := h.each hmem
    refine ⟨hfilled.size ▸ hlt hline, fun r hr hnone c => .of_refused ?_⟩
    obtain ⟨v, hv, hreference⟩ := mem_references_of_read hread hr
    have hmem : r ∈ raw.references :=
      List.mem_filterMap.mpr ⟨v, List.mem_cons_of_mem _ (List.mem_cons_of_mem _ hv), hreference⟩
    exact h.unknownId (hdescribed hline) hmem (hfilled.index ▸ hnone)
  rintro ⟨⟩ b₂ hextended
  exact Meets.pure ⟨log, h.resolved hfilled hextended⟩

/-! ## The graph and the document -/

theorem Log.Listed.length {trail : Nat → Trail} {k : Nat} {raws : List Value} {ps : List Place}
    (h : Listed log trail k raws ps) : ps.length = raws.length := by
  induction h with
  | nil k => rfl
  | cons _ _ ih => rw [List.length_cons, List.length_cons, ih]

/-- A step to what is described inside a node leads to its place. -/
theorem Log.Complete.place? (h : Complete log index t raw n) {s : Trail.Step} {v : Value}
    (hs : s.described? raw = some v) : ∃ q, s.place? n = some q ∧ log[q]? = some (t.step s, v) := by
  cases s with
  | owned l i => exact (h.lists l).getElem? hs
  | linked slot =>
    have hslot := h.slots slot
    rw [Trail.Step.described?] at hs
    split at hs
    · cases hs
    · rename_i hnode
      simp only [Bool.or_eq_true, not_or, Bool.not_eq_true, Option.isSome_eq_false_iff,
        Option.isNone_iff_eq_none] at hnode
      rw [hnode.1] at hslot
      obtain ⟨q, hq, hleads⟩ := hslot
      rw [Leads, hnode.2] at hleads
      cases hs
      exact ⟨q, hq, hleads⟩
  | extension i =>
    obtain ⟨w, hw, hs⟩ := Option.bind_eq_some_iff.mp hs
    have hextended := h.extendedBy
    rw [isNull_of_entries hw] at hextended
    obtain ⟨qs, hqs, -, hentries⟩ := hextended
    obtain ⟨q, hq, hleads⟩ := hentries i w hw
    split at hs
    · cases hs
    · rename_i hnone
      rw [Option.isSome_iff_ne_none, not_not] at hnone
      rw [Leads, hnone] at hleads
      cases hs
      exact ⟨q, by rw [Trail.Step.place?, hqs]; exact hq, hleads⟩

/-- The graph that is answered. -/
def result (places : List Place) (b : Builder) : Graph := ⟨b.nodes, places, b.index⟩

theorem Resolved.exists_place (h : Resolved doc log places b) (ht : doc.nodeAt? t = some raw) :
    ∃ p, (b.result places).placeAt? t = some p ∧ log[p]? = some (t, raw) := by
  induction t generalizing raw with
  | module i =>
    obtain ⟨p, hp, hline⟩ := h.modules.getElem? ht
    exact ⟨p, hp, by rwa [Nat.zero_add] at hline⟩
  | step owner s ih =>
    obtain ⟨rawOwner, howner, hs⟩ := Option.bind_eq_some_iff.mp ht
    obtain ⟨p, hp, hline⟩ := ih howner
    obtain ⟨q, hq, hlineq⟩ := (h.complete hline).place? hs
    exact ⟨q, by rw [Graph.placeAt?, hp]; exact hq, hlineq⟩

/-- A line of the log stands for a node of the document and its place in the graph. -/
theorem Resolved.line_iff (h : Resolved doc log places b) {p : Place} :
    log[p]? = some (t, raw) ↔ doc.nodeAt? t = some raw ∧ (b.result places).placeAt? t = some p := by
  constructor
  · intro hline
    have ht := (h.kept.described (List.mem_of_getElem? hline)).1
    obtain ⟨q, hq, hlineq⟩ := h.exists_place ht
    exact ⟨ht, h.kept.place_unique hline hlineq ▸ hq⟩
  · rintro ⟨ht, hp⟩
    obtain ⟨q, hq, hlineq⟩ := h.exists_place ht
    cases Option.some.inj (hp.symm.trans hq)
    exact hlineq

/-- A node is as it is described. -/
theorem Resolved.builtFrom (h : Resolved doc log places b) {p : Place} (hline : log[p]? = some (t, raw)) :
    (b.graph.node p).BuiltFrom raw where
  mapping := (h.kept.described (List.mem_of_getElem? hline)).2
  attributes := (h.kept.attributed hline).attributes
  id := (h.kept.attributed hline).id
  lists l := by
    have hlist := (h.complete hline).lists l
    unfold WiredList at hlist
    split
    · rw [if_pos ‹_›] at hlist
      rw [hlist]
      rfl
    · rw [if_neg ‹_›] at hlist
      obtain ⟨qs, hqs, hlisted⟩ := hlist
      rw [hqs, Option.map_some, hlisted.length]
  slots s := by
    have hslot := (h.complete hline).slots s
    cases hnull : (raw.field s.key).isNull with
    | true =>
      rw [hnull] at hslot
      rw [hslot]
      rfl
    | false =>
      rw [hnull] at hslot
      obtain ⟨q, hq, -⟩ := hslot
      rw [hq]
      rfl
  extendedBy := by
    have hextended := (h.complete hline).extendedBy
    split
    · rw [if_pos ‹_›] at hextended
      rw [hextended]
      rfl
    · rw [if_neg ‹_›] at hextended
      obtain ⟨qs, hqs, hlength, -⟩ := hextended
      rw [hqs, Option.map_some, hlength]

theorem Resolved.reflects (h : Resolved doc log places b) (hsound : (b.result places).Sound) :
    (b.result places).Reflects doc where
  built {t raw} ht := by
    obtain ⟨p, hp, hline⟩ := h.exists_place ht
    have hlt : p < b.graph.size := by
      rw [h.kept.size]
      exact (List.getElem?_eq_some_iff.mp hline).1
    exact ⟨p, hlt, hp, h.builtFrom hline⟩
  described p hp := by
    have hlt : p < log.length := h.kept.size ▸ hp
    obtain ⟨ht, hplace⟩ := h.line_iff.mp (List.getElem?_eq_getElem hlt)
    exact ⟨_, _, ht, hplace⟩
  apart {t t' raw raw'} ht ht' heq := by
    obtain ⟨p, hp, hline⟩ := h.exists_place ht
    have hline' := h.line_iff.mpr ⟨ht', heq ▸ hp⟩
    cases Option.some.inj (hline.symm.trans hline')
    rfl
  nodup := h.kept.unique
  index {id p} := by
    refine h.kept.index.trans (exists₂_congr fun t raw => ?_)
    rw [h.line_iff]
    exact ⟨fun hline => ⟨hline.1.1, hline.2, hline.1.2⟩, fun hline => ⟨⟨hline.1, hline.2.2⟩, hline.2.1⟩⟩
  found {id p} := by
    refine (Graph.lookup?_eq_some_iff hsound.distinct).trans ⟨?_, ?_⟩
    · rintro ⟨id', hmem, hsame⟩
      obtain ⟨t, raw, hline, hid⟩ := h.kept.index.mp hmem
      obtain ⟨ht, hplace⟩ := h.line_iff.mp hline
      exact ⟨t, raw, id', ht, hid, hsame, hplace⟩
    · rintro ⟨t, raw, id', ht, hid, hsame, hplace⟩
      exact ⟨id', h.kept.index.mpr ⟨t, raw, h.line_iff.mpr ⟨ht, hplace⟩, hid⟩, hsame⟩
  linked {t raw p r} slot ht hplace hr := by
    have hslot := (h.complete (h.line_iff.mpr ⟨ht, hplace⟩)).slots slot
    rw [if_neg (by intro hnull; rw [Value.eq_null hnull] at hr; cases hr)] at hslot
    obtain ⟨q, hq, hleads⟩ := hslot
    rw [Leads, hr] at hleads
    exact ⟨q, hleads, hq⟩
  extensions {t raw p r i v} ht hplace hv hr := by
    have hextended := (h.complete (h.line_iff.mpr ⟨ht, hplace⟩)).extendedBy
    rw [isNull_of_entries hv] at hextended
    obtain ⟨qs, hqs, -, hentries⟩ := hextended
    obtain ⟨q, hq, hleads⟩ := hentries i v hv
    rw [Leads, hr] at hleads
    refine ⟨q, hleads, ?_⟩
    show ((b.graph.node p).extendedBy.getD [])[i]? = some q
    rw [hqs]
    exact hq
  parent {t raw p} ht hplace := by
    have hparent := (h.kept.attributed (h.line_iff.mpr ⟨ht, hplace⟩)).parent
    unfold OwnerAt at hparent
    cases howner : t.owner? with
    | none =>
      rw [howner] at hparent
      exact hparent
    | some o =>
      rw [howner] at hparent
      obtain ⟨q, rawOwner, hq, hline⟩ := hparent
      exact hq.trans (h.line_iff.mp hline).2.symm

end

end Builder

namespace Graph

variable {doc : Value} {g : Graph}

/-- A graph that is read is what the document describes. -/
theorem reflects_of_load (h : ofValue doc = .ok g) : g.Reflects doc := by
  have hsound := sound_of_load h
  unfold ofValue at h
  split at h
  · rename_i modules hmodules
    have hmeets := Builder.assemble_meets hmodules
    rw [Builder.Meets] at hmeets
    split at h
    · rename_i places b hrun
      rw [hrun] at hmeets
      obtain ⟨log, hresolved⟩ := hmeets
      cases h
      exact hresolved.reflects hsound
    · cases h
  · cases h

/-- A document of the documented kind is not read only when it is to be refused. -/
theorem faulted_of_load {e : Fault} (h : ofValue doc = .error e) : doc.Faulted e := by
  unfold ofValue at h
  split at h
  · rename_i modules hmodules
    have hmeets := Builder.assemble_meets hmodules
    rw [Builder.Meets] at hmeets
    split at h
    · cases h
    · rename_i e' hrun
      rw [hrun] at hmeets
      cases h
      exact hmeets
  · rename_i hmodules
    cases h
    refine .of_refused (.noModules ?_)
    cases hfield : doc.field "modules" with
    | list modules => exact absurd hfield (hmodules modules)
    | scalar s | map fields => rfl

end Graph

end SymbolDocs
