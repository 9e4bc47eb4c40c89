import SymbolDocs.Proofs.RoundTrip

/-!
# Types in lists and in type positions

A type has a record of its own when it is an entry of a list, as the branches of a union are. In a
type position it is encoded as an id, as text or in place. This module says when both read the same.

* `Graph.Coherent` says it of the types;
* `Site.coherent_reads` compares the two for types on which the work ends;
* `Site.positions_agree` is the result for a document.

The two differ where a name is printed and another is read, as `Site.positions_differ` shows.
-/

namespace SymbolDocs

open Relation Work

namespace Graph

/-- Types that read the same from a list and from a type position. -/
inductive Coherent (g : Graph) (p : Place) : Prop
  /-- Types that are read as they are printed from both. -/
  | printed (hid : (g.node p).mention? = none → (g.node p).exportedId? = none) (h : g.Branch p)
  /-- Structural types that are carried in place, whatever they are made of. -/
  | carried (hs : (g.node p).isStructural = true) (hid : (g.node p).exportedId? = none)
  /-- References to exported declarations under any name. -/
  | exported {t : Place} {id : Scalar} (hk : (g.node p).kind = .reference)
    (ht : (g.node p).type = some t) (hmention : (g.node t).mention? = none)
    (hid : (g.node t).exportedId? = some id)
    (hkinds : ∀ a ∈ (g.node p).arguments, (g.node a).kind ≠ .typeParameter)
  /-- References to structural types that are carried in place. -/
  | followed {t : Place} (hk : (g.node p).kind = .reference) (ht : (g.node p).type = some t)
    (hs : (g.node t).isStructural = true) (hid : (g.node t).exportedId? = none)
    (hargs : (g.node p).arguments = [])

end Graph

namespace Site

variable {site : Site} {rd : Reader} {p t : Place} {r : Record} {v : TypeValue Record}

/-! ## References -/

theorem IsEncoding.exists_of_structural (hv : site.IsEncoding p v)
    (hs : (site.graph.node p).isStructural = true) (hid : (site.graph.node p).exportedId? = none) :
    ∃ r, v = .embedded r ∧ site.IsRecord p r :=
  (hv.parts.flattened (mention?_of_structural hs) hid).exists_of_structural hs

/-- A reference without type arguments reads as what it refers to. -/
theorem bare_reads (rd : Reader) (hk : (site.graph.node p).kind = .reference)
    (ht : (site.graph.node p).type = some t) (hargs : (site.graph.node p).arguments = [])
    (hr : site.IsRecord p r) :
    ∃ v, site.IsEncoding t v ∧ (rd.text r).type = rd.typeText (some v) := by
  obtain ⟨v, htype, hv⟩ := hr.parts.exists_type ht
  refine ⟨v, hv, ?_⟩
  rw [Reader.text_reference_of_none (hr.parts.kind.trans hk) (hr.parts.typeParameters_of_nil hargs),
    htype]

/-- The type arguments of a reference are the same in its record and in its encoding. -/
theorem typeParameters_unique (hc : site.Clean) (hends : site.graph.Ends (.position p))
    (hkinds : ∀ a ∈ (site.graph.node p).arguments, (site.graph.node a).kind ≠ .typeParameter)
    {as as' : Option (List Record)}
    (has : AnyOf (site.EntryOf site.IsEncoding) (site.graph.node p).arguments as)
    (has' : AnyOf (ArgumentOf site.IsEncoding) (site.graph.node p).arguments as') : as = as' := by
  have has : AnyOf (ArgumentOf site.IsEncoding) (site.graph.node p).arguments as := by
    refine has.imp fun a ha x hx => ?_
    cases hx with
    | parameter hk => exact absurd hk (hkinds a ha)
    | argument _ h => exact h
  exact anyOf_unique (fun a ha => oneOf_argument (determined_of_ends hc (hends.step (.argument ha))))
    has has'

/-- A reference to an exported declaration. -/
theorem exported_reads (rd : Reader) (hc : site.Clean) (hends : site.graph.Ends (.position p))
    (hk : (site.graph.node p).kind = .reference) (ht : (site.graph.node p).type = some t)
    (hmention : (site.graph.node t).mention? = none) {id : Scalar}
    (hid : (site.graph.node t).exportedId? = some id)
    (hkinds : ∀ a ∈ (site.graph.node p).arguments, (site.graph.node a).kind ≠ .typeParameter)
    (hr : site.IsRecord p r) (hv : site.IsEncoding p v) :
    (rd.text r).type = rd.typeText (some v) := by
  obtain ⟨rfl, hargs⟩ | ⟨rs, hargs, hrs, rfl⟩ :=
    hv.parts.of_exported (Graph.mention?_of_reference hk ht) hmention hid
  · obtain ⟨v', hv', hread⟩ := bare_reads rd hk ht hargs hr
    rw [hread, hv'.parts.eq_ref hmention hid]
  · obtain ⟨v', htype, hv'⟩ := hr.parts.exists_type ht
    have hsome := typeParameters_unique hc hends hkinds hr.parts.typeParameters (.some hargs hrs)
    rw [Reader.typeText_embedded, Reader.text_reference (hr.parts.kind.trans hk),
      Reader.text_reference rfl, htype, hsome, hv'.parts.eq_ref hmention hid]

/-- A reference to a structural type that is not exported. -/
theorem followed_reads (rd : Reader) (hc : site.Clean) (hends : site.graph.Ends (.position p))
    (hk : (site.graph.node p).kind = .reference) (ht : (site.graph.node p).type = some t)
    (hs : (site.graph.node t).isStructural = true) (hid : (site.graph.node t).exportedId? = none)
    (hargs : (site.graph.node p).arguments = []) (hr : site.IsRecord p r) (hv : site.IsEncoding p v) :
    (rd.text r).type = rd.typeText (some v) := by
  have hp := Graph.mention?_of_reference hk ht
  obtain ⟨v', hv', hread⟩ := bare_reads rd hk ht hargs hr
  obtain ⟨x, rfl, hx⟩ := hv'.exists_of_structural hs hid
  obtain ⟨x', rfl, hx'⟩ := hv.parts.of_followed hp hid hs hargs
  have hone := determined_of_ends hc (hends.step (.carry ⟨hs, hid, .inr ⟨hp, hargs⟩⟩))
  rw [hread, hone _ _ hx hx']

/-! ## All types -/

/-- **A type reads the same from a list and from a type position.** -/
theorem coherent_reads (hm : rd.Matches site.graph) (hc : site.Clean) (hg : site.graph.Sound)
    (hrecord : site.graph.Ends (.record p)) (hends : site.graph.Ends (.position p))
    (hp : site.graph.Coherent p) (hr : site.IsRecord p r) (hv : site.IsEncoding p v) :
    (rd.text r).type = rd.typeText (some v) := by
  have hprints := hends.of_position
  cases hp with
  | printed hid hp =>
    rw [(reads_of_ends hm hc hg hrecord r hr).type hp hprints,
      (reads_of_ends hm hc hg hends v hv).admissible (hp.admissible hid)]
  | carried hs hid =>
    obtain ⟨x, rfl, hx⟩ := hv.exists_of_structural hs hid
    rw [Reader.typeText_embedded, hr.unique hc hrecord hx]
  | exported hk ht hmention hid hkinds =>
    exact exported_reads rd hc hends hk ht hmention hid hkinds hr hv
  | followed hk ht hs hid hargs => exact followed_reads rd hc hends hk ht hs hid hargs hr hv

/-! ## Documents -/

/-- The values of records are those of nodes. -/
theorem made_valued {V : Place → TypeValue Record → Prop} (h : site.Made V r) : r.Valued := by
  cases h with
  | record h => exact ⟨_, h.value⟩
  | entry h =>
    obtain ⟨v, args, -, -, rfl⟩ := h
    exact ⟨none, rfl⟩
  | stub | parameter | ref | inline | mention | clause => exact ⟨none, rfl⟩

theorem closed_valued : site.Closed (fun _ _ => True) (site.DeepRecord Record.Valued)
    (site.DeepRecord Record.Valued) (Deep (fun _ _ => True) Record.Valued) :=
  closed_all (fun _ h => made_valued h) fun _ => trivial

/-- **Lists and type positions agree.** In a graph with integer ids, and with pages whose names end no
tag, a coherent type reads the same from its record as from its encoding. The document, the record
and the encoding can be made in any sessions. -/
theorem positions_agree {doc : Value} (hload : Graph.ofValue doc = .ok site.graph)
    (hint : site.graph.IntIds)
    (hpages : ∀ p name, (site.graph.node p).hasOwnPage = true →
      site.plan.pageOf site.graph p = .ok name → '>' ∉ name.toList)
    (hp : site.graph.Coherent p) (hrecord : site.graph.Ends (.record p))
    (hends : site.graph.Ends (.position p))
    {s₁ s₂ s₃ : Session} (hs₁ : site.Reached s₁) (hs₂ : site.Reached s₂) (hs₃ : site.Reached s₃)
    {w : Value} (hw : (site.summary.run.run s₁).1 = .ok w)
    (hr : ((site.summarize p).run.run s₂).1 = .ok r)
    (hv : ((site.position p).run.run s₃).1 = .ok v) :
    ∃ rd r' v' text, Reader.ofValue Record.plainLink w = .ok rd ∧
      Record.ofValue r.toValue = .ok r' ∧ Record.typeOfValue v.toValue = .ok v' ∧
      (rd.text r').type = .ok text ∧ rd.typeText v' = .ok text := by
  have hg := Graph.sound_of_load hload
  have hc := clean_of_intIds hint hpages
  obtain ⟨rd, hrd, hlink, hfaithful, hlisted⟩ := reader_of_summary hg hint hs₁ hw Record.plainLink
  have hmatches : rd.Matches site.graph := ⟨hlink, hfaithful, hlisted⟩
  have hnormal : ∀ r, rd.link r.normal = rd.link r := fun r => by rw [hlink, r.plainLink_normal]
  -- the record has a text
  have hvalued := (closed_valued.summarize_spec trivial s₂
    (hs₂.keeps closed_valued fun _ => trivial)).2 r hr
  obtain ⟨text, htext⟩ : ∃ text, (rd.text r).type = .ok text := (Reader.text_readable r hvalued.2).type
  -- and so has the encoding
  have hbelow : ∀ t, site.graph.Below [] t := fun _ _ h => by cases h
  have hparts := (closed_direct.summarize_spec (hbelow _) s₂ (hs₂.keeps closed_direct hbelow)).2 r hr
  have hencoding := (closed_direct.position_spec (hbelow _) s₃ (hs₃.keeps closed_direct hbelow)).2 v hv
  have hagree := coherent_reads hmatches hc hg hrecord hends hp
    (isRecord_of_ending hparts (hrecord.step (.make p))) (hencoding hends)
  refine ⟨rd, r.normal, Record.normalType (some v), text, hrd, record_read hint hs₂ hr,
    position_read hint hs₃ hv, ?_, ?_⟩
  · rw [Reader.text_normal hnormal, htext]
  · rw [Reader.typeText, Reader.typeTextIn_normal hnormal, ← Reader.typeText, ← hagree, htext]

/-! ## Types that agree and types that do not -/

/-- An exported class, an interface that is not exported, and types that mention them. -/
def sharedDocument : Value :=
  .record [("modules", .list [
    .record [("kind", .int 3), ("id", .int 1), ("name", .text "Shared"), ("flags", .int 1)],
    .record [("kind", .int 4), ("id", .int 2), ("name", .text "Box"),
      ("typeParameters", .list [.record [("kind", .int 36), ("name", .text "T")]])],
    .record [("kind", .int 21),
      ("type", .record [("kind", .int 20), ("name", .text "Shared"), ("type", .int 1)])],
    .record [("kind", .int 21),
      ("type", .record [("kind", .int 20), ("name", .text "Local"), ("type", .int 1)])],
    .record [("kind", .int 23), ("flags", .int 32768), ("children", .list [
      .record [("kind", .int 20), ("name", .text "Local"), ("type", .int 1)]])],
    .record [("kind", .int 20), ("name", .text "Box"), ("type", .int 2),
      ("typeParameters", .list [.record [("kind", .int 35), ("name", .text "string")]])],
    .record [("kind", .int 21), ("id", .int 3), ("flags", .int 1),
      ("type", .record [("kind", .int 35), ("name", .text "string")])]])]

/-- The site of the document. -/
def sharedSite : Site where
  graph :=
    { nodes := #[
        { Node.bare .classDecl with id := some (.int 1), name := "Shared", flags := ⟨1⟩ },
        { Node.bare .interfaceDecl with
          id := some (.int 2), name := "Box", typeParameters := some [2] },
        { Node.bare .typeParameter with name := "T", parent := some 1 },
        { Node.bare .array with type := some 4 },
        { Node.bare .reference with name := "Shared", type := some 0 },
        { Node.bare .array with type := some 6 },
        { Node.bare .reference with name := "Local", type := some 0 },
        { Node.bare .typeUnion with flags := ⟨32768⟩, children := some [8] },
        { Node.bare .reference with name := "Local", type := some 0, parent := some 7 },
        { Node.bare .reference with name := "Box", type := some 1, typeParameters := some [10] },
        { Node.bare .baseType with name := "string", parent := some 9 },
        { Node.bare .array with id := some (.int 3), flags := ⟨1⟩, type := some 12 },
        { Node.bare .baseType with name := "string" }]
      modules := [0, 1, 3, 5, 7, 9, 11]
      index := [(.int 1, 0), (.int 2, 1), (.int 3, 11)] }
  plan := { names := [(0, "Shared.html"), (1, "Box.html")], emitted := [0, 1], hasReadme := false }
  options := {}

theorem sharedDocument_loads : Graph.ofValue sharedDocument = .ok sharedSite.graph := by
  cbv

theorem sharedSite_intIds : sharedSite.graph.IntIds := by
  intro p id h
  match p with
  | 0 | 1 | 11 =>
    cases h
    exact ⟨_, rfl⟩
  | 2 | 3 | 4 | 5 | 6 | 7 | 8 | 9 | 10 | 12 => cases h
  | p + 13 =>
    rw [Graph.node_of_size_le (by simp [sharedSite, Graph.size])] at h
    cases h

/-- The names of the pages end no tag. -/
theorem sharedSite_pages (p : Place) (name : String)
    (hp : (sharedSite.graph.node p).hasOwnPage = true)
    (hname : sharedSite.plan.pageOf sharedSite.graph p = .ok name) : '>' ∉ name.toList := by
  match p with
  | 0 | 1 =>
    cases hname
    decide
  | 2 | 3 | 4 | 5 | 6 | 7 | 8 | 9 | 10 | 11 | 12 => cases hp
  | p + 13 =>
    rw [Graph.node_of_size_le (by simp [sharedSite, Graph.size])] at hp
    cases hp

theorem sharedSite_ends : ∀ p ∈ [3, 5, 7, 9, 11],
    sharedSite.graph.Ends (.record p) ∧ sharedSite.graph.Ends (.position p) := by
  have hall : ∀ p ∈ [3, 5, 7, 9, 11], sharedSite.graph.endsWithin 6 (.record p) = true ∧
      sharedSite.graph.endsWithin 6 (.position p) = true := by
    decide
  exact fun p hp => ⟨Graph.ends_of_endsWithin (hall p hp).1, Graph.ends_of_endsWithin (hall p hp).2⟩

/-- The record of the interface. -/
def sharedBox : Record :=
  { kind := .interfaceDecl, id := some (.int 2), name := some "Box"
    typeParameters := some [{ kind := .typeParameter, name := some "T"
                              type := some (.inline "T") }] }

/-- The records of the document. -/
def sharedRecords : List Record :=
  [sharedBox, { kind := .classDecl, id := some (.int 1), name := some "Shared", flags := ⟨1⟩ }]

theorem sharedSite_records : (sharedSite.summaryRecords.run.run {}).1 = .ok sharedRecords := by
  cbv

/-- The texts of a type from a list and from a type position, with a new session for each run. -/
def readings (site : Site) (p : Place) : Except Fault (String × String) := do
  let rd ← Reader.ofValue Record.plainLink (← (site.summary.run.run {}).1)
  let r ← Record.ofValue (← ((site.summarize p).run.run {}).1).toValue
  let v ← Record.typeOfValue (← ((site.position p).run.run {}).1).toValue
  return (← (rd.text r).type, ← rd.typeText v)

/-- The texts from what is made. -/
theorem readings_eq (hint : site.graph.IntIds) {rs : List Record}
    (hrs : (site.summaryRecords.run.run {}).1 = .ok rs)
    (hr : ((site.summarize p).run.run {}).1 = .ok r) (hv : ((site.position p).run.run {}).1 = .ok v)
    {s t : String}
    (hs : ((Reader.ofRecords Record.plainLink (rs.map Record.normal)).text r).type = .ok s)
    (ht : (Reader.ofRecords Record.plainLink (rs.map Record.normal)).typeText (some v) = .ok t) :
    site.readings p = .ok (s, t) := by
  rw [readings, summary_of_records hrs, hr, hv]
  simp only [bind, Except.bind, pure, Except.pure]
  rw [reader_of_summaryRecords hint .fresh hrs, record_read hint .fresh hr,
    position_read hint .fresh hv]
  simp only
  rw [Reader.text_normal Record.plainLink_normal, hs, Reader.typeText,
    Reader.typeTextIn_normal Record.plainLink_normal, ← Reader.typeText, ht]

/-- The list of exported classes agrees with itself. -/
theorem positions_agree_shared : ∃ w r v rd r' v', (sharedSite.summary.run.run {}).1 = .ok w ∧
    ((sharedSite.summarize 3).run.run {}).1 = .ok r ∧
    ((sharedSite.position 3).run.run {}).1 = .ok v ∧ Reader.ofValue Record.plainLink w = .ok rd ∧
    Record.ofValue r.toValue = .ok r' ∧ Record.typeOfValue v.toValue = .ok v' ∧
    (rd.text r').type = rd.typeText v' := by
  have hmention : sharedSite.graph.Mention 4 :=
    .mk (t := 0) ⟨⟨rfl, rfl, rfl, rfl, by decide⟩, by decide⟩ rfl (fun _ ha => by cases ha)
      fun _ ha => by cases ha
  have hw := summary_of_records sharedSite_records
  have hr : ((sharedSite.summarize 3).run.run {}).1 =
      .ok { kind := .array, type := some (.ref (.int 1)) } := by
    cbv
  have hv : ((sharedSite.position 3).run.run {}).1 = .ok (.inline "Shared[]") := by
    cbv
  have hends := sharedSite_ends 3 (by decide)
  obtain ⟨rd, r', v', text, hrd, hr', hv', htext, htext'⟩ := positions_agree sharedDocument_loads
    sharedSite_intIds sharedSite_pages
    (.printed (fun _ => rfl) (.array rfl rfl rfl (.mention hmention))) hends.1 hends.2 .fresh .fresh
    .fresh hw hr hv
  exact ⟨_, _, _, rd, r', v', hw, hr, hv, hrd, hr', hv', htext.trans htext'.symm⟩

/-- A reference is read under the name of the class but printed under its own, an interface that is not
exported is read with its type parameters, and an exported type is looked up and not found. -/
theorem positions_differ : Graph.ofValue sharedDocument = .ok sharedSite.graph ∧
    sharedSite.graph.IntIds ∧
    (∀ p name, (sharedSite.graph.node p).hasOwnPage = true →
      sharedSite.plan.pageOf sharedSite.graph p = .ok name → '>' ∉ name.toList) ∧
    (∀ p ∈ [5, 7, 9, 11], (sharedSite.graph.node p).has .rest = false ∧
      sharedSite.graph.Ends (.record p) ∧ sharedSite.graph.Ends (.position p)) ∧
    sharedSite.readings 5 = .ok ("Shared[]", "Local[]") ∧
    sharedSite.readings 7 = .ok ("Shared", "Local") ∧
    sharedSite.readings 9 = .ok ("Box<T><string>", "Box<string>") ∧
    sharedSite.readings 11 = .ok ("string[]", "?") := by
  refine ⟨sharedDocument_loads, sharedSite_intIds, sharedSite_pages, fun p hp => ⟨?_, ?_⟩, ?_, ?_, ?_,
    ?_⟩
  · revert p
    decide
  · exact sharedSite_ends p (List.mem_cons_of_mem 3 hp)
  · exact readings_eq sharedSite_intIds sharedSite_records
      (r := { kind := .array, type := some (.ref (.int 1)) }) (v := .inline "Local[]")
      (by cbv) (by cbv) (by cbv) (by cbv)
  · exact readings_eq sharedSite_intIds sharedSite_records
      (r := { kind := .typeUnion, flags := ⟨32768⟩
              children := some [{ kind := .reference, name := some "Local"
                                  type := some (.ref (.int 1)) }] })
      (v := .inline "Local") (by cbv) (by cbv) (by cbv) (by cbv)
  · exact readings_eq sharedSite_intIds sharedSite_records
      (r := { kind := .reference, name := some "Box", type := some (.embedded sharedBox)
              typeParameters := some [{ kind := .literal, name := some "string" }] })
      (v := .inline "Box<string>") (by cbv) (by cbv) (by cbv) (by cbv)
  · exact readings_eq sharedSite_intIds sharedSite_records
      (r := { kind := .array, id := some (.int 3), flags := ⟨1⟩, type := some (.inline "string") })
      (v := .ref (.int 3)) (by cbv) (by cbv) (by cbv) (by cbv)

end Site

end SymbolDocs
