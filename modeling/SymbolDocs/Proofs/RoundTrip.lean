import SymbolDocs.Proofs.Forms

/-!
# Headings read back from a summary

The heading of a declaration can be printed from the graph or read from its record in a summary. The
two agree on headings whose types are admissible.

* `Site.reads_of_ends` takes the steps of `Forms` to all records on which the work ends;
* `Site.heading_round_trip` is the result for a document.

A type that leads back to itself is cut short at different places when it is printed and when it is
summarised, as `Site.heading_differs` shows.
-/

namespace SymbolDocs

open Relation Work

namespace Site

variable {site : Site} {rd : Reader} {p : Place} {r : Record}

/-! ## Everything that ends -/

/-- What is read from the result of a task. -/
def Reads (site : Site) (rd : Reader) : Graph.Task → Prop
  | .record p | .body p => ∀ r, site.IsRecord p r → rd.ReadsRecord site.graph p r
  | .position p => ∀ v, site.IsEncoding p v → rd.ReadsType site.graph p v
  | .text _ => True

/-- **Records on which the work ends are read as their nodes are printed.** -/
theorem reads_of_ends (hm : rd.Matches site.graph) (hc : site.Clean) (hg : site.graph.Sound)
    {t : Graph.Task} (h : site.graph.Ends t) : site.Reads rd t := by
  induction h with
  | intro t hends ih =>
    have hends : site.graph.Ends t := ⟨t, hends⟩
    cases t with
    | record p => exact ih (.body p) (.make p)
    | body p =>
      intro r hr
      have hparts := hr.parts.imp (fun c hc => ih _ (.part hc)) fun t ht => ih _ (.typePart ht)
      exact ⟨hparts.kind, hparts.name,
        heading_reads hparts (fun _ _ _ hx => hx) (fun _ _ _ hv => hv) hc hg
          (Graph.headingEnds_of_ends hends),
        parameter_reads hparts fun _ _ _ hv => hv,
        fun hp hprints => branch_reads hm hc hg hends hprints hparts hp,
        plainInterface_reads hr.parts⟩
    | position p =>
      intro v hv
      exact position_reads hm hc hg hends (hv.parts.imp (fun _ _ => .rfl) (fun a ha => ih _ ha)
        fun q hq => ih _ (.carry hq))
    | text p => trivial

/-! ## Documents -/

/-- The id of a node that has an integer for it ends no tag. -/
theorem clean_of_intIds (hint : site.graph.IntIds)
    (hpages : ∀ p name, (site.graph.node p).hasOwnPage = true →
      site.plan.pageOf site.graph p = .ok name → '>' ∉ name.toList) : site.Clean where
  pages := hpages
  ids p id hid := by
    obtain ⟨n, rfl⟩ := hint p id hid
    have hdigits : ∀ n, '>' ∉ Nat.toDigits 10 n := fun n h =>
      absurd (Nat.isDigit_of_mem_toDigits (by decide) (by decide) h) (by decide)
    cases n <;> simp [Scalar.plain, Text.intText, Text.natText, hdigits]

/-- **Headings survive a summary.** In a graph with integer ids, and with pages whose names end no
tag, an admissible heading is read back from the record of its declaration as it is printed. The
document, the record and the heading can be made in any sessions. -/
theorem heading_round_trip {doc : Value} (hload : Graph.ofValue doc = .ok site.graph)
    (hint : site.graph.IntIds)
    (hpages : ∀ p name, (site.graph.node p).hasOwnPage = true →
      site.plan.pageOf site.graph p = .ok name → '>' ∉ name.toList)
    (hp : site.graph.Heading p) (hends : site.graph.HeadingEnds p)
    {s₁ s₂ s₃ : Session} (hs₁ : site.Reached s₁) (hs₂ : site.Reached s₂) (hs₃ : site.Reached s₃)
    {v : Value} (hv : (site.summary.run.run s₁).1 = .ok v)
    (hr : ((site.summarize p).run.run s₂).1 = .ok r) {m : String}
    (hm : ((site.print (site.graph.signatureText p)).run.run s₃).1 = .ok m) :
    ∃ rd r', Reader.ofValue Record.plainLink v = .ok rd ∧ Record.ofValue r.toValue = .ok r' ∧
      (rd.text r').heading = .ok (Markup.visible m) := by
  have hg := Graph.sound_of_load hload
  have hc := clean_of_intIds hint hpages
  obtain ⟨rd, hrd, hlink, hfaithful, hlisted⟩ := reader_of_summary hg hint hs₁ hv Record.plainLink
  have hmatches : rd.Matches site.graph := ⟨hlink, hfaithful, hlisted⟩
  refine ⟨rd, r.normal, hrd, record_read hint hs₂ hr, ?_⟩
  rw [Reader.text_normal fun r => by rw [hlink, r.plainLink_normal]]
  -- the parts of the record are read as they are printed
  have hbelow : ∀ t, site.graph.Below [] t := fun _ _ h => by cases h
  have hparts := (closed_direct.summarize_spec (hbelow _) s₂ (hs₂.keeps closed_direct hbelow)).2 r hr
  have hheading : (rd.text r).heading = _ := heading_reads hparts (fun q hq x hx => ?_)
    (fun t ht v hv => ?_) hc hg hends hp
  · have hmarkup := (site.print_reads _ s₃ (hs₃.keeps closed_direct hbelow)).2 m hm
    rw [hheading, (hmarkup hc hends.printsFinitely).reads.visible]
  · have hq := hends (.record q) (List.mem_append_right _ (List.mem_map_of_mem hq))
    exact reads_of_ends hmatches hc hg hq x (hx hq)
  · have ht := hends (.position t) (by
      rw [Graph.headingTasks, ← List.map_append]
      exact List.mem_append_left _ (List.mem_append_left _ (List.mem_map_of_mem ht)))
    exact reads_of_ends hmatches hc hg ht v (hv ht)

/-! ## A heading that survives -/

/-- A named type and a function that takes one and returns text or a list of them. -/
def greetDocument : Value :=
  .record [("modules", .list [
    .record [("kind", .int 14), ("id", .int 1), ("name", .text "Name"), ("flags", .int 1)],
    .record [("kind", .int 8), ("id", .int 2), ("name", .text "greet"),
      ("parameters", .list [.record [("kind", .int 17), ("name", .text "who"),
        ("type", .record [("kind", .int 20), ("name", .text "Name"), ("type", .int 1)])]]),
      ("type", .record [("kind", .int 23), ("children", .list [
        .record [("kind", .int 35), ("name", .text "string")],
        .record [("kind", .int 21),
          ("type", .record [("kind", .int 20), ("name", .text "Name"), ("type", .int 1)])]])])]])]

/-- The site of the document. -/
def greetSite : Site where
  graph :=
    { nodes := #[
        { Node.bare .typeAlias with id := some (.int 1), name := "Name", flags := ⟨1⟩ },
        { Node.bare .function with
          id := some (.int 2), name := "greet", parameters := some [2], type := some 4 },
        { Node.bare .parameter with name := "who", type := some 3, parent := some 1 },
        { Node.bare .reference with name := "Name", type := some 0 },
        { Node.bare .typeUnion with children := some [5, 6] },
        { Node.bare .baseType with name := "string" },
        { Node.bare .array with type := some 7 },
        { Node.bare .reference with name := "Name", type := some 0 }]
      modules := [0, 1]
      index := [(.int 1, 0), (.int 2, 1)] }
  plan := .empty false
  options := {}

theorem greetDocument_loads : Graph.ofValue greetDocument = .ok greetSite.graph := by
  cbv

theorem greetSite_intIds : greetSite.graph.IntIds := by
  intro p id h
  match p with
  | 0 | 1 =>
    cases h
    exact ⟨_, rfl⟩
  | 2 | 3 | 4 | 5 | 6 | 7 => cases h
  | p + 8 =>
    rw [Graph.node_of_size_le (by simp [greetSite, Graph.size])] at h
    cases h

theorem greetSite_hasOwnPage (p : Place) : (greetSite.graph.node p).hasOwnPage = false := by
  match p with
  | 0 | 1 | 2 | 3 | 4 | 5 | 6 | 7 => rfl
  | p + 8 =>
    rw [Graph.node_of_size_le (by simp [greetSite, Graph.size])]
    rfl

theorem greetSite_mention {p : Place} (h : greetSite.graph.node p = greetSite.graph.node 3) :
    greetSite.graph.Mention p := by
  refine .mk (t := 0) ⟨⟨?_, ?_, ?_, ?_, by decide⟩, by decide⟩ rfl ?_ ?_
  all_goals
    rw [h]
    first | rfl | exact fun _ ha => by cases ha

theorem greetSite_heading : greetSite.graph.Heading 1 := by
  refine .plain (by decide) (by decide) rfl (.mk (fun _ ha => by cases ha) fun q hq t ht => ?_)
    fun t ht => ?_
  · obtain rfl : q = 2 := List.mem_singleton.mp hq
    cases ht
    exact .mention (greetSite_mention rfl)
  · cases ht
    refine .structural rfl (.union rfl rfl fun c hc => ?_)
    have hc : c ∈ [5, 6] := hc
    obtain rfl | rfl : c = 5 ∨ c = 6 := by simpa using hc
    · exact .leaf rfl (.inl rfl)
    · exact .array rfl rfl rfl (.mention (greetSite_mention rfl))

theorem greetSite_headingEnds : greetSite.graph.HeadingEnds 1 := by
  have hall : (greetSite.graph.headingTasks 1).all (greetSite.graph.endsWithin 6) = true := by
    cbv
  exact fun t ht => Graph.ends_of_endsWithin (List.all_eq_true.mp hall t ht)

/-- The record of the function. -/
def greetRecord : Record :=
  { kind := .function, id := some (.int 2), name := some "greet"
    parameters := some [{ kind := .parameter, name := some "who", type := some (.ref (.int 1)) }]
    type := some (.embedded { kind := .typeUnion, children := some [
      { kind := .baseType, name := some "string" },
      { kind := .array, type := some (.ref (.int 1)) }] }) }

/-- The heading of the function is read back. -/
theorem heading_round_trip_greet : ∃ v r rd r', (greetSite.summary.run.run {}).1 = .ok v ∧
    ((greetSite.summarize 1).run.run {}).1 = .ok r ∧
    Reader.ofValue Record.plainLink v = .ok rd ∧ Record.ofValue r.toValue = .ok r' ∧
    (rd.text r').heading = .ok "greet(who: Name): string | Name[]" := by
  have hrecords : (greetSite.summaryRecords.run.run {}).1 =
      .ok [{ kind := .typeAlias, id := some (.int 1), name := some "Name", flags := ⟨1⟩ }] := by
    cbv
  have hv := summary_of_records hrecords
  have hr : ((greetSite.summarize 1).run.run {}).1 = .ok greetRecord := by
    cbv
  have hm : ((greetSite.print (greetSite.graph.signatureText 1)).run.run {}).1 =
      .ok "greet(who: <a href=\"#s1\">Name</a>): string | <a href=\"#s1\">Name</a>[]" := by
    cbv
  obtain ⟨rd, r', hrd, hr', hheading⟩ := heading_round_trip greetDocument_loads greetSite_intIds
    (fun p _ hp _ => by rw [greetSite_hasOwnPage] at hp; cases hp) greetSite_heading
    greetSite_headingEnds .fresh .fresh .fresh hv hr hm
  refine ⟨_, greetRecord, rd, r', hv, hr, hrd, hr', ?_⟩
  rw [hheading]
  cbv

/-! ## Headings that do not survive -/

/-- A named type that stands for a function type, which returns a list of itself. Another one stands
for a function type that has a type argument for a type parameter. -/
def loopDocument : Value :=
  .record [("modules", .list [
    .record [("kind", .int 14), ("id", .int 1), ("name", .text "F"),
      ("type", .record [("kind", .int 37), ("id", .int 2), ("parameters", .list []),
        ("type", .record [("kind", .int 21), ("type", .int 2)])])],
    .record [("kind", .int 4), ("id", .int 3), ("name", .text "Box"),
      ("typeParameters", .list [.record [("kind", .int 36), ("name", .text "T")]])],
    .record [("kind", .int 14), ("id", .int 4), ("name", .text "G"),
      ("type", .record [("kind", .int 37),
        ("typeParameters", .list [
          .record [("kind", .int 20), ("name", .text "Box"), ("type", .int 3)]]),
        ("parameters", .list []),
        ("type", .record [("kind", .int 35), ("name", .text "void")])])]])]

/-- The site of the document. -/
def loopSite : Site where
  graph :=
    { nodes := #[
        { Node.bare .typeAlias with id := some (.int 1), name := "F", type := some 1 },
        { Node.bare .functionType with id := some (.int 2), parameters := some [], type := some 2 },
        { Node.bare .array with type := some 1 },
        { Node.bare .interfaceDecl with
          id := some (.int 3), name := "Box", typeParameters := some [4] },
        { Node.bare .typeParameter with name := "T", parent := some 3 },
        { Node.bare .typeAlias with id := some (.int 4), name := "G", type := some 6 },
        { Node.bare .functionType with
          typeParameters := some [7], parameters := some [], type := some 8 },
        { Node.bare .reference with name := "Box", type := some 3 },
        { Node.bare .baseType with name := "void" }]
      modules := [0, 3, 5]
      index := [(.int 1, 0), (.int 2, 1), (.int 3, 3), (.int 4, 5)] }
  plan := { names := [(3, "Box.html")], emitted := [3], hasReadme := false }
  options := {}

theorem loopDocument_loads : Graph.ofValue loopDocument = .ok loopSite.graph := by
  cbv

theorem loopSite_intIds : loopSite.graph.IntIds := by
  intro p id h
  match p with
  | 0 | 1 | 3 | 5 =>
    cases h
    exact ⟨_, rfl⟩
  | 2 | 4 | 6 | 7 | 8 => cases h
  | p + 9 =>
    rw [Graph.node_of_size_le (by simp [loopSite, Graph.size])] at h
    cases h

/-- The names of the pages end no tag. -/
theorem loopSite_pages (p : Place) (name : String) (hp : (loopSite.graph.node p).hasOwnPage = true)
    (hname : loopSite.plan.pageOf loopSite.graph p = .ok name) : '>' ∉ name.toList := by
  match p with
  | 3 =>
    cases hname
    decide
  | 0 | 1 | 2 | 4 | 5 | 6 | 7 | 8 => cases hp
  | p + 9 =>
    rw [Graph.node_of_size_le (by simp [loopSite, Graph.size])] at hp
    cases hp

theorem loopSite_heading : loopSite.graph.Heading 0 := by
  refine .plain (by decide) (by decide) rfl
    (.mk (fun _ ha => by cases ha) fun _ hq => by cases hq) fun t ht => ?_
  cases ht
  refine .structural rfl (.function rfl rfl
    (.mk (fun _ ha => by cases ha) fun _ hq => by cases hq) fun t ht => ?_)
  cases ht
  exact .text (fun _ => rfl) rfl rfl (by decide) rfl

/-- The heading of a declaration as it is printed and as it is read, with a new session for each
run. -/
def headings (site : Site) (p : Place) : Except Fault (String × String) := do
  let rd ← Reader.ofValue Record.plainLink (← (site.summary.run.run {}).1)
  let r ← Record.ofValue (← ((site.summarize p).run.run {}).1).toValue
  let m ← ((site.print (site.graph.signatureText p)).run.run {}).1
  return (Markup.visible m, ← (rd.text r).heading)

/-- The headings from what is made. -/
theorem headings_eq (hint : site.graph.IntIds) {rs : List Record}
    (hrs : (site.summaryRecords.run.run {}).1 = .ok rs)
    (hr : ((site.summarize p).run.run {}).1 = .ok r) {m : String}
    (hm : ((site.print (site.graph.signatureText p)).run.run {}).1 = .ok m) {s : String}
    (hs : ((Reader.ofRecords Record.plainLink (rs.map Record.normal)).text r).heading = .ok s) :
    site.headings p = .ok (Markup.visible m, s) := by
  rw [headings, summary_of_records hrs, hr, hm]
  simp only [bind, Except.bind, pure, Except.pure]
  rw [reader_of_summaryRecords hint .fresh hrs, record_read hint .fresh hr]
  simp only
  rw [Reader.text_normal Record.plainLink_normal, hs]

/-- The record of the type that returns itself. -/
def loopRecord : Record :=
  { kind := .typeAlias, id := some (.int 1), name := some "F"
    type := some (.embedded { kind := .functionType, id := some (.int 2), parameters := some []
                              type := some (.inline "() => ?[]") }) }

/-- The record of the interface. -/
def loopBox : Record :=
  { kind := .interfaceDecl, id := some (.int 3), name := some "Box"
    typeParameters := some [{ kind := .typeParameter, name := some "T"
                              type := some (.inline "T") }] }

/-- The record of the type with the type argument. -/
def loopArgument : Record :=
  { kind := .typeAlias, id := some (.int 4), name := some "G"
    type := some (.embedded { kind := .functionType, parameters := some []
                              typeParameters := some [loopBox], type := some (.inline "void") }) }

theorem loopSite_records :
    (loopSite.summaryRecords.run.run {}).1 = .ok [loopBox, loopRecord, loopArgument] := by
  cbv

/-- The first function type is cut short at once when it is printed, but when it is summarised only
what it returns is printed. The type argument of the other one is printed as a reference, but
summarised as the interface, which has type parameters. -/
theorem heading_differs : Graph.ofValue loopDocument = .ok loopSite.graph ∧
    loopSite.graph.IntIds ∧
    (∀ p name, (loopSite.graph.node p).hasOwnPage = true →
      loopSite.plan.pageOf loopSite.graph p = .ok name → '>' ∉ name.toList) ∧
    loopSite.graph.Heading 0 ∧ loopSite.headings 0 = .ok ("F = () => ?[]", "F = () => () => ?[]") ∧
    loopSite.graph.HeadingEnds 5 ∧ (loopSite.graph.node 5).type = some 6 ∧
    (loopSite.graph.node 6).kind = .functionType ∧ (loopSite.graph.node 6).parameters = some [] ∧
    (∀ t, (loopSite.graph.node 6).type = some t → loopSite.graph.Admissible t) ∧
    loopSite.headings 5 = .ok ("G = <Box>() => void", "G = <Box<T>>() => void") := by
  have hends : (loopSite.graph.headingTasks 5).all (loopSite.graph.endsWithin 6) = true := by
    cbv
  refine ⟨loopDocument_loads, loopSite_intIds, loopSite_pages, loopSite_heading, ?_,
    fun t ht => Graph.ends_of_endsWithin (List.all_eq_true.mp hends t ht), rfl, rfl, rfl, ?_, ?_⟩
  · exact headings_eq loopSite_intIds loopSite_records (r := loopRecord) (m := "F = () =&gt; ?[]")
      (by cbv) (by cbv) (by cbv)
  · intro t ht
    cases ht
    exact .text (fun _ => rfl) rfl rfl (by decide) rfl
  · exact headings_eq loopSite_intIds loopSite_records (r := loopArgument)
      (m := "G = &lt;<a href=\"Box.html\">Box</a>&gt;() =&gt; void") (by cbv) (by cbv) (by cbv)

end Site

end SymbolDocs
