import SymbolDocs.Proofs.Admissible
import SymbolDocs.Proofs.Reading

/-!
# Reading what was printed

A reader prints a record from its parts, the graph prints a node from its parts. This module compares
the two, one step at a time: a record is read as its node is printed when the parts are.

* `Reader.ReadsRecord` and `Reader.ReadsType` say that a record and a type position are read so;
* `Site.heading_reads`, `Site.parameter_reads`, `Site.structural_reads`, `Site.reference_reads`,
  `Site.indexed_reads`, `Site.branch_reads` and `Site.clause_reads` are the steps for the forms of a
  record;
* `Site.PositionOf.of_exported`, `Site.PositionOf.of_quoted` and `Site.PositionOf.of_followed` say how
  a reference is encoded;
* `Site.position_reads` is the step for a type position.
-/

namespace SymbolDocs

namespace Reader

variable {rd : Reader} {g : Graph}

/-! ## Lists -/

theorem mapM_reads {l : Place → Layout} {form : RecordText → Except Fault String} {ps : List Place}
    {rs : List Record}
    (h : List.Forall₂ (fun p r => form (rd.text r) = .ok (g.shownLayout (l p)).text) ps rs) :
    ((rs.map rd.text).map form).mapM id = .ok ((ps.map l).map fun l => (g.shownLayout l).text) := by
  induction h with
  | nil => rfl
  | cons hr _ ih =>
    rw [List.map_cons, List.map_cons, List.mapM_cons, id_eq, hr, ih]
    rfl

/-- Records that read as they should are joined as the layouts are. -/
theorem joinTexts_reads (sep : String) {l : Place → Layout} {form : RecordText → Except Fault String}
    {ps : List Place} {rs : List Record}
    (h : List.Forall₂ (fun p r => form (rd.text r) = .ok (g.shownLayout (l p)).text) ps rs) :
    joinTexts sep ((rs.map rd.text).map form) =
      .ok (g.shownLayout (Layout.separated (.text sep) (ps.map l))).text := by
  rw [joinTexts, mapM_reads h, Graph.shownLayout_separated]
  rfl

theorem argumentsText_reads {ps : Option (List Place)} {rs : Option (List Record)}
    (h : AnyOf (fun a r => (rd.text r).type = .ok (g.shownLayout (g.typeArgument a)).text) (ps.getD [])
      rs) :
    argumentsText (rd.textsIn rs) = .ok (g.shownLayout (g.typeArguments ps)).text := by
  rw [textsIn_eq_map]
  rcases ps with _ | _ | ⟨p, ps⟩
  · cases h with
    | none => rfl
    | some hne => exact absurd rfl hne
  · cases h with
    | none => rfl
    | some hne => exact absurd rfl hne
  · cases h with
    | @some _ rs _ h =>
      have hjoin := joinTexts_reads ", " h
      cases h with
      | cons _ _ =>
        rw [Option.map_some, List.map_cons, argumentsText, ← List.map_cons, hjoin]
        · simp [bind, Except.bind, pure, Except.pure, Graph.typeArguments]
        · simp

theorem parametersText_reads {ps : Option (List Place)} {rs : Option (List Record)}
    (h : Option.Rel (List.Forall₂ fun q r =>
      (rd.text r).parameter = .ok (g.shownLayout (g.parameter q)).text) ps rs) :
    parametersText (rd.textsIn rs) = .ok (g.shownLayout (g.signatureParameters ps)).text := by
  rw [textsIn_eq_map]
  cases h with
  | none => rfl
  | some h =>
    rw [Option.map_some, parametersText, joinTexts_reads ", " h]
    simp [bind, Except.bind, pure, Except.pure, Graph.signatureParameters]

/-! ## What is read -/

/-- The reader finds what is listed, what it finds is right, and it prints the name of it. -/
structure Matches (rd : Reader) (g : Graph) : Prop where
  link : rd.link = Record.plainLink
  faithful : rd.Faithful g
  listed : rd.FindsListed g

/-- The record is read as the node is printed, as far as it is one of the forms that survive. -/
structure ReadsRecord (rd : Reader) (g : Graph) (p : Place) (r : Record) : Prop where
  kind : r.kind = (g.node p).kind
  name : r.name = (g.node p).name?
  heading : g.Heading p → (rd.text r).heading = .ok (g.shownLayout (g.signatureText p)).text
  parameter : (∀ t, (g.node p).type = some t → g.Admissible t) →
    (rd.text r).parameter = .ok (g.shownLayout (g.parameter p)).text
  type : g.Branch p → g.PrintsFinitely p → (rd.text r).type = .ok (g.shownType p).text
  interface : (g.node p).kind = .interfaceDecl → (g.node p).arguments = [] →
    (rd.text r).type = .ok (rd.link r)

/-- The same for a type position. -/
structure ReadsType (rd : Reader) (g : Graph) (p : Place) (v : TypeValue Record) : Prop where
  admissible : g.Admissible p → rd.typeText (some v) = .ok (g.shownType p).text
  clause : g.Clause p → rd.typeText (some v) = .ok (g.shownType p).text
  exported : ∀ id, (g.node p).mention? = none → (g.node p).exportedId? = some id → v = .ref id
  interface : g.PlainInterface p → ∃ d, d.name = (g.node p).name? ∧
    rd.typeText (some v) = .ok (rd.link d)

/-- A node listed is found under its id. -/
theorem Matches.exists_of_listed (h : rd.Matches g) (hg : g.Sound) {t : Place}
    (ht : t ∈ Site.summaryNodes g) : ∃ id d, (g.node t).id = some id ∧ find? id rd.byId = some d ∧
      d.Heads (g.node t) := by
  obtain ⟨e, he, rfl⟩ := List.mem_map.mp (List.mem_of_mem_filter ht)
  have hid := hg.index he
  obtain ⟨d, hd⟩ := h.listed _ ht _ hid
  exact ⟨_, d, hid, hd, h.faithful _ _ d hid hd⟩

/-- The name of a record is that of its node. -/
theorem nameText_of_heads {r : Record} {n : Node} (h : r.name = n.name?) : r.nameText = n.name := by
  rw [Record.nameText, h, Node.name?]
  split
  · rename_i hname
    rw [hname]
    rfl
  · rfl

/-- A reference reads as the name that it is printed under. -/
theorem Matches.link_of_labels (h : rd.Matches g) {p t : Place} (hp : g.Labels p t) {d : Record}
    (hd : d.name = (g.node t).name?) : rd.link d = (g.node p).label := by
  rw [h.link, Record.plainLink, nameText_of_heads hd, if_neg hp.named, Node.label, hp.name,
    if_pos (by simpa using hp.named)]

/-! ## The forms of a record from those of its parts -/

/-- The initial value of a heading. -/
theorem headingValue_reads {r : Record} {value : Option String} (h : r.value = .ofText? value) :
    headingValue r = .ok (g.shownLayout (signatureValue value)).text := by
  rw [headingValue, h]
  cases value with
  | none => rfl
  | some v =>
    by_cases hv : v = ""
    · simp [Value.ofText?, Value.truthy, Scalar.truthy, signatureValue, hv, pure, Except.pure]
    · by_cases hlength : valueLimit < v.length
      · simp [Value.ofText?, Value.truthy, Scalar.truthy, signatureValue, hv, Value.length, hlength,
          bind, Except.bind, pure, Except.pure]
      · simp [Value.ofText?, Value.truthy, Scalar.truthy, signatureValue, hv, Value.length, hlength,
          Nat.not_lt.mp hlength, Value.plain, Scalar.plain, bind, Except.bind, pure, Except.pure]

theorem nameText_reads {r : Record} {n : Node} (hkind : r.kind = n.kind) (hname : r.name = n.name?)
    (hflags : r.flags = n.flags) : nameText r = (g.shownLayout (signatureName n)).text := by
  rw [nameText, nameText_of_heads hname, hkind, hflags]
  rfl

/-- The default of a parameter. -/
theorem defaultText_eq (value : Option String) :
    (if (Value.ofText? value).truthy then " = " ++ (Value.ofText? value).plain else "") =
      match value with
      | some v => if v = "" then "" else " = " ++ v
      | none => "" := by
  cases value with
  | none => rfl
  | some v => by_cases hv : v = "" <;>
      simp [Value.ofText?, Value.truthy, Scalar.truthy, Value.plain, Scalar.plain, hv]

/-- A heading that is no module and no index signature. -/
theorem headingText_of_parts {r : Record} (hk : r.kind ≠ .moduleFile) (hk' : r.kind ≠ .indexSignature)
    {parameters typeParameters : Option (List RecordText)} {type : Option (Except Fault String)}
    {shown value arguments list : String} (hshown : headingType r type = .ok shown)
    (hvalue : headingValue r = .ok value) (harguments : argumentsText typeParameters = .ok arguments)
    (hparameters : parametersText parameters = .ok list) :
    headingText r parameters typeParameters type =
      .ok (nameText r ++ arguments ++ list ++ shown ++ value) := by
  unfold headingText
  split
  · contradiction
  · contradiction
  · rw [hshown, hvalue, harguments, hparameters]
    rfl

end Reader

namespace Site

variable {site : Site} {rd : Reader} {S : Place → Record → Prop} {P : Place → TypeValue Record → Prop}
  {p : Place} {r : Record} {v : TypeValue Record}

/-- A type position that may be empty. -/
theorem typeTextIn_reads (site : Site) (rd : Reader) {t : Option Place}
    {v : Option (TypeValue Record)} (h : Option.Rel P t v)
    (hP : ∀ q, t = some q → ∀ v, P q v → rd.typeText (some v) = .ok (site.graph.shownType q).text) :
    rd.typeTextIn v = t.map fun q => .ok (site.graph.shownType q).text := by
  cases h with
  | none => rw [Reader.typeTextIn, Option.map_none]
  | some h => rw [Reader.typeTextIn_some, hP _ rfl _ h, Option.map_some]

/-- Type arguments. -/
theorem argument_reads (site : Site) (hk : (site.graph.node p).kind ≠ .typeParameter)
    (hP : ∀ v, P p v → rd.typeText (some v) = .ok (site.graph.shownType p).text)
    (h : ArgumentOf P p r) :
    (rd.text r).type = .ok (site.graph.shownLayout (site.graph.typeArgument p)).text := by
  obtain ⟨v, hv, rfl⟩ := h
  rw [Reader.text_asRecord, hP v hv, Graph.typeArgument]
  split
  · contradiction
  · rfl

/-- Type parameters and type arguments. -/
theorem entry_reads (hc : site.Clean)
    (hends : ∀ q ∈ (site.graph.typeArgument p).types, site.graph.Ends (.text q))
    (hP : (site.graph.node p).kind ≠ .typeParameter → ∀ v, P p v →
      rd.typeText (some v) = .ok (site.graph.shownType p).text)
    (h : site.EntryOf P p r) :
    (rd.text r).type = .ok (site.graph.shownLayout (site.graph.typeArgument p)).text := by
  cases h with
  | parameter hk hs =>
    rw [Reader.text_eq]
    simp only [Reader.assemble, hk, Reader.typeTextIn, Option.getD_some]
    rw [hs hc fun q hq => (hends q hq).printsFinitely]
  | argument hk h => exact argument_reads site hk (hP hk) h

section

variable (h : site.RecordOf S P p r)
  (hS : ∀ q ∈ (site.graph.node p).parameters.getD [], ∀ x, S q x → rd.ReadsRecord site.graph q x)
  (hP : ∀ t ∈ (site.graph.node p).type.toList ++ (site.graph.node p).arguments, ∀ v, P t v →
    rd.ReadsType site.graph t v)
include h hS hP

/-- The type parameters and parameters of a heading. -/
theorem signature_reads (hc : site.Clean) (hends : site.graph.HeadingEnds p) (hp : site.graph.Signature p) :
    Reader.argumentsText (rd.textsIn r.typeParameters) =
      .ok (site.graph.shownLayout (site.graph.typeArguments (site.graph.node p).typeParameters)).text ∧
    Reader.parametersText (rd.textsIn r.parameters) =
      .ok (site.graph.shownLayout
        (site.graph.signatureParameters (site.graph.node p).parameters)).text := by
  obtain ⟨harguments, hparameters⟩ := hp
  constructor
  · refine Reader.argumentsText_reads (h.typeParameters.imp fun a ha x hx => ?_)
    refine entry_reads hc (fun q hq => hends _ ?_) (fun hk v hv => ?_) hx
    · simp only [Graph.headingTasks, List.mem_append, List.mem_map, List.mem_flatMap]
      exact .inl (.inr ⟨q, ⟨a, ha, hq⟩, rfl⟩)
    · exact (hP a (List.mem_append_right _ ha) v hv).admissible (harguments a ha hk)
  · refine Reader.parametersText_reads (optionRel_imp (fun ps hps _ hrs => ?_) h.parameters)
    refine forall₂_imp_mem (fun q hq x hx => ?_) hrs
    have hq : q ∈ (site.graph.node p).parameters.getD [] := by simpa [hps] using hq
    exact (hS q hq x hx).parameter (hparameters q hq)

/-- An index signature. -/
theorem indexText_reads (hkeys : ∀ q ∈ (site.graph.node p).parameters.getD [], site.graph.Heading q)
    (htype : ∀ t, (site.graph.node p).type = some t → site.graph.Admissible t) :
    Reader.indexText (rd.textsIn r.parameters) (rd.typeTextIn r.type) =
      .ok (site.graph.shownLayout (site.graph.indexSignature p)).text := by
  have hjoin : joinTexts ", " (((r.parameters.getD []).map rd.text).map RecordText.heading) =
      .ok (site.graph.shownLayout (Layout.separated (.text ", ")
        (((site.graph.node p).parameters.getD []).map site.graph.signatureText))).text := by
    refine Reader.joinTexts_reads ", " (forall₂_imp_mem (fun q hq x hx => ?_)
      (forall₂_getD h.parameters))
    exact (hS q hq x hx).heading (hkeys q hq)
  rw [Reader.indexText, Reader.textsIn_getD, hjoin, typeTextIn_reads site rd h.type fun t ht v hv =>
    (hP t (by simp [ht]) v hv).admissible (htype t ht)]
  cases ht : (site.graph.node p).type with
  | none => simp [bind, Except.bind, pure, Except.pure, Graph.indexSignature, Graph.indexValue, ht]
  | some t => simp [bind, Except.bind, pure, Except.pure, Graph.indexSignature, Graph.indexValue, ht]

omit hS in
/-- The type of a heading. -/
theorem headingType_reads (hp : site.graph.HeadingEnds p) (hheading : site.graph.Heading p)
    (hk : (site.graph.node p).kind ≠ .moduleFile) (hk' : (site.graph.node p).kind ≠ .indexSignature) :
    Reader.headingType r (rd.typeTextIn r.type) =
      .ok (site.graph.shownLayout (Graph.signatureType (site.graph.node p))).text := by
  have htypeText : rd.typeTextIn r.type =
      (site.graph.node p).type.map fun q => .ok (site.graph.shownType q).text := by
    refine typeTextIn_reads site rd h.type fun t ht v hv => ?_
    have hread := hP t (by simp [ht]) v hv
    cases hheading with
    | moduleFile hk => contradiction
    | indexSignature hk => contradiction
    | heritage _ _ htype => exact hread.clause (htype t ht)
    | plain _ _ _ _ htype => exact hread.admissible (htype t ht)
  rw [htypeText]
  cases ht : (site.graph.node p).type with
  | none => simp [Reader.headingType, Graph.signatureType, ht]
  | some t =>
    cases hheading with
    | moduleFile hk => contradiction
    | indexSignature hk => contradiction
    | heritage hheritage _ htype =>
      have hblank := (htype t ht).blank_iff (hp _ (by simp [Graph.headingTasks, ht]))
      simp only [Reader.headingType, Option.map_some, h.kind, hheritage, Graph.signatureType, ht,
        Graph.shownLayout, Layout.shown, hblank, bind, Except.bind, pure, Except.pure, if_true]
      split <;> simp
    | plain _ _ hheritage _ htype =>
      simp [Reader.headingType, Graph.signatureType, ht, h.kind, hheritage, bind, Except.bind, pure,
        Except.pure, Reader.nameText_of_heads h.name]

/-- **A heading is read as it is printed** when the parts are. -/
theorem heading_reads (hc : site.Clean) (hg : site.graph.Sound) (hends : site.graph.HeadingEnds p)
    (hp : site.graph.Heading p) :
    (rd.text r).heading = .ok (site.graph.shownLayout (site.graph.signatureText p)).text := by
  have hplain : (site.graph.node p).kind ≠ .moduleFile → (site.graph.node p).kind ≠ .indexSignature →
      site.graph.Signature p →
      (rd.text r).heading = .ok (site.graph.shownLayout (site.graph.signatureText p)).text := by
    intro hk hk' hsignature
    obtain ⟨harguments, hparameters⟩ := signature_reads h hS hP hc hends hsignature
    have hname := Reader.nameText_reads (g := site.graph) h.kind h.name h.flags
    rw [Reader.text_eq, Graph.signatureText_plain hk hk']
    simp only [Reader.assemble]
    rw [Reader.headingText_of_parts (h.kind ▸ hk) (h.kind ▸ hk')
      (headingType_reads h hP hends hp hk hk') (Reader.headingValue_reads (g := site.graph) h.value)
      harguments hparameters, hname]
    rfl
  cases hp with
  | moduleFile hk =>
    rw [Reader.text_eq, Graph.signatureText_moduleFile hk]
    simp only [Reader.assemble, Reader.headingText, h.kind, hk]
    rw [Reader.nameText_of_heads h.name]
    rfl
  | indexSignature hk hkeys htype =>
    rw [Reader.text_eq, Graph.signatureText_indexSignature hg hk]
    simp only [Reader.assemble, Reader.headingText, h.kind, hk]
    exact indexText_reads h hS hP hkeys htype
  | heritage hk hsignature htype =>
    refine hplain ?_ ?_ hsignature <;>
    · intro h
      simp [h, Kind.hasHeritage] at hk
  | plain hk hk' hheritage hsignature htype => exact hplain hk hk' hsignature

omit hS in
/-- A parameter is read as it is printed. -/
theorem parameter_reads (htype : ∀ t, (site.graph.node p).type = some t → site.graph.Admissible t) :
    (rd.text r).parameter = .ok (site.graph.shownLayout (site.graph.parameter p)).text := by
  have htypeText := typeTextIn_reads site rd h.type fun t ht v hv =>
    (hP t (by simp [ht]) v hv).admissible (htype t ht)
  rw [Reader.text_eq]
  simp only [Reader.assemble, Reader.parameterText, htypeText, h.flags, h.value,
    Reader.nameText_of_heads h.name, Reader.defaultText_eq]
  cases ht : (site.graph.node p).type with
  | none =>
    simp only [Graph.parameter, ht, Layout.optional]
    rfl
  | some t =>
    simp only [Graph.parameter, ht, Layout.optional]
    rfl

omit hS in
/-- A function type is read as it is printed. -/
theorem functionText_reads (harguments : Reader.argumentsText (rd.textsIn r.typeParameters) =
      .ok (site.graph.shownLayout (site.graph.typeArguments (site.graph.node p).typeParameters)).text)
    (hparameters : Reader.parametersText (rd.textsIn r.parameters) =
      .ok (site.graph.shownLayout
        (site.graph.signatureParameters (site.graph.node p).parameters)).text)
    (htype : ∀ t, (site.graph.node p).type = some t → site.graph.Admissible t) :
    Reader.functionText r (rd.textsIn r.parameters) (rd.textsIn r.typeParameters)
      (rd.typeTextIn r.type) = .ok (site.graph.shownLayout (site.graph.functionType p)).text := by
  have htypeText := typeTextIn_reads site rd h.type fun t ht v hv =>
    (hP t (by simp [ht]) v hv).admissible (htype t ht)
  rw [Reader.functionText, harguments, hparameters, htypeText,
    Reader.nameText_reads (g := site.graph) h.kind h.name h.flags]
  cases ht : (site.graph.node p).type with
  | none => simp [Graph.functionType, Layout.optional, ht, bind, Except.bind, pure, Except.pure]
  | some t => simp [Graph.functionType, Layout.optional, ht, bind, Except.bind, pure, Except.pure]

end

/-- The members of an object type, other than spreads, are headings. -/
theorem property_eq (hg : site.graph.Sound) (hk : (site.graph.node p).kind ≠ .spread) :
    site.graph.property p = site.graph.signatureText p := by
  unfold Graph.property
  dsimp only
  split
  · rename_i hindex
    exact (Graph.signatureText_indexSignature hg hindex).symm
  · contradiction
  · rfl

theorem member_eq (hk : r.kind ≠ .spread) : (rd.text r).member = (rd.text r).heading := by
  rw [Reader.text_eq]
  simp only [Reader.assemble]
  split
  · rename_i hindex
    rw [Reader.headingText]
    simp only [hindex]
  · contradiction
  · rfl

/-- **A structural type is read as it is printed** when the parts are. -/
theorem structural_reads (hc : site.Clean) (hg : site.graph.Sound)
    (hends : site.graph.Ends (.body p)) (hprints : site.graph.PrintsFinitely p)
    (h : site.RecordOf (rd.ReadsRecord site.graph) (rd.ReadsType site.graph) p r)
    (hp : site.graph.Structural p) : (rd.text r).type = .ok (site.graph.shownType p).text := by
  cases hp with
  | function hrest hk hsignature htype =>
    rw [Graph.shownType_eq hprints hrest, Reader.text_eq]
    simp only [Graph.typeRule, hk, Reader.assemble, h.kind]
    obtain ⟨harguments, hparameters⟩ := signature_reads h (fun _ _ _ hx => hx) (fun _ _ _ hv => hv) hc
      (Graph.headingEnds_of_ends hends) hsignature
    exact functionText_reads h (fun _ _ _ hv => hv) harguments hparameters htype
  | object hrest hk hkinds hmembers hlength =>
    have hjoin : joinTexts "; " (((r.children.getD []).map rd.text).map RecordText.member) =
        .ok (site.graph.shownLayout (Layout.separated (.text "; ")
          ((site.graph.node p).members.map site.graph.property))).text := by
      refine Reader.joinTexts_reads "; " (forall₂_imp_mem (fun c hmem x hx => ?_)
        (h.forall₂_children (by rw [hk]; rfl)))
      rw [member_eq (hx.kind ▸ hkinds c hmem), property_eq hg (hkinds c hmem)]
      exact hx.heading (hmembers c hmem)
    rw [Graph.shownType_eq hprints hrest, Reader.text_eq]
    simp only [Graph.typeRule, hk, Reader.assemble, h.kind, Reader.textsIn_getD, hjoin]
    simp only [Graph.shownLayout, Layout.shown] at hlength ⊢
    rw [Layout.membersText, if_neg (Nat.not_lt.mpr hlength)]
    rfl
  | union hrest hk hmembers =>
    have hjoin : joinTexts " | " (((r.children.getD []).map rd.text).map RecordText.type) =
        .ok (site.graph.shownLayout (Layout.separated (.text " | ")
          ((site.graph.node p).members.map .type))).text := by
      refine Reader.joinTexts_reads " | " (forall₂_imp_mem (fun c hmem x hx => ?_)
        (h.forall₂_children (by rw [hk]; rfl)))
      refine hx.type (hmembers c hmem) (hprints.step ?_)
      simp [Graph.Prints, Graph.typeRule, hk, Graph.joined, Layout.types_separated, Layout.types, hmem]
    rw [Graph.shownType_eq hprints hrest, Reader.text_eq]
    simp only [Graph.typeRule, hk, Reader.assemble, h.kind, Reader.textsIn_getD, hjoin, Graph.joined]

/-- The record of a node without type parameters or arguments has none. -/
theorem RecordOf.typeParameters_of_nil (h : site.RecordOf S P p r)
    (hargs : (site.graph.node p).arguments = []) : r.typeParameters = none := by
  have hrs := h.typeParameters
  rw [hargs] at hrs
  generalize r.typeParameters = rs at hrs ⊢
  cases hrs with
  | none => rfl
  | some hne => exact absurd rfl hne

/-- The type parameters or arguments of a node whose record is made. -/
theorem arguments_reads (hc : site.Clean) (hends : site.graph.Ends (.body p))
    (h : site.RecordOf S (rd.ReadsType site.graph) p r)
    (harguments : ∀ a ∈ (site.graph.node p).arguments, site.graph.Admissible a) :
    Reader.argumentsText (rd.textsIn r.typeParameters) =
      .ok (site.graph.shownLayout
        (site.graph.typeArguments (site.graph.node p).typeParameters)).text := by
  refine Reader.argumentsText_reads (h.typeParameters.imp fun a ha x hx => ?_)
  exact entry_reads hc (fun q hq => hends.step (.bound ha hq))
    (fun _ v hv => hv.admissible (harguments a ha)) hx

/-- An interface without type parameters is read as its name. -/
theorem plainInterface_reads (h : site.RecordOf S P p r)
    (hk : (site.graph.node p).kind = .interfaceDecl) (hargs : (site.graph.node p).arguments = []) :
    (rd.text r).type = .ok (rd.link r) := by
  have hnone : r.typeParameters = none := h.typeParameters_of_nil hargs
  rw [Reader.text_eq]
  simp [Reader.assemble, h.kind, hk, hnone, Reader.textsIn, Reader.argumentsText, bind, Except.bind,
    pure, Except.pure]

/-- A reference reads as it is printed when its declaration reads as its label. -/
theorem reference_reads (hc : site.Clean) (hends : site.graph.Ends (.body p))
    (hprints : site.graph.PrintsFinitely p) (h : site.RecordOf S (rd.ReadsType site.graph) p r)
    (hrest : (site.graph.node p).has .rest = false) (hk : (site.graph.node p).kind = .reference)
    {t : Place} (ht : (site.graph.node p).type = some t)
    (harguments : ∀ a ∈ (site.graph.node p).arguments, site.graph.Admissible a)
    (hlabel : ∀ v, rd.ReadsType site.graph t v →
      rd.typeText (some v) = .ok (site.graph.node p).label) :
    (rd.text r).type = .ok (site.graph.shownType p).text := by
  obtain ⟨v, hv, hread⟩ := h.exists_type ht
  rw [Reader.text_reference (h.kind.trans hk), hv, hlabel v hread,
    arguments_reads hc hends h harguments, Graph.shownType_reference hprints hrest hk]
  rfl

/-- Records in the order of their names stay so. -/
theorem sortByName_eq {rs : List Record} (h : rs.Pairwise fun a b => a.nameText ≤ b.nameText) :
    Record.sortByName rs = rs :=
  List.mergeSort_of_pairwise (h.imp fun hab => by simpa using hab)

/-- Records of nodes in the order of their names are in order. -/
theorem pairwise_nameText {ps : List Place} {rs : List Record}
    (hrs : List.Forall₂ (rd.ReadsRecord site.graph) ps rs)
    (hps : ps.Pairwise fun c d => (site.graph.node c).name ≤ (site.graph.node d).name) :
    rs.Pairwise fun a b => a.nameText ≤ b.nameText := by
  induction hrs with
  | nil => exact .nil
  | cons hr hrest ih =>
    rw [List.pairwise_cons] at hps ⊢
    refine ⟨fun x hx => ?_, ih hps.2⟩
    obtain ⟨q, hq, hqx⟩ := exists_of_mem_forall₂ hrest hx
    rw [Reader.nameText_of_heads hr.name, Reader.nameText_of_heads hqx.name]
    exact hps.1 q hq

/-- An indexed type with parts in the order of their names. -/
theorem indexed_reads (hprints : site.graph.PrintsFinitely p)
    (h : site.RecordOf (rd.ReadsRecord site.graph) P p r) {a b : Place} {rest : List Place}
    (hrest : (site.graph.node p).has .rest = false) (hk : (site.graph.node p).kind = .indexedType)
    (hmembers : (site.graph.node p).members = a :: b :: rest) (ha : site.graph.Branch a)
    (hb : site.graph.Branch b) (hsorted : (site.graph.node p).members.Pairwise fun c d =>
      (site.graph.node c).name ≤ (site.graph.node d).name) :
    (rd.text r).type = .ok (site.graph.shownType p).text := by
  have hprint : ∀ c ∈ [a, b], site.graph.PrintsFinitely c := by
    refine fun c hc' => hprints.step ?_
    have hc' : c = a ∨ c = b := by simpa using hc'
    simp [Graph.Prints, Graph.typeRule, hk, Graph.indexedType, hmembers, Layout.types_append,
      Layout.types, hc']
  obtain ⟨rs, hrs, hchildren⟩ := h.children
  rw [hmembers] at hrs hsorted
  cases hrs with
  | @some _ rs _ hrs =>
    rw [hk, if_neg (by decide), Option.map_some, sortByName_eq (pairwise_nameText hrs hsorted)]
      at hchildren
    cases hrs with
    | cons hra hrs =>
      cases hrs with
      | cons hrb _ =>
        have hreada := hra.type ha (hprint a (by simp))
        have hreadb := hrb.type hb (hprint b (by simp))
        rw [Reader.text_eq, hchildren, Graph.shownType_eq hprints hrest]
        simp only [Reader.assemble, h.kind, hk, Graph.typeRule, Graph.indexedType, hmembers,
          Reader.textsIn_eq_map, Option.map_some, List.map_cons, hreada, hreadb]
        rfl

/-- **A type is read from a list as it is printed** when the parts are. -/
theorem branch_reads (hm : rd.Matches site.graph) (hc : site.Clean) (hg : site.graph.Sound)
    (hends : site.graph.Ends (.body p)) (hprints : site.graph.PrintsFinitely p)
    (h : site.RecordOf (rd.ReadsRecord site.graph) (rd.ReadsType site.graph) p r)
    (hp : site.graph.Branch p) : (rd.text r).type = .ok (site.graph.shownType p).text := by
  cases hp with
  | leaf hrest hk =>
    rw [Graph.shownType_eq hprints hrest, Reader.text_eq]
    rcases hk with hk | hk <;>
    · simp only [Graph.typeRule, hk, Reader.assemble, h.kind, Reader.nameText_of_heads h.name]
      rfl
  | @array _ t hrest hk ht htype =>
    have htypeText := typeTextIn_reads site rd h.type fun q hq v hv => by
      obtain rfl := Option.some.inj (ht.symm.trans hq)
      exact hv.admissible htype
    rw [Graph.shownType_eq hprints hrest, Reader.text_eq]
    simp only [Graph.typeRule, hk, Reader.assemble, h.kind, htypeText, ht, Layout.optional]
    rfl
  | mention hmention =>
    obtain ⟨hnames, hexported, -, harguments⟩ := hmention
    obtain ⟨id, d, hid, hfind, hd⟩ := hm.exists_of_listed hg hnames.listed
    refine reference_reads hc hends hprints h hnames.plain hnames.kind hnames.type harguments
      fun v hread => ?_
    obtain rfl := hread.exported id (Graph.mention?_of_listed hnames.listed)
      (by rw [Node.exportedId?, if_pos hexported, hid])
    rw [Reader.typeText_ref hfind, hm.link_of_labels hnames.toLabels hd.name]
  | quoted hrest hk ht _ _ htype hlabel harguments =>
    refine reference_reads hc hends hprints h hrest hk ht harguments fun v hread => ?_
    rw [hread.admissible htype, hlabel]
  | interface hlabels ht harguments =>
    refine reference_reads hc hends hprints h hlabels.plain hlabels.kind hlabels.type harguments
      fun v hread => ?_
    obtain ⟨d, hd, htext⟩ := hread.interface ht
    rw [htext, hm.link_of_labels hlabels hd]
  | structural hp => exact structural_reads hc hg hends hprints h hp
  | indexed hrest hk hmembers ha hb hsorted =>
    exact indexed_reads hprints h hrest hk hmembers ha hb hsorted

/-! ## Heritage clauses -/

/-- An entry of a heritage clause. -/
theorem heritageEntry_reads (hm : rd.Matches site.graph) (hg : site.graph.Sound) {t : Place}
    (hprints : site.graph.PrintsFinitely p) (hp : site.graph.Names p t)
    (hkinds : ∀ a ∈ (site.graph.node p).arguments, (site.graph.node a).kind ≠ .typeParameter)
    (harguments : ∀ a ∈ (site.graph.node p).arguments, site.graph.Admissible a)
    (h : site.HeritageEntryOf (rd.ReadsType site.graph) p r) :
    (rd.text r).type = .ok (site.graph.shownType p).text ∧
      ∃ d, rd.refRecord? r.type = some d ∧ d.Heads (site.graph.node t) := by
  obtain ⟨v, args, hv, hargs, rfl⟩ := h
  obtain ⟨id, d, hid, hfind, hd⟩ := hm.exists_of_listed hg hp.listed
  obtain rfl : v = .ref id := by
    cases hv with
    | ref ht hid' =>
      obtain rfl := Option.some.inj (hp.type.symm.trans ht)
      rw [Option.some.inj (hid.symm.trans hid')]
    | text hid' => simp [hid' t hp.type] at hid
  have hargsText : Reader.argumentsText (rd.textsIn args) = .ok (site.graph.shownLayout
      (site.graph.typeArguments (site.graph.node p).typeParameters)).text :=
    Reader.argumentsText_reads (hargs.imp fun a ha x hx =>
      argument_reads site (hkinds a ha) (fun v hv => hv.admissible (harguments a ha)) hx)
  refine ⟨?_, d, hfind, hd⟩
  rw [hp.shown hprints, Reader.text_eq]
  simp only [Reader.assemble, Reader.typeTextIn_some, Reader.typeText_ref hfind, hargsText,
    hm.link_of_labels hp.toLabels hd.name]
  rfl

/-- The entries of a heritage clause with whether they are extended. -/
theorem heritageEntries_reads {own : Bool} (extended : Place → Bool) {cs : List Place}
    {rs : List Record}
    (h : List.Forall₂ (fun c x => (rd.text x).type = .ok (site.graph.shownType c).text ∧
      ∃ d, rd.refRecord? x.type = some d ∧ extended c = (own || d.kind.hasHeritage)) cs rs) :
    rd.heritageEntries own rs (rs.map rd.text) =
      .ok (cs.map fun c => ((site.graph.shownType c).text, extended c)) := by
  induction h with
  | nil => rfl
  | cons hx _ ih =>
    obtain ⟨htype, d, hd, hextended⟩ := hx
    rw [List.map_cons, Reader.heritageEntries, ih, hd, htype, List.map_cons, hextended]
    split
    · contradiction
    · rfl

/-- The reader knows whether an interface owns the clause. -/
theorem heritageOwner_reads (hm : rd.Matches site.graph) (hg : site.graph.Sound)
    (howner : ∀ o, site.graph.heritageOwner? p = some o →
      (site.graph.node o).kind = .interfaceDecl → o ∈ summaryNodes site.graph) :
    (match rd.refRecord? (((site.graph.heritageOwner? p).bind fun o => (site.graph.node o).id).map
        .ref) with
      | some o => o.kind == Kind.interfaceDecl
      | none => false) =
    match site.graph.heritageOwner? p with
      | some o => (site.graph.node o).kind == Kind.interfaceDecl
      | none => false := by
  cases ho : site.graph.heritageOwner? p with
  | none => rfl
  | some o =>
    by_cases hk : (site.graph.node o).kind = .interfaceDecl
    · obtain ⟨id, d, hid, hfind, hd⟩ := hm.exists_of_listed hg (howner o ho hk)
      simp [hid, Reader.refRecord?, hfind, hd.kind]
    · cases hid : (site.graph.node o).id with
      | none => simp [hid, Reader.refRecord?, hk]
      | some id =>
        cases hfind : Reader.find? id rd.byId with
        | none => simp [hid, Reader.refRecord?, hfind, hk]
        | some d => simp [hid, Reader.refRecord?, hfind, (hm.faithful o id d hid hfind).kind]

/-- **A heritage clause is read as it is printed** when its type arguments are. -/
theorem clause_reads (hm : rd.Matches site.graph) (hg : site.graph.Sound)
    (hends : site.graph.Ends (.position p)) (hp : site.graph.Clause p) {rs : List Record}
    (hrs : List.Forall₂ (site.HeritageEntryOf (rd.ReadsType site.graph)) (site.heritageEntries p) rs) :
    rd.typeText (some (.embedded
      { kind := .classType, children := some rs
        type := ((site.graph.heritageOwner? p).bind fun o => (site.graph.node o).id).map .ref })) =
      .ok (site.graph.shownType p).text := by
  have hshown := hp.shown hends
  obtain ⟨hrest, hid, hk, hentries, hkinds, harguments, howner⟩ := hp
  have hall : site.heritageEntries p = (site.graph.node p).members := by
    refine List.filter_eq_self.mpr fun c hc => ?_
    obtain ⟨t, ht⟩ := hentries c hc
    simp [ht.kind]
  rw [hall] at hrs
  have hprinted : ∀ c ∈ (site.graph.node p).members, site.graph.Prints p c := by
    intro c hc
    simp [Graph.Prints, Graph.typeRule, hk, Graph.classType, Layout.types, hc]
  rw [Reader.typeText_embedded, Reader.text_eq, hshown]
  simp only [Reader.assemble, Reader.heritageText, Reader.textsIn_getD, Option.getD_some]
  rw [heritageEntries_reads (site.graph.isExtended p) (forall₂_imp_mem (fun c hc x hx => ?_) hrs)]
  · rfl
  · obtain ⟨t, ht⟩ := hentries c hc
    obtain ⟨htype, d, hd, hheads⟩ := heritageEntry_reads hm hg (hends.of_position.step (hprinted c hc))
      ht (hkinds c hc) (harguments c hc) hx
    refine ⟨htype, d, hd, ?_⟩
    rw [Graph.isExtended, ht.type, hheads.kind]
    exact congrArg (· || (site.graph.node t).kind.hasHeritage) (heritageOwner_reads hm hg howner).symm

/-! ## Type positions -/

/-- A structural type mentions nothing. -/
theorem mention?_of_structural (hs : (site.graph.node p).isStructural = true) :
    (site.graph.node p).mention? = none := by
  have hembedded := (isStructural_kind hs).2.2.2
  rw [Node.mention?, if_neg]
  intro hk
  simp only [Kind.isReference, Bool.or_eq_true, beq_iff_eq] at hk
  rcases hk with hk | hk <;> simp [hk, Kind.isEmbedded] at hembedded

section

variable {B : Place → Record → Prop} {t : Place}

/-- A structural type is carried in place. -/
theorem FlattenedOf.exists_of_structural (h : site.FlattenedOf [] P B p v)
    (hs : (site.graph.node p).isStructural = true) : ∃ r, v = .embedded r ∧ B p r := by
  cases h with
  | heritage hk => exact absurd hk (isStructural_kind hs).1
  | base hk => exact absurd hk (isStructural_kind hs).2.1
  | text _ _ hs' => simp [hs] at hs'
  | carried _ _ hr => exact ⟨_, rfl, hr⟩
  | cut _ h | cutText _ h => cases h

/-- An exported declaration is encoded by its id. -/
theorem PositionOf.eq_ref (h : site.PositionOf [] P B p v)
    (hmention : (site.graph.node p).mention? = none) {id : Scalar}
    (hid : (site.graph.node p).exportedId? = some id) : v = .ref id := by
  cases h with
  | ref hid' =>
    rw [hmention, Option.getD_none, hid] at hid'
    rw [Option.some.inj hid']
  | mention ht | text ht | followed ht => simp [hmention] at ht
  | own _ hid' => simp [hid] at hid'

/-- So is a reference to it, with type arguments next to the id if there are any. -/
theorem PositionOf.of_exported (h : site.PositionOf [] P B p v)
    (hp : (site.graph.node p).mention? = some t) (ht : (site.graph.node t).mention? = none)
    {id : Scalar} (hid : (site.graph.node t).exportedId? = some id) :
    (v = .ref id ∧ (site.graph.node p).arguments = []) ∨
      ∃ rs, (site.graph.node p).arguments ≠ [] ∧
        List.Forall₂ (ArgumentOf P) (site.graph.node p).arguments rs ∧
        v = .embedded { kind := .reference, type := some (.ref id), typeParameters := some rs } := by
  cases h with
  | ref hid' harg =>
    rw [hp, Option.getD_some, hid] at hid'
    obtain rfl := Option.some.inj hid'
    refine .inl ⟨rfl, ?_⟩
    rcases harg with h | h | h
    · simp [hp] at h
    · obtain rfl := Option.some.inj (hp.symm.trans h)
      simp [ht] at hp
    · exact h
  | mention ht' _ hid' hargs hrs =>
    obtain rfl := Option.some.inj (hp.symm.trans ht')
    obtain rfl := Option.some.inj (hid.symm.trans hid')
    exact .inr ⟨_, hargs, hrs, rfl⟩
  | text ht' hid' => simp_all
  | followed ht' hid' => simp_all
  | own ht' => simp [hp] at ht'

/-- A reference that is carried as text. -/
theorem PositionOf.of_quoted (h : site.PositionOf [] P B p v)
    (hp : (site.graph.node p).mention? = some t) (hid : (site.graph.node t).exportedId? = none)
    (htext : (site.graph.node p).arguments ≠ [] ∨ (site.graph.node t).isStructural = false) :
    ∃ s, site.TextOf p s ∧ v = .inline s := by
  cases h with
  | text _ _ _ hs => exact ⟨_, hs, rfl⟩
  | ref hid' => simp_all
  | mention ht' _ hid' => simp_all
  | followed ht' _ hargs hs => simp_all
  | own ht' => simp [hp] at ht'

/-- A reference to a structural type that is carried in place. -/
theorem PositionOf.of_followed (h : site.PositionOf [] P B p v)
    (hp : (site.graph.node p).mention? = some t) (hid : (site.graph.node t).exportedId? = none)
    (hs : (site.graph.node t).isStructural = true) (hargs : (site.graph.node p).arguments = []) :
    ∃ r, v = .embedded r ∧ B t r := by
  cases h with
  | followed ht' _ _ _ h =>
    obtain rfl := Option.some.inj (hp.symm.trans ht')
    exact h.exists_of_structural hs
  | ref hid' => simp_all
  | mention _ _ _ harg => exact absurd hargs harg
  | text ht' _ harg => simp_all
  | own ht' => simp [hp] at ht'

end

/-- A mention of an exported declaration in a type position. -/
theorem mention_reads (hm : rd.Matches site.graph) (hg : site.graph.Sound)
    (hprints : site.graph.PrintsFinitely p) (hp : site.graph.Mention p)
    (h : site.PositionOf [] (rd.ReadsType site.graph) (rd.ReadsRecord site.graph) p v) :
    rd.typeText (some v) = .ok (site.graph.shownType p).text := by
  obtain @⟨_, t, hnames, hexported, hkinds, harguments⟩ := hp
  obtain ⟨id, d, hid, hfind, hd⟩ := hm.exists_of_listed hg hnames.listed
  have hexportedId : (site.graph.node t).exportedId? = some id := by
    rw [Node.exportedId?, if_pos hexported, hid]
  have hlabel := hm.link_of_labels hnames.toLabels hd.name
  obtain ⟨rfl, hargs⟩ | ⟨rs, hargs, hrs, rfl⟩ :=
    h.of_exported hnames.mention? (Graph.mention?_of_listed hnames.listed) hexportedId
  · rw [Reader.typeText_ref hfind, hlabel, hnames.shown hprints, Graph.typeArguments_of_nil hargs]
    simp
  · have hargsText : Reader.argumentsText (rd.textsIn (some rs)) = .ok (site.graph.shownLayout
        (site.graph.typeArguments (site.graph.node p).typeParameters)).text :=
      Reader.argumentsText_reads (.some hargs (forall₂_imp_mem (fun a ha x hx =>
        argument_reads site (hkinds a ha) (fun v hv => hv.admissible (harguments a ha)) hx) hrs))
    rw [Reader.typeText_embedded, Reader.text_eq, hnames.shown hprints]
    simp only [Reader.assemble, Reader.typeTextIn_some, Reader.typeText_ref hfind, hargsText, hlabel]
    rfl

/-- A reference to an interface that is carried in place. -/
theorem interface_reads (hm : rd.Matches site.graph) (hprints : site.graph.PrintsFinitely p)
    {t : Place} (hp : site.graph.Labels p t) (ht : site.graph.PlainInterface t)
    (hargs : (site.graph.node p).arguments = [])
    (h : site.PositionOf [] P (rd.ReadsRecord site.graph) p v) :
    rd.typeText (some v) = .ok (site.graph.shownType p).text := by
  obtain ⟨r, rfl, hr⟩ := h.of_followed hp.mention? ht.unexported ht.carried hargs
  rw [Reader.typeText_embedded, hr.interface ht.kind ht.arguments, hm.link_of_labels hp hr.name,
    hp.shown hprints, Graph.typeArguments_of_nil hargs]
  simp

/-- A type that is carried as text or in place. -/
theorem flattened_reads (hc : site.Clean) (hprints : site.graph.PrintsFinitely p)
    (hclause : (site.graph.node p).kind ≠ .classType)
    (hrest : (site.graph.node p).kind = .baseType → (site.graph.node p).has .rest = false)
    (hstructural : (site.graph.node p).isStructural = true → site.graph.Structural p)
    (h : site.FlattenedOf [] P (rd.ReadsRecord site.graph) p v) :
    rd.typeText (some v) = .ok (site.graph.shownType p).text := by
  cases h with
  | heritage hk => contradiction
  | base hk =>
    rw [Graph.shownType_eq hprints (hrest hk), Reader.typeText_inline]
    simp only [Graph.typeRule, hk]
    rfl
  | text _ _ _ hs => rw [Reader.typeText_inline, hs hc hprints]
  | carried hs _ hr => rw [Reader.typeText_embedded, hr.type (.structural (hstructural hs)) hprints]
  | cut _ h | cutText _ h => cases h

/-- **An admissible type is read as it is printed** when the parts are. -/
theorem admissible_reads (hm : rd.Matches site.graph) (hc : site.Clean) (hg : site.graph.Sound)
    (hends : site.graph.Ends (.position p))
    (h : site.PositionOf [] (rd.ReadsType site.graph) (rd.ReadsRecord site.graph) p v)
    (hp : site.graph.Admissible p) : rd.typeText (some v) = .ok (site.graph.shownType p).text := by
  have hprints := hends.of_position
  cases hp with
  | text hrest hmention hid hclause hs =>
    exact flattened_reads hc hprints hclause hrest (fun hs' => by simp [hs] at hs')
      (h.flattened hmention hid)
  | quoted hmention hid htext =>
    obtain ⟨s, hs, rfl⟩ := h.of_quoted hmention hid htext
    rw [Reader.typeText_inline, hs hc hprints]
  | interface hp ht hargs => exact interface_reads hm hprints hp ht hargs h
  | mention hp => exact mention_reads hm hg hprints hp h
  | structural hid hp =>
    obtain ⟨hrest, hembedded, hreference⟩ := hp.kind
    refine flattened_reads hc hprints (fun hk => ?_) (fun _ => hrest) (fun _ => hp)
      (h.flattened (by simp [Node.mention?, hreference]) hid)
    simp [hk, Kind.isEmbedded] at hembedded

/-- **A type position is read as it is printed** when the parts are. -/
theorem position_reads (hm : rd.Matches site.graph) (hc : site.Clean) (hg : site.graph.Sound)
    (hends : site.graph.Ends (.position p))
    (h : site.PositionOf [] (rd.ReadsType site.graph) (rd.ReadsRecord site.graph) p v) :
    rd.ReadsType site.graph p v where
  admissible := admissible_reads hm hc hg hends h
  clause hp := by
    obtain ⟨hrest, hid, hk, -⟩ := id hp
    cases h.flattened (by simp [Node.mention?, hk, Kind.isReference]) hid with
    | heritage _ hrs => exact clause_reads hm hg hends hp hrs
    | base hk' => simp [hk] at hk'
    | text hk' => contradiction
    | carried hs => exact absurd hk (isStructural_kind hs).1
    | cut _ hactive | cutText _ hactive => cases hactive
  exported id hmention hid := h.eq_ref hmention hid
  interface hp := by
    obtain ⟨r, rfl, hr⟩ := (h.flattened (mention?_of_structural hp.carried) hp.unexported)
      |>.exists_of_structural hp.carried
    exact ⟨r, hr.name, by rw [Reader.typeText_embedded, hr.interface hp.kind hp.arguments]⟩

end Site

end SymbolDocs
