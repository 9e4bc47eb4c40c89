import SymbolDocs.Proofs.Lookup

/-!
# The texts of a reader

The forms of a record are put together from those of its parts. This module states the equations for
that, and that a record that was written and read back prints as before.

* `Reader.text_eq` unfolds a record by one level;
* `Reader.text_normal` is about records read back;
* `Reader.text_asRecord` says that a type argument prints as it would in a type position;
* `Reader.text_readable` says that reading does not fail.
-/

namespace SymbolDocs

namespace Reader

variable {rd : Reader}

/-! ## One level at a time -/

theorem texts_eq_map (rd : Reader) (rs : List Record) : rd.texts rs = rs.map rd.text := by
  induction rs with
  | nil => rw [texts, List.map_nil]
  | cons r rest ih => rw [texts, List.map_cons, ih]

theorem textsIn_eq_map (rd : Reader) (rs : Option (List Record)) :
    rd.textsIn rs = rs.map fun rs => rs.map rd.text := by
  cases rs with
  | none => rw [textsIn, Option.map_none]
  | some rs => rw [textsIn, texts_eq_map, Option.map_some]

theorem textsIn_getD (rd : Reader) (rs : Option (List Record)) :
    (rd.textsIn rs).getD [] = (rs.getD []).map rd.text := by
  rw [textsIn_eq_map]
  cases rs <;> rfl

theorem text_eq (rd : Reader) (r : Record) :
    rd.text r = rd.assemble r (rd.textsIn r.parameters) (rd.textsIn r.children)
      (rd.textsIn r.typeParameters) (rd.typeTextIn r.type) := by
  cases r
  rw [text]

@[simp] theorem typeText_inline (s : String) : rd.typeText (some (.inline s)) = .ok s := by
  rw [typeText, typeTextIn]
  rfl

@[simp] theorem typeText_embedded (r : Record) :
    rd.typeText (some (.embedded r)) = (rd.text r).type := by
  rw [typeText, typeTextIn]
  rfl

theorem typeText_ref {id : Scalar} {d : Record} (h : find? id rd.byId = some d) :
    rd.typeText (some (.ref id)) = .ok (rd.link d) := by
  rw [typeText, typeTextIn, h]
  rfl

/-- Whatever stands in a type position has a text. -/
theorem typeTextIn_some (rd : Reader) (v : TypeValue Record) :
    rd.typeTextIn (some v) = some (rd.typeText (some v)) := by
  cases v with
  | inline s => rw [typeText, typeTextIn, Option.getD_some]
  | ref id =>
    rw [typeText, typeTextIn]
    cases find? id rd.byId <;> rfl
  | embedded r => rw [typeText, typeTextIn, Option.getD_some]

/-- A reference prints what it refers to with its type arguments. -/
theorem text_reference {r : Record} (hk : r.kind = .reference) : (rd.text r).type = do
    return (← rd.typeText r.type) ++ (← argumentsText (rd.textsIn r.typeParameters)) := by
  rw [text_eq]
  simp only [assemble, hk]
  rfl

theorem text_reference_of_none {r : Record} (hk : r.kind = .reference)
    (hargs : r.typeParameters = none) : (rd.text r).type = rd.typeText r.type := by
  rw [text_reference hk, hargs, textsIn, argumentsText]
  cases rd.typeText r.type with
  | error e => rfl
  | ok s => simp [bind, Except.bind, pure, Except.pure]

/-- A type argument prints as it would in a type position. -/
theorem text_asRecord (rd : Reader) (v : TypeValue Record) :
    (rd.text v.asRecord).type = rd.typeText (some v) := by
  cases v with
  | inline s => simp [TypeValue.asRecord, text_eq, assemble, Record.nameText]
  | ref id => exact text_reference_of_none rfl rfl
  | embedded r => simp [TypeValue.asRecord]

/-! ## Records that are read back -/

end Reader

theorem Record.normal_flags (r : Record) : r.normal.flags = r.flags := by
  cases r
  rw [normal]

theorem Record.normal_value (r : Record) : r.normal.value = r.value := by
  cases r
  rw [normal]

theorem Record.normal_children (r : Record) : r.normal.children = normalIn r.children := by
  cases r
  rw [normal]

theorem Record.normal_type (r : Record) : r.normal.type = normalType r.type := by
  cases r
  rw [normal]

theorem Record.nameText_normal (r : Record) : r.normal.nameText = r.nameText := by
  rw [nameText, nameText, normal_name]
  cases r.name with
  | none => rfl
  | some s =>
    rw [presentText]
    split
    · rename_i h
      rw [h]
      rfl
    · rfl

theorem Record.plainLink_normal (r : Record) : r.normal.plainLink = r.plainLink := by
  rw [plainLink, plainLink, nameText_normal]

namespace Reader

variable {rd : Reader}

theorem refRecord?_normalType (v : Option (TypeValue Record)) :
    rd.refRecord? (Record.normalType v) = rd.refRecord? v := by
  rcases v with _ | _ | _ | _ <;> simp only [Record.normalType, refRecord?]

theorem heritageEntries_normal (own : Bool) (rs : List Record) (ts : List RecordText) :
    rd.heritageEntries own (rs.map Record.normal) ts = rd.heritageEntries own rs ts := by
  induction rs generalizing ts with
  | nil => rfl
  | cons r rest ih =>
    cases ts with
    | nil => rfl
    | cons t ts =>
      rw [List.map_cons, heritageEntries, heritageEntries, ih, Record.normal_type,
        refRecord?_normalType, Record.plainLink_normal]
      rcases r.type with _ | _ | _ | _ <;> rw [Record.normalType]

theorem heritageText_normal (r : Record) (children : Option (List RecordText)) :
    rd.heritageText r.normal children = rd.heritageText r children := by
  have hchildren : r.normal.children.getD [] = (r.children.getD []).map Record.normal := by
    rw [Record.normal_children]
    cases r.children with
    | none => rfl
    | some rs => rw [Record.normalIn, Record.normals_eq_map, Option.getD_some, Option.getD_some]
  rw [heritageText, heritageText, hchildren, heritageEntries_normal, Record.normal_type,
    refRecord?_normalType]

theorem nameText_normal (r : Record) : nameText r.normal = nameText r := by
  rw [nameText, nameText, r.nameText_normal, r.normal_kind, r.normal_flags]

theorem headingType_normal (r : Record) (type : Option (Except Fault String)) :
    headingType r.normal type = headingType r type := by
  unfold headingType
  rw [r.nameText_normal, r.normal_kind]

theorem assemble_normal (hlink : ∀ r, rd.link r.normal = rd.link r) (r : Record)
    (parameters children typeParameters : Option (List RecordText))
    (type : Option (Except Fault String)) :
    rd.assemble r.normal parameters children typeParameters type =
      rd.assemble r parameters children typeParameters type := by
  simp only [assemble, functionText, headingText, headingValue, parameterText, nameText_normal,
    headingType_normal, heritageText_normal, hlink, Record.nameText_normal, Record.plainLink_normal,
    Record.normal_kind, Record.normal_flags, Record.normal_value]

mutual

/-- A record that is read back prints as it did before. -/
theorem text_normal (hlink : ∀ r, rd.link r.normal = rd.link r) : ∀ r : Record,
    rd.text r.normal = rd.text r
  | ⟨kind, id, name, flags, value, docs, parameters, children, type, typeParameters, resolvedType,
      tsconfig⟩ => by
    rw [text_eq, text_eq, assemble_normal hlink, Record.normal, textsIn_normal hlink parameters,
      textsIn_normal hlink children, textsIn_normal hlink typeParameters,
      typeTextIn_normal hlink type]

theorem textsIn_normal (hlink : ∀ r, rd.link r.normal = rd.link r) : ∀ rs : Option (List Record),
    rd.textsIn (Record.normalIn rs) = rd.textsIn rs
  | none => by
    rw [Record.normalIn]
  | some rs => by
    rw [Record.normalIn, textsIn, textsIn, texts_normal hlink rs]

theorem texts_normal (hlink : ∀ r, rd.link r.normal = rd.link r) : ∀ rs : List Record,
    rd.texts (Record.normals rs) = rd.texts rs
  | [] => by
    rw [Record.normals]
  | r :: rs => by
    rw [Record.normals, texts, texts, text_normal hlink r, texts_normal hlink rs]

theorem typeTextIn_normal (hlink : ∀ r, rd.link r.normal = rd.link r) :
    ∀ v : Option (TypeValue Record), rd.typeTextIn (Record.normalType v) = rd.typeTextIn v
  | none => by
    rw [Record.normalType]
  | some (.inline s) => by
    rw [Record.normalType]
  | some (.ref id) => by
    rw [Record.normalType]
  | some (.embedded r) => by
    rw [Record.normalType, typeTextIn, typeTextIn, text_normal hlink r]

end

end Reader

/-! ## Records that can be read -/

/-- The initial value of a record is text, as that of a node. -/
def Record.Valued (r : Record) : Prop :=
  ∃ value, r.value = .ofText? value

/-- A record has a text in each of its forms. -/
structure RecordText.Readable (t : RecordText) : Prop where
  type : ∃ s, t.type = .ok s
  heading : ∃ s, t.heading = .ok s
  member : ∃ s, t.member = .ok s
  parameter : ∃ s, t.parameter = .ok s

namespace Reader

variable {rd : Reader}

theorem joinTexts_ok (sep : String) {form : RecordText → Except Fault String} {ts : List RecordText}
    (h : ∀ t ∈ ts, ∃ s, form t = .ok s) : ∃ s, joinTexts sep (ts.map form) = .ok s := by
  suffices hall : ∃ ss, (ts.map form).mapM id = .ok ss by
    obtain ⟨ss, hss⟩ := hall
    exact ⟨_, by rw [joinTexts, hss]; rfl⟩
  induction ts with
  | nil => exact ⟨[], rfl⟩
  | cons t ts ih =>
    obtain ⟨s, hs⟩ := h t List.mem_cons_self
    obtain ⟨ss, hss⟩ := ih fun t ht => h t (List.mem_cons_of_mem _ ht)
    exact ⟨s :: ss, by rw [List.map_cons, List.mapM_cons, id_eq, hs, hss]; rfl⟩

theorem argumentsText_ok {ts : Option (List RecordText)} (h : ∀ t ∈ ts.getD [], t.Readable) :
    ∃ s, argumentsText ts = .ok s := by
  unfold argumentsText
  split
  · exact ⟨_, rfl⟩
  · exact ⟨_, rfl⟩
  · rename_i ts _
    obtain ⟨s, hs⟩ := joinTexts_ok ", " fun t (ht : t ∈ ts) => (h t ht).type
    exact ⟨_, by rw [hs]; rfl⟩

theorem parametersText_ok {ts : Option (List RecordText)} (h : ∀ t ∈ ts.getD [], t.Readable) :
    ∃ s, parametersText ts = .ok s := by
  unfold parametersText
  split
  · exact ⟨_, rfl⟩
  · rename_i ts
    obtain ⟨s, hs⟩ := joinTexts_ok ", " fun t (ht : t ∈ ts) => (h t ht).parameter
    exact ⟨_, by rw [hs]; rfl⟩

theorem headingValue_ok {r : Record} (h : r.Valued) : ∃ s, headingValue r = .ok s := by
  obtain ⟨value, hvalue⟩ := h
  rw [headingValue, hvalue]
  cases value with
  | none => exact ⟨_, rfl⟩
  | some v =>
    split
    · exact ⟨_, rfl⟩
    · exact ⟨_, rfl⟩

theorem heritageEntries_ok (rd : Reader) (own : Bool) (rs : List Record) {ts : List RecordText}
    (h : ∀ t ∈ ts, t.Readable) : ∃ entries, rd.heritageEntries own rs ts = .ok entries := by
  induction rs generalizing ts with
  | nil => exact ⟨[], rfl⟩
  | cons r rs ih =>
    cases ts with
    | nil => exact ⟨[], rfl⟩
    | cons t ts =>
      obtain ⟨s, hs⟩ := (h t List.mem_cons_self).type
      obtain ⟨entries, hentries⟩ := ih fun t ht => h t (List.mem_cons_of_mem _ ht)
      rw [heritageEntries, hs, hentries]
      split
      · exact ⟨_, rfl⟩
      · exact ⟨_, rfl⟩

section

variable {r : Record} {parameters children typeParameters : Option (List RecordText)}
  {type : Option (Except Fault String)} (hparameters : ∀ t ∈ parameters.getD [], t.Readable)
  (hchildren : ∀ t ∈ children.getD [], t.Readable)
  (htypeParameters : ∀ t ∈ typeParameters.getD [], t.Readable)
  (htype : ∀ t, type = some t → ∃ s, t = .ok s)
include htype

theorem getD_ok (default : String) : ∃ s, type.getD (.ok default) = .ok s := by
  cases type with
  | none => exact ⟨default, rfl⟩
  | some t => exact htype t rfl

theorem headingType_ok : ∃ s, headingType r type = .ok s := by
  unfold headingType
  split
  · exact ⟨_, rfl⟩
  · rename_i t
    obtain ⟨s, hs⟩ := htype t rfl
    rw [hs]
    split <;> exact ⟨_, rfl⟩

theorem parameterText_ok : ∃ s, parameterText r type = .ok s := by
  obtain ⟨s, hs⟩ := getD_ok htype ""
  exact ⟨_, by rw [parameterText, hs]; rfl⟩

include hparameters

theorem indexText_ok : ∃ s, indexText parameters type = .ok s := by
  obtain ⟨keys, hkeys⟩ := joinTexts_ok ", " fun t ht => (hparameters t ht).heading
  obtain ⟨s, hs⟩ := getD_ok htype "?"
  exact ⟨_, by rw [indexText, hkeys, hs]; rfl⟩

include htypeParameters

theorem functionText_ok : ∃ s, functionText r parameters typeParameters type = .ok s := by
  obtain ⟨arguments, harguments⟩ := argumentsText_ok htypeParameters
  obtain ⟨list, hlist⟩ := parametersText_ok hparameters
  obtain ⟨s, hs⟩ := getD_ok htype ""
  exact ⟨_, by rw [functionText, harguments, hlist, hs]; rfl⟩

theorem headingText_ok (hr : r.Valued) :
    ∃ s, headingText r parameters typeParameters type = .ok s := by
  obtain ⟨arguments, harguments⟩ := argumentsText_ok htypeParameters
  obtain ⟨list, hlist⟩ := parametersText_ok hparameters
  obtain ⟨shown, hshown⟩ := headingType_ok (r := r) htype
  obtain ⟨value, hvalue⟩ := headingValue_ok hr
  unfold headingText
  split
  · exact ⟨_, rfl⟩
  · exact indexText_ok hparameters htype
  · exact ⟨_, by rw [hshown, hvalue, harguments, hlist]; rfl⟩

include hchildren

/-- A record has texts when its parts have. -/
theorem assemble_readable (rd : Reader) (hr : r.Valued) :
    (rd.assemble r parameters children typeParameters type).Readable := by
  have hheading := headingText_ok hparameters htypeParameters htype hr
  have hfunction := functionText_ok (r := r) hparameters htypeParameters htype
  obtain ⟨arguments, harguments⟩ := argumentsText_ok htypeParameters
  obtain ⟨s, hs⟩ := getD_ok htype "?"
  refine ⟨?_, hheading, ?_, parameterText_ok htype⟩
  · simp only [assemble]
    split
    · exact ⟨_, by rw [hs, harguments]; rfl⟩
    · exact ⟨_, rfl⟩
    · exact ⟨_, rfl⟩
    · exact getD_ok htype _
    · exact joinTexts_ok " | " fun t ht => (hchildren t ht).type
    · obtain ⟨ms, hms⟩ := joinTexts_ok "; " fun t ht => (hchildren t ht).member
      exact ⟨_, by rw [hms]; rfl⟩
    · exact ⟨_, by rw [hs]; rfl⟩
    · exact ⟨_, by rw [harguments]; rfl⟩
    · exact ⟨_, by rw [harguments]; rfl⟩
    · exact ⟨_, by rw [harguments]; rfl⟩
    · exact hfunction
    · exact hfunction
    · exact hfunction
    · obtain ⟨entries, hentries⟩ := rd.heritageEntries_ok _ (r.children.getD []) hchildren
      exact ⟨_, by rw [heritageText, hentries]; rfl⟩
    · split
      · rename_i a b rest
        obtain ⟨sa, hsa⟩ := (hchildren a (by simp)).type
        obtain ⟨sb, hsb⟩ := (hchildren b (by simp)).type
        exact ⟨_, by rw [hsa, hsb]; rfl⟩
      · exact ⟨_, rfl⟩
    · exact ⟨_, rfl⟩
  · simp only [assemble]
    split
    · exact indexText_ok hparameters htype
    · rename_i c rest _
      obtain ⟨sc, hsc⟩ := (hchildren c (by simp)).type
      exact ⟨_, by rw [hsc]; rfl⟩
    · exact hheading

end

mutual

/-- **Reading does not fail** on records whose values are text. -/
theorem text_readable : ∀ r : Record, r.All Record.Valued → (rd.text r).Readable
  | ⟨kind, id, name, flags, value, docs, parameters, children, type, typeParameters, resolvedType,
      tsconfig⟩, h => by
    rw [text_eq]
    exact assemble_readable (textsIn_readable parameters fun x hx => h.part (.parameter hx))
      (textsIn_readable children fun x hx => h.part (.child hx))
      (textsIn_readable typeParameters fun x hx => h.part (.typeParameter hx))
      (typeTextIn_ok type fun x hx => h.part (.type hx)) rd h.here

theorem textsIn_readable : ∀ rs : Option (List Record), (∀ x ∈ rs.getD [], x.All Record.Valued) →
    ∀ t ∈ (rd.textsIn rs).getD [], t.Readable
  | none, _, t, ht => by
    rw [textsIn] at ht
    cases ht
  | some rs, h, t, ht => by
    rw [textsIn] at ht
    exact texts_readable rs h t ht

theorem texts_readable : ∀ rs : List Record, (∀ x ∈ rs, x.All Record.Valued) →
    ∀ t ∈ rd.texts rs, t.Readable
  | [], _, t, ht => by
    rw [texts] at ht
    cases ht
  | r :: rs, h, t, ht => by
    rw [texts] at ht
    rcases List.mem_cons.mp ht with rfl | ht
    · exact text_readable r (h r List.mem_cons_self)
    · exact texts_readable rs (fun x hx => h x (List.mem_cons_of_mem _ hx)) t ht

theorem typeTextIn_ok : ∀ v : Option (TypeValue Record),
    (∀ r, v = some (.embedded r) → r.All Record.Valued) →
    ∀ t, rd.typeTextIn v = some t → ∃ s, t = .ok s
  | none, _, t, ht => by
    rw [typeTextIn] at ht
    cases ht
  | some (.inline s), _, t, ht => by
    rw [typeTextIn] at ht
    cases ht
    exact ⟨s, rfl⟩
  | some (.ref id), _, t, ht => by
    rw [typeTextIn] at ht
    split at ht <;>
    · cases ht
      exact ⟨_, rfl⟩
  | some (.embedded r), h, t, ht => by
    rw [typeTextIn] at ht
    cases ht
    exact (text_readable r (h r rfl)).type

end

end Reader

end SymbolDocs
