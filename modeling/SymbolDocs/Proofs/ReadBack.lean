import SymbolDocs.Proofs.Codec

/-!
# What a written record keeps

Writing a record and reading it again loses nothing but empty text: a name, a settings file, a tag or
a mark that is empty is read as absent. The format has no tags of its own, so this says in particular
that text, ids and records in type positions stay apart, and that a list that is there but empty is
not taken for an absent one.

* `Record.ReadAs` compares a record with what is read for it, field by field at every depth;
* `Record.toValue_normal`: what is left out when a record is read leaves no trace in its written form;
* `Record.read_written` is the result for records with integer ids.
-/

namespace SymbolDocs

/-- What stands in two type positions, when records are compared by `R`. -/
inductive TypeValue.Rel {ρ : Type} (R : ρ → ρ → Prop) : TypeValue ρ → TypeValue ρ → Prop
  | inline (s : String) : Rel R (.inline s) (.inline s)
  | ref (id : Scalar) : Rel R (.ref id) (.ref id)
  | embedded {a b : ρ} (h : R a b) : Rel R (.embedded a) (.embedded b)

/-- The second record is the first one, except that empty text is absent in it. -/
inductive Record.ReadAs : Record → Record → Prop
  | mk {r r' : Record} (kind : r'.kind = r.kind) (id : r'.id = r.id)
    (name : r'.name = presentText r.name) (flags : r'.flags = r.flags) (value : r'.value = r.value)
    (docs : r'.docs = r.docs.map Documentation.normal)
    (parameters : Option.Rel (List.Forall₂ ReadAs) r.parameters r'.parameters)
    (children : Option.Rel (List.Forall₂ ReadAs) r.children r'.children)
    (type : Option.Rel (TypeValue.Rel ReadAs) r.type r'.type)
    (typeParameters : Option.Rel (List.Forall₂ ReadAs) r.typeParameters r'.typeParameters)
    (resolvedType : Option.Rel (TypeValue.Rel ReadAs) r.resolvedType r'.resolvedType)
    (tsconfig : r'.tsconfig = presentText r.tsconfig) : ReadAs r r'

/-- The ids of a record are integers. -/
structure Record.IntIds (r : Record) : Prop where
  id : ∀ id, r.id = some id → ∃ n, id = .int n
  type : TypeValue.HasIntId r.type
  resolvedType : TypeValue.HasIntId r.resolvedType

theorem Record.IntIds.writable {r : Record} (h : r.IntIds) : r.Writable := by
  refine ⟨fun hid => ?_, h.type, h.resolvedType⟩
  obtain ⟨n, hn⟩ := h.id _ hid
  cases hn

/-! ## Empty text leaves no trace -/

theorem nonEmpty_presentText (s : Option String) : nonEmpty (presentText s) = nonEmpty s := by
  cases s with
  | none => rfl
  | some t => by_cases h : t = "" <;> simp [presentText, nonEmpty, h]

theorem DocSpan.toValue_normal (span : DocSpan) : span.normal.toValue = span.toValue := by
  obtain ⟨value, _ | tag⟩ := span
  · rfl
  · by_cases h : tag = "" <;> simp [normal, toValue, presentText, h]

theorem DocItem.textValue_normal (value : DocText) : textValue value.normal = textValue value := by
  cases value with
  | plain s => rfl
  | spans items =>
    have hspan : DocSpan.toValue ∘ DocSpan.normal = DocSpan.toValue := funext DocSpan.toValue_normal
    simp [DocText.normal, textValue, hspan]

theorem DocItem.toValue_normal (item : DocItem) : item.normal.toValue = item.toValue := by
  obtain ⟨value, _ | tag⟩ := item
  · simp [normal, toValue, presentText, textValue_normal]
  · by_cases h : tag = "" <;> simp [normal, toValue, presentText, textValue_normal, h]

theorem Documentation.toValue_normal (docs : Documentation) : docs.normal.toValue = docs.toValue := by
  have hmark : ∀ key s, markField key (presentText s) = markField key s := by
    rintro key (_ | t)
    · rfl
    · by_cases h : t = "" <;> simp [markField, presentText, h]
  have hitem : DocItem.toValue ∘ DocItem.normal = DocItem.toValue := funext DocItem.toValue_normal
  rw [toValue, toValue, normal, hmark, hmark, List.map_map, hitem]

namespace Record

mutual

/-- A record is written as the record without what is empty. -/
theorem toValue_normal : ∀ r : Record, r.normal.toValue = r.toValue
  | ⟨kind, id, name, flags, value, docs, parameters, children, type, typeParameters, resolvedType,
      tsconfig⟩ => by
    have hdocs : Documentation.toValue ∘ Documentation.normal = Documentation.toValue :=
      funext Documentation.toValue_normal
    rw [normal, toValue, toValue, listToValue?_normalIn parameters, listToValue?_normalIn children,
      listToValue?_normalIn typeParameters, typeToValue?_normalType type,
      typeToValue?_normalType resolvedType, nonEmpty_presentText, nonEmpty_presentText, Option.map_map,
      hdocs]

/-- Lists that may be absent. -/
theorem listToValue?_normalIn : ∀ rs : Option (List Record),
    listToValue? (normalIn rs) = listToValue? rs
  | none => by rw [normalIn]
  | some rs => by rw [normalIn, listToValue?, listToValue?, listToValues_normals rs]

/-- Lists. -/
theorem listToValues_normals : ∀ rs : List Record, listToValues (normals rs) = listToValues rs
  | [] => by rw [normals]
  | r :: rs => by rw [normals, listToValues, listToValues, toValue_normal r, listToValues_normals rs]

/-- Type positions. -/
theorem typeToValue?_normalType : ∀ v : Option (TypeValue Record),
    typeToValue? (normalType v) = typeToValue? v
  | none => by rw [normalType]
  | some (.inline s) => by rw [normalType]
  | some (.ref id) => by rw [normalType]
  | some (.embedded r) => by rw [normalType, typeToValue?, typeToValue?, toValue_normal r]

end

/-! ## Everything else is kept -/

mutual

/-- Leaving out what is empty changes nothing else. -/
theorem readAs_normal : ∀ r : Record, r.ReadAs r.normal
  | ⟨kind, id, name, flags, value, docs, parameters, children, type, typeParameters, resolvedType,
      tsconfig⟩ => by
    rw [normal]
    exact .mk rfl rfl rfl rfl rfl rfl (listIn_readAs parameters) (listIn_readAs children)
      (type_readAs type) (listIn_readAs typeParameters) (type_readAs resolvedType) rfl

/-- Lists that may be absent. -/
theorem listIn_readAs : ∀ rs : Option (List Record),
    Option.Rel (List.Forall₂ ReadAs) rs (normalIn rs)
  | none => by
    rw [normalIn]
    exact .none
  | some rs => by
    rw [normalIn]
    exact .some (list_readAs rs)

/-- Lists. -/
theorem list_readAs : ∀ rs : List Record, List.Forall₂ ReadAs rs (normals rs)
  | [] => by
    rw [normals]
    exact .nil
  | r :: rs => by
    rw [normals]
    exact .cons (readAs_normal r) (list_readAs rs)

/-- Type positions. -/
theorem type_readAs : ∀ v : Option (TypeValue Record),
    Option.Rel (TypeValue.Rel ReadAs) v (normalType v)
  | none => by
    rw [normalType]
    exact .none
  | some (.inline s) => by
    rw [normalType]
    exact .some (.inline s)
  | some (.ref id) => by
    rw [normalType]
    exact .some (.ref id)
  | some (.embedded r) => by
    rw [normalType]
    exact .some (.embedded (readAs_normal r))

end

/-- **The written form of a record.** A record whose ids are integers at every depth is read back from
its written form, as the same record up to empty text, and what is read is written the same way. -/
theorem read_written {r : Record} (h : r.All IntIds) :
    ∃ r', ofValue r.toValue = .ok r' ∧ r.ReadAs r' ∧ r'.toValue = r.toValue :=
  ⟨r.normal, ofValue_toValue r fun x hx => (h x hx).writable, r.readAs_normal, r.toValue_normal⟩

/-! ## A record with everything in it -/

/-- A method with an empty value, no parameters and documentation with a link, which returns a union
of a text and of a mention of a declaration. -/
def sampleMethod : Record :=
  { kind := .method, id := some (.int 7), name := some "pick", flags := ⟨5⟩, value := .text ""
    docs := some ⟨[⟨.spans [⟨"see ", some ""⟩, ⟨"Box", some "link"⟩], some "returns"⟩], true, some "",
      none⟩
    parameters := some [], children := some []
    type := some (.embedded { kind := .typeUnion, children := some [
      { kind := .literal, name := some "" },
      { kind := .reference, type := some (.ref (.int (-3))) }] })
    resolvedType := some (.inline ""), tsconfig := some "" }

theorem sampleMethod_intIds : sampleMethod.All IntIds := by
  have hflat : ∀ r : Record, r.id = none → TypeValue.HasIntId r.type → r.resolvedType = none →
      r.IntIds := by
    intro r hid htype hresolved
    refine ⟨fun id h => ?_, htype, fun id h => ?_⟩
    · rw [hid] at h
      cases h
    · rw [hresolved] at h
      cases h
  have hunion : ∀ x, sampleMethod.Part x → x.All IntIds := by
    rintro x (hx | hx | hx | hx | hx) <;> cases hx
    refine .of_parts (hflat _ rfl (fun id h => by cases h) rfl) ?_
    rintro x (hx | hx | hx | hx | hx)
    · have hx : x ∈ [{ kind := .literal, name := some "" },
        { kind := .reference, type := some (.ref (.int (-3))) }] := hx
      rcases List.mem_cons.mp hx with rfl | hx
      · exact .of_flat (hflat _ rfl (fun id h => by cases h) rfl) rfl rfl rfl (by simp) rfl
      · obtain rfl := List.mem_singleton.mp hx
        refine .of_flat (hflat _ rfl (fun id h => ?_) rfl) rfl rfl rfl (by simp) rfl
        cases h
        exact ⟨-3, rfl⟩
    all_goals cases hx
  refine .of_parts ⟨fun id h => ?_, fun id h => (by cases h), fun id h => (by cases h)⟩ hunion
  cases h
  exact ⟨7, rfl⟩

/-- The method is read back without its empty tags and names. -/
theorem read_written_sample : sampleMethod.All IntIds ∧
    ∃ r', ofValue sampleMethod.toValue = .ok r' ∧ sampleMethod.ReadAs r' ∧
      r'.toValue = sampleMethod.toValue :=
  ⟨sampleMethod_intIds, read_written sampleMethod_intIds⟩

end Record

end SymbolDocs
