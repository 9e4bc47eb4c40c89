import SymbolDocs.Proofs.Parts

/-!
# Reading a written record

Writing leaves out what is empty, so a record that is read back has no empty names and tags. Apart
from that it is the record that was written.

* `Documentation.normal` and `Record.normal` leave out what is empty;
* `Record.Writable` is what a record needs to be read back: its ids are there, and the ids in its type
  positions are integers, since text in a type position stands for itself;
* `Record.ofValue_toValue` reads a written record back.
-/

namespace SymbolDocs

/-- Text that is there only when it is not empty. -/
def presentText : Option String → Option String
  | some s => if s = "" then none else some s
  | none => none

/-! ## Fields -/

namespace Fields

theorem get?_append (key : Scalar) (a b : Fields) :
    get? key (a ++ b) = (get? key a).or (get? key b) := by
  induction a with
  | nil => rfl
  | cons e rest ih =>
    obtain ⟨k, v⟩ := e
    rw [List.cons_append, get?, get?]
    split
    · rfl
    · exact ih

@[simp] theorem get?_nil (key : Scalar) : get? key [] = none := rfl

theorem get?_singleton (key k : String) (v : Value) :
    get? (.text key) [(.text k, v)] = if k = key then some v else none := by
  by_cases h : k = key <;> simp [get?, h]

theorem get?_optionalField (key k : String) (v : Option Value) :
    get? (.text key) (optionalField k v) = if k = key then v else none := by
  cases v with
  | none => simp [optionalField]
  | some v => simp [optionalField, get?_singleton]

end Fields

theorem optionalText_nonEmpty (s : Option String) :
    ((nonEmpty s).getD .null).optionalText = .ok (presentText s) := by
  cases s with
  | none => rfl
  | some t =>
    by_cases h : t = ""
    · simp [nonEmpty, presentText, h, Value.optionalText]
    · simp [nonEmpty, presentText, h, Value.optionalText]

/-! ## Documentation -/

/-- A span without an empty tag. -/
def DocSpan.normal (span : DocSpan) : DocSpan :=
  { span with tag := presentText span.tag }

/-- What an item says, without empty tags. -/
def DocText.normal : DocText → DocText
  | .plain s => .plain s
  | .spans items => .spans (items.map DocSpan.normal)

/-- An item without empty tags. -/
def DocItem.normal (item : DocItem) : DocItem :=
  { value := item.value.normal, tag := presentText item.tag }

/-- A block without empty tags and marks. -/
def Documentation.normal (docs : Documentation) : Documentation :=
  { content := docs.content.map DocItem.normal, beta := docs.beta
    tagName := presentText docs.tagName, role := presentText docs.role }

theorem DocSpan.ofValue_toValue (span : DocSpan) : DocSpan.ofValue span.toValue = .ok span.normal := by
  obtain ⟨value, _ | tag⟩ := span
  · rfl
  · by_cases h : tag = ""
    · subst h
      rfl
    · simp only [toValue, if_neg h, normal, presentText, Value.record, List.map_cons, List.map_nil]
      rfl

theorem mapM_ok {α β γ : Type} {f : α → β} {g : β → Except Fault γ} {h : α → γ} {xs : List α}
    (hg : ∀ x ∈ xs, g (f x) = .ok (h x)) : (xs.map f).mapM g = .ok (xs.map h) := by
  induction xs with
  | nil => rfl
  | cons x rest ih =>
    rw [List.map_cons, List.mapM_cons, hg x List.mem_cons_self,
      ih fun y hy => hg y (List.mem_cons_of_mem _ hy)]
    rfl

/-- What an item says is read back from any mapping that has it at its key. -/
theorem DocText.ofFields_textValue {fields : Fields} {value : DocText}
    (h : Fields.get? (.text "value") fields = some (DocItem.textValue value)) :
    DocText.ofFields fields = .ok value.normal := by
  cases value with
  | plain s =>
    simp only [DocText.ofFields, h, DocItem.textValue, Value.textField]
    rfl
  | spans items =>
    simp only [DocText.ofFields, h, DocItem.textValue,
      mapM_ok fun span _ => DocSpan.ofValue_toValue span]
    rfl

theorem DocItem.ofValue_toValue (item : DocItem) : DocItem.ofValue item.toValue = .ok item.normal := by
  obtain ⟨value, tag⟩ := item
  have hread : ∀ (fields : Fields) (tag' : Option String),
      Fields.get? (.text "value") fields = some (textValue value) →
      ((Value.map fields).field "tag").optionalText = .ok tag' →
      ofValue (.map fields) = .ok ⟨value.normal, tag'⟩ := by
    intro fields tag' hvalue htag
    simp only [ofValue, DocText.ofFields_textValue hvalue, htag]
    rfl
  cases tag with
  | none => exact hread _ _ rfl rfl
  | some tag =>
    by_cases h : tag = ""
    · subst h
      exact hread _ _ rfl rfl
    · simp only [toValue, if_neg h, normal, presentText]
      exact hread _ _ rfl rfl

theorem Documentation.ofValue_toValue (docs : Documentation) :
    Documentation.ofValue docs.toValue = .ok docs.normal := by
  obtain ⟨content, beta, tagName, role⟩ := docs
  have hread : ∀ fields : Fields,
      (Value.map fields).field "content" = .list (content.map DocItem.toValue) →
      ((Value.map fields).field "beta").truthy = beta →
      ((Value.map fields).field "tagName").optionalText = .ok (presentText tagName) →
      ((Value.map fields).field "role").optionalText = .ok (presentText role) →
      ofValue (.map fields) = .ok (normal ⟨content, beta, tagName, role⟩) := by
    intro fields hcontent hbeta htagName hrole
    have hitems : (content.map DocItem.toValue).mapM DocItem.ofValue =
        .ok (content.map DocItem.normal) := mapM_ok fun item _ => item.ofValue_toValue
    simp only [ofValue, hcontent, hbeta, htagName, hrole]
    cases content with
    | nil => rfl
    | cons item rest =>
      have htruthy : (Value.list ((item :: rest).map DocItem.toValue)).truthy = true := rfl
      rw [if_pos htruthy]
      simp only [Value.items, bind, Except.bind, hitems]
      rfl
  have hmark : ∀ (key k : String) (s : Option String), Fields.get? (.text key)
      ((markField k s).map fun e => (Scalar.text e.1, e.2)) = if k = key then nonEmpty s else none := by
    intro key k s
    cases s with
    | none => simp [markField, nonEmpty]
    | some t => by_cases h : t = "" <;> simp [markField, Fields.get?_singleton, nonEmpty, h]
  have hbeta : ∀ key, Fields.get? (.text key)
      ((if beta then [("beta", Value.bool true)] else []).map fun e => (Scalar.text e.1, e.2)) =
      if "beta" = key ∧ beta = true then some (.bool true) else none := by
    intro key
    cases beta <;> simp [Fields.get?_singleton]
  refine hread _ ?_ ?_ ?_ ?_
  all_goals
    simp only [Value.field, List.map_append, Fields.get?_append, hmark, hbeta, List.map_cons,
      List.map_nil, Fields.get?_singleton]
    simp [optionalText_nonEmpty]
  cases beta <;> rfl

/-! ## Records -/

mutual

/-- A record without empty names and tags. -/
def Record.normal : Record → Record
  | ⟨kind, id, name, flags, value, docs, parameters, children, type, typeParameters, resolvedType,
      tsconfig⟩ =>
    ⟨kind, id, presentText name, flags, value, docs.map Documentation.normal,
      Record.normalIn parameters, Record.normalIn children, Record.normalType type,
      Record.normalIn typeParameters, Record.normalType resolvedType, presentText tsconfig⟩

/-- The same for a list that may be absent. -/
def Record.normalIn : Option (List Record) → Option (List Record)
  | none => none
  | some rs => some (Record.normals rs)

/-- The same for a list. -/
def Record.normals : List Record → List Record
  | [] => []
  | r :: rs => Record.normal r :: Record.normals rs

/-- The same for a type position. -/
def Record.normalType : Option (TypeValue Record) → Option (TypeValue Record)
  | none => none
  | some (.inline s) => some (.inline s)
  | some (.ref id) => some (.ref id)
  | some (.embedded r) => some (.embedded (Record.normal r))

end

/-- The id in a type position is an integer. -/
def TypeValue.HasIntId (v : Option (TypeValue Record)) : Prop :=
  ∀ id, v = some (.ref id) → ∃ n, id = .int n

/-- The ids of a record can be read back. -/
structure Record.Writable (r : Record) : Prop where
  id : r.id ≠ some .null
  type : TypeValue.HasIntId r.type
  resolvedType : TypeValue.HasIntId r.resolvedType

namespace Record

/-- The fields of a written record. -/
def fields (r : Record) : Fields :=
  [(.text "kind", .int r.kind.code)] ++
    optionalField "id" (r.id.map .scalar) ++
    optionalField "name" (nonEmpty r.name) ++
    optionalField "flags" (if r.flags.bits = 0 then none else some (.int r.flags.bits)) ++
    optionalField "value" (if r.value.isNull then none else some r.value) ++
    optionalField "docs" (r.docs.map Documentation.toValue) ++
    optionalField "parameters" (listToValue? r.parameters) ++
    optionalField "children" (listToValue? r.children) ++
    optionalField "type" (typeToValue? r.type) ++
    optionalField "typeP" (listToValue? r.typeParameters) ++
    optionalField "resolvedType" (typeToValue? r.resolvedType) ++
    optionalField "tsconfig" (nonEmpty r.tsconfig)

theorem toValue_eq (r : Record) : r.toValue = .map r.fields := by
  cases r
  rw [toValue]
  rfl

theorem listOfField_eq_none {key : String} {fs : Fields} (h : Fields.get? (.text key) fs = none) :
    listOfField key fs = .ok none := by
  rw [listOfField]
  split <;> simp_all

theorem listOfField_eq_some {key : String} {fs : Fields} {items : List Value} {rs : List Record}
    (h : Fields.get? (.text key) fs = some (.list items)) (hrs : listOfValues items = .ok rs) :
    listOfField key fs = .ok (some rs) := by
  rw [listOfField]
  split
  case h_3 items' hitems =>
    rw [h] at hitems
    cases hitems
    rw [hrs]
    rfl
  all_goals simp_all

theorem typeOfField_eq (key : String) (fs : Fields) :
    typeOfField key fs = match Fields.get? (.text key) fs with
      | none => .ok none
      | some v => typeOfValue v := by
  rw [typeOfField]
  split <;> rename_i h <;> rw [h]

theorem flags_read (flags : Flags) :
    Flags.ofValue (((if flags.bits = 0 then none else some (Value.int flags.bits)).getD .null)) =
      .ok flags := by
  obtain ⟨bits⟩ := flags
  by_cases h : bits = 0
  · subst h
    rfl
  · simp only [if_neg h, Option.getD_some, Flags.ofValue]
    rfl

theorem value_read (value : Value) :
    (if value.isNull then none else some value).getD .null = value := by
  cases value with
  | scalar s => cases s <;> rfl
  | list | map => rfl

theorem id_read {id : Option Scalar} (h : id ≠ some .null) :
    Node.idOfValue (.scalar (id.getD .null)) = .ok id := by
  cases id with
  | none => rfl
  | some s =>
    cases s with
    | null => exact absurd rfl h
    | _ => rfl

theorem kind_read (k : Kind) : Kind.ofNumber (.int k.code) = .ok k := by
  have h : Kind.ofCode? (k.code : Int) = some k := Kind.ofCode?_code k
  simp [Kind.ofNumber, h]

/-- The fields of a mapping read one by one. -/
theorem ofValue_of_fields {fs : Fields} {r : Record}
    (hkind : Fields.get? (.text "kind") fs = some (.int r.kind.code))
    (hid : Node.idOfValue ((Value.map fs).field "id") = .ok r.id)
    (hname : ((Value.map fs).field "name").optionalText = .ok r.name)
    (hflags : Flags.ofValue ((Value.map fs).field "flags") = .ok r.flags)
    (hvalue : (Value.map fs).field "value" = r.value)
    (hdocs : (if ((Value.map fs).field "docs").isNull then pure none
      else (Documentation.ofValue ((Value.map fs).field "docs")).map some) = .ok r.docs)
    (hparameters : listOfField "parameters" fs = .ok r.parameters)
    (hchildren : listOfField "children" fs = .ok r.children)
    (htype : typeOfField "type" fs = .ok r.type)
    (htypeParameters : listOfField "typeP" fs = .ok r.typeParameters)
    (hresolved : typeOfField "resolvedType" fs = .ok r.resolvedType)
    (htsconfig : ((Value.map fs).field "tsconfig").optionalText = .ok r.tsconfig) :
    ofValue (.map fs) = .ok r := by
  obtain ⟨kind, id, name, flags, value, docs, parameters, children, type, typeParameters, resolvedType,
    tsconfig⟩ := r
  rw [ofValue]
  simp only [hkind, kind_read, hid, hname, hflags, hvalue, hparameters, hchildren, htype,
    htypeParameters, hresolved, htsconfig, bind, Except.bind, pure, Except.pure]
  split at hdocs <;> rename_i hnull
  · cases hdocs
    rw [if_pos hnull]
  · rw [if_neg hnull, hdocs]

theorem docs_read (docs : Option Documentation) :
    (if ((docs.map Documentation.toValue).getD .null).isNull then pure none
      else (Documentation.ofValue ((docs.map Documentation.toValue).getD .null)).map some) =
      (.ok (docs.map Documentation.normal) : Except Fault (Option Documentation)) := by
  cases docs with
  | none => rfl
  | some docs =>
    have hnull : docs.toValue.isNull = false := rfl
    simp only [Option.map_some, Option.getD_some, hnull, docs.ofValue_toValue]
    rfl

mutual

/-- **Reading back**: a written record is read as the record without what is empty. -/
theorem ofValue_toValue : ∀ r : Record, r.All Writable → ofValue r.toValue = .ok r.normal
  | ⟨kind, id, name, flags, value, docs, parameters, children, type, typeParameters, resolvedType,
      tsconfig⟩, h => by
    have hparameters := fun key fs => listIn_read parameters (fun x hx => h.part (.parameter hx)) key fs
    have hchildren := fun key fs => listIn_read children (fun x hx => h.part (.child hx)) key fs
    have htypeParameters := fun key fs =>
      listIn_read typeParameters (fun x hx => h.part (.typeParameter hx)) key fs
    have htype := fun key fs =>
      type_read type (fun x hx => h.part (.type hx)) h.here.type key fs
    have hresolved := fun key fs =>
      type_read resolvedType (fun x hx => h.part (.resolvedType hx)) h.here.resolvedType key fs
    rw [toValue_eq, normal]
    refine ofValue_of_fields ?_ ?_ ?_ ?_ ?_ ?_ (hparameters _ _ ?_) (hchildren _ _ ?_) (htype _ _ ?_)
      (htypeParameters _ _ ?_) (hresolved _ _ ?_) ?_
    all_goals
      simp only [Value.field, fields, Fields.get?_append, Fields.get?_singleton,
        Fields.get?_optionalField]
      simp [id_read h.here.id, optionalText_nonEmpty, flags_read, value_read, docs_read]

/-- Lists that may be absent. -/
theorem listIn_read : ∀ rs : Option (List Record), (∀ x ∈ rs.getD [], x.All Writable) →
    ∀ (key : String) (fs : Fields), Fields.get? (.text key) fs = listToValue? rs →
      listOfField key fs = .ok (normalIn rs)
  | none, _, key, fs, hget => by
    rw [listToValue?] at hget
    rw [listOfField_eq_none hget, normalIn]
  | some rs, h, key, fs, hget => by
    rw [listToValue?] at hget
    rw [listOfField_eq_some hget (list_read rs h), normalIn]

/-- Lists. -/
theorem list_read : ∀ rs : List Record, (∀ x ∈ rs, x.All Writable) →
    listOfValues (listToValues rs) = .ok (normals rs)
  | [], _ => by
    rw [listToValues, listOfValues, normals]
  | r :: rs, h => by
    have hr := ofValue_toValue r (h r List.mem_cons_self)
    have hrs := list_read rs fun x hx => h x (List.mem_cons_of_mem _ hx)
    rw [listToValues, listOfValues, hr, hrs, normals]
    rfl

/-- Type positions. -/
theorem type_read : ∀ v : Option (TypeValue Record),
    (∀ r, v = some (.embedded r) → r.All Writable) → TypeValue.HasIntId v →
    ∀ (key : String) (fs : Fields), Fields.get? (.text key) fs = typeToValue? v →
      typeOfField key fs = .ok (normalType v)
  | none, _, _, key, fs, hget => by
    rw [typeOfField_eq, hget, typeToValue?, normalType]
  | some (.inline s), _, _, key, fs, hget => by
    rw [typeOfField_eq, hget, typeToValue?, normalType]
    dsimp only
    rw [typeOfValue]
  | some (.ref id), _, hid, key, fs, hget => by
    obtain ⟨n, rfl⟩ := hid id rfl
    rw [typeOfField_eq, hget, typeToValue?, normalType]
    dsimp only
    rw [typeOfValue]
  | some (.embedded r), h, _, key, fs, hget => by
    have hr := ofValue_toValue r (h r rfl)
    rw [typeOfField_eq, hget, typeToValue?, normalType]
    dsimp only
    rw [toValue_eq] at hr ⊢
    rw [typeOfValue, hr]
    · rfl
    all_goals simp

end

/-- What stands in a type position by itself. -/
theorem typeOfValue_toValue {v : TypeValue Record} (h : v.All Writable)
    (hid : TypeValue.HasIntId (some v)) : typeOfValue v.toValue = .ok (normalType (some v)) := by
  have hget : Fields.get? (.text "type") [(.text "type", v.toValue)] = typeToValue? (some v) := by
    rw [Fields.get?_singleton, if_pos rfl]
    cases v <;> rw [typeToValue?, TypeValue.toValue]
  have hread := type_read (some v) (fun r hr => h r (Option.some.inj hr)) hid "type" _ hget
  rwa [typeOfField_eq, Fields.get?_singleton, if_pos rfl] at hread

/-! ## The parts of a record that is read back -/

theorem normals_eq_map (rs : List Record) : normals rs = rs.map normal := by
  induction rs with
  | nil => rw [normals, List.map_nil]
  | cons r rest ih => rw [normals, List.map_cons, ih]

theorem exists_of_mem_normalIn {rs : Option (List Record)} {x : Record}
    (h : x ∈ (normalIn rs).getD []) : ∃ y ∈ rs.getD [], x = y.normal := by
  cases rs with
  | none =>
    rw [normalIn] at h
    cases h
  | some rs =>
    rw [normalIn, Option.getD_some, normals_eq_map, List.mem_map] at h
    obtain ⟨y, hy, rfl⟩ := h
    exact ⟨y, hy, rfl⟩

theorem exists_of_normalType {v : Option (TypeValue Record)} {x : Record}
    (h : normalType v = some (.embedded x)) : ∃ y, v = some (.embedded y) ∧ x = y.normal := by
  unfold normalType at h
  split at h <;> cases h
  exact ⟨_, rfl, rfl⟩

theorem ref_of_normalType {v : Option (TypeValue Record)} {id : Scalar}
    (h : normalType v = some (.ref id)) : v = some (.ref id) := by
  unfold normalType at h
  split at h <;> cases h
  rfl

/-- The parts of a record that is read back are the parts of the record, read back. -/
theorem Part.exists_of_normal {r x : Record} (h : r.normal.Part x) : ∃ y, r.Part y ∧ x = y.normal := by
  obtain ⟨kind, id, name, flags, value, docs, parameters, children, type, typeParameters, resolvedType,
    tsconfig⟩ := r
  rw [normal] at h
  rcases h with h | h | h | h | h
  · obtain ⟨y, hy, rfl⟩ := exists_of_mem_normalIn h
    exact ⟨y, .child hy, rfl⟩
  · obtain ⟨y, hy, rfl⟩ := exists_of_mem_normalIn h
    exact ⟨y, .parameter hy, rfl⟩
  · obtain ⟨y, hy, rfl⟩ := exists_of_mem_normalIn h
    exact ⟨y, .typeParameter hy, rfl⟩
  · obtain ⟨y, hy, rfl⟩ := exists_of_normalType h
    exact ⟨y, .type hy, rfl⟩
  · obtain ⟨y, hy, rfl⟩ := exists_of_normalType h
    exact ⟨y, .resolvedType hy, rfl⟩

/-- What holds at every depth before holds at every depth after. -/
theorem All.normal {Q Q' : Record → Prop} (hQ : ∀ x, Q x → Q' x.normal) {r : Record} (h : r.All Q) :
    r.normal.All Q' := by
  intro x hx
  suffices hex : ∃ y, Relation.ReflTransGen Part r y ∧ x = y.normal by
    obtain ⟨y, hy, rfl⟩ := hex
    exact hQ y (h y hy)
  induction hx with
  | refl => exact ⟨r, .refl, rfl⟩
  | tail _ hpart ih =>
    obtain ⟨y, hy, rfl⟩ := ih
    obtain ⟨z, hz, rfl⟩ := hpart.exists_of_normal
    exact ⟨z, hy.tail hz, rfl⟩

end Record

end SymbolDocs
