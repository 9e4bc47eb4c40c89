import SymbolDocs.Proofs.Trails

/-!
# Reading the fields of a node

The attributes of a node are read before anything inside it. When its fields are of the documented
kinds, this fails for two reasons only: an unknown kind and an unknown modifier.

* `Node.attributes_error` says so, and `Node.attributes_known` that these are reasons;
* `Value.sum_partsAt_le` is about what stands at different keys of a mapping: these are different parts
  of it.
-/

namespace SymbolDocs

/-! ## Kinds and modifiers -/

theorem Kind.ofValue_eq_ok {v : Value} {k : Kind} (h : v.kind? = some k) : Kind.ofValue v = .ok k := by
  cases v with
  | list items | map fields =>
    simp only [Value.kind?] at h
    simp only [Kind.ofValue, h]
  | scalar s =>
    cases s with
    | bool b | int n =>
      simp only [Value.kind?, Scalar.int?] at h
      simp only [Kind.ofValue, h]
    | null | real d | text s | date y m d =>
      simp only [Value.kind?, Scalar.int?] at h
      simp only [Kind.ofValue, Value.plain, h]

/-- A kind is not read when there is none with the number or the name. -/
theorem Kind.kind?_of_error {v : Value} {e : ValueFault} (h : Kind.ofValue v = .error e) :
    v.kind? = none := by
  cases hk : v.kind? with
  | none => rfl
  | some k =>
    rw [Kind.ofValue_eq_ok hk] at h
    cases h

theorem Flags.ofNames_error {fs : Flags} {names : List Value} {e : ValueFault}
    (h : Flags.ofNames fs names = .error e) : ∃ v ∈ names, Flag.ofName? v.plain = none := by
  induction names generalizing fs with
  | nil => cases h
  | cons v rest ih =>
    rw [Flags.ofNames] at h
    cases hv : Flag.ofName? v.plain with
    | none => exact ⟨v, List.mem_cons_self, hv⟩
    | some f =>
      simp only [hv] at h
      obtain ⟨w, hw, hnone⟩ := ih h
      exact ⟨w, List.mem_cons_of_mem _ hw, hnone⟩

/-- Modifiers of the documented kinds are not read when one of the names is unknown. -/
theorem Flags.ofValue_error {v : Value} {e : Fault}
    (hv : v.isOptional (fun v => v.reference?.isSome || v.isText || v.isList) = true)
    (h : Flags.ofValue v = .error e) :
    (∃ c, e = .value c) ∧ ∃ name ∈ v.flagNames, Flag.ofName? name.plain = none := by
  have hnames : ∀ {names : List Value},
      (Flags.ofNames Flags.empty names).mapError Fault.value = .error e →
      (∃ c, e = .value c) ∧ ∃ name ∈ names, Flag.ofName? name.plain = none := by
    intro names h
    cases hn : Flags.ofNames Flags.empty names with
    | ok fs =>
      rw [hn] at h
      cases h
    | error c =>
      rw [hn] at h
      cases h
      exact ⟨⟨c, rfl⟩, Flags.ofNames_error hn⟩
  rcases v with (_ | b | n | d | s | _) | items | fields
  · cases h
  · cases h
  · cases h
  · cases hv
  · exact hnames h
  · cases hv
  · exact hnames h
  · cases hv

/-! ## Documentation and locations -/

@[simp] theorem Value.entries_list (items : List Value) : (Value.list items).entries = items := rfl

theorem mapM_ok_of_all {α : Type} {f : Value → Except Fault α} {test : Value → Bool} {items : List Value}
    (hf : ∀ v, test v = true → ∃ a, f v = .ok a) (h : items.all test = true) :
    ∃ as, items.mapM f = .ok as := by
  induction items with
  | nil => exact ⟨[], rfl⟩
  | cons v rest ih =>
    rw [List.all_cons, Bool.and_eq_true] at h
    obtain ⟨a, ha⟩ := hf v h.1
    obtain ⟨as, has⟩ := ih h.2
    refine ⟨a :: as, ?_⟩
    rw [List.mapM_cons, ha, has]
    rfl

theorem Value.eq_null {v : Value} (h : v.isNull = true) : v = .null := by
  rcases v with (_ | _ | _ | _ | _ | _) | _ | _
  case scalar.null => rfl
  all_goals cases h

theorem Value.optionalText_ok {v : Value} (h : v.isOptional isText = true) :
    ∃ s, v.optionalText = .ok s := by
  rcases v with (_ | b | n | d | s | _) | items | fields
  case scalar.null => exact ⟨none, rfl⟩
  case scalar.text => exact ⟨some s, rfl⟩
  all_goals cases h

theorem Value.textField_ok {key : String} {fields : Fields} (h : hasField key isText fields = true) :
    ∃ s, textField key fields = .ok s := by
  unfold hasField at h
  unfold textField
  split at h
  · rename_i hget
    simp only [hget]
    exact ⟨"", rfl⟩
  · rename_i v hget
    simp only [hget]
    rcases v with (_ | b | n | d | s | _) | items | fields
    case scalar.text => exact ⟨s, rfl⟩
    all_goals cases h

theorem Value.exists_list {v : Value} {test : Value → Bool}
    (h : (v.isList && v.entries.all test) = true) : ∃ items, v = .list items ∧ items.all test = true := by
  cases v with
  | list items => exact ⟨items, rfl, by simpa [isList] using h⟩
  | scalar s | map fields => cases h

theorem DocSpan.ofValue_ok {v : Value} (h : v.isSpan = true) : ∃ span, DocSpan.ofValue v = .ok span := by
  rcases v with (_ | b | n | d | s | _) | items | fields
  case scalar.text => exact ⟨⟨s, none⟩, rfl⟩
  case map =>
    rw [Value.isSpan, Bool.and_eq_true] at h
    obtain ⟨value, hvalue⟩ := Value.textField_ok h.1
    obtain ⟨tag, htag⟩ := Value.optionalText_ok h.2
    refine ⟨⟨value, tag⟩, ?_⟩
    rw [DocSpan.ofValue, hvalue, htag]
    rfl
  all_goals cases h

theorem DocText.ofFields_ok {fields : Fields}
    (h : Value.hasField "value" (fun v => v.isText || v.isList && v.entries.all Value.isSpan) fields =
      true) : ∃ text, DocText.ofFields fields = .ok text := by
  have hplain : Value.hasField "value" Value.isText fields = true →
      ∃ text, (Value.textField "value" fields).map DocText.plain = .ok text := by
    intro htext
    obtain ⟨s, hs⟩ := Value.textField_ok htext
    exact ⟨.plain s, by rw [hs]; rfl⟩
  unfold DocText.ofFields
  unfold Value.hasField at h hplain
  cases hget : Fields.get? (.text "value") fields with
  | none =>
    rw [hget] at hplain
    exact hplain rfl
  | some v =>
    simp only [hget, Bool.or_eq_true] at h hplain
    rcases h with htext | hlist
    · cases v with
      | scalar s => exact hplain htext
      | list items | map fields => cases htext
    · obtain ⟨items, rfl, hitems⟩ := Value.exists_list hlist
      obtain ⟨spans, hspans⟩ := mapM_ok_of_all (fun _ => DocSpan.ofValue_ok) hitems
      exact ⟨.spans spans, by simp only [hspans]; rfl⟩

theorem DocItem.ofValue_ok {v : Value} (h : v.isDocItem = true) : ∃ item, DocItem.ofValue v = .ok item := by
  rcases v with (_ | b | n | d | s | _) | items | fields
  case scalar.text => exact ⟨⟨.plain s, none⟩, rfl⟩
  case map =>
    rw [Value.isDocItem, Bool.and_eq_true] at h
    obtain ⟨tag, htag⟩ := Value.optionalText_ok h.2
    obtain ⟨value, hvalue⟩ := DocText.ofFields_ok h.1
    refine ⟨⟨value, tag⟩, ?_⟩
    rw [DocItem.ofValue, hvalue, htag]
    rfl
  all_goals cases h

theorem Documentation.ofValue_ok {v : Value} (h : v.isDocumentation = true) :
    ∃ docs, Documentation.ofValue v = .ok docs := by
  rcases v with (_ | b | n | d | s | _) | items | fields
  case scalar.text => exact ⟨⟨[⟨.plain s, none⟩], false, none, none⟩, rfl⟩
  case map =>
    rw [Value.isDocumentation, Bool.and_eq_true, Bool.and_eq_true] at h
    obtain ⟨⟨hcontent, htagName⟩, hrole⟩ := h
    obtain ⟨tagName, htagName⟩ := Value.optionalText_ok htagName
    obtain ⟨role, hrole⟩ := Value.optionalText_ok hrole
    simp only [Documentation.ofValue, htagName, hrole]
    split
    · rename_i htruthy
      rw [Value.isOptional, Bool.or_eq_true] at hcontent
      have hlist := hcontent.resolve_left fun hnull => by
        rw [Value.eq_null hnull] at htruthy
        cases htruthy
      obtain ⟨items, hfield, hitems⟩ := Value.exists_list hlist
      obtain ⟨content, hcontent⟩ := mapM_ok_of_all (fun _ => DocItem.ofValue_ok) hitems
      rw [hfield]
      simp only [Value.items, bind, Except.bind, hcontent]
      exact ⟨_, rfl⟩
    · exact ⟨_, rfl⟩
  all_goals cases h

theorem Value.integer_ok {v : Value} (h : v.reference?.isSome = true) : ∃ n, v.integer = .ok n := by
  rcases v with (_ | b | n | d | s | _) | items | fields
  case scalar.bool => exact ⟨_, rfl⟩
  case scalar.int => exact ⟨n, rfl⟩
  all_goals cases h

theorem Source.nameOf_ok {raw : Value} (hname : (raw.field "name").isOptional Value.isText = true)
    (hfile : (raw.field "fileName").isOptional Value.isText = true) : ∃ s, Source.nameOf raw = .ok s := by
  have hfield : (if (raw.field "name").truthy then raw.field "name" else raw.field "fileName").isOptional
      Value.isText = true := by
    split
    · exact hname
    · exact hfile
  unfold Source.nameOf
  dsimp only
  generalize (if (raw.field "name").truthy then raw.field "name" else raw.field "fileName") = v at hfield ⊢
  rcases v with (_ | b | n | d | s | _) | items | fields
  case scalar.null => exact ⟨"", rfl⟩
  case scalar.text => exact ⟨s, rfl⟩
  all_goals cases hfield

theorem Source.ofValue_ok {v : Value} (h : v.isLocation = true) : ∃ s, Source.ofValue v = .ok s := by
  cases v with
  | scalar s | list items => cases h
  | map fields =>
    simp only [Value.isLocation, Bool.and_eq_true] at h
    obtain ⟨⟨⟨hname, hfile⟩, hindex⟩, htsconfig⟩ := h
    obtain ⟨name, hname⟩ := Source.nameOf_ok hname hfile
    obtain ⟨tsconfig, htsconfig⟩ := Value.optionalText_ok htsconfig
    have hindex : ∃ n, ((Fields.get? (.text "index") fields).getD (.int 0)).integer = .ok n := by
      unfold Value.hasField at hindex
      split at hindex
      · rename_i hget
        rw [hget]
        exact ⟨0, rfl⟩
      · rename_i v hget
        rw [hget]
        exact Value.integer_ok hindex
    obtain ⟨index, hindex⟩ := hindex
    refine ⟨⟨name, index, (Value.map fields).field "line", tsconfig,
      ((Value.map fields).field "isDeclarationFile").truthy⟩, ?_⟩
    simp only [Source.ofValue, hname, hindex, htsconfig]
    rfl

theorem Source.allOfValue_ok {v : Value} (h : v.isOptional
      (fun v => v.isLocation || v.isList && v.entries.all Value.isLocation) = true) :
    ∃ ss, Source.allOfValue v = .ok ss := by
  cases v with
  | scalar s =>
    cases s with
    | null => exact ⟨[], rfl⟩
    | bool | int | real | text | date => cases h
  | list items =>
    have hitems : items.all Value.isLocation = true := h
    exact mapM_ok_of_all (fun _ => Source.ofValue_ok) hitems
  | map fields =>
    have hlocation : (Value.map fields).isLocation = true := by
      simpa [Value.isOptional, Value.isNull, Value.isList] using h
    obtain ⟨s, hs⟩ := Source.ofValue_ok hlocation
    exact ⟨[s], by simp only [Source.allOfValue, hs]; rfl⟩

/-- **Attributes.** When the fields of a node are of the documented kinds, reading its attributes fails
only for an unknown kind or an unknown modifier. -/
theorem Node.attributes_error {fields : Fields} {owner : Option Place} {e : Fault}
    (hraw : (Value.map fields).NodeFields) (h : Node.attributes (.map fields) owner = .error e) :
    (∃ c, e = .load c) ∧ ((Value.map fields).kindField.kind? = none ∨
      ∃ name ∈ ((Value.map fields).field "flags").flagNames, Flag.ofName? name.plain = none) := by
  obtain ⟨sources, hsources⟩ := Source.allOfValue_ok hraw.source
  have hdocs : ((Value.map fields).field "docs").isNull = false →
      ∃ docs, Documentation.ofValue ((Value.map fields).field "docs") = .ok docs := by
    intro hnull
    have hdocs := hraw.docs
    rw [Value.isOptional, hnull] at hdocs
    exact Documentation.ofValue_ok hdocs
  have hkindField : (Fields.get? (.text "kind") fields).getD (.int 0) = (Value.map fields).kindField := rfl
  simp only [Node.attributes, hkindField] at h
  cases hkind : Kind.ofValue (Value.map fields).kindField with
  | error c =>
    rw [hkind] at h
    cases h
    exact ⟨⟨_, rfl⟩, .inl (Kind.kind?_of_error hkind)⟩
  | ok kind =>
    rw [hkind] at h
    cases hflags : Flags.ofValue ((Value.map fields).field "flags") with
    | error f =>
      obtain ⟨⟨c, rfl⟩, hname⟩ := Flags.ofValue_error hraw.flags hflags
      rw [hflags] at h
      cases h
      exact ⟨⟨_, rfl⟩, .inr hname⟩
    | ok flags =>
      rw [hflags] at h
      simp only [hsources, Except.mapError, bind, Except.bind] at h
      split at h
      · cases h
      · rename_i hnull
        obtain ⟨docs, hdocs⟩ := hdocs (by simpa using hnull)
        simp only [hdocs, Except.map] at h
        cases h

theorem Kind.kind?_of_ok {v : Value} {k : Kind} (h : Kind.ofValue v = .ok k) : v.kind? = some k := by
  cases hkind : v.kind? with
  | some k' =>
    rw [Kind.ofValue_eq_ok hkind] at h
    cases h
    rfl
  | none =>
    cases v with
    | list items | map fields =>
      simp only [Value.kind?] at hkind
      simp only [Kind.ofValue, hkind] at h
      cases h
    | scalar s =>
      cases s with
      | bool b | int n =>
        simp only [Value.kind?, Scalar.int?] at hkind
        simp only [Kind.ofValue, hkind] at h
        cases h
      | null | real d | text s | date y m d =>
        simp only [Value.kind?, Scalar.int?] at hkind
        simp only [Kind.ofValue, Value.plain, hkind] at h
        cases h

theorem Flags.ofNames_ok {fs fs' : Flags} {names : List Value} (h : Flags.ofNames fs names = .ok fs') :
    ∀ v ∈ names, Flag.ofName? v.plain ≠ none := by
  induction names generalizing fs with
  | nil => exact fun v hv => absurd hv List.not_mem_nil
  | cons v rest ih =>
    rw [Flags.ofNames] at h
    cases hv : Flag.ofName? v.plain with
    | none =>
      rw [hv] at h
      cases h
    | some f =>
      simp only [hv] at h
      intro w hw
      rcases List.mem_cons.mp hw with rfl | hw
      · rw [hv]
        nofun
      · exact ih h w hw

theorem Flags.ofValue_ok {v : Value} {fs : Flags} (h : Flags.ofValue v = .ok fs) :
    ∀ name ∈ v.flagNames, Flag.ofName? name.plain ≠ none := by
  have hnames : ∀ {names : List Value}, (Flags.ofNames Flags.empty names).mapError Fault.value = .ok fs →
      ∀ name ∈ names, Flag.ofName? name.plain ≠ none := by
    intro names h
    cases hn : Flags.ofNames Flags.empty names with
    | ok fs' => exact Flags.ofNames_ok hn
    | error c =>
      rw [hn] at h
      cases h
  rcases v with (_ | b | n | d | s | _) | items | fields
  case scalar.text => exact hnames h
  case list => exact hnames h
  all_goals exact fun name hname => absurd hname List.not_mem_nil

/-- When the attributes of a node are read, its kind and all its modifiers are known. -/
theorem Node.attributes_known {fields : Fields} {owner : Option Place} {n : Node}
    (h : Node.attributes (.map fields) owner = .ok n) :
    (Value.map fields).kindField.kind? ≠ none ∧
      ∀ name ∈ ((Value.map fields).field "flags").flagNames, Flag.ofName? name.plain ≠ none := by
  have hkindField : (Fields.get? (.text "kind") fields).getD (.int 0) = (Value.map fields).kindField := rfl
  simp only [Node.attributes, hkindField] at h
  cases hkind : Kind.ofValue (Value.map fields).kindField with
  | error c =>
    rw [hkind] at h
    cases h
  | ok kind =>
    rw [hkind] at h
    refine ⟨ne_of_eq_of_ne (Kind.kind?_of_ok hkind) (Option.some_ne_none kind), ?_⟩
    cases hflags : Flags.ofValue ((Value.map fields).field "flags") with
    | error f =>
      rw [hflags] at h
      cases f <;> cases h
    | ok flags => exact Flags.ofValue_ok hflags

/-- An id of the documented kind is read. -/
theorem Node.idOfValue_ok {raw : Value} {id : Option Scalar}
    (h : Node.idOfValue (raw.field "id") = .ok id) : id = raw.id? := by
  rw [Value.id?]
  cases hfield : raw.field "id" with
  | list items | map fields =>
    rw [hfield] at h
    cases h
  | scalar s =>
    rw [hfield] at h
    cases s <;> cases h <;> rfl

theorem Node.idOfValue_error {raw : Value} {e : Fault} (hraw : raw.NodeFields) :
    Node.idOfValue (raw.field "id") ≠ .error e := by
  intro h
  have hid := hraw.id
  rcases hfield : raw.field "id" with s | items | fields
  · rw [hfield] at h
    cases s <;> cases h
  · rw [hfield] at hid
    cases hid
  · rw [hfield] at hid
    cases hid

/-! ## The fields of a mapping -/

theorem Fields.part?_eq_none {key : Scalar} {fields : Fields} (h : Fields.part? key fields = none) :
    Fields.get? key fields = none := by
  induction fields with
  | nil => rfl
  | cons f rest ih =>
    obtain ⟨k, v⟩ := f
    rw [Fields.part?] at h
    rw [Fields.get?]
    cases hk : k.same key with
    | true => simp [hk] at h
    | false =>
      simp only [hk] at h ⊢
      cases hrest : Fields.part? key rest with
      | none => exact ih hrest
      | some w => simp [hrest] at h

theorem Fields.part?_eq_some {key : Scalar} {fields : Fields}
    {v : { v : Value // sizeOf v < sizeOf fields }} (h : Fields.part? key fields = some v) :
    Fields.get? key fields = some v.1 := by
  induction fields with
  | nil => cases h
  | cons f rest ih =>
    obtain ⟨k, w⟩ := f
    rw [Fields.part?] at h
    rw [Fields.get?]
    cases hk : k.same key with
    | true =>
      simp only [hk] at h
      cases h
      rfl
    | false =>
      simp only [hk] at h ⊢
      cases hrest : Fields.part? key rest with
      | none => simp [hrest] at h
      | some u =>
        simp only [hrest] at h
        cases h
        exact ih hrest

namespace Value

theorem field_of_get? {key : String} {fields : Fields} {v : Value}
    (h : Fields.get? (.text key) fields = some v) : (Value.map fields).field key = v := by
  rw [field, h]
  rfl

theorem field_of_none {key : String} {fields : Fields} (h : Fields.get? (.text key) fields = none) :
    (Value.map fields).field key = .null := by
  rw [field, h]
  rfl

/-- What stands at a key is a part of the value. -/
theorem parts_field_le (v : Value) (key : String) : (v.field key).parts ≤ v.parts := by
  cases v with
  | scalar s | list items =>
    simp only [field, parts]
    omega
  | map fields =>
    simp only [field, parts]
    induction fields with
    | nil => exact Nat.le_refl 1
    | cons f rest ih =>
      obtain ⟨k, w⟩ := f
      rw [Fields.get?, partsOfFields]
      cases k.same (.text key) with
      | true =>
        simp only [Option.getD_some]
        omega
      | false => exact ih.trans (by omega)

/-- The number of parts of what stands at a key. -/
def partsAt (key : String) (fields : Fields) : Nat :=
  ((Fields.get? (.text key) fields).map Value.parts).getD 0

/-- What stands at different keys are different parts of a mapping. -/
theorem sum_partsAt_le (fields : Fields) (keys : List String) (hkeys : keys.Nodup) :
    (keys.map fun key => partsAt key fields).sum ≤ partsOfFields fields := by
  induction fields generalizing keys with
  | nil => simp [partsAt, Fields.get?]
  | cons f rest ih =>
    obtain ⟨k, v⟩ := f
    have hother : ∀ key, k.same (.text key) = false → partsAt key ((k, v) :: rest) = partsAt key rest := by
      intro key hkey
      simp only [partsAt, Fields.get?, hkey]
    rw [partsOfFields]
    by_cases hex : ∃ key ∈ keys, k.same (.text key) = true
    · obtain ⟨key, hmem, hkey⟩ := hex
      have hv : partsAt key ((k, v) :: rest) = v.parts := by
        simp only [partsAt, Fields.get?, hkey, Option.map_some, Option.getD_some]
      -- no other key is the same as this one
      have hrest : (keys.erase key).map (fun key => partsAt key ((k, v) :: rest)) =
          (keys.erase key).map fun key => partsAt key rest := by
        refine List.map_congr_left fun key' hkey' => hother key' ?_
        have hne : key' ≠ key := fun he => hkeys.not_mem_erase (he ▸ hkey')
        by_contra hsame
        have hsame := Scalar.same_trans (Scalar.same_symm hkey) (by simpa using hsame)
        have heq : key = key' := by simpa using hsame
        exact hne heq.symm
      have hle := ih _ (hkeys.erase key)
      rw [((List.perm_cons_erase hmem).map _).sum_eq, List.map_cons, List.sum_cons, hv, hrest]
      exact Nat.add_le_add_left hle _
    · have hsame : keys.map (fun key => partsAt key ((k, v) :: rest)) =
          keys.map fun key => partsAt key rest :=
        List.map_congr_left fun key hkey => hother key (by
          by_contra h
          exact hex ⟨key, hkey, by simpa using h⟩)
      rw [hsame]
      exact (ih _ hkeys).trans (Nat.le_add_left _ _)

end Value

end SymbolDocs
