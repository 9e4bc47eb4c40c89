import SymbolDocs.Proofs.JsonText
import SymbolDocs.Settings.Canonical
import Mathlib.Data.List.Forall2

/-!
# Settings with the same canonical text

The digest of settings is taken of their canonical text. Two settings have the same canonical text exactly
when they are the same but for the order of keys, on any level, and for where the files go: sorting makes
one value of all orders, and that value is read back from the text.

* `Value.Alike` is equality up to the order of keys;
* `Value.ordered` sorts all keys at once, `Value.sortKeys_eq` says that sorting key by key does the same;
* `Value.ordered_eq_iff` compares sorted values;
* `canonicalText_eq_iff` is the result.
-/

namespace SymbolDocs

namespace Value

/-! ## Equality up to the order of keys -/

mutual

/-- The same value but for the order of keys, on any level. -/
inductive Alike : Value → Value → Prop
  | scalar (s : Scalar) : Alike (.scalar s) (.scalar s)
  | list {xs ys : List Value} (h : AlikeItems xs ys) : Alike (.list xs) (.list ys)
  | map {xs zs ys : List (Scalar × Value)} (h : AlikeFields xs zs) (hperm : zs.Perm ys) :
    Alike (.map xs) (.map ys)

/-- Items that are alike one by one. -/
inductive AlikeItems : List Value → List Value → Prop
  | nil : AlikeItems [] []
  | cons {v w : Value} {xs ys : List Value} (h : Alike v w) (hrest : AlikeItems xs ys) :
    AlikeItems (v :: xs) (w :: ys)

/-- Fields with the same keys and alike values one by one. -/
inductive AlikeFields : List (Scalar × Value) → List (Scalar × Value) → Prop
  | nil : AlikeFields [] []
  | cons {v w : Value} {xs ys : List (Scalar × Value)} (k : Scalar) (h : Alike v w)
    (hrest : AlikeFields xs ys) : AlikeFields ((k, v) :: xs) ((k, w) :: ys)

end

mutual

/-- The value with the keys of all its mappings in order. -/
def ordered : Value → Value
  | .scalar s => .scalar s
  | .list items => .list (orderedItems items)
  | .map fields => .map (Fields.sort (orderedFields fields))

/-- The same for items. -/
def orderedItems : List Value → List Value
  | [] => []
  | v :: rest => ordered v :: orderedItems rest

/-- The same for the values of fields. -/
def orderedFields : List (Scalar × Value) → List (Scalar × Value)
  | [] => []
  | (k, v) :: rest => (k, ordered v) :: orderedFields rest

end

theorem orderedFields_eq_map (fields : Fields) :
    orderedFields fields = fields.map fun e => (e.1, e.2.ordered) := by
  induction fields with
  | nil => rfl
  | cons f rest ih =>
    obtain ⟨k, v⟩ := f
    rw [orderedFields, ih]
    rfl

/-! ## Fields of simple values -/

theorem simpleFields_iff {fields : Fields} :
    simpleFields fields = true ↔ ∀ e ∈ fields, e.1.isText = true ∧ e.2.isSimple = true := by
  induction fields with
  | nil => simp [simpleFields]
  | cons f rest ih =>
    obtain ⟨k, v⟩ := f
    simp [simpleFields, ih]

theorem properFields_iff {fields : Fields} :
    properFields fields = true ↔ fields.Pairwise (fun e f => f.1.same e.1 = false) ∧
      ∀ e ∈ fields, e.2.isProper = true := by
  induction fields with
  | nil => simp [properFields]
  | cons f rest ih =>
    obtain ⟨k, v⟩ := f
    simp only [properFields, Bool.and_eq_true, List.all_eq_true, Bool.not_eq_true', ih,
      List.pairwise_cons, List.forall_mem_cons]
    tauto

theorem properFields_perm {xs ys : Fields} (hperm : xs.Perm ys) (h : properFields xs = true) :
    properFields ys = true := by
  rw [properFields_iff] at h ⊢
  refine ⟨(hperm.pairwise_iff fun {e f} hef => ?_).mp h.1, fun e he => h.2 e (hperm.mem_iff.mpr he)⟩
  rwa [Scalar.same_comm]

theorem properFields_filter {fields : Fields} (p : Scalar × Value → Bool)
    (h : properFields fields = true) : properFields (fields.filter p) = true := by
  rw [properFields_iff] at h ⊢
  exact ⟨h.1.filter p, fun e he => h.2 e (List.mem_of_mem_filter he)⟩

/-- In a proper mapping a key has one entry. -/
theorem eq_of_mem_of_key {fields : Fields} (h : properFields fields = true) {e f : Scalar × Value}
    (he : e ∈ fields) (hf : f ∈ fields) (hkey : e.1 = f.1) : e = f := by
  have hsymm : Std.Symm fun e f : Scalar × Value => f.1.same e.1 = false :=
    ⟨fun e f hef => by rwa [Scalar.same_comm]⟩
  by_contra hne
  have hdiffer := (properFields_iff.mp h).1.forall he hf hne
  rw [hkey, Scalar.same_refl] at hdiffer
  cases hdiffer

end Value

namespace Fields

/-! ## Sorted fields -/

theorem sort_perm (fields : Fields) : (sort fields).Perm fields :=
  List.mergeSort_perm fields _

/-- Text keys are sorted by their text. -/
theorem sort_eq {fields : Fields} (h : ∀ e ∈ fields, e.1.isText = true) :
    sort fields = fields.mergeSort fun e f => decide (e.1.plain ≤ f.1.plain) := by
  have hmap := List.map_mergeSort (f := id) (l := fields)
    (r := fun a b => (a.1.precedes? b.1).getD true) (s := fun e f => decide (e.1.plain ≤ f.1.plain)) ?_
  · rwa [List.map_id, List.map_id] at hmap
  · intro e he f hf
    obtain ⟨s, hs⟩ := Scalar.exists_text (h e he)
    obtain ⟨t, ht⟩ := Scalar.exists_text (h f hf)
    simp [hs, ht, Scalar.precedes?, Scalar.plain]

/-- Sorting forgets the order of fields with different text keys. -/
theorem sort_eq_of_perm {xs ys : Fields} (htext : ∀ e ∈ xs, e.1.isText = true)
    (hproper : Value.properFields xs = true) (hperm : xs.Perm ys) : sort xs = sort ys := by
  have htext' : ∀ e ∈ ys, e.1.isText = true := fun e he => htext e (hperm.mem_iff.mpr he)
  have htrans : ∀ a b c : Scalar × Value, decide (a.1.plain ≤ b.1.plain) = true →
      decide (b.1.plain ≤ c.1.plain) = true → decide (a.1.plain ≤ c.1.plain) = true := by
    intro a b c hab hbc
    rw [decide_eq_true_iff] at hab hbc ⊢
    exact String.le_trans hab hbc
  have htotal : ∀ a b : Scalar × Value,
      (decide (a.1.plain ≤ b.1.plain) || decide (b.1.plain ≤ a.1.plain)) = true := by
    intro a b
    rw [Bool.or_eq_true, decide_eq_true_iff, decide_eq_true_iff]
    exact String.le_total _ _
  rw [sort_eq htext, sort_eq htext']
  refine List.Perm.eq_of_pairwise (fun e f he hf hef hfe => ?_)
    (List.pairwise_mergeSort htrans htotal xs) (List.pairwise_mergeSort htrans htotal ys) ?_
  · have he' : e ∈ xs := (List.mergeSort_perm xs _).mem_iff.mp he
    have hf' : f ∈ xs := hperm.mem_iff.mpr ((List.mergeSort_perm ys _).mem_iff.mp hf)
    obtain ⟨s, hs⟩ := Scalar.exists_text (htext e he')
    obtain ⟨t, ht⟩ := Scalar.exists_text (htext f hf')
    refine Value.eq_of_mem_of_key hproper he' hf' ?_
    rw [decide_eq_true_iff, hs, ht, Scalar.plain, Scalar.plain] at hef
    rw [decide_eq_true_iff, hs, ht, Scalar.plain, Scalar.plain] at hfe
    rw [hs, ht, String.le_antisymm hef hfe]
  · exact ((List.mergeSort_perm xs _).trans hperm).trans (List.mergeSort_perm ys _).symm

theorem isSortable_of_text {fields : Fields} (h : ∀ e ∈ fields, e.1.isText = true) :
    isSortable fields = true := by
  induction fields with
  | nil => rfl
  | cons f rest ih =>
    obtain ⟨k, v⟩ := f
    obtain ⟨s, rfl⟩ := Scalar.exists_text (h _ List.mem_cons_self)
    rw [isSortable, ih fun e he => h e (List.mem_cons_of_mem _ he), Bool.and_true, List.all_eq_true]
    intro e he
    obtain ⟨t, ht⟩ := Scalar.exists_text (h e (List.mem_cons_of_mem _ he))
    simp [ht, Scalar.precedes?]

end Fields

namespace Value

/-! ## Sorting on every level -/

mutual

theorem isSimple_ordered : (v : Value) → v.isSimple = true → v.ordered.isSimple = true
  | .scalar _, h => h
  | .list items, h => simpleItems_ordered items h
  | .map fields, h => by
    have hfields := simpleFields_iff.mp (simpleFields_ordered fields h)
    rw [ordered, isSimple, simpleFields_iff]
    exact fun e he => hfields e ((Fields.sort_perm _).mem_iff.mp he)

theorem simpleItems_ordered : (items : List Value) → simpleItems items = true →
    simpleItems (orderedItems items) = true
  | [], _ => rfl
  | v :: rest, h => by
    rw [simpleItems, Bool.and_eq_true] at h
    rw [orderedItems, simpleItems, isSimple_ordered v h.1, simpleItems_ordered rest h.2]
    rfl

theorem simpleFields_ordered : (fields : List (Scalar × Value)) → simpleFields fields = true →
    simpleFields (orderedFields fields) = true
  | [], _ => rfl
  | (k, v) :: rest, h => by
    rw [simpleFields, Bool.and_eq_true, Bool.and_eq_true] at h
    rw [orderedFields, simpleFields, h.1.1, isSimple_ordered v h.1.2, simpleFields_ordered rest h.2]
    rfl

end

mutual

theorem isProper_ordered : (v : Value) → v.isProper = true → v.ordered.isProper = true
  | .scalar _, h => h
  | .list items, h => properItems_ordered items h
  | .map fields, h => properFields_perm (Fields.sort_perm _).symm (properFields_ordered fields h)

theorem properItems_ordered : (items : List Value) → properItems items = true →
    properItems (orderedItems items) = true
  | [], _ => rfl
  | v :: rest, h => by
    rw [properItems, Bool.and_eq_true] at h
    rw [orderedItems, properItems, isProper_ordered v h.1, properItems_ordered rest h.2]
    rfl

theorem properFields_ordered : (fields : List (Scalar × Value)) → properFields fields = true →
    properFields (orderedFields fields) = true
  | [], _ => rfl
  | (k, v) :: rest, h => by
    obtain ⟨hdiffer, hv, hrest⟩ := properFields_cons h
    have hkeys : ((orderedFields rest).all fun e => !e.1.same k) = true := by
      rw [orderedFields_eq_map, List.all_map, List.all_eq_true]
      intro e he
      simp [hdiffer e he]
    rw [orderedFields, properFields, hkeys, isProper_ordered v hv, properFields_ordered rest hrest]
    rfl

end

mutual

/-- Simple values can be sorted. -/
theorem sortKeys_eq : (v : Value) → v.isSimple = true → v.sortKeys = .ok v.ordered
  | .scalar _, _ => rfl
  | .list items, h => by
    rw [sortKeys, sortItems_eq items h]
    rfl
  | .map fields, h => by
    have htext : ∀ e ∈ orderedFields fields, e.1.isText = true := fun e he =>
      (simpleFields_iff.mp (simpleFields_ordered fields h) e he).1
    have hkeys : ((orderedFields fields).all fun e => e.1.isKey) = true := by
      rw [List.all_eq_true]
      intro e he
      obtain ⟨s, hs⟩ := Scalar.exists_text (htext e he)
      rw [hs]
      rfl
    rw [sortKeys, sortFields_eq fields h]
    simp only [bind, Except.bind, Fields.isSortable_of_text htext, hkeys, Bool.and_self, if_true]
    rfl

theorem sortItems_eq : (items : List Value) → simpleItems items = true →
    sortItems items = .ok (orderedItems items)
  | [], _ => rfl
  | v :: rest, h => by
    rw [simpleItems, Bool.and_eq_true] at h
    rw [sortItems, sortKeys_eq v h.1, sortItems_eq rest h.2]
    rfl

theorem sortFields_eq : (fields : List (Scalar × Value)) → simpleFields fields = true →
    sortFields fields = .ok (orderedFields fields)
  | [], _ => rfl
  | (k, v) :: rest, h => by
    rw [simpleFields, Bool.and_eq_true, Bool.and_eq_true] at h
    rw [sortFields, sortKeys_eq v h.1.2, sortFields_eq rest h.2]
    rfl

end

/-! ## Sorted values tell alike ones -/

mutual

theorem ordered_eq_of_alike : (v w : Value) → v.isSimple = true → v.isProper = true → Alike v w →
    v.ordered = w.ordered
  | .scalar _, _, _, _, .scalar _ => rfl
  | .list xs, .list ys, hs, hp, .list h => by
    rw [ordered, ordered, orderedItems_eq_of_alike xs ys hs hp h]
  | .map xs, .map ys, hs, hp, @Alike.map _ zs _ h hperm => by
    have hfields := orderedFields_eq_of_alike xs zs hs hp h
    have htext : ∀ e ∈ orderedFields xs, e.1.isText = true := fun e he =>
      (simpleFields_iff.mp (simpleFields_ordered xs hs) e he).1
    have hperm' : (orderedFields xs).Perm (orderedFields ys) := by
      rw [hfields, orderedFields_eq_map, orderedFields_eq_map]
      exact hperm.map _
    rw [ordered, ordered, Fields.sort_eq_of_perm htext (properFields_ordered xs hp) hperm']

theorem orderedItems_eq_of_alike : (xs ys : List Value) → simpleItems xs = true →
    properItems xs = true → AlikeItems xs ys → orderedItems xs = orderedItems ys
  | _, _, _, _, .nil => rfl
  | v :: xs, w :: ys, hs, hp, .cons h hrest => by
    rw [simpleItems, Bool.and_eq_true] at hs
    rw [properItems, Bool.and_eq_true] at hp
    rw [orderedItems, orderedItems, ordered_eq_of_alike v w hs.1 hp.1 h,
      orderedItems_eq_of_alike xs ys hs.2 hp.2 hrest]

theorem orderedFields_eq_of_alike : (xs ys : List (Scalar × Value)) → simpleFields xs = true →
    properFields xs = true → AlikeFields xs ys → orderedFields xs = orderedFields ys
  | _, _, _, _, .nil => rfl
  | (k, v) :: xs, (_, w) :: ys, hs, hp, .cons _ h hrest => by
    rw [simpleFields, Bool.and_eq_true, Bool.and_eq_true] at hs
    obtain ⟨-, hv, hp⟩ := properFields_cons hp
    rw [orderedFields, orderedFields, ordered_eq_of_alike v w hs.1.2 hv h,
      orderedFields_eq_of_alike xs ys hs.2 hp hrest]

end

/-- A reordering of sorted values comes from one of the values themselves. -/
theorem exists_perm_of_orderedFields {fields ys : Fields} (h : fields.Perm (orderedFields ys)) :
    ∃ zs : Fields, fields = orderedFields zs ∧ zs.Perm ys := by
  have hown : List.Forall₂ (fun e f => e = (f.1, f.2.ordered)) (orderedFields ys) ys := by
    rw [orderedFields_eq_map, List.forall₂_map_left_iff, List.forall₂_same]
    exact fun _ _ => rfl
  obtain ⟨zs, hzs, hperm⟩ := List.perm_comp_forall₂ h hown
  refine ⟨zs, ?_, hperm⟩
  rw [orderedFields_eq_map, ← List.forall₂_eq_eq_eq, List.forall₂_map_right_iff]
  exact hzs

mutual

theorem alike_of_ordered_eq : (v w : Value) → v.ordered = w.ordered → Alike v w
  | .scalar s, .scalar t, h => by
    cases h
    exact .scalar s
  | .list xs, .list ys, h => .list (alikeItems_of_ordered_eq xs ys (Value.list.inj h))
  | .map xs, .map ys, h => by
    have hsort : Fields.sort (orderedFields xs) = Fields.sort (orderedFields ys) := Value.map.inj h
    have hperm : (orderedFields xs).Perm (orderedFields ys) :=
      (Fields.sort_perm _).symm.trans (hsort ▸ Fields.sort_perm _)
    obtain ⟨zs, hzs, hzs'⟩ := exists_perm_of_orderedFields hperm
    exact .map (alikeFields_of_ordered_eq xs zs hzs) hzs'

theorem alikeItems_of_ordered_eq : (xs ys : List Value) → orderedItems xs = orderedItems ys →
    AlikeItems xs ys
  | [], [], _ => .nil
  | v :: xs, w :: ys, h => by
    obtain ⟨hv, hrest⟩ := List.cons.inj h
    exact .cons (alike_of_ordered_eq v w hv) (alikeItems_of_ordered_eq xs ys hrest)

theorem alikeFields_of_ordered_eq : (xs ys : List (Scalar × Value)) →
    orderedFields xs = orderedFields ys → AlikeFields xs ys
  | [], [], _ => .nil
  | (k, v) :: xs, (k', w) :: ys, h => by
    obtain ⟨hf, hrest⟩ := List.cons.inj h
    obtain ⟨rfl, hv⟩ := Prod.mk.inj hf
    exact .cons k (alike_of_ordered_eq v w hv) (alikeFields_of_ordered_eq xs ys hrest)

end

/-- Simple values are sorted into the same value exactly when they are alike. -/
theorem ordered_eq_iff {v w : Value} (hs : v.isSimple = true) (hp : v.isProper = true) :
    v.ordered = w.ordered ↔ Alike v w :=
  ⟨alike_of_ordered_eq v w, ordered_eq_of_alike v w hs hp⟩

end Value

/-! ## Settings -/

/-- Settings without those that say only where files go. -/
def contentSettings (fields : Fields) : Fields :=
  fields.filter fun e => decide (e.1 ≠ .text "output_dir" ∧ e.1 ≠ .text "debug")

theorem filter_isLocationKey (fields : Fields) :
    (fields.filter fun e => !isLocationKey e.1) = contentSettings fields := by
  apply List.filter_congr
  intro e _
  rw [Bool.eq_iff_iff, decide_eq_true_iff, Bool.not_eq_true', ← Bool.not_eq_true, isLocationKey,
    Bool.or_eq_true, Scalar.same_text_iff, Scalar.same_text_iff, not_or]

theorem isSimple_contentSettings {fields : Fields} (h : (Value.map fields).isSimple = true) :
    (Value.map (contentSettings fields)).isSimple = true := by
  rw [Value.isSimple, Value.simpleFields_iff] at h ⊢
  exact fun e he => h e (List.mem_of_mem_filter he)

theorem isProper_contentSettings {fields : Fields} (h : (Value.map fields).isProper = true) :
    (Value.map (contentSettings fields)).isProper = true :=
  Value.properFields_filter _ h

theorem canonicalText_eq {fields : Fields} (h : (Value.map fields).isSimple = true) :
    canonicalText fields = .ok (Json.write .canonical (Value.map (contentSettings fields)).ordered) := by
  rw [canonicalText, filter_isLocationKey, Value.sortKeys_eq _ (isSimple_contentSettings h)]
  rfl

/-- **The canonical text is one for settings that are alike.** Settings of simple values have canonical
texts, and these are the same exactly when the settings are the same but for where files go and for the
order of keys on any level. -/
theorem canonicalText_eq_iff {f g : Fields} (hf : (Value.map f).isSimple = true)
    (hf' : (Value.map f).isProper = true) (hg : (Value.map g).isSimple = true)
    (hg' : (Value.map g).isProper = true) :
    ∃ s t, canonicalText f = .ok s ∧ canonicalText g = .ok t ∧
      (s = t ↔ Value.Alike (.map (contentSettings f)) (.map (contentSettings g))) := by
  have hread : ∀ {fields : Fields}, (Value.map fields).isSimple = true →
      (Value.map fields).isProper = true →
      Json.read? (Json.write .canonical (Value.map (contentSettings fields)).ordered) =
        some (Value.map (contentSettings fields)).ordered := fun hs hp =>
    Json.read?_write (Value.isSimple_ordered _ (isSimple_contentSettings hs))
      (Value.isProper_ordered _ (isProper_contentSettings hp))
  refine ⟨_, _, canonicalText_eq hf, canonicalText_eq hg, ?_⟩
  rw [← Value.ordered_eq_iff (isSimple_contentSettings hf) (isProper_contentSettings hf')]
  constructor
  · intro htext
    have hsame := hread hf hf'
    rw [htext, hread hg hg'] at hsame
    exact (Option.some.inj hsame).symm
  · exact congrArg _

/-- Settings with keys out of order, and with characters that are written by number. -/
def greekSettings : Fields :=
  [(.text "package_name", .text "\"λ\"\n😀"), (.text "output_dir", .text "site"),
    (.text "extra", .list [.map [(.text "title", .null), (.text "index", .int (-10))]])]

/-- The same with other places for the files and another order. -/
def movedSettings : Fields :=
  [(.text "extra", .list [.map [(.text "index", .int (-10)), (.text "title", .null)]]),
    (.text "debug", .bool true), (.text "package_name", .text "\"λ\"\n😀")]

/-- Moved settings have the canonical text of those they come from. -/
theorem canonicalText_eq_iff_moved :
    (Value.map greekSettings).isSimple = true ∧ (Value.map greekSettings).isProper = true ∧
      (Value.map movedSettings).isSimple = true ∧ (Value.map movedSettings).isProper = true ∧
      Value.Alike (.map (contentSettings greekSettings)) (.map (contentSettings movedSettings)) ∧
      ∃ s t, canonicalText greekSettings = .ok s ∧ canonicalText movedSettings = .ok t ∧
        (s = t ↔ Value.Alike (.map (contentSettings greekSettings))
          (.map (contentSettings movedSettings))) := by
  have hf : (Value.map greekSettings).isSimple = true := by decide
  have hf' : (Value.map greekSettings).isProper = true := by decide
  have hg : (Value.map movedSettings).isSimple = true := by decide
  have hg' : (Value.map movedSettings).isProper = true := by decide
  have halike : Value.Alike (.map (contentSettings greekSettings))
      (.map (contentSettings movedSettings)) := by
    have hinner : Value.Alike (.map [(.text "title", .null), (.text "index", .int (-10))])
        (.map [(.text "index", .int (-10)), (.text "title", .null)]) :=
      .map (.cons _ (.scalar _) (.cons _ (.scalar _) .nil)) (.swap _ _ _)
    exact .map (.cons _ (.scalar _) (.cons _ (.list (.cons hinner .nil)) .nil)) (.swap _ _ _)
  exact ⟨hf, hf', hg, hg', halike, canonicalText_eq_iff hf hf' hg hg'⟩

end SymbolDocs
