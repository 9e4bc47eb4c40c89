import SymbolDocs.Proofs.Mappings
import SymbolDocs.Settings.Merge

/-!
# Merged settings by paths

Settings are merged mapping by mapping, so what a key path leads to afterwards can be told from what
it led to before. A value that is no mapping is put in place of whatever was there, what the update
does not mention stays, the excluded files of both are joined, and nothing else comes in. The merge is
refused only where excluded items cannot be compared.

* `Value.mergeAt_ok` says what may happen at one key, `Value.get?_mergeFields` reads the merged fields;
* `Value.Clashes` says where a merge is refused, `Value.mergeFields_error` that it is refused nowhere
  else;
* `Value.LaidOver` is the law of paths, and `Value.merge_by_paths` the result.
-/

namespace SymbolDocs.Value

/-- Is the value without parts? Only such a value can be compared with others. -/
def isScalar : Value → Bool
  | .scalar _ => true
  | _ => false

/-! ## Joined lists -/

theorem mapM_asKey (keys : List Scalar) : (keys.map Value.scalar).mapM asKey = .ok keys := by
  induction keys with
  | nil => rfl
  | cons k rest ih =>
    rw [List.map_cons, List.mapM_cons, ih]
    rfl

theorem mapM_asKey_error {items : List Value} {x : Value} (hx : x ∈ items)
    (h : x.isScalar = false) : items.mapM asKey = .error .wrongShape := by
  induction items with
  | nil => cases hx
  | cons y rest ih =>
    rw [List.mapM_cons]
    cases y with
    | scalar s =>
      rw [ih ((List.mem_cons.mp hx).resolve_left fun heq => by simp [heq, isScalar] at h)]
      rfl
    | list _ => rfl
    | map _ => rfl

theorem exists_keys {items : List Value} (h : ∀ x ∈ items, x.isScalar = true) :
    ∃ keys : List Scalar, items = keys.map Value.scalar := by
  induction items with
  | nil => exact ⟨[], rfl⟩
  | cons y rest ih =>
    obtain ⟨keys, rfl⟩ := ih fun x hx => h x (List.mem_cons_of_mem _ hx)
    cases y with
    | scalar s => exact ⟨s :: keys, rfl⟩
    | list _ => exact absurd (h _ List.mem_cons_self) (by simp [isScalar])
    | map _ => exact absurd (h _ List.mem_cons_self) (by simp [isScalar])

theorem scalars_or_exists (items : List Value) :
    (∀ x ∈ items, x.isScalar = true) ∨ ∃ x ∈ items, x.isScalar = false := by
  by_cases h : ∀ x ∈ items, x.isScalar = true
  · exact .inl h
  · exact .inr (by simpa using h)

/-- What is left of the keys are the first of each kind among those not seen before. -/
theorem distinctFrom_eq (seen keys : List Scalar) :
    (distinctFrom seen keys).map Value.scalar =
      ((keys.filter fun k => !seen.any fun s => s.same k).map Value.scalar).eraseDupsBy same := by
  induction keys generalizing seen with
  | nil => rfl
  | cons k rest ih =>
    rw [distinctFrom]
    split
    · rename_i hseen
      rw [ih, List.filter_cons_of_neg (by simp [hseen])]
    · rename_i hnew
      rw [List.filter_cons_of_pos (by simpa using hnew), List.map_cons, List.map_cons, ih,
        List.eraseDupsBy_cons, List.filter_map, List.filter_filter]
      congr 3
      apply List.filter_congr
      intro x _
      simp [same, Scalar.same_comm x k, Bool.and_comm]

/-- The items of both lists are joined when all of them can be compared. -/
theorem unionItems_eq {xs ys : List Value} (h : ∀ x ∈ xs ++ ys, x.isScalar = true) :
    unionItems xs ys = .ok ((xs ++ ys).eraseDupsBy same) := by
  obtain ⟨keys, hkeys⟩ := exists_keys h
  have hjoined := distinctFrom_eq [] keys
  simp only [List.any_nil, Bool.not_false, List.filter_true] at hjoined
  rw [unionItems, hkeys, mapM_asKey, ← hjoined]
  rfl

theorem unionItems_error {xs ys : List Value} {x : Value} (hx : x ∈ xs ++ ys)
    (h : x.isScalar = false) : unionItems xs ys = .error .wrongShape := by
  rw [unionItems, mapM_asKey_error hx h]
  rfl

/-- Joining fails for items that cannot be compared and for nothing else. -/
theorem unionItems_ok {xs ys zs : List Value} (h : unionItems xs ys = .ok zs) :
    zs = (xs ++ ys).eraseDupsBy same ∧ ∀ x ∈ xs ++ ys, x.isScalar = true := by
  rcases scalars_or_exists (xs ++ ys) with hscalar | ⟨x, hx, hparts⟩
  · rw [unionItems_eq hscalar] at h
    cases h
    exact ⟨rfl, hscalar⟩
  · rw [unionItems_error hx hparts] at h
    cases h

/-! ## One key -/

theorem isAdditive_iff {key : Scalar} : isAdditive key = true ↔ key = .text "exclude" :=
  Scalar.same_text_iff

theorem mergeAt_list (key : Scalar) (current : Option Value) (ys : List Value) :
    mergeAt key current (.list ys) =
      match current with
      | some (.list xs) => if isAdditive key then (unionItems xs ys).map .list else .ok (.list ys)
      | _ => .ok (.list ys) :=
  mergeAt.eq_def key current (.list ys)

theorem mergeAt_map (key : Scalar) (current : Option Value) (update : Fields) :
    mergeAt key current (.map update) =
      match current with
      | some (.map base) => (mergeFields base update).map .map
      | _ => .ok (.map update) :=
  mergeAt.eq_def key current (.map update)

/-- What may stand at a key after a merge: merged mappings, joined lists, or the new value. -/
theorem mergeAt_ok {key : Scalar} {current : Option Value} {v w : Value}
    (h : mergeAt key current v = .ok w) :
    (∃ base update result, current = some (.map base) ∧ v = .map update ∧ w = .map result ∧
      mergeFields base update = .ok result) ∨
    (∃ xs ys, key = .text "exclude" ∧ current = some (.list xs) ∧ v = .list ys ∧
      w = .list ((xs ++ ys).eraseDupsBy same) ∧ ∀ x ∈ xs ++ ys, x.isScalar = true) ∨
    (w = v ∧ (∀ base update, current = some (.map base) → v ≠ .map update) ∧
      ∀ xs ys, key = .text "exclude" → current = some (.list xs) → v ≠ .list ys) := by
  cases v with
  | scalar s =>
    rw [mergeAt] at h
    cases h
    exact .inr (.inr ⟨rfl, by simp, by simp⟩)
  | list ys =>
    rw [mergeAt_list] at h
    split at h
    · rename_i xs
      split at h
      · rename_i hkey
        cases hunion : unionItems xs ys with
        | error e => simp [hunion, Except.map] at h
        | ok zs =>
          obtain ⟨rfl, hscalar⟩ := unionItems_ok hunion
          simp only [hunion, Except.map, Except.ok.injEq] at h
          exact .inr (.inl ⟨xs, ys, isAdditive_iff.mp hkey, rfl, rfl, h.symm, hscalar⟩)
      · rename_i hkey
        cases h
        refine .inr (.inr ⟨rfl, by simp, fun _ _ hexclude => ?_⟩)
        exact absurd (isAdditive_iff.mpr hexclude) hkey
    · rename_i hcurrent
      cases h
      exact .inr (.inr ⟨rfl, by simp, fun xs _ _ hxs => absurd hxs (hcurrent xs)⟩)
  | map update =>
    rw [mergeAt_map] at h
    split at h
    · rename_i base
      cases hmerge : mergeFields base update with
      | error e => simp [hmerge, Except.map] at h
      | ok result =>
        simp only [hmerge, Except.map, Except.ok.injEq] at h
        exact .inl ⟨base, update, result, rfl, rfl, h.symm, hmerge⟩
    · rename_i hcurrent
      cases h
      exact .inr (.inr ⟨rfl, fun base _ hbase => absurd hbase (hcurrent base), by simp⟩)

theorem mergeAt_congr {k key : Scalar} (h : k.same key = true) (current : Option Value) (v : Value) :
    mergeAt k current v = mergeAt key current v := by
  have hadditive : isAdditive k = isAdditive key := by
    rw [isAdditive, isAdditive, Scalar.same_comm k, Scalar.same_comm key, Scalar.same_congr h]
  cases v with
  | scalar s => rw [mergeAt, mergeAt]
  | list ys => rw [mergeAt_list, mergeAt_list, hadditive]
  | map update => rw [mergeAt_map, mergeAt_map]

theorem mergeFields_cons_ok {base rest result : Fields} {k : Scalar} {v : Value}
    (h : mergeFields base ((k, v) :: rest) = .ok result) :
    ∃ w, mergeAt k (Fields.get? k base) v = .ok w ∧
      mergeFields (Fields.insert k w base) rest = .ok result := by
  rw [mergeFields] at h
  cases hw : mergeAt k (Fields.get? k base) v with
  | error e => simp [hw, bind, Except.bind] at h
  | ok w =>
    simp only [hw, bind, Except.bind] at h
    exact ⟨w, rfl, h⟩

/-- Merged fields key by key: a key of the update is merged with what was there, and any other keeps
its value. -/
theorem get?_mergeFields {base update result : Fields} (hproper : properFields update = true)
    (h : mergeFields base update = .ok result) (key : Scalar) :
    (Fields.get? key update = none → Fields.get? key result = Fields.get? key base) ∧
      ∀ v, Fields.get? key update = some v →
        ∃ w, mergeAt key (Fields.get? key base) v = .ok w ∧ Fields.get? key result = some w := by
  induction update generalizing base with
  | nil =>
    rw [mergeFields] at h
    cases h
    exact ⟨fun _ => rfl, fun v hv => by cases hv⟩
  | cons f rest ih =>
    obtain ⟨k, v⟩ := f
    obtain ⟨hdiffer, -, hrest⟩ := properFields_cons hproper
    obtain ⟨w, hw, hmerge⟩ := mergeFields_cons_ok h
    obtain ⟨hnone, hsome⟩ := ih hrest hmerge
    rw [Fields.get?_insert] at hnone hsome
    rw [Fields.get?_cons]
    split
    · rename_i hsame
      rw [if_pos hsame] at hnone
      refine ⟨by simp, fun v' hv' => ?_⟩
      cases hv'
      have habsent : Fields.get? key rest = none :=
        Fields.get?_eq_none fun e he => by rw [← Scalar.same_congr hsame, hdiffer e he]
      rw [← mergeAt_congr hsame, ← Fields.get?_congr hsame]
      exact ⟨w, hw, hnone habsent⟩
    · rename_i hother
      rw [if_neg hother] at hnone hsome
      exact ⟨hnone, hsome⟩

section Merged

variable {base update result : Fields} (hproper : properFields update = true)
  (h : mergeFields base update = .ok result)
include hproper h

/-- Where both have mappings these are merged. -/
theorem get?_merged_maps {key : Scalar} {b u : Fields} (hb : Fields.get? key base = some (.map b))
    (hu : Fields.get? key update = some (.map u)) :
    ∃ r, Fields.get? key result = some (.map r) ∧ mergeFields b u = .ok r ∧
      properFields u = true := by
  obtain ⟨w, hw, hget⟩ := (get?_mergeFields hproper h key).2 _ hu
  rcases mergeAt_ok hw with ⟨b', u', r, hcurrent, hv, rfl, hmerge⟩ | ⟨_, _, -, -, hv, -⟩ |
    ⟨-, hmap, -⟩
  · cases hv
    rw [hb] at hcurrent
    cases hcurrent
    exact ⟨r, hget, hmerge, isProper_of_get? hproper hu⟩
  · cases hv
  · exact absurd rfl (hmap b u hb)

/-- Where both list excluded items these are joined, and can be compared. -/
theorem get?_merged_lists {xs ys : List Value}
    (hxs : Fields.get? (.text "exclude") base = some (.list xs))
    (hys : Fields.get? (.text "exclude") update = some (.list ys)) :
    Fields.get? (.text "exclude") result = some (.list ((xs ++ ys).eraseDupsBy same)) ∧
      ∀ x ∈ xs ++ ys, x.isScalar = true := by
  obtain ⟨w, hw, hget⟩ := (get?_mergeFields hproper h _).2 _ hys
  rcases mergeAt_ok hw with ⟨_, _, _, -, hv, -⟩ | ⟨xs', ys', -, hcurrent, hv, rfl, hscalar⟩ |
    ⟨-, -, hlist⟩
  · cases hv
  · cases hv
    rw [hxs] at hcurrent
    cases hcurrent
    exact ⟨hget, hscalar⟩
  · exact absurd rfl (hlist xs ys rfl hxs)

/-- Anywhere else the new value takes the place of the old one. -/
theorem get?_merged_other {key : Scalar} {v : Value} (hv : Fields.get? key update = some v)
    (hmaps : ∀ b u, Fields.get? key base = some (.map b) → v ≠ .map u)
    (hlists : ∀ ys, key = .text "exclude" → v ≠ .list ys) : Fields.get? key result = some v := by
  obtain ⟨w, hw, hget⟩ := (get?_mergeFields hproper h key).2 _ hv
  rcases mergeAt_ok hw with ⟨b, u, _, hcurrent, rfl, -⟩ | ⟨_, ys, rfl, -, rfl, -⟩ | ⟨rfl, -⟩
  · exact absurd rfl (hmaps b u hcurrent)
  · exact absurd rfl (hlists ys rfl)
  · exact hget

end Merged

/-! ## Where a merge is refused -/

/-- Somewhere both mappings list excluded items, and one of the items cannot be compared. -/
def Clashes (base update : Fields) : Prop :=
  ∃ path xs ys, (Value.map base).at? (path ++ [.text "exclude"]) = some (.list xs) ∧
    (Value.map update).at? (path ++ [.text "exclude"]) = some (.list ys) ∧
    ∃ x ∈ xs ++ ys, x.isScalar = false

theorem Clashes.under {base update b u : Fields} {key : Scalar} (h : Clashes b u)
    (hbase : Fields.get? key base = some (.map b)) (hupdate : Fields.get? key update = some (.map u)) :
    Clashes base update := by
  obtain ⟨path, xs, ys, hxs, hys, hx⟩ := h
  exact ⟨key :: path, xs, ys, by simpa [hbase] using hxs, by simpa [hupdate] using hys, hx⟩

/-- A clash that lies under other keys than the first is one of the whole mapping. -/
theorem Clashes.cons {base rest : Fields} {k : Scalar} {v w : Value}
    (h : Clashes (Fields.insert k w base) rest) (hdiffer : ∀ e ∈ rest, e.1.same k = false) :
    Clashes base ((k, v) :: rest) := by
  obtain ⟨path, xs, ys, hxs, hys, hx⟩ := h
  obtain ⟨key, tail, hpath⟩ : ∃ key tail, path ++ [.text "exclude"] = key :: tail :=
    List.exists_cons_of_ne_nil (by simp)
  rw [hpath] at hxs hys
  have hother : k.same key = false := by
    rw [at?_map, Option.bind_eq_some_iff] at hys
    obtain ⟨y, hy, -⟩ := hys
    obtain ⟨k', hmem, hsame⟩ := Fields.exists_mem_of_get? hy
    rw [Bool.eq_false_iff]
    intro hk
    have hfalse := hdiffer _ hmem
    rw [Scalar.same_congr hk, hsame] at hfalse
    cases hfalse
  refine ⟨path, xs, ys, ?_, ?_, hx⟩
  · rw [hpath]
    simpa [Fields.get?_insert, hother] using hxs
  · rw [hpath]
    simpa [Fields.get?_cons, hother] using hys

mutual

theorem mergeAt_error {key : Scalar} {base update : Fields} {e : Fault} : (v : Value) →
    v.isProper = true → Fields.get? key update = some v →
    mergeAt key (Fields.get? key base) v = .error e → e = .wrongShape ∧ Clashes base update
  | .scalar _, _, _, h => by
    rw [mergeAt] at h
    cases h
  | .list ys, _, hget, h => by
    rw [mergeAt_list] at h
    split at h
    · rename_i xs hxs
      split at h
      · rename_i hkey
        rw [isAdditive_iff] at hkey
        subst hkey
        rcases scalars_or_exists (xs ++ ys) with hscalar | ⟨x, hx, hparts⟩
        · simp [unionItems_eq hscalar, Except.map] at h
        · simp only [unionItems_error hx hparts, Except.map, Except.error.injEq] at h
          exact ⟨h.symm, [], xs, ys, by simp [hxs], by simp [hget], x, hx, hparts⟩
      · cases h
    · cases h
  | .map u, hv, hget, h => by
    rw [mergeAt_map] at h
    split at h
    · rename_i b hb
      cases hmerge : mergeFields b u with
      | ok result => simp [hmerge, Except.map] at h
      | error e' =>
        simp only [hmerge, Except.map, Except.error.injEq] at h
        subst h
        obtain ⟨hfault, hclash⟩ := mergeFields_error u hv hmerge
        exact ⟨hfault, hclash.under hb hget⟩
    · cases h

theorem mergeFields_error {base : Fields} {e : Fault} : (update : List (Scalar × Value)) →
    properFields update = true → mergeFields base update = .error e →
    e = .wrongShape ∧ Clashes base update
  | [], _, h => by
    rw [mergeFields] at h
    cases h
  | (k, v) :: rest, hproper, h => by
    obtain ⟨hdiffer, hv, hrest⟩ := properFields_cons hproper
    rw [mergeFields] at h
    cases hw : mergeAt k (Fields.get? k base) v with
    | error e' =>
      simp only [hw, bind, Except.bind, Except.error.injEq] at h
      subst h
      exact mergeAt_error v hv (by rw [Fields.get?_cons, if_pos (Scalar.same_refl k)]) hw
    | ok w =>
      simp only [hw, bind, Except.bind] at h
      obtain ⟨hfault, hclash⟩ := mergeFields_error rest hrest h
      exact ⟨hfault, hclash.cons hdiffer⟩

end

/-- A merge that goes through meets no clash. -/
theorem not_clashes_of_mergeFields {base update result : Fields} (hproper : properFields update = true)
    (h : mergeFields base update = .ok result) : ¬ Clashes base update := by
  rintro ⟨path, xs, ys, hxs, hys, x, hx, hparts⟩
  induction path generalizing base update result with
  | nil =>
    simp only [List.nil_append, at?_map, Option.bind_eq_some_iff, at?_nil, Option.some.injEq,
      exists_eq_right] at hxs hys
    have hscalar := (get?_merged_lists hproper h hxs hys).2 x hx
    exact absurd hscalar (by simp [hparts])
  | cons key path ih =>
    rw [List.cons_append, at?_map, Option.bind_eq_some_iff] at hxs hys
    obtain ⟨b, hb, hxs⟩ := hxs
    obtain ⟨u, hu, hys⟩ := hys
    obtain ⟨base', rfl⟩ := exists_fields_of_at? (by simp) hxs
    obtain ⟨update', rfl⟩ := exists_fields_of_at? (by simp) hys
    obtain ⟨r, -, hmerge, hproper'⟩ := get?_merged_maps hproper h hb hu
    exact ih hproper' hmerge hxs hys

/-! ## The law of paths -/

/-- One mapping laid over another, path by path. -/
structure LaidOver (base update result : Value) : Prop where
  /-- A value of the update that is no mapping takes the place of what was there, excluded items
  apart. -/
  replaced : ∀ path key v, update.at? (path ++ [key]) = some v → (∀ fields, v ≠ .map fields) →
    key ≠ .text "exclude" → result.at? (path ++ [key]) = some v
  /-- What the update neither mentions nor covers stays. -/
  kept : ∀ path v, base.at? path = some v → update.at? path = none →
    (∀ start w, start <+: path → start ≠ path → update.at? start = some w →
      ∃ fields, w = .map fields) →
    result.at? path = some v
  /-- Excluded items are those of both in the order first seen, each of them once. -/
  joined : ∀ path xs ys, base.at? (path ++ [.text "exclude"]) = some (.list xs) →
    update.at? (path ++ [.text "exclude"]) = some (.list ys) →
    result.at? (path ++ [.text "exclude"]) = some (.list ((xs ++ ys).eraseDupsBy same))
  /-- Every path comes from one of the two. -/
  traced : ∀ path, (result.at? path).isSome → (base.at? path).isSome ∨ (update.at? path).isSome

section Paths

variable {base update result : Fields} (hproper : properFields update = true)
  (h : mergeFields base update = .ok result)
include hproper h

theorem at?_replaced {path : List Scalar} {key : Scalar} {v : Value}
    (hv : (Value.map update).at? (path ++ [key]) = some v) (hmapping : ∀ fields, v ≠ .map fields)
    (hkey : key ≠ .text "exclude") : (Value.map result).at? (path ++ [key]) = some v := by
  induction path generalizing base update result with
  | nil =>
    simp only [List.nil_append, at?_map, Option.bind_eq_some_iff, at?_nil, Option.some.injEq,
      exists_eq_right] at hv ⊢
    exact get?_merged_other hproper h hv (fun _ u _ => hmapping u) fun _ hexclude =>
      absurd hexclude hkey
  | cons first path ih =>
    rw [List.cons_append, at?_map, Option.bind_eq_some_iff] at hv ⊢
    obtain ⟨u, hu, hv⟩ := hv
    obtain ⟨update', rfl⟩ := exists_fields_of_at? (by simp) hv
    by_cases hb : ∃ b, Fields.get? first base = some (.map b)
    · obtain ⟨b, hb⟩ := hb
      obtain ⟨r, hr, hmerge, hproper'⟩ := get?_merged_maps hproper h hb hu
      exact ⟨_, hr, ih hproper' hmerge hv⟩
    · have hr := get?_merged_other hproper h hu (fun b _ hb' => absurd ⟨b, hb'⟩ hb) (by simp)
      exact ⟨_, hr, hv⟩

theorem at?_kept {path : List Scalar} {v : Value} (hv : (Value.map base).at? path = some v)
    (hnone : (Value.map update).at? path = none)
    (hcover : ∀ start w, start <+: path → start ≠ path →
      (Value.map update).at? start = some w → ∃ fields, w = .map fields) :
    (Value.map result).at? path = some v := by
  induction path generalizing base update result with
  | nil => simp at hnone
  | cons first path ih =>
    rw [at?_map, Option.bind_eq_some_iff] at hv ⊢
    obtain ⟨b, hb, hv⟩ := hv
    cases hu : Fields.get? first update with
    | none => exact ⟨b, by rw [(get?_mergeFields hproper h first).1 hu, hb], hv⟩
    | some u =>
      rw [at?_map, hu, Option.bind_some] at hnone
      have hne : path ≠ [] := by
        rintro rfl
        simp at hnone
      obtain ⟨base', rfl⟩ := exists_fields_of_at? hne hv
      obtain ⟨update', rfl⟩ : ∃ fields, u = .map fields :=
        hcover [first] u (by simp) (by simpa using hne.symm) (by simp [hu])
      obtain ⟨r, hr, hmerge, hproper'⟩ := get?_merged_maps hproper h hb hu
      refine ⟨_, hr, ih hproper' hmerge hv hnone fun start w hstart hdiffer hw => ?_⟩
      exact hcover (first :: start) w (by simpa using hstart) (by simpa using hdiffer)
        (by simp [hu, hw])

theorem at?_joined {path : List Scalar} {xs ys : List Value}
    (hxs : (Value.map base).at? (path ++ [.text "exclude"]) = some (.list xs))
    (hys : (Value.map update).at? (path ++ [.text "exclude"]) = some (.list ys)) :
    (Value.map result).at? (path ++ [.text "exclude"]) =
      some (.list ((xs ++ ys).eraseDupsBy same)) := by
  induction path generalizing base update result with
  | nil =>
    simp only [List.nil_append, at?_map, Option.bind_eq_some_iff, at?_nil, Option.some.injEq,
      exists_eq_right] at hxs hys ⊢
    exact (get?_merged_lists hproper h hxs hys).1
  | cons first path ih =>
    rw [List.cons_append, at?_map, Option.bind_eq_some_iff] at hxs hys ⊢
    obtain ⟨b, hb, hxs⟩ := hxs
    obtain ⟨u, hu, hys⟩ := hys
    obtain ⟨base', rfl⟩ := exists_fields_of_at? (by simp) hxs
    obtain ⟨update', rfl⟩ := exists_fields_of_at? (by simp) hys
    obtain ⟨r, hr, hmerge, hproper'⟩ := get?_merged_maps hproper h hb hu
    exact ⟨_, hr, ih hproper' hmerge hxs hys⟩

theorem at?_traced {path : List Scalar} {w : Value} (hw : (Value.map result).at? path = some w) :
    ((Value.map base).at? path).isSome ∨ ((Value.map update).at? path).isSome := by
  induction path generalizing base update result with
  | nil => simp
  | cons first path ih =>
    rw [at?_map, Option.bind_eq_some_iff] at hw
    obtain ⟨r, hr, hw⟩ := hw
    obtain ⟨hother, hmerged⟩ := get?_mergeFields hproper h first
    cases hu : Fields.get? first update with
    | none =>
      rw [hother hu] at hr
      exact .inl (by simp [hr, hw])
    | some u =>
      obtain ⟨r', hmerge, hr'⟩ := hmerged u hu
      rw [hr] at hr'
      cases hr'
      rcases mergeAt_ok hmerge with ⟨b, u', result', hb, rfl, rfl, hmerge'⟩ |
        ⟨_, ys, -, -, rfl, rfl, -⟩ | ⟨rfl, -⟩
      · simpa [hb, hu] using ih (isProper_of_get? hproper hu) hmerge' hw
      · cases path with
        | nil => exact .inr (by simp [hu])
        | cons _ _ => cases hw
      · exact .inr (by simp [hu, hw])

end Paths

/-- **Settings are merged path by path.** A merge is refused exactly where both mappings list excluded
items and one of these cannot be compared; otherwise it is the update laid over the base. -/
theorem merge_by_paths {base update : Fields} (hproper : (Value.map update).isProper = true) :
    (Clashes base update → (Value.map base).merge (.map update) = .error .wrongShape) ∧
      (¬ Clashes base update → ∃ result, (Value.map base).merge (.map update) = .ok result ∧
        LaidOver (.map base) (.map update) result) := by
  cases h : mergeFields base update with
  | error e =>
    obtain ⟨rfl, hclash⟩ := mergeFields_error update hproper h
    refine ⟨fun _ => by simp [merge, h, Except.map], fun hfree => absurd hclash hfree⟩
  | ok result =>
    refine ⟨fun hclash => absurd hclash (not_clashes_of_mergeFields hproper h), fun _ => ?_⟩
    refine ⟨.map result, by simp [merge, h, Except.map], ?_⟩
    exact {
      replaced := fun _ _ _ => at?_replaced hproper h
      kept := fun _ _ => at?_kept hproper h
      joined := fun _ _ _ => at?_joined hproper h
      traced := fun path hsome => by
        obtain ⟨w, hw⟩ := Option.isSome_iff_exists.mp hsome
        exact at?_traced hproper h hw }

/-- Settings with nested ones and excluded files. -/
def siteSettings : Fields :=
  [(.text "exclude", .list [.text "a.ts", .text "b.ts"]),
    (.text "theme", .map [(.text "font", .text "serif"), (.text "exclude", .int 1)])]

/-- Changes to them, on both levels. -/
def siteChanges : Fields :=
  [(.text "theme", .map [(.text "exclude", .list [.list []]), (.text "size", .int 3)]),
    (.text "exclude", .list [.text "b.ts", .text "c.ts"])]

/-- Items that cannot be compared do no harm where there is nothing to compare them with. -/
theorem merge_by_paths_site :
    (Value.map siteChanges).isProper = true ∧ ¬ Clashes siteSettings siteChanges ∧
      ∃ result, (Value.map siteSettings).merge (.map siteChanges) = .ok result ∧
        LaidOver (.map siteSettings) (.map siteChanges) result := by
  have hproper : (Value.map siteChanges).isProper = true := by decide
  have hmerge : mergeFields siteSettings siteChanges = .ok [
      (.text "exclude", .list [.text "a.ts", .text "b.ts", .text "c.ts"]),
      (.text "theme", .map [(.text "font", .text "serif"), (.text "exclude", .list [.list []]),
        (.text "size", .int 3)])] := by rfl
  have hfree := not_clashes_of_mergeFields hproper hmerge
  exact ⟨hproper, hfree, (merge_by_paths hproper).2 hfree⟩

/-- A list among the excluded items keeps every other setting of the update from being made. -/
theorem merge_refuses_setting :
    let base : Value := .record [("exclude", .list [.list [.text "a.ts"]])]
    let update : Value := .record [("exclude", .list [.text "b.ts"]), ("spa", .bool true)]
    update.at? [.text "spa"] = some (.bool true) ∧
      ¬ ∃ result, base.merge update = .ok result ∧
        result.at? [.text "spa"] = some (.bool true) := by
  intro base update
  have hrefused : base.merge update = .error .wrongShape := by rfl
  refine ⟨by rfl, ?_⟩
  rintro ⟨result, hmerge, -⟩
  rw [hrefused] at hmerge
  cases hmerge

end SymbolDocs.Value
