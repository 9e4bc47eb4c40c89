import SymbolDocs.Proofs.Lineage

/-!
# What a type value comes to

A type value is followed to a declaration or to a structural type: a mention that is carried in place
leads to its type, an id to what the record found for it resolves to. Only ids are noted on the way. A
record is a finite tree, so mentions in place run out by themselves, and an id that leads on is a new
one of the index.

* `Reader.AliasStep` is a step, `Reader.Yields` says how a search ends with a record;
* `Reader.unboundedType` is the search without a bound, and `Reader.unboundedType_eq` says that it ends;
* `Reader.typeSummary_exact`: what is found is the record that the steps lead to, and nothing is found
  only when they lead to none.
-/

namespace SymbolDocs

open Relation

namespace Reader

variable {rd : Reader}

/-! ## The search without a bound -/

/-- What a record is followed to: what its type comes to when that is known, or else its type. -/
def meaning? (r : Record) : Option (TypeValue Record) :=
  r.resolvedType.or r.type

/-- Follows a type value, having passed the ids `seen`, up to a class, an interface, a component or a
record that is no mention. -/
def unboundedType (rd : Reader) (seen : List Scalar) (t : Option (TypeValue Record)) :
    Option (Option Record) :=
  match t with
  | none => some none
  | some (.inline _) => some none
  | some (.embedded r) =>
    if r.kind == .reference then rd |>.unboundedType seen r.type else some (some r)
  | some (.ref id) =>
    if seen.any (·.same id) then some none
    else
      match find? id rd.byId with
      | none => some none
      | some r =>
        if r.kind.hasHeritage then some (some r)
        else rd |>.unboundedType (id :: seen) (meaning? r)
partial_fixpoint

/-- The rest of a search after mentions in place. -/
def unboundedPeeled (rd : Reader) (seen : List Scalar) : Peeled → Option (Option Record)
  | .nothing => some none
  | .ref id => rd.unboundedType seen (some (.ref id))
  | .record r => some (some r)

mutual

/-- Mentions in place can be followed first: they lie inside one record. -/
theorem unboundedType_embedded (seen : List Scalar) : ∀ r : Record,
    rd.unboundedType seen (some (.embedded r)) = rd.unboundedPeeled seen (peel r)
  | ⟨kind, id, name, flags, value, docs, parameters, children, type, typeParameters, resolvedType,
      tsconfig⟩ => by
    rw [unboundedType, peel]
    dsimp only
    split
    · exact unboundedType_peelType seen type
    · rfl

/-- The same from a type value. -/
theorem unboundedType_peelType (seen : List Scalar) : ∀ t : Option (TypeValue Record),
    rd.unboundedType seen t = rd.unboundedPeeled seen (peelType t)
  | none => by rw [unboundedType, peelType, unboundedPeeled]
  | some (.inline s) => by rw [unboundedType, peelType, unboundedPeeled]
  | some (.ref id) => by rw [peelType, unboundedPeeled]
  | some (.embedded r) => by rw [peelType, unboundedType_embedded seen r]

end

/-- **Searches end**: between two ids there are finitely many mentions in place, and an id that leads on
is a new one of the index. -/
theorem unboundedType_eq_followIds (fuel : Nat) :
    ∀ (seen : List Scalar) (t : Option (TypeValue Record)), (rd.unpassed seen).length < fuel →
      rd.unboundedType seen t = some (rd.followIds fuel seen (peelType t)) := by
  induction fuel with
  | zero => exact fun _ _ h => absurd h (Nat.not_lt_zero _)
  | succ fuel ih =>
    intro seen t hroom
    rw [unboundedType_peelType]
    cases peelType t with
    | nothing => rw [unboundedPeeled, followIds]
    | record r => rw [unboundedPeeled, followIds]
    | ref id =>
      rw [unboundedPeeled, unboundedType, followIds]
      split
      · rfl
      · rename_i hnew
        cases hfind : find? id rd.byId with
        | none => rfl
        | some r =>
          dsimp only
          split
          · rfl
          · have hless := length_unpassed_cons hfind (by simpa using hnew)
            rw [ih _ _ (by omega), meaning?]
            cases r.resolvedType <;> rfl

theorem unboundedType_eq (t : Option (TypeValue Record)) :
    rd.unboundedType [] t = some (rd.typeSummary? t) :=
  unboundedType_eq_followIds _ [] t (Nat.lt_succ_of_le (List.length_filter_le _ _))

/-! ## Steps -/

/-- A step of a search. A class, an interface or a component that is found for an id is not followed. -/
inductive AliasStep (rd : Reader) : TypeValue Record → TypeValue Record → Prop
  /-- From a mention in place to its type. -/
  | mention {r : Record} {v : TypeValue Record} (hr : r.kind = .reference) (hv : r.type = some v) :
    AliasStep rd (.embedded r) v
  /-- From an id to what the record found for it is followed to. -/
  | id {id : Scalar} {r : Record} {v : TypeValue Record} (hfind : find? id rd.byId = some r)
    (hr : r.kind.hasHeritage = false) (hv : meaning? r = some v) : AliasStep rd (.ref id) v

/-- A search ends at a type value with a record. -/
inductive Yields (rd : Reader) : TypeValue Record → Record → Prop
  /-- In place stands a record that is no mention. -/
  | inPlace {r : Record} (hr : r.kind ≠ .reference) : Yields rd (.embedded r) r
  /-- An id belongs to a class, an interface or a component. -/
  | declaration {id : Scalar} {r : Record} (hfind : find? id rd.byId = some r)
    (hr : r.kind.hasHeritage = true) : Yields rd (.ref id) r

theorem AliasStep.eq {v w w' : TypeValue Record} (h : rd.AliasStep v w) (h' : rd.AliasStep v w') :
    w = w' := by
  cases h with
  | mention _ hv =>
    cases h' with
    | mention _ hv' => exact Option.some.inj (hv.symm.trans hv')
  | id hfind _ hv =>
    cases h' with
    | id hfind' _ hv' =>
      obtain rfl := Option.some.inj (hfind.symm.trans hfind')
      exact Option.some.inj (hv.symm.trans hv')

/-- A search that ends with a record goes no further. -/
theorem Yields.not_aliasStep {v w : TypeValue Record} {r : Record} (h : rd.Yields v r) :
    ¬ rd.AliasStep v w := by
  intro hw
  cases h with
  | inPlace hr =>
    cases hw with
    | mention hr' _ => exact hr hr'
  | declaration hfind hr =>
    cases hw with
    | id hfind' hr' _ =>
      obtain rfl := Option.some.inj (hfind.symm.trans hfind')
      exact Bool.noConfusion (hr.symm.trans hr')

/-- The same id leads to the same. -/
theorem AliasStep.of_same {a b : Scalar} {v : TypeValue Record} (h : rd.AliasStep (.ref a) v)
    (hsame : a.same b = true) : rd.AliasStep (.ref b) v := by
  cases h with
  | id hfind hr hv => exact .id (find?_congr hsame _ ▸ hfind) hr hv

/-- A type value from which a search comes to a record does not lead back to itself. -/
theorem not_circular_of_yields {v w : TypeValue Record} {r : Record} (h : ReflTransGen rd.AliasStep v w)
    (hr : rd.Yields w r) : ¬ TransGen rd.AliasStep v v := by
  induction h using ReflTransGen.head_induction_on with
  | refl =>
    intro hcircular
    obtain ⟨x, hx, -⟩ := TransGen.head'_iff.mp hcircular
    exact hr.not_aliasStep hx
  | @head v x hstep _ ih =>
    intro hcircular
    obtain ⟨x', hx', hback⟩ := TransGen.head'_iff.mp hcircular
    obtain rfl := hstep.eq hx'
    exact ih (TransGen.tail' hback hstep)

/-! ## What is found -/

/-- A search that finds a record has been led to it. -/
theorem aliasSteps_of_unboundedType {seen : List Scalar} {t : Option (TypeValue Record)} {r : Record}
    (h : rd.unboundedType seen t = some (some r)) :
    ∃ v ∈ t, ∃ w, ReflTransGen rd.AliasStep v w ∧ rd.Yields w r := by
  refine unboundedType.partial_correctness rd (fun _ t found => ∀ r, found = some r →
    ∃ v ∈ t, ∃ w, ReflTransGen rd.AliasStep v w ∧ rd.Yields w r) ?_ seen t (some r) h r rfl
  intro search ih seen t found h r hr
  subst hr
  match t with
  | none => cases h
  | some (.inline s) => cases h
  | some (.embedded r') =>
    dsimp only at h
    split at h
    · rename_i hkind
      obtain ⟨v, hv, w, hreaches, hw⟩ := ih _ _ _ h r rfl
      exact ⟨_, rfl, w, hreaches.head (.mention (eq_of_beq hkind) hv), hw⟩
    · rename_i hkind
      cases h
      exact ⟨_, rfl, _, .refl, .inPlace fun hk => hkind (beq_iff_eq.mpr hk)⟩
  | some (.ref id) =>
    dsimp only at h
    split at h
    · cases h
    · cases hfind : find? id rd.byId with
      | none =>
        rw [hfind] at h
        cases h
      | some r' =>
        rw [hfind] at h
        dsimp only at h
        split at h
        · rename_i hkind
          cases h
          exact ⟨_, rfl, _, .refl, .declaration hfind hkind⟩
        · rename_i hkind
          obtain ⟨v, hv, w, hreaches, hw⟩ := ih _ _ _ h r rfl
          exact ⟨_, rfl, w, hreaches.head (.id hfind (Bool.eq_false_iff.mpr hkind) hv), hw⟩

/-- A search that is led to a record finds it. No id on the way has been passed, since each id passed
leads on to where the search is now. -/
theorem unboundedType_of_aliasSteps {v w : TypeValue Record} {r : Record} (h : ReflTransGen rd.AliasStep v w)
    (hr : rd.Yields w r) {seen : List Scalar}
    (hseen : ∀ a ∈ seen, ∃ x, rd.AliasStep (.ref a) x ∧ ReflTransGen rd.AliasStep x v) :
    rd.unboundedType seen (some v) = some (some r) := by
  have hnew : ∀ {seen : List Scalar} {v : TypeValue Record} {id : Scalar}, v = .ref id →
      ReflTransGen rd.AliasStep v w →
      (∀ a ∈ seen, ∃ x, rd.AliasStep (.ref a) x ∧ ReflTransGen rd.AliasStep x v) →
      ¬ seen.any (·.same id) = true := by
    rintro seen v id rfl hv hseen hany
    obtain ⟨a, ha, hsame⟩ := List.any_eq_true.mp hany
    obtain ⟨x, hx, hback⟩ := hseen a ha
    exact not_circular_of_yields hv hr (TransGen.head' (hx.of_same hsame) hback)
  induction h using ReflTransGen.head_induction_on generalizing seen with
  | refl =>
    cases hr with
    | inPlace hk =>
      rw [unboundedType]
      exact if_neg fun h => hk (eq_of_beq h)
    | declaration hfind hk =>
      rw [unboundedType, if_neg (hnew rfl .refl hseen), hfind]
      exact if_pos hk
  | @head v x hstep hreaches ih =>
    cases hstep with
    | mention hk hx =>
      rw [unboundedType, hk, hx]
      refine ih fun a ha => ?_
      obtain ⟨y, hy, hback⟩ := hseen a ha
      exact ⟨y, hy, hback.tail (.mention hk hx)⟩
    | @id id r' _ hfind hk hx =>
      have hstep : rd.AliasStep (.ref id) x := .id hfind hk hx
      rw [unboundedType, if_neg (hnew rfl (hreaches.head hstep) hseen), hfind]
      dsimp only
      rw [hk, hx]
      refine ih fun a ha => ?_
      rcases List.mem_cons.mp ha with rfl | ha
      · exact ⟨x, hstep, .refl⟩
      · obtain ⟨y, hy, hback⟩ := hseen a ha
        exact ⟨y, hy, hback.tail hstep⟩

/-- A record that is found is no mention, and for an id it is a declaration. -/
theorem Yields.kind {w : TypeValue Record} {r : Record} (h : rd.Yields w r) :
    r.kind ≠ .reference ∧
      (∀ id, w = .ref id → r.kind = .classDecl ∨ r.kind = .interfaceDecl ∨ r.kind = .component) := by
  cases h with
  | inPlace hr => exact ⟨hr, fun _ h => by cases h⟩
  | declaration _ hr =>
    have hkind : r.kind = .classDecl ∨ r.kind = .interfaceDecl ∨ r.kind = .component := by
      simpa [Kind.hasHeritage, or_assoc] using hr
    refine ⟨?_, fun _ _ => hkind⟩
    rcases hkind with h | h | h <;> rw [h] <;> decide

/-- **What a type value comes to.** Whatever records a reader holds, the search ends for every type
value. It finds exactly the record that the steps from the value lead to; this is no mention, and it is a
class, an interface or a component where the steps end at an id. -/
theorem typeSummary_exact (rd : Reader) (t : Option (TypeValue Record)) :
    rd.unboundedType [] t = some (rd.typeSummary? t) ∧
    ∀ r, rd.typeSummary? t = some r ↔
      ∃ v ∈ t, ∃ w, ReflTransGen rd.AliasStep v w ∧ rd.Yields w r ∧ r.kind ≠ .reference ∧
        ∀ id, w = .ref id → r.kind = .classDecl ∨ r.kind = .interfaceDecl ∨ r.kind = .component := by
  refine ⟨unboundedType_eq t, fun r => ⟨fun h => ?_, ?_⟩⟩
  · obtain ⟨v, hv, w, hsteps, hw⟩ :=
      aliasSteps_of_unboundedType ((unboundedType_eq t).trans (congrArg some h))
    exact ⟨v, hv, w, hsteps, hw, hw.kind⟩
  · rintro ⟨v, rfl, w, hsteps, hw, -⟩
    have hfound := unboundedType_of_aliasSteps hsteps hw (by simp : ∀ a ∈ [], _)
    exact Option.some.inj ((unboundedType_eq (some v)).symm.trans hfound)

/-- Two named types that stand for each other come to nothing, also from a mention in place. -/
example :
    let named (id other : Int) : Record :=
      { kind := .typeAlias, id := some (.int id), type := some (.ref (.int other)) }
    let rd := ofRecords Record.plainLink [named 1 2, named 2 1]
    rd.typeSummary? (some (.embedded { kind := .reference, type := some (.ref (.int 1)) })) = none := by
  cbv

end Reader

end SymbolDocs
