import SymbolDocs.Proofs.Exploring
import SymbolDocs.Proofs.Lookup

/-!
# The ancestors of a record

A reader collects inherited members from a summary alone. It keeps the heritage clauses that are still
to be gone through, and the ids of the ancestors it has met; between the two, the type of an ancestor
is followed through references and named types to its clause. Ids may lead nowhere and heritage may
run in circles.

* `Reader.Inherits` is the step from a record to an ancestor through its heritage clause;
* `Reader.unboundedSummary` and `Reader.unboundedMembers` are the two loops without a bound;
* `Reader.explores_inheritedFrom` says what the work on the clauses collects;
* `Reader.inheritedMembers_exact`: the loops end, and what is collected are the members of the ancestors,
  each of which counts once.
-/

namespace SymbolDocs

open Relation

namespace Reader

/-! ## The loops without a bound -/

/-- Follows ids, having passed `seen`, up to a class, an interface, a component or a record that is no
reference. -/
def unboundedSummary (rd : Reader) (seen : List Scalar) (p : Peeled) : Option (Option Record) :=
  match p with
  | .nothing => some none
  | .record r => some (some r)
  | .ref id =>
    if seen.any (·.same id) then some none
    else
      match find? id rd.byId with
      | none => some none
      | some r =>
        if r.kind.hasHeritage then some (some r)
        else
          rd |>.unboundedSummary (id :: seen)
            (peelType (match r.resolvedType with
              | some t => some t
              | none => r.type))
partial_fixpoint

/-- The heritage clause that a type position comes to. -/
def unboundedClause (rd : Reader) (t : Option (TypeValue Record)) : Option (Option Record) := do
  match ← rd.unboundedSummary [] (peelType t) with
  | some r => return if r.kind == .classType then some r else none
  | none => return none

/-- Goes through the entries of a heritage clause. -/
def unboundedAncestors (rd : Reader) :
    List Record → List Scalar → List Record → Option (List Record × List Record × List Scalar)
  | [], seen, clauses => some ([], clauses, seen)
  | entry :: rest, seen, clauses =>
    match rd.refRecord? entry.type with
    | none => unboundedAncestors rd rest seen clauses
    | some a =>
      if seen.any (·.same (a.id.getD .null)) then unboundedAncestors rd rest seen clauses
      else do
        let clause ← rd.unboundedClause a.type
        let (found, clauses, seen) ←
          unboundedAncestors rd rest (a.id.getD .null :: seen) (clause.toList ++ clauses)
        return (a.children.getD [] ++ found, clauses, seen)

/-- Works off heritage clauses. -/
def unboundedFrom (rd : Reader) (clauses : List Record) (seen : List Scalar) : Option (List Record) :=
  match clauses with
  | [] => some []
  | c :: clauses => do
    let (found, clauses, seen) ← rd.unboundedAncestors (c.children.getD []) seen clauses
    let rest ← rd |>.unboundedFrom clauses seen
    return found ++ rest
partial_fixpoint

/-- The members of every ancestor that a record reaches through heritage clauses. -/
def unboundedMembers (rd : Reader) (r : Record) : Option (List Record) :=
  if r.kind.hasHeritage then do
    let clause ← rd.unboundedClause r.type
    rd.unboundedFrom clause.toList []
  else some []

/-! ## Ids that are still open -/

/-- Every record stands under its own id. -/
def Keyed (rd : Reader) : Prop :=
  ∀ e ∈ rd.byId, e.2.id = some e.1

theorem keyed_ofRecords (link : Record → String) (rs : List Record) : (ofRecords link rs).Keyed := by
  have hregister : ∀ (rs : List Record) (byId : List (Scalar × Record)),
      (∀ e ∈ byId, e.2.id = some e.1) → ∀ e ∈ rs.foldl register byId, e.2.id = some e.1 := by
    intro rs
    induction rs with
    | nil => exact fun _ h => h
    | cons r rest ih =>
      intro byId h
      refine ih _ fun e he => ?_
      unfold register at he
      split at he
      · rename_i id hid
        split at he
        · exact h e he
        · rcases List.mem_append.mp he with he | he
          · exact h e he
          · obtain rfl := List.mem_singleton.mp he
            exact hid
      · exact h e he
  exact hregister _ [] (by simp)

theorem exists_of_find? {id : Scalar} {byId : List (Scalar × Record)} {a : Record}
    (h : find? id byId = some a) : ∃ k, (k, a) ∈ byId ∧ k.same id = true := by
  induction byId with
  | nil => cases h
  | cons e rest ih =>
    obtain ⟨k, r⟩ := e
    rw [find?] at h
    split at h
    · cases h
      exact ⟨k, List.mem_cons_self, ‹_›⟩
    · obtain ⟨k', hmem, hsame⟩ := ih h
      exact ⟨k', List.mem_cons_of_mem _ hmem, hsame⟩

/-- The entries of the index whose ids have not been passed. -/
def unpassed (rd : Reader) (seen : List Scalar) : List (Scalar × Record) :=
  rd.byId.filter fun e => !seen.any (·.same e.1)

/-- An id that is found and has not been passed is one less when it is. -/
theorem length_unpassed_cons {rd : Reader} {seen : List Scalar} {id : Scalar} {a : Record}
    (hfind : find? id rd.byId = some a) (hnew : seen.any (·.same id) = false) :
    (rd.unpassed (id :: seen)).length < (rd.unpassed seen).length := by
  have hfilter : rd.unpassed (id :: seen) = (rd.unpassed seen).filter fun e => !id.same e.1 := by
    rw [unpassed, unpassed, List.filter_filter]
    refine List.filter_congr fun e _ => ?_
    simp
  obtain ⟨k, hmem, hsame⟩ := exists_of_find? hfind
  have hopen : (k, a) ∈ rd.unpassed seen := by
    refine List.mem_filter.mpr ⟨hmem, ?_⟩
    rw [Bool.not_eq_true', List.any_eq_false] at *
    intro x hx hxk
    exact hnew x hx (Scalar.same_trans hxk hsame)
  rw [hfilter]
  exact List.length_filter_lt_length_iff_exists.mpr ⟨(k, a), hopen, by simp [Scalar.same_symm hsame]⟩

/-! ## Types -/

/-- **Types end**: every id that is followed is a new one of the index. -/
theorem unboundedSummary_eq (rd : Reader) (fuel : Nat) :
    ∀ (seen : List Scalar) (p : Peeled), (rd.unpassed seen).length < fuel →
      rd.unboundedSummary seen p = some (rd.followIds fuel seen p) := by
  induction fuel with
  | zero => exact fun _ _ h => absurd h (Nat.not_lt_zero _)
  | succ fuel ih =>
    intro seen p hroom
    cases p with
    | nothing => rw [unboundedSummary, followIds]
    | record r => rw [unboundedSummary, followIds]
    | ref id =>
      rw [unboundedSummary, followIds]
      split
      · rfl
      · rename_i hnew
        cases hfind : find? id rd.byId with
        | none => rfl
        | some r =>
          dsimp only
          split
          · rfl
          · have hless := length_unpassed_cons hfind (by simpa using hnew)
            exact ih _ _ (by omega)

theorem unboundedClause_eq (rd : Reader) (t : Option (TypeValue Record)) :
    rd.unboundedClause t = some (rd.clause? t) := by
  have hroom : (rd.unpassed []).length < rd.byId.length + 1 :=
    Nat.lt_succ_of_le (List.length_filter_le _ _)
  rw [unboundedClause, unboundedSummary_eq rd _ [] _ hroom, clause?, typeSummary?]
  cases rd.followIds (rd.byId.length + 1) [] (peelType t) <;> rfl

/-- The entries of a clause are a list, so only the types of the ancestors have to end. -/
theorem unboundedAncestors_eq (rd : Reader) (entries : List Record) :
    ∀ (seen : List Scalar) (clauses : List Record),
      rd.unboundedAncestors entries seen clauses = some (rd.ancestors entries seen clauses) := by
  induction entries with
  | nil => exact fun _ _ => rfl
  | cons entry rest ih =>
    intro seen clauses
    rw [unboundedAncestors, ancestors]
    cases rd.refRecord? entry.type with
    | none => exact ih seen clauses
    | some a =>
      dsimp only
      split
      · exact ih seen clauses
      · rw [unboundedClause_eq]
        cases rd.clause? a.type <;> simp [ih]

/-! ## Ancestors -/

/-- The type of an entry is an id, and a record is found for it. -/
def LeadsTo (rd : Reader) (entry a : Record) : Prop :=
  ∃ id, entry.type = some (.ref id) ∧ find? id rd.byId = some a

/-- What the entries of clauses lead to. -/
def namedIn (rd : Reader) (entries : List Record) : Set Record :=
  {a | ∃ entry ∈ entries, rd.LeadsTo entry a}

/-- The type of a record comes to a heritage clause with an entry that leads to another record. -/
def Inherits (rd : Reader) (r a : Record) : Prop :=
  ∃ clause, rd.typeSummary? r.type = some clause ∧ clause.kind = .classType ∧
    ∃ entry ∈ clause.children.getD [], rd.LeadsTo entry a

variable {rd : Reader}

theorem refRecord?_eq_some {entry a : Record} :
    rd.refRecord? entry.type = some a ↔ rd.LeadsTo entry a := by
  unfold refRecord? LeadsTo
  split <;> simp_all

theorem clause?_eq_some {r clause : Record} :
    rd.clause? r.type = some clause ↔ rd.typeSummary? r.type = some clause ∧ clause.kind = .classType := by
  unfold clause?
  cases rd.typeSummary? r.type with
  | none => simp
  | some c => by_cases hc : c.kind = .classType <;> simp [hc] <;> grind

/-- The entries of clauses. -/
def entriesOf (clauses : List Record) : List Record :=
  clauses.flatMap fun c => c.children.getD []

theorem namedIn_append (xs ys : List Record) : rd.namedIn (xs ++ ys) = rd.namedIn xs ∪ rd.namedIn ys := by
  ext a
  simp only [namedIn, List.mem_append, Set.mem_ofPred_eq, Set.mem_union]
  grind

/-- The ancestors of records are what the entries of their clauses lead to. -/
theorem inherits_eq_namedIn (rs : List Record) :
    {a | ∃ r ∈ rs, rd.Inherits r a} =
      rd.namedIn (entriesOf (rs.filterMap fun r => rd.clause? r.type).reverse) := by
  ext a
  simp only [namedIn, entriesOf, Inherits, Set.mem_ofPred_eq, List.mem_flatMap, List.mem_reverse,
    List.mem_filterMap, clause?_eq_some]
  grind

/-! ## What has been passed -/

/-- The id of a record; in the index every record has one. -/
def key (a : Record) : Scalar :=
  a.id.getD .null

/-- A record of the index is found under its id. -/
theorem Keyed.find?_key (hk : rd.Keyed) {id : Scalar} {a : Record} (h : find? id rd.byId = some a) :
    find? (key a) rd.byId = some a ∧ a.id = some (key a) := by
  obtain ⟨k, hmem, hsame⟩ := exists_of_find? h
  have hid : a.id = some k := hk _ hmem
  rw [key, hid, Option.getD_some, find?_congr hsame]
  exact ⟨h, rfl⟩

/-- The records of the index whose ids have been passed. -/
def passed (rd : Reader) (seen : List Scalar) : Set Record :=
  {a | find? (key a) rd.byId = some a ∧ seen.any (·.same (key a)) = true}

/-- Passing the id of a record passes this record and no other. -/
theorem passed_cons {a : Record} (ha : find? (key a) rd.byId = some a) (seen : List Scalar) :
    rd.passed (key a :: seen) = rd.passed seen ∪ {b | b ∈ [a]} := by
  ext b
  simp only [passed, Set.mem_ofPred_eq, List.any_cons, Bool.or_eq_true, Set.mem_union,
    List.mem_singleton]
  constructor
  · rintro ⟨hb, hsame | hseen⟩
    · rw [← find?_congr hsame, ha] at hb
      exact .inr (Option.some.inj hb).symm
    · exact .inl ⟨hb, hseen⟩
  · rintro (⟨hb, hseen⟩ | rfl)
    · exact ⟨hb, .inr hseen⟩
    · exact ⟨ha, .inl (Scalar.same_refl _)⟩

/-! ## The work on the clauses -/

/-- Going through entries finds ancestors that are new: their members are collected, their clauses are
put in front of the others with the last one first, and their ids have been passed. -/
structure Collects (rd : Reader) (entries : List Record) (seen : List Scalar)
    (clauses found : List Record) : Prop where
  result : rd.ancestors entries seen clauses =
    (found.flatMap fun a => a.children.getD [],
      (found.filterMap fun a => rd.clause? a.type).reverse ++ clauses, (found.map key).reverse ++ seen)
  explores : Explores rd.Inherits (rd.namedIn entries) (rd.passed seen)
    {b | ∃ a ∈ found, rd.Inherits a b} found
  passed : rd.passed ((found.map key).reverse ++ seen) = rd.passed seen ∪ {a | a ∈ found}
  room : (rd.unpassed ((found.map key).reverse ++ seen)).length + found.length ≤
    (rd.unpassed seen).length

theorem namedIn_cons (entry : Record) (rest : List Record) :
    rd.namedIn (entry :: rest) = {a | rd.LeadsTo entry a} ∪ rd.namedIn rest := by
  ext a
  simp [namedIn]

theorem collects_nil (seen : List Scalar) (clauses : List Record) : rd.Collects [] seen clauses [] where
  result := rfl
  explores := by simpa using Explores.skip (by simp [namedIn])
  passed := by simp
  room := by simp

/-- An entry that leads to nothing new is passed over. -/
theorem Collects.pass {entry : Record} {rest : List Record} {seen : List Scalar}
    {clauses found : List Record} (hold : ∀ a, rd.LeadsTo entry a → a ∈ rd.passed seen)
    (h : rd.Collects rest seen clauses found) : rd.Collects (entry :: rest) seen clauses found where
  result := by
    rw [ancestors]
    cases hentry : rd.refRecord? entry.type with
    | none => exact h.result
    | some a =>
      have hseen : seen.any (·.same (a.id.getD .null)) = true :=
        (hold a (refRecord?_eq_some.mp hentry)).2
      dsimp only
      rw [if_pos hseen]
      exact h.result
  explores := by
    have hskip : Explores rd.Inherits {a | rd.LeadsTo entry a} (rd.passed seen) ∅ [] := .skip hold
    simpa [namedIn_cons] using hskip.both (by simpa using h.explores)
  passed := h.passed
  room := h.room

/-- An entry that leads to a new ancestor. -/
theorem Collects.visit {entry a : Record} {rest : List Record} {seen : List Scalar}
    {clauses found : List Record} (hleads : rd.LeadsTo entry a)
    (ha : find? (key a) rd.byId = some a) (hnew : seen.any (·.same (key a)) = false)
    (h : rd.Collects rest (key a :: seen) ((rd.clause? a.type).toList ++ clauses) found) :
    rd.Collects (entry :: rest) seen clauses (a :: found) where
  result := by
    have hentry := refRecord?_eq_some.mpr hleads
    have hresult := h.result
    rw [ancestors, hentry]
    dsimp only
    rw [← key, hnew]
    cases hclause : rd.clause? a.type <;> rw [hclause] at hresult <;> simp_all
  explores := by
    have hroot : {b | rd.LeadsTo entry b} = {a} := by
      ext b
      simp only [Set.mem_ofPred_eq, Set.mem_singleton_iff, ← refRecord?_eq_some,
        refRecord?_eq_some.mpr hleads, Option.some.injEq, eq_comm]
    have hvisit : Explores rd.Inherits {a} (rd.passed seen) {b | rd.Inherits a b} [a] :=
      .visit fun hmem => Bool.noConfusion (hnew.symm.trans hmem.2)
    have hpending : {b | ∃ x ∈ a :: found, rd.Inherits x b} =
        {b | rd.Inherits a b} ∪ {b | ∃ x ∈ found, rd.Inherits x b} := by
      ext b
      simp
    rw [namedIn_cons, hroot, hpending]
    exact hvisit.both (passed_cons ha seen ▸ h.explores)
  passed := by
    have hpassed := h.passed
    rw [passed_cons ha, Set.union_assoc] at hpassed
    have hcons : {b | b ∈ a :: found} = {b | b ∈ [a]} ∪ {b | b ∈ found} := by
      ext b
      simp
    rw [hcons, ← hpassed, List.map_cons, List.reverse_cons, List.append_assoc, List.singleton_append]
  room := by
    have hless := length_unpassed_cons ha hnew
    have hroom := h.room
    rw [List.map_cons, List.reverse_cons, List.append_assoc, List.singleton_append, List.length_cons]
    omega

/-- Going through the entries of a clause. -/
theorem collects_ancestors (hk : rd.Keyed) (entries : List Record) :
    ∀ (seen : List Scalar) (clauses : List Record), ∃ found, rd.Collects entries seen clauses found := by
  induction entries with
  | nil => exact fun seen clauses => ⟨[], collects_nil seen clauses⟩
  | cons entry rest ih =>
    intro seen clauses
    by_cases hold : ∀ a, rd.LeadsTo entry a → a ∈ rd.passed seen
    · obtain ⟨found, h⟩ := ih seen clauses
      exact ⟨found, h.pass hold⟩
    · push Not at hold
      obtain ⟨a, hleads, hnew⟩ := hold
      have ha : find? (key a) rd.byId = some a := by
        obtain ⟨id, -, hfind⟩ := hleads
        exact (hk.find?_key hfind).1
      obtain ⟨found, h⟩ := ih (key a :: seen) ((rd.clause? a.type).toList ++ clauses)
      exact ⟨a :: found, h.visit hleads ha (Bool.eq_false_iff.mpr fun hseen => hnew ⟨ha, hseen⟩)⟩

/-- **The work on the clauses.** Each clause but the first ones comes with an id that is new, so the
bound is never met; what is collected are the members of what the clauses lead to. The same holds
without a bound. -/
theorem explores_inheritedFrom (hk : rd.Keyed) (fuel : Nat) :
    ∀ (clauses : List Record) (seen : List Scalar), clauses.length + (rd.unpassed seen).length ≤ fuel →
      ∃ found : List Record,
        Explores rd.Inherits (rd.namedIn (entriesOf clauses)) (rd.passed seen) ∅ found ∧
        rd.inheritedFrom fuel clauses seen = found.flatMap (fun a => a.children.getD []) ∧
        rd.unboundedFrom clauses seen = some (found.flatMap fun a => a.children.getD []) := by
  have hnil : ∀ (fuel : Nat) (seen : List Scalar), ∃ found : List Record,
      Explores rd.Inherits (rd.namedIn (entriesOf [])) (rd.passed seen) ∅ found ∧
      rd.inheritedFrom fuel [] seen = found.flatMap (fun a => a.children.getD []) ∧
      rd.unboundedFrom [] seen = some (found.flatMap fun a => a.children.getD []) := by
    intro fuel seen
    refine ⟨[], .skip (by simp [namedIn, entriesOf]), ?_, by rw [unboundedFrom]; rfl⟩
    cases fuel <;> rfl
  induction fuel with
  | zero =>
    intro clauses seen hroom
    obtain rfl : clauses = [] := List.length_eq_zero_iff.mp (by omega)
    exact hnil 0 seen
  | succ fuel ih =>
    intro clauses seen hroom
    cases clauses with
    | nil => exact hnil _ seen
    | cons c clauses =>
      obtain ⟨found, h⟩ := collects_ancestors hk (c.children.getD []) seen clauses
      have hpushed := List.length_filterMap_le (fun a => rd.clause? a.type) found
      have hless := h.room
      obtain ⟨later, hlater, heq, hunbounded⟩ := ih
        ((found.filterMap fun a => rd.clause? a.type).reverse ++ clauses) ((found.map key).reverse ++ seen)
        (by simp only [List.length_append, List.length_reverse, List.length_cons] at *; omega)
      refine ⟨found ++ later, ?_, ?_, ?_⟩
      · have hroots : rd.namedIn (entriesOf
            ((found.filterMap fun a => rd.clause? a.type).reverse ++ clauses)) =
            {b | ∃ a ∈ found, rd.Inherits a b} ∪ rd.namedIn (entriesOf clauses) := by
          rw [inherits_eq_namedIn, ← namedIn_append, entriesOf, entriesOf, entriesOf,
            List.flatMap_append]
        have hfirst := h.explores.aside (rd.namedIn (entriesOf clauses))
        rw [entriesOf, List.flatMap_cons, namedIn_append]
        exact hfirst.trans (hroots ▸ h.passed ▸ hlater)
      · rw [inheritedFrom, h.result]
        dsimp only
        rw [heq, List.flatMap_append]
      · rw [unboundedFrom, unboundedAncestors_eq, h.result]
        simp [hunbounded]

theorem keyed_of_ofValue {link : Record → String} {doc : Value} {rd : Reader}
    (hread : ofValue link doc = .ok rd) : rd.Keyed := by
  unfold ofValue at hread
  split at hread
  · rename_i fields
    cases hitems : ((Fields.get? (.text "index") fields).getD (.list [])).items with
    | error e => simp [hitems, bind, Except.bind] at hread
    | ok items =>
      cases hrecords : items.mapM Record.ofValue with
      | error e => simp [hitems, hrecords, bind, Except.bind] at hread
      | ok records =>
        simp only [hitems, hrecords, bind, Except.bind, pure, Except.pure, Except.ok.injEq] at hread
        exact hread ▸ keyed_ofRecords link records
  · cases hread

/-- An ancestor is a record of the index. -/
theorem Keyed.find?_of_inherits (hk : rd.Keyed) {r a : Record} (h : TransGen rd.Inherits r a) :
    find? (key a) rd.byId = some a ∧ a.id = some (key a) := by
  obtain ⟨b, -, clause, -, -, entry, -, id, -, hfind⟩ := TransGen.tail'_iff.mp h
  exact hk.find?_key hfind

/-- **Inherited members are those of the ancestors.** For every document that can be read, whatever
circles its heritage runs in and wherever its ids lead, and for every class, interface or component:
both loops end without a bound, and there is a list of records, with different ids, which has every
ancestor of the record and no other, such that the members collected are those of the records in the
list, one after the other. -/
theorem inheritedMembers_exact {link : Record → String} {doc : Value} {rd : Reader}
    (hread : Reader.ofValue link doc = .ok rd) {r : Record} (hr : r.kind.hasHeritage = true) :
    rd.unboundedMembers r = some (rd.inheritedMembers r) ∧
    ∃ found : List Record,
      found.Pairwise (fun a b => ∃ i j, a.id = some i ∧ b.id = some j ∧ i.same j = false) ∧
      (∀ a, a ∈ found ↔ TransGen rd.Inherits r a) ∧
      rd.inheritedMembers r = found.flatMap fun a => a.children.getD [] := by
  have hk := keyed_of_ofValue hread
  have hroom : (rd.clause? r.type).toList.length + (rd.unpassed []).length ≤ rd.byId.length + 2 := by
    have hclause : (rd.clause? r.type).toList.length ≤ 1 := by
      cases rd.clause? r.type <;> simp
    have hopen : (rd.unpassed []).length ≤ rd.byId.length := List.length_filter_le _ _
    omega
  obtain ⟨found, hfound, heq, hunbounded⟩ := explores_inheritedFrom hk _ _ [] hroom
  have hroot : rd.namedIn (entriesOf (rd.clause? r.type).toList) = {a | rd.Inherits r a} := by
    have hone : {a | ∃ x ∈ [r], rd.Inherits x a} = _ := inherits_eq_namedIn [r]
    cases hclause : rd.clause? r.type <;> simp_all
  have hmem : ∀ a, a ∈ found ↔ TransGen rd.Inherits r a := by
    intro a
    have hreached : a ∈ found ↔ ∃ x ∈ {a | rd.Inherits r a}, ReflTransGen rd.Inherits x a :=
      Explores.mem_iff (by simpa [hroot, passed] using hfound)
    rw [hreached, TransGen.head'_iff]
    rfl
  refine ⟨?_, found, hfound.nodup.imp_of_mem fun {a b} ha hb hab => ?_, hmem, ?_⟩
  · rw [unboundedMembers, inheritedMembers, if_pos hr, if_pos hr, unboundedClause_eq, heq]
    exact hunbounded
  · obtain ⟨hfinda, hida⟩ := hk.find?_of_inherits ((hmem a).mp ha)
    obtain ⟨hfindb, hidb⟩ := hk.find?_of_inherits ((hmem b).mp hb)
    refine ⟨key a, key b, hida, hidb, Bool.eq_false_iff.mpr fun hsame => hab ?_⟩
    rw [find?_congr hsame, hfindb] at hfinda
    exact (Option.some.inj hfinda).symm
  · rw [inheritedMembers, if_pos hr, heq]

/-- A class with an id, a method with another one, and the ids that it extends. -/
def kinRecord (id method : Int) (extended : List Int) : Record where
  kind := .classDecl
  id := some (.int id)
  children := some [{ kind := .method, id := some (.int method) }]
  type := some (.embedded
    { kind := .classType
      children := some (extended.map fun i => { kind := .reference, type := some (.ref (.int i)) }) })

/-- Two classes that extend each other, the first one also a class that is not there, and a class that
extends both. -/
def kinRecords : List Record :=
  [kinRecord 1 4 [2, 9], kinRecord 2 5 [1], kinRecord 3 6 [1, 2]]

/-- The document of these classes. -/
def kinDocument : Value :=
  .record [("index", .list (kinRecords.map Record.toValue))]

/-- The ids of the classes are integers, so they are read back. -/
theorem kinRecord_writable (id method : Int) (extended : List Int) :
    (kinRecord id method extended).All Record.Writable := by
  refine .of_parts ⟨by simp [kinRecord], by simp [kinRecord, TypeValue.HasIntId],
    by simp [kinRecord, TypeValue.HasIntId]⟩ ?_
  rintro x (hx | hx | hx | hx | hx)
  · obtain rfl := List.mem_singleton.mp hx
    exact .of_flat ⟨by simp, by simp [TypeValue.HasIntId], by simp [TypeValue.HasIntId]⟩ rfl rfl rfl
      (by simp) rfl
  · cases hx
  · cases hx
  · -- the entries of the clause hold nothing but an id
    obtain rfl := TypeValue.embedded.inj (Option.some.inj hx)
    refine .of_parts ⟨by simp, by simp [TypeValue.HasIntId], by simp [TypeValue.HasIntId]⟩ ?_
    rintro y (hy | hy | hy | hy | hy)
    · obtain ⟨i, -, rfl⟩ := List.mem_map.mp hy
      exact .of_flat ⟨by simp, by simp [TypeValue.HasIntId], by simp [TypeValue.HasIntId]⟩ rfl rfl rfl
        (by simp) rfl
    all_goals cases hy
  · cases hx

/-- The last class has the methods of the two others, each of them once. -/
theorem inheritedMembers_exact_kin :
    ofValue Record.plainLink kinDocument = .ok (ofRecords Record.plainLink kinRecords) ∧
    (kinRecord 3 6 [1, 2]).kind.hasHeritage = true ∧
    (ofRecords Record.plainLink kinRecords).unboundedMembers (kinRecord 3 6 [1, 2]) = some
      [{ kind := .method, id := some (.int 4) }, { kind := .method, id := some (.int 5) }] := by
  have hwritable : ∀ r ∈ kinRecords, r.All Record.Writable := by
    simp [kinRecords, kinRecord_writable]
  have hread : ofValue Record.plainLink kinDocument = .ok (ofRecords Record.plainLink kinRecords) :=
    Site.reader_of_records Record.plainLink hwritable
  refine ⟨hread, rfl, ?_⟩
  rw [(inheritedMembers_exact hread rfl).1]
  cbv

end Reader

end SymbolDocs
