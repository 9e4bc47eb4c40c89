import SymbolDocs.Members.Group
import SymbolDocs.Proofs.Exploring
import SymbolDocs.Proofs.Unbounded

/-!
# The ancestors of a class

The sections of inherited members are made in one walk up the heritage: an entry of a clause leads to
an ancestor, whose own clause is walked before the next entry. The ancestors met so far are handed
from call to call, so that one that is met again, around a circle or on another way, is passed over.

* `Graph.LeadsTo` is a step from an entry to an ancestor, `Graph.Ancestor` any number of them;
* `MemberPrinter.unboundedInherited` is the walk without a bound of any kind;
* `MemberPrinter.walks_inheritedFrom` says what the walk finds and that it does nothing but print the
  groups of what it finds;
* `MemberPrinter.inherited_exact`: the walk ends, and there is one section for each ancestor with
  groups.
-/

namespace SymbolDocs

open Relation Work

namespace Graph

/-- The entry of a heritage clause leads to a class or component, and neither is left out. -/
structure LeadsTo (g : Graph) (o : Options) (entry a : Place) : Prop where
  target : (g.node entry).type = some a
  kind : (g.node a).kind = .classDecl ∨ (g.node a).kind = .component
  entry_kept : ∀ source ∈ (g.node entry).source, o.excludes source.name = false
  target_kept : ∀ source ∈ (g.node a).source, o.excludes source.name = false

/-- What the entries lead to. -/
def namedIn (g : Graph) (o : Options) (entries : List Place) : Set Place :=
  {a | ∃ entry ∈ entries, g.LeadsTo o entry a}

/-- The entries of the clause of a node. -/
def clauseEntries (g : Graph) (p : Place) : List Place :=
  match (g.node p).type with
  | some clause => (g.node clause).members
  | none => []

/-- The clause of an ancestor has an entry that leads to another one. -/
def Inherits (g : Graph) (o : Options) (b a : Place) : Prop :=
  a ∈ g.namedIn o (g.clauseEntries b)

/-- The ancestors that a heritage clause leads to, directly or through the clauses of others. -/
inductive Ancestor (g : Graph) (o : Options) (clause : Place) : Place → Prop
  | direct {entry a : Place} : entry ∈ (g.node clause).members → g.LeadsTo o entry a →
      Ancestor g o clause a
  | above {b c entry a : Place} : Ancestor g o clause b → (g.node b).type = some c →
      entry ∈ (g.node c).members → g.LeadsTo o entry a → Ancestor g o clause a

theorem ancestor_iff {g : Graph} {o : Options} {clause a : Place} :
    g.Ancestor o clause a ↔
      ∃ r ∈ g.namedIn o (g.node clause).members, ReflTransGen (g.Inherits o) r a := by
  constructor
  · intro h
    induction h with
    | direct hentry hleads => exact ⟨_, ⟨_, hentry, hleads⟩, .refl⟩
    | above _ hclause hentry hleads ih =>
      obtain ⟨r, hr, hra⟩ := ih
      refine ⟨r, hr, hra.tail ⟨_, ?_, hleads⟩⟩
      rwa [clauseEntries, hclause]
  · rintro ⟨r, ⟨entry, hentry, hleads⟩, hra⟩
    induction hra with
    | refl => exact .direct hentry hleads
    | tail _ hstep ih =>
      obtain ⟨entry, hentry, hleads⟩ := hstep
      rw [clauseEntries] at hentry
      split at hentry
      · rename_i hclause
        exact .above ih hclause hentry hleads
      · cases hentry

theorem isExcluded_eq_false {g : Graph} {o : Options} {p : Place} :
    g.isExcluded o p = false ↔ ∀ source ∈ (g.node p).source, o.excludes source.name = false := by
  simp [isExcluded]

/-- Only a node of the table is an ancestor. -/
theorem LeadsTo.lt_size {g : Graph} {o : Options} {entry a : Place} (h : g.LeadsTo o entry a) :
    a < g.size := by
  by_contra hge
  have hnode := node_of_size_le (Nat.le_of_not_lt hge)
  rcases h.kind with hkind | hkind <;> rw [hnode] at hkind <;> cases hkind

theorem namedIn_cons (g : Graph) (o : Options) (entry : Place) (rest : List Place) :
    g.namedIn o (entry :: rest) = {a | g.LeadsTo o entry a} ∪ g.namedIn o rest := by
  ext a
  simp [namedIn]

end Graph

namespace MemberPrinter

variable (mp : MemberPrinter) {g : Graph} {o : Options}

theorem ancestor?_eq_some {entry a : Place} :
    ancestor? g o entry = some a ↔ g.LeadsTo o entry a := by
  constructor
  · intro h
    obtain ⟨target, htarget, h⟩ := Option.bind_eq_some_iff.mp h
    split at h
    · rename_i hkept
      cases h
      simp only [Bool.and_eq_true, Bool.not_eq_true', Kind.isInheritable, Bool.or_eq_true,
        beq_iff_eq] at hkept
      exact ⟨htarget, hkept.1.1, Graph.isExcluded_eq_false.mp hkept.1.2,
        Graph.isExcluded_eq_false.mp hkept.2⟩
    · cases h
  · intro h
    rw [ancestor?, h.target, Option.bind_some, if_pos]
    simp only [Bool.and_eq_true, Bool.not_eq_true', Kind.isInheritable, Bool.or_eq_true, beq_iff_eq]
    exact ⟨⟨h.kind, Graph.isExcluded_eq_false.mpr h.entry_kept⟩,
      Graph.isExcluded_eq_false.mpr h.target_kept⟩

theorem ancestor?_eq_none {entry : Place} :
    ancestor? g o entry = none ↔ ∀ a, ¬ g.LeadsTo o entry a := by
  simp only [Option.eq_none_iff_forall_ne_some, ne_eq, ancestor?_eq_some]

/-! ## The walk without a bound -/

/-- The sections of the ancestors that the entries of a clause lead to, and the ancestors visited. -/
def unboundedEntries (mp : MemberPrinter) (g : Graph) (o : Options) (entries visited : List Place) :
    Unbounded (List InheritedSection × List Place) :=
  match entries with
  | [] => pure ([], visited)
  | entry :: rest =>
    match ancestor? g o entry with
    | none => mp |>.unboundedEntries g o rest visited
    | some target =>
      if target ∈ visited then mp |>.unboundedEntries g o rest visited
      else do
        let groups ← Unbounded.lift (mp.groups g target true)
        let own := if groups.isEmpty then [] else [{ heritage := entry, groups }]
        let (above, visited) ←
          match (g.node target).type with
          | some clause => mp |>.unboundedEntries g o (g.node clause).members (target :: visited)
          | none => pure ([], target :: visited)
        let (later, visited) ← mp |>.unboundedEntries g o rest visited
        return (own ++ above ++ later, visited)
partial_fixpoint

/-- The sections of the ancestors that a clause leads to. -/
def unboundedInherited (g : Graph) (o : Options) (clause : Place) :
    Unbounded (List InheritedSection) := do
  let (sections, _) ← mp.unboundedEntries g o (g.node clause).members []
  return sections

/-! ## What the walk does -/

/-- The groups of an ancestor, listed under the entry that leads to it. -/
def ancestorSection (g : Graph) (x : Place × Place) : Work InheritedSection := do
  return { heritage := x.1, groups := ← mp.groups g x.2 true }

/-- Prints the groups of ancestors in turn and keeps those that have some. -/
def sectionsOf (g : Graph) (found : List (Place × Place)) : Work (List InheritedSection) := do
  let sections ← found.mapM (mp.ancestorSection g)
  return sections.filter fun s => !s.groups.isEmpty

/-- A walk that has found ancestors has printed their groups and added them to those visited. -/
def walked (g : Graph) (found : List (Place × Place)) (visited : List Place) :
    Work (List InheritedSection × List Place) := do
  return (← mp.sectionsOf g found, (found.map Prod.snd).reverse ++ visited)

theorem walked_append (g : Graph) (xs ys : List (Place × Place)) (visited : List Place) :
    mp.walked g (xs ++ ys) visited = do
      let (first, visited) ← mp.walked g xs visited
      let (second, visited) ← mp.walked g ys visited
      return (first ++ second, visited) := by
  simp [walked, sectionsOf]

/-- Visiting an ancestor: its own groups are printed before anything else is done. -/
theorem walked_visit (g : Graph) (entry a : Place) (above later : List (Place × Place))
    (visited : List Place) :
    mp.walked g ((entry, a) :: above ++ later) visited = (do
      let groups ← mp.groups g a true
      let own := if groups.isEmpty then [] else [{ heritage := entry, groups }]
      let (above, visited) ← mp.walked g above (a :: visited)
      let (later, visited) ← mp.walked g later visited
      return (own ++ above ++ later, visited)) := by
  have hown : ∀ groups : List Group, [({ heritage := entry, groups } : InheritedSection)].filter
      (fun s => !s.groups.isEmpty) = if groups.isEmpty then [] else [{ heritage := entry, groups }] := by
    intro groups
    cases groups <;> rfl
  rw [walked_append, ← List.singleton_append, walked_append]
  simp [walked, sectionsOf, ancestorSection, hown]

/-- What has been visited after a walk does not depend on the session. -/
theorem walked_bind {α : Type} (g : Graph) (found : List (Place × Place)) (visited : List Place)
    (f : List InheritedSection × List Place → Work α) :
    mp.walked g found visited >>= f =
      mp.sectionsOf g found >>= fun sections => f (sections, (found.map Prod.snd).reverse ++ visited) := by
  simp [walked]

/-- Work and work without a bound that do the same: they walk from the entries of a clause, where some
ancestors have been visited, and print the groups of what they find. -/
def Walks (g : Graph) (o : Options) (entries visited : List Place)
    (w : Work (List InheritedSection × List Place))
    (v : Unbounded (List InheritedSection × List Place)) : Prop :=
  ∃ found : List (Place × Place),
    Explores (g.Inherits o) (g.namedIn o entries) {a | a ∈ visited} ∅ (found.map Prod.snd) ∧
    (∀ x ∈ found, g.LeadsTo o x.1 x.2) ∧ w = mp.walked g found visited ∧ ending.Agree w v

variable {mp}

theorem walked_bind_ends {α : Type} {found : List (Place × Place)} {visited : List Place}
    {v : Unbounded (List InheritedSection × List Place)}
    {f : List InheritedSection × List Place → Work α}
    {f' : List InheritedSection × List Place → Unbounded α}
    (h : ending.Agree (mp.walked g found visited) v)
    (hf : ∀ sections, ending.Agree (f (sections, (found.map Prod.snd).reverse ++ visited))
      (f' (sections, (found.map Prod.snd).reverse ++ visited))) :
    ending.Agree (mp.walked g found visited >>= f) (v >>= f') := by
  intro s
  have hv := h s
  have hwalked : (mp.walked g found visited).run.run s = _ :=
    run_bind (mp.sectionsOf g found) (fun sections => pure (sections, _)) s
  rw [walked_bind, Unbounded.run_bind, hv, hwalked, run_bind]
  rcases (mp.sectionsOf g found).run.run s with ⟨_ | sections, s'⟩
  · rfl
  · exact hf sections s'

theorem walks_nil (visited : List Place) :
    mp.Walks g o [] visited (pure ([], visited)) (pure ([], visited)) := by
  refine ⟨[], .skip ?_, by simp, by simp [walked, sectionsOf], ending.pure _⟩
  simp [Graph.namedIn]

/-- An entry that leads nowhere new is passed over. -/
theorem Walks.pass {entry : Place} {rest visited : List Place}
    {w : Work (List InheritedSection × List Place)}
    {v : Unbounded (List InheritedSection × List Place)}
    (hentry : ∀ a, g.LeadsTo o entry a → a ∈ visited) (h : mp.Walks g o rest visited w v) :
    mp.Walks g o (entry :: rest) visited w v := by
  obtain ⟨found, hfound, hleads, hw, hv⟩ := h
  refine ⟨found, ?_, hleads, hw, hv⟩
  have hskip : Explores (g.Inherits o) {a | g.LeadsTo o entry a} {a | a ∈ visited} ∅ [] := .skip hentry
  simpa [Graph.namedIn_cons] using hskip.both (by simpa using hfound)

/-- The clause of an ancestor that is new is walked before the entries after it. -/
theorem Walks.visit {entry a : Place} {rest visited : List Place}
    {above : Work (List InheritedSection × List Place)}
    {above' : Unbounded (List InheritedSection × List Place)}
    {later : List Place → Work (List InheritedSection × List Place)}
    {later' : List Place → Unbounded (List InheritedSection × List Place)}
    (hentry : g.LeadsTo o entry a) (hnodup : (a :: visited).Nodup) (hinside : ∀ b ∈ visited, b < g.size)
    (habove : mp.Walks g o (g.clauseEntries a) (a :: visited) above above')
    (hlater : ∀ visited' : List Place, visited'.Nodup → (∀ b ∈ visited', b < g.size) →
      visited.length ≤ visited'.length → mp.Walks g o rest visited' (later visited') (later' visited')) :
    mp.Walks g o (entry :: rest) visited
      (do
        let groups ← mp.groups g a true
        let own := if groups.isEmpty then [] else [{ heritage := entry, groups }]
        let (above, visited) ← above
        let (later, visited) ← later visited
        return (own ++ above ++ later, visited))
      (do
        let groups ← Unbounded.lift (mp.groups g a true)
        let own := if groups.isEmpty then [] else [{ heritage := entry, groups }]
        let (above, visited) ← above'
        let (later, visited) ← later' visited
        return (own ++ above ++ later, visited)) := by
  obtain ⟨found₁, hfound₁, hleads₁, rfl, habove⟩ := habove
  -- what has been visited when the entries after this one are walked
  let visited₁ := (found₁.map Prod.snd).reverse ++ a :: visited
  have hseen : {b | b ∈ visited₁} = {b | b ∈ visited} ∪ {b | b ∈ [a] ++ found₁.map Prod.snd} := by
    ext b
    simp [visited₁]
    tauto
  have hnodup₁ : visited₁.Nodup := by
    refine List.nodup_append.mpr ⟨List.nodup_reverse.mpr hfound₁.nodup, hnodup, ?_⟩
    rintro b hb _ hc rfl
    exact hfound₁.fresh b (List.mem_reverse.mp hb) hc
  have hinside₁ : ∀ b ∈ visited₁, b < g.size := by
    intro b hb
    rcases List.mem_append.mp hb with hb | hb
    · obtain ⟨x, hx, rfl⟩ := List.mem_map.mp (List.mem_reverse.mp hb)
      exact (hleads₁ x hx).lt_size
    · rcases List.mem_cons.mp hb with rfl | hb
      · exact hentry.lt_size
      · exact hinside b hb
  obtain ⟨found₂, hfound₂, hleads₂, hlater₂, hends₂⟩ :=
    hlater visited₁ hnodup₁ hinside₁ (by simp [visited₁]; omega)
  refine ⟨(entry, a) :: found₁ ++ found₂, ?_, ?_, ?_, ?_⟩
  · have hroot : {b | g.LeadsTo o entry b} = {a} := by
      ext b
      refine ⟨fun hb => Option.some.inj (hb.target.symm.trans hentry.target), ?_⟩
      rintro rfl
      exact hentry
    have hcons : {b | b ∈ a :: visited} = {b | b ∈ visited} ∪ {b | b ∈ [a]} := by
      ext b
      simp [or_comm]
    have hvisit : Explores (g.Inherits o) {a} {b | b ∈ visited} {b | g.Inherits o a b} [a] :=
      .visit (List.nodup_cons.mp hnodup).1
    have hfirst := hvisit.trans (hcons ▸ hfound₁)
    simpa [Graph.namedIn_cons, hroot] using hfirst.both (hseen ▸ hfound₂)
  · intro x hx
    rcases List.mem_append.mp hx with hx | hx
    · rcases List.mem_cons.mp hx with rfl | hx
      · exact hentry
      · exact hleads₁ x hx
    · exact hleads₂ x hx
  · rw [walked_visit]
    refine bind_congr fun groups => ?_
    rw [walked_bind, walked_bind]
    refine bind_congr fun sections => ?_
    change later visited₁ >>= _ = mp.walked g found₂ visited₁ >>= _
    rw [hlater₂]
  · refine ending.bind (ending_lift _) fun groups => ?_
    refine walked_bind_ends habove fun sections => ?_
    exact ending.bind hends₂ fun later => ending.pure _

/-- The entries of a clause are walked in turn when the clauses of the ancestors can be. -/
theorem walks_inheritedEntries {fuel : Nat}
    (hfrom : ∀ (clause : Place) (visited : List Place), visited.Nodup → (∀ a ∈ visited, a < g.size) →
      g.size < fuel + visited.length →
      mp.Walks g o (g.node clause).members visited (mp.inheritedFrom g o fuel clause visited)
        (mp.unboundedEntries g o (g.node clause).members visited))
    (entries : List Place) : ∀ visited : List Place, visited.Nodup → (∀ a ∈ visited, a < g.size) →
      g.size ≤ fuel + visited.length →
      mp.Walks g o entries visited (mp.inheritedEntries g o fuel entries visited)
        (mp.unboundedEntries g o entries visited) := by
  induction entries with
  | nil =>
    intro visited _ _ _
    rw [inheritedEntries, unboundedEntries]
    exact walks_nil visited
  | cons entry rest ih =>
    intro visited hnodup hinside hroom
    rw [inheritedEntries, unboundedEntries]
    cases hentry : ancestor? g o entry with
    | none =>
      have hnone := ancestor?_eq_none.mp hentry
      exact (ih visited hnodup hinside hroom).pass fun a ha => absurd ha (hnone a)
    | some a =>
      have hleads := ancestor?_eq_some.mp hentry
      dsimp only
      split
      · rename_i hmem
        refine (ih visited hnodup hinside hroom).pass fun b hb => ?_
        rwa [← Option.some.inj (hb.target.symm.trans hleads.target)] at hmem
      · rename_i hnew
        have hnodup' := List.nodup_cons.mpr ⟨hnew, hnodup⟩
        have hinside' : ∀ b ∈ a :: visited, b < g.size := by
          intro b hb
          rcases List.mem_cons.mp hb with rfl | hb
          · exact hleads.lt_size
          · exact hinside b hb
        have hlater : ∀ visited' : List Place, visited'.Nodup → (∀ b ∈ visited', b < g.size) →
            visited.length ≤ visited'.length →
            mp.Walks g o rest visited' (mp.inheritedEntries g o fuel rest visited')
              (mp.unboundedEntries g o rest visited') :=
          fun visited' hnodup hinside hlonger => ih visited' hnodup hinside (by omega)
        cases hclause : (g.node a).type with
        | none =>
          refine Walks.visit hleads hnodup' hinside ?_ hlater
          rw [Graph.clauseEntries, hclause]
          exact walks_nil _
        | some clause =>
          refine Walks.visit hleads hnodup' hinside ?_ hlater
          rw [Graph.clauseEntries, hclause]
          exact hfrom clause _ hnodup' hinside' (by rw [List.length_cons]; omega)

/-- **The walk** from a clause. Every ancestor that is entered is a new one of the table, so the bound
is never met. -/
theorem walks_inheritedFrom (fuel : Nat) : ∀ (clause : Place) (visited : List Place), visited.Nodup →
    (∀ a ∈ visited, a < g.size) → g.size < fuel + visited.length →
    mp.Walks g o (g.node clause).members visited (mp.inheritedFrom g o fuel clause visited)
      (mp.unboundedEntries g o (g.node clause).members visited) := by
  induction fuel with
  | zero =>
    intro clause visited hnodup hinside hroom
    have hlength := Graph.length_le_size hnodup hinside
    omega
  | succ fuel ih =>
    intro clause visited hnodup hinside hroom
    rw [inheritedFrom]
    exact walks_inheritedEntries ih _ visited hnodup hinside (by omega)

/-- **Inherited sections are the reachable ancestors.** In every graph, whatever circles its heritage
runs in, for every heritage clause and every list of files left out: the walk ends without a bound, and
there is a list of ancestors, each after an entry that leads to it, which has every ancestor of the
clause once and no other node, such that the walk prints the groups of these ancestors in turn and
makes a section of those that have some. -/
theorem inherited_exact (mp : MemberPrinter) (g : Graph) (o : Options) (clause : Place) :
    (∀ s, (mp.unboundedInherited g o clause).run.run s = some ((mp.inherited g o clause).run.run s)) ∧
    ∃ found : List (Place × Place),
      (found.map Prod.snd).Nodup ∧ (∀ a, a ∈ found.map Prod.snd ↔ g.Ancestor o clause a) ∧
      (∀ x ∈ found, g.LeadsTo o x.1 x.2) ∧
      mp.inherited g o clause = do
        let sections ← found.mapM fun x => do
          return { heritage := x.1, groups := ← mp.groups g x.2 true : InheritedSection }
        return sections.filter fun s => !s.groups.isEmpty := by
  have hwalks : mp.Walks g o (g.node clause).members [] (mp.inheritedFrom g o (g.size + 1) clause [])
      (mp.unboundedEntries g o (g.node clause).members []) :=
    walks_inheritedFrom _ clause [] List.nodup_nil (by simp) (by simp)
  obtain ⟨found, hfound, hleads, hwalked, hends⟩ := hwalks
  refine ⟨ending.bind hends fun _ => ending.pure _, found, hfound.nodup, fun a => ?_, hleads, ?_⟩
  · rw [Graph.ancestor_iff]
    exact Explores.mem_iff (by simpa using hfound)
  · rw [inherited, hwalked, walked_bind]
    exact bind_pure _

end MemberPrinter

end SymbolDocs
