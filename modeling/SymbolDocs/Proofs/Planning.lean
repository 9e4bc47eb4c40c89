import Mathlib
import SymbolDocs.Page.Plan
import SymbolDocs.Proofs.Walk
import SymbolDocs.Proofs.Work

/-!
# The page plan is correct

Planning fails only for want of a source. Otherwise every node that owns a page gets one name that no
other node has, although the names of nodes, the suffixes made from ids and the numbered names share
one space: the search for a free name always ends on one, because it tries more names than there are
pages.

* `PagePlan.disambiguate_free`: a name that replaces a taken one is free;
* `planPages_namesPages`: planned names have the extension that only pages have;
* `PagePlan.Covers` says what a plan is after a part of the walk, and `planFrom_ends` carries it from
  page to page;
* `PagePlan.Correct` is what a finished plan is;
* `pages_planned` is the result for loaded graphs.
-/

namespace SymbolDocs

/-! ## Free names -/

theorem Text.isDigit_of_mem_natText {n : Nat} {c : Char} (h : c ∈ (Text.natText n).toList) :
    c.isDigit = true := by
  rw [Text.natText, String.toList_ofList] at h
  exact Nat.isDigit_of_mem_toDigits (by decide) (by decide) h

theorem Text.natText_injective : Function.Injective Text.natText := by
  intro m n h
  rw [Text.natText, Text.natText, ← Nat.repr_eq_ofList_toDigits, ← Nat.repr_eq_ofList_toDigits] at h
  exact Nat.repr_inj.mp h

namespace PagePlan

theorem isTaken_iff {plan : PagePlan} {name : String} :
    plan.isTaken name = true ↔ name ∈ plan.names.map Prod.snd := by
  simp only [isTaken, List.any_eq_true, beq_iff_eq, List.mem_map]

/-- The numbered name with a counter. -/
def numbered (stem suffix : String) (counter : Nat) : String :=
  stem ++ "-" ++ suffix ++ "-" ++ Text.natText counter ++ ".html"

theorem numbered_injective (stem suffix : String) : Function.Injective (numbered stem suffix) := by
  intro m n h
  have hlist := congrArg String.toList h
  simp only [numbered, String.toList_append] at hlist
  exact Text.natText_injective (String.toList_inj.mp (by simpa using hlist))

/-- If the search ends on a taken name, it has found all names it tried taken. -/
theorem numbered_taken {plan : PagePlan} {stem suffix : String} {fuel counter : Nat}
    (h : plan.isTaken (plan.freeNumbered stem suffix fuel counter) = true) :
    ∀ i ≤ fuel, plan.isTaken (numbered stem suffix (counter + i)) = true := by
  induction fuel generalizing counter with
  | zero =>
    intro i hi
    obtain rfl : i = 0 := Nat.le_zero.mp hi
    exact h
  | succ fuel ih =>
    rw [freeNumbered] at h
    split at h
    · rename_i hfirst
      intro i hi
      cases i with
      | zero => exact hfirst
      | succ i =>
        have := ih h i (Nat.le_of_succ_le_succ hi)
        rwa [Nat.add_right_comm] at this
    · contradiction

/-- One name more than there are pages cannot all be taken. -/
theorem freeNumbered_free (plan : PagePlan) (stem suffix : String) (counter : Nat) :
    plan.isTaken (plan.freeNumbered stem suffix plan.names.length counter) = false := by
  rw [Bool.eq_false_iff]
  intro htaken
  have hall := numbered_taken htaken
  let tried := (List.range (plan.names.length + 1)).map fun i => numbered stem suffix (counter + i)
  have hnodup : tried.Nodup :=
    List.nodup_range.map fun i j hij => Nat.add_left_cancel (numbered_injective stem suffix hij)
  have hsubset : tried ⊆ plan.names.map Prod.snd := by
    intro name hname
    obtain ⟨i, hi, rfl⟩ := List.mem_map.mp hname
    exact isTaken_iff.mp (hall i (Nat.le_of_lt_succ (List.mem_range.mp hi)))
  have hlength := (hnodup.subperm hsubset).length_le
  simp [tried] at hlength

/-- A name that replaces a taken one has a suffix that makes it free, or also a number. -/
theorem disambiguate_cases (plan : PagePlan) (name : String) (n : Node) :
    ∃ suffix, plan.disambiguate name n = stemOf name ++ "-" ++ suffix ++ ".html" ∧
        plan.isTaken (plan.disambiguate name n) = false ∨
      plan.disambiguate name n = plan.freeNumbered (stemOf name) suffix plan.names.length 2 := by
  have hcases : ∀ suffix used, used = (if plan.isTaken (stemOf name ++ "-" ++ suffix ++ ".html") then
        plan.freeNumbered (stemOf name) suffix plan.names.length 2
      else stemOf name ++ "-" ++ suffix ++ ".html") →
      used = stemOf name ++ "-" ++ suffix ++ ".html" ∧ plan.isTaken used = false ∨
        used = plan.freeNumbered (stemOf name) suffix plan.names.length 2 := by
    intro suffix used h
    split at h
    · exact .inr h
    · rename_i hfree
      exact .inl ⟨h, by simpa [h] using hfree⟩
  exact ⟨_, hcases _ _ rfl⟩

theorem disambiguate_free (plan : PagePlan) (name : String) (n : Node) :
    plan.isTaken (plan.disambiguate name n) = false := by
  obtain ⟨suffix, ⟨-, hfree⟩ | hnumbered⟩ := plan.disambiguate_cases name n
  · exact hfree
  · rw [hnumbered]
    exact plan.freeNumbered_free _ _ _

end PagePlan

/-! ## Names that nodes ask for -/

/-- No file is known in which the node is declared, and its page would be named for one. -/
structure Node.LacksSource (n : Node) : Prop where
  notModule : n.kind ≠ .moduleFile
  notNamespace : n.kind ≠ .namespaceDecl
  source : n.source = []

theorem Node.pageName_spec (n : Node) (hasReadme : Bool) :
    n.LacksSource ∧ n.pageName hasReadme = .error (.missingSource n.name) ∨
      ¬n.LacksSource ∧ ∃ name, n.pageName hasReadme = .ok name := by
  rw [pageName, firstSource?]
  split
  · rename_i h
    exact .inr ⟨fun hl => hl.notModule h, _, rfl⟩
  · rename_i h
    exact .inr ⟨fun hl => hl.notNamespace h, _, rfl⟩
  · rename_i hmodule hnamespace
    cases hsource : n.source with
    | nil => exact .inl ⟨⟨hmodule, hnamespace, hsource⟩, rfl⟩
    | cons source rest => exact .inr ⟨fun hl => by simp [hl.source] at hsource, _, rfl⟩

/-! ## The form of page names -/

/-- The name of a page, as opposed to other files of a site. -/
def IsPageName (name : String) : Prop :=
  ∃ stem : String, name = stem ++ ".html"

theorem isPageName_of_endsWith {name : String}
    (h : Text.endsWith name.toList ".html".toList = true) : IsPageName name := by
  obtain ⟨rest, hrest⟩ := Option.isSome_iff_exists.mp h
  have hreverse := congrArg List.reverse (Text.eq_append_of_afterPrefix? hrest)
  rw [List.reverse_reverse, List.reverse_append, List.reverse_reverse] at hreverse
  refine ⟨String.ofList rest.reverse, String.toList_inj.mp ?_⟩
  rw [String.toList_append, String.toList_ofList, hreverse]

/-- The extension is added where it is missing. -/
theorem isPageName_completed (name : String) :
    IsPageName (if Text.endsWith name.toList ".html".toList then name else name ++ ".html") := by
  split
  · rename_i h
    exact isPageName_of_endsWith h
  · exact ⟨name, rfl⟩

theorem Node.isPageName_modulePage (n : Node) (hasReadme : Bool) :
    IsPageName (n.modulePage hasReadme) := by
  have hpage := isPageName_completed (Page.fileToken n.name)
  simp only [modulePage]
  generalize (if Text.endsWith (Page.fileToken n.name).toList ".html".toList then
    Page.fileToken n.name else Page.fileToken n.name ++ ".html") = page at hpage ⊢
  split
  · exact ⟨"index-api", by decide⟩
  · exact hpage

theorem Node.isPageName_of_pageName {n : Node} {hasReadme : Bool} {name : String}
    (h : n.pageName hasReadme = .ok name) : IsPageName name := by
  unfold pageName at h
  split at h
  · obtain rfl := Except.ok.inj h
    exact n.isPageName_modulePage hasReadme
  · exact ⟨_, (Except.ok.inj h).symm⟩
  · split at h
    · exact ⟨_, (Except.ok.inj h).symm⟩
    · cases h

theorem PagePlan.isPageName_freeNumbered (plan : PagePlan) (stem suffix : String) (fuel counter : Nat) :
    IsPageName (plan.freeNumbered stem suffix fuel counter) := by
  induction fuel generalizing counter with
  | zero => exact ⟨_, rfl⟩
  | succ fuel ih =>
    rw [freeNumbered]
    split
    · exact ih (counter + 1)
    · exact ⟨_, rfl⟩

theorem PagePlan.isPageName_disambiguate (plan : PagePlan) (name : String) (n : Node) :
    IsPageName (plan.disambiguate name n) := by
  obtain ⟨suffix, ⟨hsuffixed, -⟩ | hnumbered⟩ := plan.disambiguate_cases name n
  · exact ⟨_, hsuffixed⟩
  · rw [hnumbered]
    exact plan.isPageName_freeNumbered _ _ _ _

/-- All names of the plan are names of pages. -/
def PagePlan.NamesPages (plan : PagePlan) : Prop :=
  ∀ e ∈ plan.names, IsPageName e.2

theorem PagePlan.NamesPages.add {plan : PagePlan} (h : plan.NamesPages) {name : String}
    (hname : IsPageName name) (p : Place) (emit : Bool) : (plan.add p name emit).NamesPages := by
  intro e he
  rcases List.mem_append.mp he with he | he
  · exact h e he
  · rw [List.mem_singleton.mp he]
    exact hname

theorem planFrom_namesPages {g : Graph} {hasReadme : Bool} (rest : List (Place × Bool))
    {plan plan' : PagePlan} {warnings : List Warning}
    (h : (planFrom g hasReadme rest plan warnings).1 = .ok plan') (hplan : plan.NamesPages) :
    plan'.NamesPages := by
  induction rest generalizing plan warnings with
  | nil =>
    cases h
    exact hplan
  | cons e rest ih =>
    obtain ⟨p, emit⟩ := e
    rw [planFrom] at h
    split at h
    · exact ih h hplan
    · split at h
      · cases h
      · rename_i name hname
        split at h
        · exact ih h (hplan.add (plan.isPageName_disambiguate name _) p emit)
        · exact ih h (hplan.add (Node.isPageName_of_pageName hname) p emit)

theorem planPages_namesPages {g : Graph} {o : Options} {plan : PagePlan}
    (h : (planPages g o).1 = .ok plan) : plan.NamesPages :=
  planFrom_namesPages _ h fun _ he => absurd he List.not_mem_nil

theorem PagePlan.isPageName_of_pageOf {plan : PagePlan} (hplan : plan.NamesPages) {g : Graph}
    {p : Place} {name : String} (h : plan.pageOf g p = .ok name) : IsPageName name := by
  rw [pageOf] at h
  split at h
  · rename_i hname
    cases h
    exact hplan _ (mem_of_lookup hname)
  · exact Node.isPageName_of_pageName h

/-! ## The run over the walk -/

namespace PagePlan

/-- What a plan is when the listed part of the walk is planned: its pages are those of the list, under
names of their own, and a node has the name it asks for unless a node before it took that. -/
structure Covers (plan : PagePlan) (g : Graph) (hasReadme : Bool) (walked : List (Place × Bool)) :
    Prop where
  places : plan.names.map Prod.fst = (walked.map Prod.fst).filter fun p => (g.node p).hasOwnPage
  emitted : plan.emitted =
    ((walked.filter Prod.snd).map Prod.fst).filter fun p => (g.node p).hasOwnPage
  distinct : (plan.names.map Prod.snd).Nodup
  natural : ∀ before p name after, plan.names = before ++ (p, name) :: after →
    ∃ natural, (g.node p).pageName hasReadme = .ok natural ∧
      (natural ∉ before.map Prod.snd → name = natural)

variable {plan : PagePlan} {g : Graph} {hasReadme : Bool} {walked : List (Place × Bool)} {p : Place}
  {emit : Bool}

theorem covers_empty : (PagePlan.empty hasReadme).Covers g hasReadme [] where
  places := rfl
  emitted := rfl
  distinct := .nil
  natural _ _ _ _ h := by simp [empty] at h

/-- A node without a page leaves the plan as it is. -/
theorem Covers.skip (h : plan.Covers g hasReadme walked) (hp : (g.node p).hasOwnPage = false) :
    plan.Covers g hasReadme (walked ++ [(p, emit)]) where
  places := by simp [h.places, hp]
  emitted := by cases emit <;> simp [h.emitted, hp]
  distinct := h.distinct
  natural := h.natural

/-- A page is added under a free name, its natural one if that is free. -/
theorem Covers.add (h : plan.Covers g hasReadme walked) (hp : (g.node p).hasOwnPage = true)
    {natural name : String} (hnatural : (g.node p).pageName hasReadme = .ok natural)
    (hfree : plan.isTaken name = false) (hkeep : plan.isTaken natural = false → name = natural) :
    (plan.add p name emit).Covers g hasReadme (walked ++ [(p, emit)]) where
  places := by simp [PagePlan.add, h.places, hp]
  emitted := by cases emit <;> simp [PagePlan.add, h.emitted, hp]
  distinct := by
    have hnew : name ∉ plan.names.map Prod.snd := fun hmem => by
      simp [isTaken_iff.mpr hmem] at hfree
    simp only [PagePlan.add, List.map_append, List.map_cons, List.map_nil]
    exact h.distinct.append (List.nodup_singleton _) (by simpa using hnew)
  natural before q qname after hsplit := by
    simp only [PagePlan.add] at hsplit
    rcases List.eq_nil_or_concat after with rfl | ⟨after, e, rfl⟩
    · obtain ⟨rfl, hlast⟩ := List.append_inj' hsplit rfl
      cases hlast
      refine ⟨natural, hnatural, fun hnot => hkeep ?_⟩
      rw [← isTaken_iff] at hnot
      simpa using hnot
    · have hsplit' : plan.names ++ [(p, name)] = (before ++ (q, qname) :: after) ++ [e] := by
        simpa using hsplit
      exact h.natural before q qname after (List.append_inj' hsplit' rfl).1

/-- A node outside the walked part has no name yet. -/
theorem Covers.name?_eq_none (h : plan.Covers g hasReadme walked) (hp : p ∉ walked.map Prod.fst) :
    plan.name? p = none := by
  rw [name?, List.lookup_eq_none_iff]
  intro e he
  have hmem : e.1 ∈ (walked.map Prod.fst).filter fun p => (g.node p).hasOwnPage :=
    h.places ▸ List.mem_map_of_mem he
  have hne : p ≠ e.1 := fun heq => hp (heq ▸ List.mem_of_mem_filter hmem)
  simpa using hne

end PagePlan

/-- How planning the rest of a walk ends: with a fault that names a node without a source, or with a plan
of the whole walk, for which no node lacks a source. -/
def PlanEnds (g : Graph) (hasReadme : Bool) (walked rest : List (Place × Bool))
    (result : Except Fault PagePlan) : Prop :=
  (∃ p ∈ rest.map Prod.fst, (g.node p).hasOwnPage = true ∧ (g.node p).LacksSource ∧
    result = .error (.missingSource (g.node p).name)) ∨
  ((∀ p ∈ rest.map Prod.fst, (g.node p).hasOwnPage = true → ¬(g.node p).LacksSource) ∧
    ∃ plan, result = .ok plan ∧ plan.Covers g hasReadme (walked ++ rest))

/-- A node that lacks no source leaves the end to the rest of the walk. -/
theorem PlanEnds.cons {g : Graph} {hasReadme emit : Bool} {walked rest : List (Place × Bool)}
    {p : Place} {result : Except Fault PagePlan}
    (hp : (g.node p).hasOwnPage = true → ¬(g.node p).LacksSource)
    (h : PlanEnds g hasReadme (walked ++ [(p, emit)]) rest result) :
    PlanEnds g hasReadme walked ((p, emit) :: rest) result := by
  rcases h with ⟨q, hq, herror⟩ | ⟨hall, plan, hok, hcovers⟩
  · exact .inl ⟨q, List.mem_cons_of_mem _ hq, herror⟩
  · exact .inr ⟨List.forall_mem_cons.mpr ⟨hp, hall⟩, plan, hok, by simpa using hcovers⟩

theorem planFrom_ends {g : Graph} {hasReadme : Bool} (rest : List (Place × Bool))
    {walked : List (Place × Bool)} {plan : PagePlan} (warnings : List Warning)
    (hnodup : ((walked ++ rest).map Prod.fst).Nodup) (h : plan.Covers g hasReadme walked) :
    PlanEnds g hasReadme walked rest (planFrom g hasReadme rest plan warnings).1 := by
  induction rest generalizing walked plan warnings with
  | nil => exact .inr ⟨by simp, plan, rfl, by simpa using h⟩
  | cons e rest ih =>
    obtain ⟨p, emit⟩ := e
    have hnew : p ∉ walked.map Prod.fst := by
      rw [List.map_append, List.nodup_append] at hnodup
      exact fun hp => hnodup.2.2 p hp p (by simp) rfl
    have hnodup' : ((walked ++ [(p, emit)] ++ rest).map Prod.fst).Nodup := by simpa using hnodup
    rw [planFrom, h.name?_eq_none hnew]
    cases hown : (g.node p).hasOwnPage with
    | false =>
      have hrest := ih warnings hnodup' (h.skip hown)
      simpa using hrest.cons (by simp [hown])
    | true =>
      simp only [Bool.not_true, Option.isSome_none, Bool.or_self, Bool.false_eq_true, if_false]
      rcases (g.node p).pageName_spec hasReadme with ⟨hlacks, herror⟩ | ⟨hhas, name, hname⟩
      · rw [herror]
        exact .inl ⟨p, by simp, hown, hlacks, rfl⟩
      · rw [hname]
        dsimp only
        split
        · rename_i htaken
          refine (ih _ hnodup' (h.add hown hname ?_ ?_)).cons fun _ => hhas
          · exact plan.disambiguate_free name (g.node p)
          · simp [htaken]
        · rename_i hfree
          refine (ih _ hnodup' (h.add hown hname ?_ ?_)).cons fun _ => hhas
          · simpa using hfree
          · exact fun _ => rfl

/-! ## Finished plans -/

/-- The node owns a page and is one of the roots or found below one. -/
def Graph.PageUnder (g : Graph) (roots : List Place) (p : Place) : Prop :=
  (g.node p).hasOwnPage = true ∧ ∃ m ∈ roots, g.Under m p

/-- The modules whose pages are emitted. -/
def Graph.keptModules (g : Graph) (o : Options) : List Place :=
  g.modules.filter fun m => !isSkippedModule (g.node m) o

/-- A plan as it should be: the page owners below modules have one name each and no two the same one;
a name is the one its node asks for unless a page before it has that; and the pages of the kept
modules are emitted, in the order of the walk, which is that of the document. -/
structure PagePlan.Correct (plan : PagePlan) (g : Graph) (o : Options) : Prop where
  named : ∀ p, (∃ name, plan.name? p = some name) ↔ g.PageUnder g.modules p
  once : (plan.names.map Prod.fst).Nodup
  distinct : ∀ p q name, plan.name? p = some name → plan.name? q = some name → p = q
  natural : ∀ before p name after, plan.names = before ++ (p, name) :: after →
    ∃ natural, (g.node p).pageName o.hasReadme = .ok natural ∧
      (natural ∉ before.map Prod.snd → name = natural)
  walked : plan.names.map Prod.fst = (g.walk g.modules).filter fun p => (g.node p).hasOwnPage
  emits : ∀ p, p ∈ plan.emitted ↔ g.PageUnder (g.keptModules o) p
  order : plan.emitted = (g.walk (g.keptModules o)).filter fun p => (g.node p).hasOwnPage
  sorted : plan.emitted.Pairwise (· < ·)

theorem map_fst_planningOrder (g : Graph) (o : Options) :
    (planningOrder g o).map Prod.fst = g.walk g.modules := by
  simp [planningOrder, Graph.walk, List.map_flatMap, Function.comp_def]

theorem map_fst_filter_planningOrder (g : Graph) (o : Options) :
    ((planningOrder g o).filter Prod.snd).map Prod.fst = g.walk (g.keptModules o) := by
  rw [planningOrder, Graph.walk, Graph.keptModules]
  induction g.modules with
  | nil => rfl
  | cons m rest ih =>
    cases hm : isSkippedModule (g.node m) o <;>
      simp [hm, ih, List.filter_map, Function.comp_def]

theorem Graph.Forest.kept {g : Graph} (hr : g.Forest g.modules) (o : Options) :
    g.Forest (g.keptModules o) where
  nested := hr.nested
  sorted := hr.sorted.filter _
  lt m hm := hr.lt m (List.mem_of_mem_filter hm)
  cut m hm := hr.cut m (List.mem_of_mem_filter hm)
  known m hm := hr.known m (List.mem_of_mem_filter hm)

theorem Graph.Forest.mem_owners {g : Graph} (hs : g.Sound) {roots : List Place} (hr : g.Forest roots)
    (p : Place) : p ∈ (g.walk roots).filter (fun p => (g.node p).hasOwnPage) ↔ g.PageUnder roots p := by
  rw [List.mem_filter, hr.mem_walk hs, PageUnder, and_comm]

/-- Names are looked up in a list without repetitions. -/
theorem PagePlan.name?_eq_some_iff {plan : PagePlan} (h : (plan.names.map Prod.fst).Nodup) {p : Place}
    {name : String} : plan.name? p = some name ↔ (p, name) ∈ plan.names := by
  rw [name?]
  generalize plan.names = names at h
  induction names with
  | nil => simp
  | cons e rest ih =>
    obtain ⟨q, other⟩ := e
    simp only [List.map_cons, List.nodup_cons] at h
    rw [List.lookup_cons]
    by_cases hpq : p = q
    · subst hpq
      have hrest : (p, name) ∉ rest := fun hmem => h.1 (List.mem_map_of_mem hmem)
      simp [hrest, eq_comm]
    · have hne : (p == q) = false := by simpa using hpq
      simp only [hne, ih h.2, List.mem_cons, Prod.mk.injEq, hpq, false_and, false_or]

/-- A plan of the whole walk is as it should be. -/
theorem PagePlan.Covers.correct {plan : PagePlan} {g : Graph} {o : Options} (hs : g.Sound)
    (hr : g.Forest g.modules) (h : plan.Covers g o.hasReadme (planningOrder g o)) :
    plan.Correct g o := by
  have hplaces := h.places
  rw [map_fst_planningOrder] at hplaces
  have hemitted := h.emitted
  rw [map_fst_filter_planningOrder] at hemitted
  have honce : (plan.names.map Prod.fst).Nodup := by
    rw [hplaces]
    exact ((hr.walk_sorted hs).imp Nat.ne_of_lt).filter _
  refine ⟨fun p => ?_, honce, fun p q name hp hq => ?_, h.natural, hplaces, fun p => ?_, hemitted, ?_⟩
  · rw [← hr.mem_owners hs, ← hplaces, List.mem_map]
    constructor
    · rintro ⟨name, hname⟩
      exact ⟨(p, name), (name?_eq_some_iff honce).mp hname, rfl⟩
    · rintro ⟨⟨q, name⟩, hmem, rfl⟩
      exact ⟨name, (name?_eq_some_iff honce).mpr hmem⟩
  · have heq : (p, name) = (q, name) :=
      List.inj_on_of_nodup_map h.distinct ((name?_eq_some_iff honce).mp hp)
        ((name?_eq_some_iff honce).mp hq) rfl
    exact congrArg Prod.fst heq
  · rw [hemitted, (hr.kept o).mem_owners hs]
  · rw [hemitted]
    exact ((hr.kept o).walk_sorted hs).filter _

/-- Planning covers the whole walk unless a source is missing on the way. -/
theorem planPages_covers {g : Graph} (hs : g.Sound) (hr : g.Forest g.modules) (o : Options) :
    (∃ p, g.PageUnder g.modules p ∧ (g.node p).LacksSource ∧
      (planPages g o).1 = .error (.missingSource (g.node p).name)) ∨
    ((∀ p, g.PageUnder g.modules p → ¬(g.node p).LacksSource) ∧
      ∃ plan, (planPages g o).1 = .ok plan ∧ plan.Covers g o.hasReadme (planningOrder g o)) := by
  have hwalk : ((planningOrder g o).map Prod.fst).Nodup := by
    rw [map_fst_planningOrder]
    exact (hr.walk_sorted hs).imp Nat.ne_of_lt
  have hmem : ∀ p, p ∈ (planningOrder g o).map Prod.fst ↔ ∃ m ∈ g.modules, g.Under m p := by
    intro p
    rw [map_fst_planningOrder, hr.mem_walk hs]
  have hends : PlanEnds g o.hasReadme [] (planningOrder g o) (planPages g o).1 :=
    planFrom_ends (planningOrder g o) [] hwalk PagePlan.covers_empty
  rcases hends with ⟨p, hp, hown, hlacks, herror⟩ | ⟨hall, hok⟩
  · exact .inl ⟨p, ⟨hown, (hmem p).mp hp⟩, hlacks, herror⟩
  · exact .inr ⟨fun p hp => hall p ((hmem p).mpr hp.2) hp.1, hok⟩

theorem planPages_correct {doc : Value} {g : Graph} (hload : Graph.ofValue doc = .ok g) {o : Options}
    {plan : PagePlan} (hplan : (planPages g o).1 = .ok plan) : plan.Correct g o := by
  have hs := Graph.sound_of_load hload
  have hr := Graph.forest_of_load hload
  rcases planPages_covers hs hr o with ⟨p, -, -, herror⟩ | ⟨-, plan', hplan', hcovers⟩
  · rw [hplan] at herror
    cases herror
  · rw [hplan] at hplan'
    cases hplan'
    exact hcovers.correct hs hr

/-- **Page plans**: planning fails exactly when a node below a module that owns a page, and is neither
a module nor a namespace, has no source; otherwise it ends with a plan as it should be. -/
theorem pages_planned {doc : Value} {g : Graph} (hload : Graph.ofValue doc = .ok g) (o : Options) :
    (∃ p, g.PageUnder g.modules p ∧ (g.node p).LacksSource ∧
      (planPages g o).1 = .error (.missingSource (g.node p).name)) ∨
    ((∀ p, g.PageUnder g.modules p → ¬(g.node p).LacksSource) ∧
      ∃ plan, (planPages g o).1 = .ok plan ∧ plan.Correct g o) := by
  have hs := Graph.sound_of_load hload
  have hr := Graph.forest_of_load hload
  refine (planPages_covers hs hr o).imp_right fun ⟨hall, plan, hplan, hcovers⟩ => ?_
  exact ⟨hall, plan, hplan, hcovers.correct hs hr⟩

/-- A class in `a.ts`. -/
def thingValue (name : String) (id : Int) : Value :=
  .record [("kind", .int 3), ("id", .int id), ("name", .text name),
    ("source", .record [("name", .text "a.ts")])]

/-- Beside a landing page, the module `index.ts` has to give way, and `index-api.ts` to the name it
takes; of two classes `Thing` the second one finds its suffixed name taken by a class of that name. -/
def thingsDocument : Value :=
  .record [("modules", .list [
    .record [("kind", .int 1), ("id", .int 1), ("name", .text "index.ts"),
      ("children", .list [thingValue "Thing" 3, thingValue "Thing-s5" 4, thingValue "Thing" 5])],
    .record [("kind", .int 1), ("id", .int 2), ("name", .text "index-api.ts"),
      ("children", .list [])]])]

/-- Such a class in the graph. -/
def thingNode (name : String) (id : Int) : Node :=
  { Node.bare .classDecl with
    id := some (.int id), name, source := [⟨"a.ts", 0, .null, none, false⟩], parent := some 0 }

/-- The graph of the document. -/
def thingsGraph : Graph where
  nodes := #[
    { Node.bare .moduleFile with id := some (.int 1), name := "index.ts", children := some [1, 2, 3] },
    thingNode "Thing" 3, thingNode "Thing-s5" 4, thingNode "Thing" 5,
    { Node.bare .moduleFile with id := some (.int 2), name := "index-api.ts", children := some [] }]
  modules := [0, 4]
  index := [(.int 1, 0), (.int 3, 1), (.int 4, 2), (.int 5, 3), (.int 2, 4)]

/-- The plan of its pages. The second module is empty, so its page is only planned. -/
def thingsPlan : PagePlan where
  names := [(0, "index-api.html"), (1, "a--Thing.html"), (2, "a--Thing-s5.html"),
    (3, "a--Thing-s5-2.html"), (4, "index-api-s2.html")]
  emitted := [0, 1, 2, 3]
  hasReadme := true

theorem thingsDocument_loads : Graph.ofValue thingsDocument = .ok thingsGraph := by
  cbv

theorem thingsGraph_planned : (planPages thingsGraph { hasReadme := true }).1 = .ok thingsPlan := by
  have horder : planningOrder thingsGraph { hasReadme := true } =
      [(0, true), (1, true), (2, true), (3, true), (4, false)] := by cbv
  rw [planPages, horder]
  rfl

theorem pages_planned_things :
    Graph.ofValue thingsDocument = .ok thingsGraph ∧
      (planPages thingsGraph { hasReadme := true }).1 = .ok thingsPlan ∧
      thingsPlan.Correct thingsGraph { hasReadme := true } := by
  refine ⟨thingsDocument_loads, thingsGraph_planned, ?_⟩
  rcases pages_planned thingsDocument_loads { hasReadme := true } with
    ⟨p, -, -, herror⟩ | ⟨-, plan, hplan, hcorrect⟩
  · rw [thingsGraph_planned] at herror
    cases herror
  · rw [thingsGraph_planned] at hplan
    cases hplan
    exact hcorrect

end SymbolDocs
