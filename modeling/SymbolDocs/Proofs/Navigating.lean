import SymbolDocs.Navigation
import SymbolDocs.Proofs.Anchors
import SymbolDocs.Proofs.Publishing

/-!
# What the navigation lists

The navigation is made from the plan, from what is public and from where links lead. In a loaded graph
these fit together: what a section lists belongs to a page that is emitted with it, an owner of a page is
no mention of another declaration, so its address is that page, and no declaration belongs to two
sections.

* `NavItem.LeadsTo` says that an item stands for the emitted page of a node;
* `NavSection.LeadsTo` says the same of a section and the pages in it;
* `Site.navItem_runs` and its companions follow the making of the navigation;
* `navigation_exact` is the result for loaded graphs.
-/

namespace SymbolDocs

/-! ## What is to be listed -/

/-- The declarations of a node that count for the navigation: public, and not another form of one that
is listed. -/
def Graph.navMembers (g : Graph) (p : Place) : List Place :=
  (g.node p).members.filter fun c => (g.node c).isPublic && !(g.node c).has .overload

/-- Those of them that own a page. -/
def Graph.navPages (g : Graph) (p : Place) : List Place :=
  (g.navMembers p).filter fun c => (g.node c).hasOwnPage

theorem Graph.Nested.nodup_navPages {g : Graph} (hn : g.Nested) (p : Place) : (g.navPages p).Nodup :=
  (((hn.members p).imp Nat.ne_of_lt).filter _).filter _

/-- The emitted modules and named groups with such declarations. -/
def Site.navContainers (site : Site) : List Place :=
  site.plan.emitted.filter fun p =>
    (site.graph.node p).kind.isContainer && !(site.graph.navMembers p).isEmpty

/-- The item leads to the emitted page of the node. -/
structure NavItem.LeadsTo (item : NavItem) (site : Site) (p : Place) : Prop where
  emitted : p ∈ site.plan.emitted
  href : site.plan.name? p = some item.href

/-- The section is that of the node, and its entries lead to the pages in it: the static ones first, and
otherwise by name. -/
structure NavSection.LeadsTo (sec : NavSection) (site : Site) (p : Place) : Prop where
  page : sec.page.LeadsTo site p
  entries : ∃ cs : List Place, cs.Perm (site.graph.navPages p) ∧
    cs.Pairwise (fun a b => (site.graph.node a).precedes (site.graph.node b) = true) ∧
    List.Forall₂ (fun c item => item.LeadsTo site c) cs sec.entries

/-! ## Orders -/

theorem Node.precedes_trans (a b c : Node) (hab : a.precedes b = true) (hbc : b.precedes c = true) :
    a.precedes c = true := by
  unfold precedes at *
  cases ha : a.has .staticMember <;> cases hb : b.has .staticMember <;>
    cases hc : c.has .staticMember <;> simp_all
  all_goals exact String.le_trans hab hbc

theorem Node.precedes_total (a b : Node) : (a.precedes b || b.precedes a) = true := by
  unfold precedes
  cases ha : a.has .staticMember <;> cases hb : b.has .staticMember <;> simp
  all_goals exact String.le_total _ _

theorem Graph.pairwise_sortMembers (g : Graph) (ps : List Place) :
    (g.sortMembers ps).Pairwise fun a b => (g.node a).precedes (g.node b) = true := by
  let le : Place → Place → Bool := fun a b => (g.node a).precedes (g.node b)
  have htrans : ∀ a b c, le a b = true → le b c = true → le a c = true :=
    fun a b c => Node.precedes_trans (g.node a) (g.node b) (g.node c)
  have htotal : ∀ a b, (le a b || le b a) = true :=
    fun a b => Node.precedes_total (g.node a) (g.node b)
  exact List.pairwise_mergeSort htrans htotal ps

/-! ## Making the navigation -/

namespace Site

variable {site : Site}

/-- What owns a page stands for itself. -/
theorem not_isWrapper_of_hasOwnPage {n : Node} (h : n.hasOwnPage = true) : n.kind.isWrapper = false := by
  unfold Node.hasOwnPage at h
  cases hkind : n.kind <;> simp_all [Kind.isWrapper]

/-- The address of what owns a planned page is the name of the page. -/
theorem href_of_planned {p : Place} {name : String} (hown : (site.graph.node p).hasOwnPage = true)
    (hname : site.plan.name? p = some name) (s : Session) :
    (site.href p).run.run s = (.ok name, s) := by
  have htarget : site.graph.target p = (p, false) := by
    simp [Graph.target, Graph.follow, Graph.wrapped?, not_isWrapper_of_hasOwnPage hown]
  have hrun : (site.target p).run.run s = (.ok p, s) := by
    rw [Site.target, htarget]
    rfl
  rw [href, hrefFrom, Work.run_bind_ok hrun]
  simp only [hown, if_true, PagePlan.pageOf, hname]
  rfl

/-- An emitted page has a name of its own, and it is not empty. -/
theorem name_of_emitted (hplan : site.plan.Correct site.graph site.options)
    (hpages : site.plan.NamesPages) {p : Place} (hp : p ∈ site.plan.emitted) :
    (site.graph.node p).hasOwnPage = true ∧
      ∃ name, site.plan.name? p = some name ∧ name ≠ "" := by
  obtain ⟨hown, m, hm, hunder⟩ := (hplan.emits p).mp hp
  obtain ⟨name, hname⟩ := (hplan.named p).mpr ⟨hown, m, List.mem_of_mem_filter hm, hunder⟩
  refine ⟨hown, name, hname, fun hempty => ?_⟩
  have hpage := hpages _ (mem_of_lookup hname)
  exact not_isPageName (by simp [hempty]) hpage

theorem navItem_runs (hplan : site.plan.Correct site.graph site.options)
    (hpages : site.plan.NamesPages) {p : Place} (hp : p ∈ site.plan.emitted) (withIcon : Bool) :
    ∃ item, NavItem.LeadsTo item site p ∧
      ∀ s, (site.navItem p withIcon).run.run s = (.ok item, s) := by
  obtain ⟨hown, name, hname, hempty⟩ := name_of_emitted hplan hpages hp
  have hrun : ∀ s, (site.navItem p withIcon).run.run s = (.ok
      { title := if (site.graph.node p).name = "" then "default" else (site.graph.node p).name
        href := name
        icon := if withIcon then some (site.graph.node p).kind.icon else none
        italic := (site.graph.node p).name = "" }, s) := by
    intro s
    rw [navItem, Work.run_bind_ok (href_of_planned hown hname s), if_neg hempty]
    rfl
  exact ⟨_, ⟨hp, hname⟩, hrun⟩

theorem navItems_run (hplan : site.plan.Correct site.graph site.options)
    (hpages : site.plan.NamesPages) {ps : List Place} (hps : ∀ p ∈ ps, p ∈ site.plan.emitted) :
    ∃ items, List.Forall₂ (fun p item => NavItem.LeadsTo item site p) ps items ∧
      ∀ s, (site.navItems ps).run.run s = (.ok items, s) := by
  induction ps with
  | nil => exact ⟨[], .nil, fun _ => rfl⟩
  | cons p rest ih =>
    obtain ⟨item, hitem, hrun⟩ := navItem_runs hplan hpages (hps p List.mem_cons_self) true
    obtain ⟨items, hitems, hrest⟩ := ih fun q hq => hps q (List.mem_cons_of_mem _ hq)
    refine ⟨item :: items, .cons hitem hitems, fun s => ?_⟩
    rw [navItems, Work.run_bind_ok (hrun s), Work.run_bind_ok (hrest s)]
    rfl

/-- What a section lists is emitted with it. -/
theorem emitted_of_mem_navPages (hplan : site.plan.Correct site.graph site.options) {p c : Place}
    (hp : p ∈ site.plan.emitted) (hc : c ∈ site.graph.navPages p) : c ∈ site.plan.emitted := by
  obtain ⟨hmember, hown⟩ := List.mem_filter.mp hc
  obtain ⟨-, m, hm, hunder⟩ := (hplan.emits p).mp hp
  exact (hplan.emits c).mpr ⟨hown, m, hm, hunder.tail (List.mem_of_mem_filter hmember)⟩

/-- The pages in a section, as they are sorted. -/
theorem sorted_navPages (g : Graph) (p : Place) :
    ((g.sortMembers (g.navMembers p)).filter fun c => (g.node c).hasOwnPage).Perm (g.navPages p) ∧
    ((g.sortMembers (g.navMembers p)).filter fun c => (g.node c).hasOwnPage).Pairwise
      fun a b => (g.node a).precedes (g.node b) = true :=
  ⟨(List.mergeSort_perm _ _).filter _, (g.pairwise_sortMembers _).filter _⟩

theorem navSection?_runs (hplan : site.plan.Correct site.graph site.options)
    (hpages : site.plan.NamesPages) {p : Place} (hp : p ∈ site.plan.emitted) :
    (site.graph.navMembers p).isEmpty = true ∧
        (∀ s, (site.navSection? p).run.run s = (.ok none, s)) ∨
      (site.graph.navMembers p).isEmpty = false ∧ ∃ sec, NavSection.LeadsTo sec site p ∧
        ∀ s, (site.navSection? p).run.run s = (.ok (some sec), s) := by
  cases hempty : (site.graph.navMembers p).isEmpty with
  | true =>
    refine .inl ⟨rfl, fun s => ?_⟩
    rw [Graph.navMembers] at hempty
    simp only [navSection?, hempty, if_true]
    rfl
  | false =>
    obtain ⟨hperm, hsorted⟩ := sorted_navPages site.graph p
    obtain ⟨page, hpage, hrunPage⟩ := navItem_runs hplan hpages hp false
    obtain ⟨entries, hentries, hrunEntries⟩ := navItems_run hplan hpages fun c hc =>
      emitted_of_mem_navPages hplan hp (hperm.mem_iff.mp hc)
    refine .inr ⟨rfl, ⟨page, entries⟩, ⟨hpage, _, hperm, hsorted, hentries⟩, fun s => ?_⟩
    rw [Graph.navMembers] at hempty hrunEntries
    simp only [navSection?, hempty, Bool.false_eq_true, if_false]
    rw [Work.run_bind_ok (hrunEntries s), Work.run_bind_ok (hrunPage s)]
    rfl

theorem navSections_run (hplan : site.plan.Correct site.graph site.options)
    (hpages : site.plan.NamesPages) {ps : List Place} (hps : ∀ p ∈ ps, p ∈ site.plan.emitted) :
    ∃ sections, List.Forall₂ (fun p sec => NavSection.LeadsTo sec site p)
        (ps.filter fun p => !(site.graph.navMembers p).isEmpty) sections ∧
      ∀ s, (site.navSections ps).run.run s = (.ok sections, s) := by
  induction ps with
  | nil => exact ⟨[], .nil, fun _ => rfl⟩
  | cons p rest ih =>
    obtain ⟨others, hothers, hrest⟩ := ih fun q hq => hps q (List.mem_cons_of_mem _ hq)
    rcases navSection?_runs hplan hpages (hps p List.mem_cons_self) with
      ⟨hempty, hrun⟩ | ⟨hsome, sec, hsec, hrun⟩
    · refine ⟨others, by simpa [hempty] using hothers, fun s => ?_⟩
      rw [navSections, Work.run_bind_ok (hrun s), Work.run_bind_ok (hrest s)]
      rfl
    · refine ⟨sec :: others, by simpa [hsome] using ⟨hsec, hothers⟩, fun s => ?_⟩
      rw [navSections, Work.run_bind_ok (hrun s), Work.run_bind_ok (hrest s)]
      rfl

/-- **The navigation is made** in every session and changes none; its sections are those of the
containers to be listed. -/
theorem navigation_runs (hplan : site.plan.Correct site.graph site.options)
    (hpages : site.plan.NamesPages) :
    ∃ sections containers, containers.Perm site.navContainers ∧
      List.Forall₂ (fun p sec => NavSection.LeadsTo sec site p) containers sections ∧
      ∀ s, site.navigation.run.run s = (.ok sections, s) := by
  let le : Place → Place → Bool := fun a b => navPrecedes (site.graph.node a).kind
    (site.graph.node a).name (site.graph.node b).kind (site.graph.node b).name
  have hperm := List.mergeSort_perm
    (site.plan.emitted.filter fun p => (site.graph.node p).kind.isContainer) le
  obtain ⟨sections, hsections, hrun⟩ := navSections_run hplan hpages fun p hp =>
    List.mem_of_mem_filter (hperm.mem_iff.mp hp)
  refine ⟨sections, _, ?_, hsections, hrun⟩
  have hfilter := hperm.filter fun p => !(site.graph.navMembers p).isEmpty
  rw [List.filter_filter] at hfilter
  exact hfilter.trans (.of_eq (List.filter_congr fun p _ => Bool.and_comm _ _))

/-! ## Addresses are different -/

/-- Items that lead to different nodes have different addresses. -/
theorem nodup_hrefs (hplan : site.plan.Correct site.graph site.options) {ps : List Place}
    {items : List NavItem} (h : List.Forall₂ (fun p item => NavItem.LeadsTo item site p) ps items)
    (hnodup : ps.Nodup) : (items.map NavItem.href).Nodup := by
  have hnames : ps.map site.plan.name? = (items.map NavItem.href).map some := by
    clear hnodup
    induction h with
    | nil => rfl
    | cons hitem _ ih => rw [List.map_cons, List.map_cons, List.map_cons, hitem.href, ih]
  have hnamed : ∀ p ∈ ps, ∃ name, site.plan.name? p = some name := by
    intro p hp
    have hmem : site.plan.name? p ∈ (items.map NavItem.href).map some :=
      hnames ▸ List.mem_map_of_mem hp
    obtain ⟨name, -, hname⟩ := List.mem_map.mp hmem
    exact ⟨name, hname.symm⟩
  have hdistinct : (ps.map site.plan.name?).Nodup := by
    refine hnodup.map_on fun p hp q _ heq => ?_
    obtain ⟨name, hname⟩ := hnamed p hp
    exact hplan.distinct p q name hname (heq ▸ hname)
  rw [hnames] at hdistinct
  exact hdistinct.of_map _

/-- The entries of all sections, as the pages they lead to. -/
theorem exists_pages_of_sections {ps : List Place} {sections : List NavSection}
    (h : List.Forall₂ (fun p sec => NavSection.LeadsTo sec site p) ps sections) :
    ∃ cs : List Place, cs.Perm (ps.flatMap site.graph.navPages) ∧
      List.Forall₂ (fun c item => NavItem.LeadsTo item site c) cs (sections.flatMap NavSection.entries) := by
  induction h with
  | nil => exact ⟨[], .nil, .nil⟩
  | cons hsec _ ih =>
    obtain ⟨cs, hperm, -, hentries⟩ := hsec.entries
    obtain ⟨others, hothers, hrest⟩ := ih
    exact ⟨cs ++ others, hperm.append hothers, List.rel_append hentries hrest⟩

/-- No page stands in two sections, because it has one owner. -/
theorem nodup_flatMap_navPages (hplan : site.plan.Correct site.graph site.options)
    (hforest : site.graph.Forest site.graph.modules) {ps : List Place}
    (hps : ∀ p ∈ ps, p ∈ site.plan.emitted) (hnodup : ps.Nodup) :
    (ps.flatMap site.graph.navPages).Nodup := by
  have hmember : ∀ {p c}, c ∈ site.graph.navPages p → c ∈ (site.graph.node p).members :=
    fun hc => List.mem_of_mem_filter (List.mem_of_mem_filter hc)
  have hparent : ∀ p ∈ ps, ∀ c ∈ site.graph.navPages p, (site.graph.node c).parent = some p := by
    intro p hp c hc
    obtain ⟨-, m, hm, hunder⟩ := (hplan.emits p).mp (hps p hp)
    have hknown := hforest.ownerKnown (List.mem_of_mem_filter hm) hunder
    exact hknown c (Graph.mem_owned_of_mem_members (hmember hc))
  rw [List.nodup_flatMap]
  refine ⟨fun p _ => ?_, hnodup.imp_of_mem fun {p q} hp hq hne c hc hc' => hne ?_⟩
  · exact hforest.nested.nodup_navPages p
  · have heq := (hparent p hp c hc).symm.trans (hparent q hq c hc')
    exact Option.some.inj heq

end Site

/-- **The navigation lists what it should.** For a loaded graph and a plan of its pages, the navigation
is made in every session, the same each time, without a fault and without a warning. Its sections are
those of the emitted modules and named groups that have a public declaration which is no overload, one
each; the entries of a section lead to the emitted pages of all its public declarations that own one and
are no overload, one each, static ones first and then by name. The pages of sections have different
addresses, and so have all entries. -/
theorem navigation_exact {doc : Value} {g : Graph} (hload : Graph.ofValue doc = .ok g) {o : Options}
    {plan : PagePlan} (hplan : (planPages g o).1 = .ok plan) :
    ∃ sections : List NavSection,
      (∀ s, (Site.navigation ⟨g, plan, o⟩).run.run s = (.ok sections, s)) ∧
      (∃ containers : List Place, containers.Perm (Site.navContainers ⟨g, plan, o⟩) ∧
        containers.Nodup ∧
        List.Forall₂ (fun p sec => NavSection.LeadsTo sec ⟨g, plan, o⟩ p) containers sections) ∧
      (∀ p, (g.navPages p).Nodup) ∧
      (sections.map fun sec => sec.page.href).Nodup ∧
      ((sections.flatMap NavSection.entries).map NavItem.href).Nodup := by
  have hcorrect := planPages_correct hload hplan
  have hforest := Graph.forest_of_load hload
  let site : Site := ⟨g, plan, o⟩
  obtain ⟨sections, containers, hperm, hsections, hrun⟩ :
      ∃ sections containers, containers.Perm site.navContainers ∧
        List.Forall₂ (fun p sec => NavSection.LeadsTo sec site p) containers sections ∧
        ∀ s, site.navigation.run.run s = (.ok sections, s) :=
    Site.navigation_runs hcorrect (planPages_namesPages hplan)
  have hnodup : containers.Nodup :=
    hperm.nodup_iff.mpr ((hcorrect.sorted.imp Nat.ne_of_lt).filter _)
  have hemitted : ∀ p ∈ containers, p ∈ site.plan.emitted :=
    fun p hp => List.mem_of_mem_filter (hperm.mem_iff.mp hp)
  have hheads : List.Forall₂ (fun p item => NavItem.LeadsTo item site p) containers
      (sections.map NavSection.page) := by
    rw [List.forall₂_map_right_iff]
    exact hsections.imp fun _ _ hsec => hsec.page
  obtain ⟨cs, hcs, hentries⟩ := Site.exists_pages_of_sections hsections
  have hpages := hcs.nodup_iff.mpr (Site.nodup_flatMap_navPages hcorrect hforest hemitted hnodup)
  refine ⟨sections, hrun, ⟨containers, hperm, hnodup, hsections⟩, hforest.nested.nodup_navPages, ?_, ?_⟩
  · simpa [Function.comp_def] using Site.nodup_hrefs hcorrect hheads hnodup
  · exact Site.nodup_hrefs hcorrect hentries hpages

/-! ## A section with two pages -/

/-- A module with two exported classes and one that is not. -/
def listedDocument : Value :=
  .record [("modules", .list [.record [("kind", .int 1), ("id", .int 1), ("name", .text "a.ts"),
    ("children", .list [
      .record [("kind", .int 3), ("id", .int 2), ("name", .text "Zoo"),
        ("flags", .list [.text "Export"]), ("source", .record [("name", .text "a.ts")])],
      .record [("kind", .int 3), ("id", .int 3), ("name", .text "Hidden"),
        ("source", .record [("name", .text "a.ts")])],
      .record [("kind", .int 3), ("id", .int 4), ("name", .text "Ant"),
        ("flags", .list [.text "Export"]), ("source", .record [("name", .text "a.ts")])]])]])]

/-- Such a class in the graph. -/
def listedNode (name : String) (id : Int) (flags : Flags) : Node :=
  { Node.bare .classDecl with
    id := some (.int id), flags, name, source := [⟨"a.ts", 0, .null, none, false⟩], parent := some 0 }

/-- The graph of the document. -/
def listedGraph : Graph where
  nodes := #[
    { Node.bare .moduleFile with id := some (.int 1), name := "a.ts", children := some [1, 2, 3] },
    listedNode "Zoo" 2 (.single .exported), listedNode "Hidden" 3 .empty,
    listedNode "Ant" 4 (.single .exported)]
  modules := [0]
  index := [(.int 1, 0), (.int 2, 1), (.int 3, 2), (.int 4, 3)]

/-- The plan of its pages. -/
def listedPlan : PagePlan :=
  ⟨[(0, "a.html"), (1, "a--Zoo.html"), (2, "a--Hidden.html"), (3, "a--Ant.html")], [0, 1, 2, 3], false⟩

theorem listedDocument_loads : Graph.ofValue listedDocument = .ok listedGraph := by
  cbv

theorem listedGraph_planned : (planPages listedGraph {}).1 = .ok listedPlan := by
  have horder : planningOrder listedGraph {} = [(0, true), (1, true), (2, true), (3, true)] := by cbv
  rw [planPages, horder]
  rfl

theorem navigation_exact_listed : Graph.ofValue listedDocument = .ok listedGraph ∧
    (planPages listedGraph {}).1 = .ok listedPlan ∧
    ∃ sections, (∀ s, (Site.navigation ⟨listedGraph, listedPlan, {}⟩).run.run s = (.ok sections, s)) ∧
      sections.map (fun sec => sec.page.href) = ["a.html"] ∧
      (sections.flatMap NavSection.entries).map NavItem.href = ["a--Ant.html", "a--Zoo.html"] := by
  obtain ⟨sections, hrun, -⟩ := navigation_exact listedDocument_loads listedGraph_planned
  refine ⟨listedDocument_loads, listedGraph_planned, sections, hrun, ?_⟩
  have hfresh : ((Site.navigation ⟨listedGraph, listedPlan, {}⟩).run.run {}).1 = .ok
      [⟨⟨"a.ts", "a.html", none, false⟩, [⟨"Ant", "a--Ant.html", some "C", false⟩,
        ⟨"Zoo", "a--Zoo.html", some "C", false⟩]⟩] := by cbv
  rw [hrun] at hfresh
  obtain rfl := Except.ok.inj hfresh
  exact ⟨rfl, rfl⟩

end SymbolDocs
