import Mathlib
import SymbolDocs.Packages.Bundled
import SymbolDocs.Page.Body
import SymbolDocs.Proofs.Grouping
import SymbolDocs.Proofs.Lookup
import SymbolDocs.Proofs.Planning

/-!
# Links of an index and the anchors they lead to

An entry of an index may lead to an anchor of the page it stands on. A member that is no mention of
another declaration has its own anchor there, at the front of its card. A re-export, a reference or
an import type leads to what it stands for, and that has an anchor on the page only if it is itself
shown on a card.

* `opensLink` and `opensAnchor` recognise the two;
* `Site.link_opens`: where the entry of a member leads;
* `Site.card_opens`: which anchor a card has;
* `index_links_anchored` is the result for the page of a node;
* `re_export_without_anchor`: a page on which a re-export leads to no anchor.
-/

namespace SymbolDocs

/-- Does an entry open with a link to the anchor of an id on the same page? -/
def opensLink (i : Int) (entry : String) : Bool :=
  Text.startsWith entry.toList ("<a href=\"#s" ++ Text.intText i ++ "\">").toList

/-- Does a card open with the anchor of an id? -/
def opensAnchor (i : Int) (card : String) : Bool :=
  Text.startsWith card.toList ("<a name=\"s" ++ Text.intText i ++ "\">").toList

/-! ## Texts -/

namespace Text

/-- An integer is written with digits and a sign. -/
theorem mem_intText {i : Int} {c : Char} (h : c ∈ (intText i).toList) : c.isDigit = true ∨ c = '-' := by
  cases i with
  | ofNat n => exact .inl (isDigit_of_mem_natText h)
  | negSucc n =>
    rw [intText, String.toList_append] at h
    rcases List.mem_append.mp h with h | h
    · exact .inr (by simpa using h)
    · exact .inl (isDigit_of_mem_natText h)

theorem not_mem_intText {c : Char} (hdigit : c.isDigit = false) (hsign : c ≠ '-') (i : Int) :
    c ∉ (intText i).toList := by
  intro h
  rcases mem_intText h with h | h
  · rw [hdigit] at h
    cases h
  · exact hsign h

theorem intText_injective : Function.Injective intText := by
  have hsign : ∀ m n, natText m ≠ "-" ++ natText n := by
    intro m n h
    have hmem : '-' ∈ (natText m).toList := by simp [h]
    exact absurd (isDigit_of_mem_natText hmem) (by decide)
  intro i j h
  cases i with
  | ofNat m =>
    cases j with
    | ofNat n => exact congrArg Int.ofNat (natText_injective h)
    | negSucc n => exact absurd h (hsign m (n + 1))
  | negSucc m =>
    cases j with
    | ofNat n => exact absurd h.symm (hsign n (m + 1))
    | negSucc n =>
      have hlist := congrArg String.toList h
      simp only [intText, String.toList_append, List.append_cancel_left_eq] at hlist
      have := natText_injective (String.toList_inj.mp hlist)
      simpa using this

/-- What stands before the first occurrence of a character is determined. -/
theorem eq_of_append_cons {c : Char} {a b x y : List Char} (ha : c ∉ a) (hb : c ∉ b)
    (h : a ++ c :: x = b ++ c :: y) : a = b := by
  induction a generalizing b with
  | nil =>
    cases b with
    | nil => rfl
    | cons d b =>
      simp only [List.nil_append, List.cons_append, List.cons.injEq] at h
      exact absurd (h.1 ▸ List.mem_cons_self) hb
  | cons d a ih =>
    cases b with
    | nil =>
      simp only [List.nil_append, List.cons_append, List.cons.injEq] at h
      exact absurd (h.1 ▸ List.mem_cons_self) ha
    | cons e b =>
      simp only [List.cons_append, List.cons.injEq] at h
      rw [h.1, ih (fun hm => ha (List.mem_cons_of_mem _ hm)) (fun hm => hb (List.mem_cons_of_mem _ hm)) h.2]

end Text

theorem Markup.escapeChars_eq_self {cs : List Char} (h : ∀ c ∈ cs, c ≠ '&' ∧ c ≠ '<' ∧ c ≠ '"') :
    Markup.escapeChars cs = cs := by
  induction cs with
  | nil => rfl
  | cons c cs ih =>
    obtain ⟨h₁, h₂, h₃⟩ := h c List.mem_cons_self
    have hrest := ih fun d hd => h d (List.mem_cons_of_mem _ hd)
    rw [escapeChars, List.flatMap_cons, ← escapeChars, hrest]
    simp [escapeChar, h₁, h₂, h₃]

/-! ## Entries -/

/-- The label of a node opens no link. -/
theorem opensLink_displayName (n : Node) (i : Int) : opensLink i (displayName n) = false := by
  rw [Bool.eq_false_iff]
  intro h
  obtain ⟨rest, hrest⟩ := Text.startsWith_iff.mp h
  rw [displayName] at hrest
  split at hrest
  · have hmem : '<' ∈ Markup.escapeChars n.name.toList := by
      rw [Markup.escape, String.toList_ofList] at hrest
      rw [hrest]
      simp
    exact Markup.not_mem_escapeChars _ hmem
  · split at hrest
    · simp at hrest
    · simp at hrest

/-- The address in a link that opens with an anchor of an id. -/
theorem address_of_opensLink {i : Int} {address label : String}
    (h : opensLink i ("<a href=\"" ++ Markup.escape address ++ "\">" ++ label ++ "</a>") = true) :
    Markup.escapeChars address.toList = "#s".toList ++ (Text.intText i).toList := by
  obtain ⟨rest, hrest⟩ := Text.startsWith_iff.mp h
  have hquote : '"' ∉ "#s".toList ++ (Text.intText i).toList := by
    intro hmem
    rcases List.mem_append.mp hmem with hmem | hmem
    · exact absurd hmem (by decide)
    · exact Text.not_mem_intText (by decide) (by decide) i hmem
  refine Text.eq_of_append_cons (Markup.quote_not_mem_escapeChars _) hquote ?_
    (x := '>' :: (label.toList ++ "</a>".toList)) (y := '>' :: rest)
  simpa [Markup.escape] using hrest

/-- The anchor of a node as an address. -/
theorem escapeChars_anchor (i : Int) :
    Markup.escapeChars ("#s" ++ Text.intText i).toList = ("#s" ++ Text.intText i).toList := by
  have hmark : ∀ c ∈ "#s".toList, c ≠ '&' ∧ c ≠ '<' ∧ c ≠ '"' := by simp
  refine Markup.escapeChars_eq_self fun c hc => ?_
  rw [String.toList_append] at hc
  rcases List.mem_append.mp hc with hc | hc
  · exact hmark c hc
  · refine ⟨?_, ?_, ?_⟩ <;> rintro rfl <;>
      exact Text.not_mem_intText (by decide) (by decide) i hc

/-- A page is no anchor. -/
theorem IsPageName.escapeChars_ne {name : String} (h : IsPageName name) (i : Int) :
    Markup.escapeChars name.toList ≠ "#s".toList ++ (Text.intText i).toList := by
  obtain ⟨stem, rfl⟩ := h
  intro heq
  have hmem : 'l' ∈ Markup.escapeChars (stem ++ ".html").toList := by
    rw [String.toList_append, Markup.escapeChars_append]
    exact List.mem_append_right _ (by decide)
  rw [heq] at hmem
  rcases List.mem_append.mp hmem with hmem | hmem
  · exact absurd hmem (by decide)
  · exact Text.not_mem_intText (by decide) (by decide) i hmem

namespace Site

variable {site : Site} {p owner : Place}

/-- A node that stands for nothing else is its own target. -/
theorem target_of_plain (hplain : (site.graph.node p).kind.isWrapper = false) {q : Place}
    {s s' : Session} (h : (site.target p).run.run s = (.ok q, s')) : q = p := by
  have htarget : site.graph.target p = (p, false) := by
    simp [Graph.target, Graph.follow, Graph.wrapped?, hplain]
  rw [Site.target, htarget] at h
  cases h
  rfl

/-- Seen from the page of its owner, a node is at its page or at its anchor. -/
theorem href_of_owned (hplain : (site.graph.node p).kind.isWrapper = false)
    (hparent : (site.graph.node p).parent = some owner) {address : String} {s s' : Session}
    (h : (site.href p (some owner)).run.run s = (.ok address, s')) :
    (site.graph.node p).hasOwnPage = true ∧ site.plan.pageOf site.graph p = .ok address ∨
      (site.graph.node p).hasOwnPage = false ∧ address = anchor (site.graph.node p) := by
  rw [href, hrefFrom] at h
  obtain ⟨q, s₁, htarget, hrun⟩ := Work.bind_ok h
  obtain rfl := target_of_plain hplain htarget
  dsimp only at hrun
  split at hrun
  · rename_i hpage
    exact .inl ⟨hpage, (Work.ofExcept_ok hrun).1⟩
  · rename_i hpage
    simp only [hparent, bne_self_eq_false, Bool.false_eq_true, if_false] at hrun
    cases hrun
    exact .inr ⟨by simpa using hpage, by simp⟩

/-- The entry of a member that stands for nothing else leads to an anchor of the page only as its own,
and only when it has no page. -/
theorem link_opens (site : Site) (hids : site.graph.IntIds) (hpages : site.plan.NamesPages)
    (hplain : (site.graph.node p).kind.isWrapper = false)
    (hparent : (site.graph.node p).parent = some owner) {entry : String}
    (hgives : (site.link p none (some owner)).Gives entry) {i : Int} (hopens : opensLink i entry = true) :
    (site.graph.node p).onCard = true ∧ (site.graph.node p).id = some (.int i) := by
  obtain ⟨s, s', h⟩ := hgives
  obtain ⟨hreference, hexport, himport⟩ : (site.graph.node p).kind ≠ .reference ∧
      (site.graph.node p).kind ≠ .reExport ∧ (site.graph.node p).kind ≠ .importType := by
    simpa [Kind.isWrapper, and_assoc] using hplain
  have hself : site.linkTarget p = p := by simp [linkTarget, hreference, himport]
  rw [link, hself] at h
  split at h
  · cases h
    rw [opensLink_displayName] at hopens
    cases hopens
  · rename_i hid
    obtain ⟨address, s₁, haddress, hrun⟩ := Work.bind_ok h
    split at hrun
    · cases hrun
      obtain ⟨rest, hrest⟩ := Text.startsWith_iff.mp hopens
      simp at hrest
    · cases hrun
      have hanchor := address_of_opensLink hopens
      rcases href_of_owned hplain hparent haddress with ⟨-, hpage⟩ | ⟨hpage, rfl⟩
      · exact absurd hanchor ((PagePlan.isPageName_of_pageOf hpages hpage).escapeChars_ne i)
      · refine ⟨by simp [Node.onCard, hpage, hexport], ?_⟩
        obtain ⟨id, hid⟩ := Option.ne_none_iff_exists'.mp (by simpa using hid)
        obtain ⟨j, rfl⟩ := hids p id hid
        rw [anchor, hid] at hanchor
        change Markup.escapeChars ("#s" ++ Text.intText j).toList = _ at hanchor
        rw [escapeChars_anchor, String.toList_append, List.append_cancel_left_eq] at hanchor
        rw [hid, Text.intText_injective (String.toList_inj.mp hanchor)]

/-! ## Cards -/

variable [Packages]

/-- A card opens with the anchor of its node, if that has an id. -/
theorem card_opens (hids : site.graph.IntIds) {card : String} (hgives : (site.card p).Gives card)
    (i : Int) : opensAnchor i card = true ↔ (site.graph.node p).id = some (.int i) := by
  obtain ⟨s, s', h⟩ := hgives
  rw [Site.card] at h
  obtain ⟨heading, s₁, -, hrun⟩ := Work.bind_ok h
  obtain ⟨docs, s₂, -, hrun⟩ := Work.bind_ok hrun
  obtain ⟨parameters, s₃, -, hrun⟩ := Work.bind_ok hrun
  obtain ⟨source, s₄, -, hrun⟩ := Work.bind_ok hrun
  cases hrun
  rw [opensAnchor, Text.startsWith_iff]
  cases hid : (site.graph.node p).id with
  | none =>
    refine iff_of_false ?_ (by simp)
    rintro ⟨rest, hrest⟩
    simp [Text.joinWith] at hrest
  | some id =>
    obtain ⟨j, rfl⟩ := hids p id hid
    obtain ⟨tail, htail⟩ : ∃ tail, (Text.joinWith "\n" (["<a name=\"s" ++ (Scalar.int j).plain ++
        "\"></a>"] ++ ["<div class=\"member\">", "<h4>" ++ heading ++ "</h4>"] ++ docs ++ parameters ++
        source ++ ["</div>"])).toList =
        "<a name=\"s".toList ++ ((Text.intText j).toList ++ '"' :: '>' :: tail) :=
      ⟨_, by simp [Text.joinWith, Scalar.plain]; rfl⟩
    rw [htail]
    have hquote : ∀ k, '"' ∉ (Text.intText k).toList :=
      Text.not_mem_intText (by decide) (by decide)
    constructor
    · rintro ⟨rest, hrest⟩
      have hsame : (Text.intText j).toList = (Text.intText i).toList :=
        Text.eq_of_append_cons (hquote j) (hquote i) (x := '>' :: tail) (y := '>' :: rest)
          (by simpa using hrest)
      rw [Text.intText_injective (String.toList_inj.mp hsame)]
    · intro heq
      cases heq
      exact ⟨tail, by simp⟩

/-- Ids are distinct, so among the cards of different nodes one at most has the anchor of an id. -/
theorem countP_opensAnchor (site : Site) (hs : site.graph.Sound) (hids : site.graph.IntIds)
    {carded : List Place} {cards : List String}
    (hcards : List.Forall₂ (fun c card => (site.card c).Gives card) carded cards)
    (hnodup : carded.Nodup) (i : Int) :
    (∃ c ∈ carded, (site.graph.node c).id = some (.int i)) ∧ cards.countP (opensAnchor i) = 1 ∨
      (∀ c ∈ carded, (site.graph.node c).id ≠ some (.int i)) ∧ cards.countP (opensAnchor i) = 0 := by
  induction hcards with
  | nil => exact .inr ⟨by simp, rfl⟩
  | @cons c card carded cards hcard _ ih =>
    obtain ⟨hnew, hnodup⟩ := List.nodup_cons.mp hnodup
    have hopens := card_opens hids hcard i
    by_cases hid : (site.graph.node c).id = some (.int i)
    · refine .inl ⟨⟨c, List.mem_cons_self, hid⟩, ?_⟩
      rw [List.countP_cons_of_pos (hopens.mpr hid)]
      rcases ih hnodup with ⟨⟨c', hc', hid'⟩, -⟩ | ⟨-, hnone⟩
      · have heq : c = c' := hs.eq_of_same hid hid' (Scalar.same_refl _)
        exact absurd (heq ▸ hc') hnew
      · rw [hnone]
    · rw [List.countP_cons_of_neg (fun h => hid (hopens.mp h))]
      rcases ih hnodup with ⟨⟨c', hc', hid'⟩, hone⟩ | ⟨hall, hnone⟩
      · exact .inl ⟨⟨c', List.mem_cons_of_mem _ hc', hid'⟩, hone⟩
      · exact .inr ⟨List.forall_mem_cons.mpr ⟨hid, hall⟩, hnone⟩

end Site

/-! ## The page of a node -/

/-- **Anchors**: on the page of an emitted node, an entry of an index that leads to the anchor of an id
on the same page is matched by exactly one card that opens with it; only the entry of a re-export, a
reference or an import type may lead to the anchor of a node that is on no card, and is then matched by
none. -/
theorem index_links_anchored [Packages] {doc : Value} {g : Graph} (hload : Graph.ofValue doc = .ok g)
    (hids : g.IntIds) {o : Options} {plan : PagePlan} (hplan : (planPages g o).1 = .ok plan)
    {owner : Place} (howner : owner ∈ plan.emitted) {groups : List Group} {s s' : Session}
    (hrun : ((Site.mk g plan o).memberPrinter.groups g owner).run.run s = (.ok groups, s'))
    {entry : String} (hentry : entry ∈ groups.flatMap Group.index) {i : Int}
    (hopens : opensLink i entry = true) :
    (groups.flatMap Group.body).countP (opensAnchor i) = 1 ∨
      (groups.flatMap Group.body).countP (opensAnchor i) = 0 ∧
        (∀ c ∈ g.carded owner, (g.node c).id ≠ some (.int i)) ∧
        ∃ m ∈ g.listed owner, (g.node m.2).kind.isWrapper = true ∧
          ((Site.mk g plan o).link m.2 none (some m.1)).Gives entry := by
  have hs := Graph.sound_of_load hload
  have hr := Graph.forest_of_load hload
  obtain ⟨-, module, hmodule, hunder⟩ := ((planPages_correct hload hplan).emits owner).mp howner
  have hshows := MemberPrinter.groups_shows hrun
  obtain ⟨cards, hcards, hperm⟩ := hshows.body
  rw [hperm.countP_eq]
  rcases Site.countP_opensAnchor ⟨g, plan, o⟩ hs hids hcards (hr.nested.nodup_carded hs owner) i
    with ⟨-, hone⟩ | ⟨hall, hnone⟩
  · exact .inl hone
  · refine .inr ⟨hnone, hall, ?_⟩
    obtain ⟨⟨p, c⟩, hlisted, hgives⟩ := hshows.index entry hentry
    refine ⟨(p, c), hlisted, ?_, hgives⟩
    -- any other member would have its own card
    by_contra hplain
    obtain ⟨hcard, hid⟩ := Site.link_opens ⟨g, plan, o⟩ hids (planPages_namesPages hplan)
      (by simpa using hplain) (hr.parent_of_listed (List.mem_of_mem_filter hmodule) hunder hlisted)
      hgives hopens
    exact hall c (Graph.mem_carded_of_listed hlisted hcard) hid

/-- A module with the variable `x` and a re-export of it as `y`. -/
def handedOnDocument (flags : Int) : Value :=
  .record [("modules", .list [.record [("kind", .int 1), ("id", .int 1), ("name", .text "a.ts"),
    ("children", .list [
      .record [("kind", .int 15), ("id", .int 2), ("name", .text "x"), ("flags", .int flags)],
      .record [("kind", .int 42), ("id", .int 3), ("name", .text "y"), ("flags", .int 1),
        ("type", .int 2)]])]])]

/-- The site of the document, with the modifiers of the variable. -/
def handedOnSite (flags : Nat) : Site where
  graph :=
    { nodes := #[
        { Node.bare .moduleFile with id := some (.int 1), name := "a.ts", children := some [1, 2] },
        { Node.bare .variable with
          id := some (.int 2), name := "x", flags := ⟨flags⟩, parent := some 0 },
        { Node.bare .reExport with
          id := some (.int 3), name := "y", flags := ⟨1⟩, type := some 1, parent := some 0 }]
      modules := [0]
      index := [(.int 1, 0), (.int 2, 1), (.int 3, 2)] }
  plan := ⟨[(0, "a.html")], [0], false⟩
  options := {}

theorem handedOnSite_intIds (flags : Nat) : (handedOnSite flags).graph.IntIds := by
  intro p id h
  match p with
  | 0 | 1 | 2 =>
    cases h
    exact ⟨_, rfl⟩
  | p + 3 =>
    rw [Graph.node_of_size_le (by simp [handedOnSite, Graph.size])] at h
    cases h

/-- The variable is exported too: it is on a card, to which both entries lead. -/
def sharedGroups : List Group :=
  [{ kind := .reExport, index := ["<a href=\"#s2\">y</a>"], names := ["y"] },
    { kind := .variable, index := ["<a href=\"#s2\">x</a>"], names := ["x"],
      body := ["<a name=\"s2\"></a>\n<div class=\"member\">\n" ++
        "<h4><span class=\"signature\">x</span></h4>\n</div>"] }]

/-- The variable is not exported: only the re-export is shown. -/
def hiddenGroups : List Group :=
  [{ kind := .reExport, index := ["<a href=\"#s2\">y</a>"], names := ["y"] }]

theorem sharedDocument_loads : Graph.ofValue (handedOnDocument 1) = .ok (handedOnSite 1).graph := by
  cbv

theorem sharedSite_planned : (planPages (handedOnSite 1).graph {}).1 = .ok (handedOnSite 1).plan := by
  have horder : planningOrder (handedOnSite 1).graph {} = [(0, true), (1, true), (2, true)] := by cbv
  rw [planPages, horder]
  rfl

theorem sharedSite_groups :
    ((handedOnSite 1).memberPrinter.groups (handedOnSite 1).graph 0).run.run {} =
      (.ok sharedGroups, {}) := by
  have hshown : (handedOnSite 1).graph.shownMembers 0 = [(0, 1), (0, 2)] := by cbv
  have hadd : ((handedOnSite 1).memberPrinter.addMembers (handedOnSite 1).graph false []
      [(0, 1), (0, 2)]).run.run {} = (.ok sharedGroups.reverse, {}) := rfl
  have horder : ¬"Variables" ≤ "Exports" := by decide
  have hsort : Group.sortByTitle sharedGroups.reverse = sharedGroups := by
    simp [Group.sortByTitle, sharedGroups, Group.title, Kind.groupTitle, horder, List.mergeSort,
      List.MergeSort.Internal.splitInTwo]
  rw [MemberPrinter.groups, if_neg (by decide), if_neg (by decide), hshown, Work.run_bind_ok hadd,
    if_pos rfl, hsort]
  rfl

theorem index_links_anchored_shared :
    Graph.ofValue (handedOnDocument 1) = .ok (handedOnSite 1).graph ∧
      (planPages (handedOnSite 1).graph {}).1 = .ok (handedOnSite 1).plan ∧
      ((handedOnSite 1).memberPrinter.groups (handedOnSite 1).graph 0).run.run {} =
        (.ok sharedGroups, {}) ∧
      (sharedGroups.flatMap Group.body).countP (opensAnchor 2) = 1 := by
  refine ⟨sharedDocument_loads, sharedSite_planned, sharedSite_groups, ?_⟩
  have hentry : "<a href=\"#s2\">y</a>" ∈ sharedGroups.flatMap Group.index := List.mem_cons_self
  rcases index_links_anchored sharedDocument_loads (handedOnSite_intIds 1) sharedSite_planned
    List.mem_cons_self sharedSite_groups hentry (i := 2) (by decide) with hone | ⟨-, hnone, -⟩
  · exact hone
  · have hcarded : (handedOnSite 1).graph.carded 0 = [1] := by cbv
    exact absurd rfl (hnone 1 (hcarded ▸ List.mem_cons_self))

/-- A re-export of a declaration that is not shown leads to an anchor that the page does not have. -/
theorem re_export_without_anchor :
    Graph.ofValue (handedOnDocument 0) = .ok (handedOnSite 0).graph ∧
      (handedOnSite 0).graph.IntIds ∧
      (planPages (handedOnSite 0).graph {}).1 = .ok (handedOnSite 0).plan ∧
      0 ∈ (handedOnSite 0).plan.emitted ∧
      ((handedOnSite 0).memberPrinter.groups (handedOnSite 0).graph 0).run.run {} =
        (.ok hiddenGroups, {}) ∧
      "<a href=\"#s2\">y</a>" ∈ hiddenGroups.flatMap Group.index ∧
      opensLink 2 "<a href=\"#s2\">y</a>" = true ∧
      (hiddenGroups.flatMap Group.body).countP (opensAnchor 2) ≠ 1 := by
  have horder : planningOrder (handedOnSite 0).graph {} = [(0, true), (1, true), (2, true)] := by cbv
  refine ⟨by cbv, handedOnSite_intIds 0, ?_, List.mem_cons_self, by cbv, List.mem_cons_self, by decide,
    by decide⟩
  rw [planPages, horder]
  rfl

end SymbolDocs
