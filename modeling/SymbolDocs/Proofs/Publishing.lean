import Mathlib
import SymbolDocs.Packages.Bundled
import SymbolDocs.Proofs.Planning
import SymbolDocs.Publish

/-!
# When the files of a site have names of their own

The plan keeps the pages of a graph apart, and the fixed names of the other files are no names of
pages. Documents written by hand are named on their own, so two of them may get one name, and so may a
document and a page of the graph; then the later file is written over the earlier one. A site of routes
has a few fixed files and no such clash.

* `Site.renderFiles_names`: which names the files of a site have;
* `published_names_distinct_iff`: when they are all different;
* `landing_document_clashes`: a site on which two files have one name.
-/

namespace SymbolDocs

/-- All documents written by hand, in the order of their sections. -/
def Options.documents (o : Options) : List ExtraDocument :=
  o.extra.flatMap ExtraSection.items

/-! ## Names of the drafts -/

/-- An answer that is made from another one. -/
theorem answer_of_bind {α β : Type} {x : Except Fault α} {f : α → Except Fault β} {b : β}
    (h : x >>= f = .ok b) : ∃ a, x = .ok a ∧ f a = .ok b := by
  cases x with
  | error e => cases h
  | ok a => exact ⟨a, rfl, h⟩

/-- What agrees for each answer agrees for the answers in turn. -/
theorem map_eq_of_mapM_ok {α β γ : Type} {f : α → Except Fault β} {P : α → γ} {Q : β → γ}
    (hf : ∀ {x y}, f x = .ok y → P x = Q y) {xs : List α} {ys : List β} (h : xs.mapM f = .ok ys) :
    xs.map P = ys.map Q := by
  induction xs generalizing ys with
  | nil =>
    cases h
    rfl
  | cons x xs ih =>
    rw [List.mapM_cons] at h
    obtain ⟨y, hy, h⟩ := answer_of_bind h
    obtain ⟨rest, hrest, h⟩ := answer_of_bind h
    cases h
    rw [List.map_cons, List.map_cons, hf hy, ih hrest]

/-- The name of a draft as an answer, to compare with the names that were asked for. -/
def PageDraft.named (d : PageDraft) : Except Fault String :=
  .ok d.name

theorem ExtraDocument.pageName_of_draft [Packages] {doc : ExtraDocument} {o : Options} {fs : Files}
    {d : PageDraft} (h : doc.draft o fs = .ok d) : doc.pageName = d.named := by
  rw [draft] at h
  obtain ⟨name, hname, h⟩ := answer_of_bind h
  obtain ⟨path, -, h⟩ := answer_of_bind h
  obtain ⟨text, -, h⟩ := answer_of_bind h
  obtain ⟨body, -, h⟩ := answer_of_bind h
  cases h
  exact hname

theorem ExtraSection.pageNames_of_drafts [Packages] {sec : ExtraSection} {o : Options} {fs : Files}
    {e : ExtraLinks × List PageDraft} (h : sec.drafts o fs = .ok e) :
    sec.items.map ExtraDocument.pageName = e.2.map PageDraft.named := by
  rw [ExtraSection.drafts] at h
  obtain ⟨drafts, hdrafts, h⟩ := answer_of_bind h
  cases h
  exact map_eq_of_mapM_ok ExtraDocument.pageName_of_draft hdrafts

theorem Options.pageNames_of_drafts [Packages] {o : Options} {fs : Files}
    {extra : List (ExtraLinks × List PageDraft)} (h : (o.extra.mapM fun s => s.drafts o fs) = .ok extra) :
    o.documents.map ExtraDocument.pageName = (extra.flatMap Prod.snd).map PageDraft.named := by
  have hsections := congrArg List.flatten (map_eq_of_mapM_ok ExtraSection.pageNames_of_drafts h)
  rw [documents, List.map_flatMap, List.map_flatMap]
  exact hsections

theorem Site.pagesOf_names [Packages] {site : Site} (ps : List Place) {drafts : List PageDraft}
    {s s' : Session} (h : (site.pagesOf ps).run.run s = (.ok drafts, s')) :
    ps.map (site.plan.pageOf site.graph) = drafts.map PageDraft.named := by
  induction ps generalizing drafts s with
  | nil =>
    cases h
    rfl
  | cons p rest ih =>
    rw [Site.pagesOf] at h
    obtain ⟨name, s₁, hname, h⟩ := Work.bind_ok h
    obtain ⟨hname, -⟩ := Work.ofExcept_ok hname
    obtain ⟨body, s₂, -, h⟩ := Work.bind_ok h
    obtain ⟨others, s₃, hothers, h⟩ := Work.bind_ok h
    cases h
    rw [List.map_cons, List.map_cons, ih hothers, hname, PageDraft.named]

/-! ## Names of the files -/

/-- The names that pages and documents ask for, pages first. -/
def Site.draftNames (site : Site) : List (Except Fault String) :=
  site.plan.emitted.map (site.plan.pageOf site.graph) ++
    site.options.documents.map ExtraDocument.pageName

/-- The files of a site: the drafts under the names they ask for with a landing page, or a few files of
fixed names. -/
theorem Site.renderFiles_names [Packages] {site : Site} {fs : Files} {files : List OutputFile}
    {s s' : Session} (h : (site.renderFiles fs).run.run s = (.ok files, s')) :
    ∃ drafts : List PageDraft, site.draftNames = drafts.map PageDraft.named ∧
      (site.options.spa = false →
        files.map OutputFile.name = (withIndex drafts).map PageDraft.name ++ [stylesheetFile]) ∧
      (site.options.spa = true → files.map OutputFile.name = [indexPage, stylesheetFile] ∨
        files.map OutputFile.name = [indexPage, stylesheetFile, sitemapFile]) := by
  rw [renderFiles] at h
  obtain ⟨own, s₁, hown, h⟩ := Work.bind_ok h
  obtain ⟨extra, s₂, hextra, h⟩ := Work.bind_ok h
  obtain ⟨hextra, -⟩ := Work.ofExcept_ok hextra
  obtain ⟨head, s₃, -, h⟩ := Work.bind_ok h
  obtain ⟨navigation, s₄, -, h⟩ := Work.bind_ok h
  refine ⟨own ++ extra.flatMap Prod.snd, ?_, fun hspa => ?_, fun hspa => ?_⟩
  · rw [draftNames, List.map_append, Site.pagesOf_names _ hown, Options.pageNames_of_drafts hextra]
  · dsimp only at h
    rw [if_neg (by simp [hspa])] at h
    split at h
    · obtain ⟨_, s₅, -, h⟩ := Work.bind_ok h
      cases h
      simp [Function.comp_def]
    · cases h
      simp [Function.comp_def]
  · dsimp only at h
    rw [if_pos hspa] at h
    obtain ⟨listing, s₅, hlisting, h⟩ := Work.bind_ok h
    obtain ⟨hlisting, -⟩ := Work.ofExcept_ok hlisting
    cases h
    rw [sitemapFiles] at hlisting
    split at hlisting
    · split at hlisting
      · cases hlisting
        exact .inr rfl
      · cases hlisting
    · cases hlisting
      exact .inl rfl

/-- A run in a session of its own. -/
theorem Work.run_of_runFresh {α : Type} {w : Work α} {a : α} (h : w.runFresh.1 = .ok a) :
    ∃ s', w.run.run {} = (.ok a, s') :=
  ⟨_, Prod.ext h rfl⟩

theorem Site.summaryFiles_names {site : Site} {files : List OutputFile} {s s' : Session}
    (h : site.summaryFiles.run.run s = (.ok files, s')) : files.map OutputFile.name = [summaryFile] := by
  rw [summaryFiles] at h
  obtain ⟨doc, s₁, -, h⟩ := Work.bind_ok h
  cases h
  rfl

/-- Publishing puts the summary before the files of the site; each of the two may be left out. -/
theorem publish_names [Packages] {g : Graph} {o : Options} {fs : Files} {plan : PagePlan}
    {files : List OutputFile} (hplan : (planPages g o).1 = .ok plan)
    (h : (publish g o fs).1 = .ok files) :
    ∃ summary pages : List OutputFile, files = summary ++ pages ∧
      (summary = [] ∨ summary.map OutputFile.name = [summaryFile]) ∧
      (o.noHtml = true → pages = []) ∧
      (o.noHtml = false → ∃ s', (Site.renderFiles ⟨g, plan, o⟩ fs).run.run {} = (.ok pages, s')) := by
  rcases hrun : planPages g o with ⟨result, planned⟩
  rw [hrun] at hplan
  cases hplan
  simp only [publish, hrun] at h
  rcases hsummary : (if o.summary = true then (Site.summaryFiles ⟨g, plan, o⟩).runFresh
    else (.ok [], [])) with ⟨_ | summary, given⟩
  · rw [hsummary] at h
    cases h
  · rw [hsummary] at h
    rcases hpages : (if o.noHtml = true then (.ok [], [])
      else (Site.renderFiles ⟨g, plan, o⟩ fs).runFresh) with ⟨_ | pages, later⟩
    · rw [hpages] at h
      cases h
    · rw [hpages] at h
      cases h
      refine ⟨summary, pages, rfl, ?_, fun hno => ?_, fun hno => ?_⟩
      · split at hsummary
        · obtain ⟨s', hs'⟩ := Work.run_of_runFresh (congrArg Prod.fst hsummary)
          exact .inr (Site.summaryFiles_names hs')
        · cases hsummary
          exact .inl rfl
      · rw [if_pos hno] at hpages
        cases hpages
        rfl
      · rw [if_neg (by simp [hno])] at hpages
        exact Work.run_of_runFresh (congrArg Prod.fst hpages)

/-! ## When they differ -/

theorem ExtraDocument.isPageName_of_pageName {doc : ExtraDocument} {name : String}
    (h : doc.pageName = .ok name) : IsPageName name := by
  rw [pageName] at h
  split at h
  · rw [← Except.ok.inj h]
    exact ⟨"index", by decide⟩
  · split at h
    · rw [← Except.ok.inj h]
      exact isPageName_completed _
    · cases h

theorem not_isPageName {name : String} (h : name.toList.getLast? ≠ some 'l') : ¬IsPageName name := by
  rintro ⟨stem, rfl⟩
  rw [String.toList_append] at h
  exact h (List.getLast?_append_of_ne_nil _ (by decide))

/-- Every draft has the name of a page. -/
theorem Site.isPageName_of_draftNames {site : Site} (hplan : site.plan.NamesPages)
    {drafts : List PageDraft} (h : site.draftNames = drafts.map PageDraft.named) :
    ∀ name ∈ drafts.map PageDraft.name, IsPageName name := by
  intro name hname
  obtain ⟨d, hd, rfl⟩ := List.mem_map.mp hname
  have hmem : d.named ∈ site.draftNames := h ▸ List.mem_map_of_mem hd
  rcases List.mem_append.mp hmem with hmem | hmem
  · obtain ⟨p, -, hp⟩ := List.mem_map.mp hmem
    exact PagePlan.isPageName_of_pageOf hplan hp
  · obtain ⟨doc, -, hdoc⟩ := List.mem_map.mp hmem
    exact ExtraDocument.isPageName_of_pageName hdoc

theorem Site.isPageName_withIndex {site : Site} (hplan : site.plan.NamesPages)
    {drafts : List PageDraft} (h : site.draftNames = drafts.map PageDraft.named) :
    ∀ name ∈ (withIndex drafts).map PageDraft.name, IsPageName name := by
  intro name hname
  rw [withIndex] at hname
  split at hname
  · exact Site.isPageName_of_draftNames hplan h name hname
  · rw [List.map_append] at hname
    rcases List.mem_append.mp hname with hname | hname
    · exact Site.isPageName_of_draftNames hplan h name hname
    · rw [List.mem_singleton.mp hname]
      exact ⟨"index", by decide⟩

/-- A landing page is added only where there is none. -/
theorem Site.names_withIndex (drafts : List PageDraft) :
    ((withIndex drafts).map PageDraft.name).Nodup ↔ (drafts.map PageDraft.name).Nodup := by
  rw [withIndex]
  split
  · rfl
  · rename_i hnone
    have hnew : indexPage ∉ drafts.map PageDraft.name := by
      intro hmem
      obtain ⟨d, hd, hname⟩ := List.mem_map.mp hmem
      exact hnone (List.any_eq_true.mpr ⟨d, hd, by simp [hname]⟩)
    rw [List.map_append, List.map_cons, List.map_nil, ← List.concat_eq_append, List.nodup_concat]
    exact and_iff_right hnew

theorem nodup_named (drafts : List PageDraft) :
    (drafts.map PageDraft.name).Nodup ↔ (drafts.map PageDraft.named).Nodup := by
  have hmap : drafts.map PageDraft.named =
      (drafts.map PageDraft.name).map (Except.ok : String → Except Fault String) := by
    rw [List.map_map]
    rfl
  rw [hmap, List.nodup_map_iff fun _ _ => Except.ok.inj]

/-- Planned pages have names of their own. -/
theorem PagePlan.Correct.nodup_pageOf {plan : PagePlan} {g : Graph} {o : Options}
    (h : plan.Correct g o) : (plan.emitted.map (plan.pageOf g)).Nodup := by
  have hnamed : ∀ p ∈ plan.emitted, ∃ name, plan.name? p = some name := by
    intro p hp
    obtain ⟨hown, m, hm, hunder⟩ := (h.emits p).mp hp
    exact (h.named p).mpr ⟨hown, m, List.mem_of_mem_filter hm, hunder⟩
  refine List.Nodup.map_on (fun p hp q hq heq => ?_) (h.sorted.imp Nat.ne_of_lt)
  obtain ⟨name, hname⟩ := hnamed p hp
  obtain ⟨other, hother⟩ := hnamed q hq
  rw [pageOf, pageOf, hname, hother] at heq
  cases heq
  exact h.distinct p q name hname hother

/-- The names that pages and documents ask for differ when those of documents do. -/
theorem Site.nodup_draftNames {site : Site} (h : site.plan.Correct site.graph site.options) :
    site.draftNames.Nodup ↔ (site.options.documents.map ExtraDocument.pageName).Nodup ∧
      ∀ d ∈ site.options.documents, ∀ p ∈ site.plan.emitted,
        d.pageName ≠ site.plan.pageOf site.graph p := by
  rw [draftNames, List.nodup_append, and_iff_right h.nodup_pageOf]
  refine and_congr_right fun _ => ⟨fun hne d hd p hp heq => ?_, fun hne a ha b hb heq => ?_⟩
  · exact hne _ (List.mem_map_of_mem hp) _ (List.mem_map_of_mem hd) heq.symm
  · obtain ⟨p, hp, rfl⟩ := List.mem_map.mp ha
    obtain ⟨d, hd, rfl⟩ := List.mem_map.mp hb
    exact hne d hd p hp heq.symm

/-- The files of a site differ when the drafts do; the summary and the style sheet have names that no
page can have. -/
theorem Site.nodup_renderFiles [Packages] {site : Site} (hplan : site.plan.NamesPages) {fs : Files}
    {files : List OutputFile} {s s' : Session}
    (h : (site.renderFiles fs).run.run s = (.ok files, s')) :
    summaryFile ∉ files.map OutputFile.name ∧
      ((files.map OutputFile.name).Nodup ↔ site.options.spa = true ∨ site.draftNames.Nodup) := by
  obtain ⟨drafts, hdrafts, hpages, hroutes⟩ := Site.renderFiles_names h
  cases hspa : site.options.spa with
  | true =>
    rcases hroutes hspa with hnames | hnames
    · rw [hnames]
      exact ⟨by decide, iff_of_true (by decide) (.inl rfl)⟩
    · rw [hnames]
      exact ⟨by decide, iff_of_true (by decide) (.inl rfl)⟩
  | false =>
    have hpage := Site.isPageName_withIndex hplan hdrafts
    have hsummary : ¬IsPageName summaryFile := not_isPageName (by decide)
    have hstyle : ¬IsPageName stylesheetFile := not_isPageName (by decide)
    rw [hpages hspa]
    constructor
    · intro hmem
      rcases List.mem_append.mp hmem with hmem | hmem
      · exact hsummary (hpage _ hmem)
      · exact absurd hmem (by decide)
    · rw [← List.concat_eq_append, List.nodup_concat,
        and_iff_right fun hmem => hstyle (hpage _ hmem), names_withIndex, nodup_named, ← hdrafts]
      simp

/-- **Names of published files**: they are all different when no pages are written or the site is one of
routes, and otherwise exactly when documents written by hand get names different from each other and
from those of the emitted pages. -/
theorem published_names_distinct_iff [Packages] {doc : Value} {g : Graph}
    (hload : Graph.ofValue doc = .ok g) {o : Options} {fs : Files} {plan : PagePlan}
    (hplan : (planPages g o).1 = .ok plan) {files : List OutputFile} (hpublish : (publish g o fs).1 = .ok files) :
    (files.map OutputFile.name).Nodup ↔ o.noHtml = true ∨ o.spa = true ∨
      (o.documents.map ExtraDocument.pageName).Nodup ∧
        ∀ d ∈ o.documents, ∀ p ∈ plan.emitted, d.pageName ≠ plan.pageOf g p := by
  obtain ⟨summary, pages, rfl, hsummary, hnone, hrender⟩ := publish_names hplan hpublish
  cases hno : o.noHtml with
  | true =>
    rw [hnone hno, List.append_nil]
    rcases hsummary with rfl | hsummary
    · simp
    · simp [hsummary]
  | false =>
    obtain ⟨s', hrun⟩ := hrender hno
    obtain ⟨hnew, hiff⟩ := Site.nodup_renderFiles (planPages_namesPages hplan) hrun
    have hpages : ((summary ++ pages).map OutputFile.name).Nodup ↔ (pages.map OutputFile.name).Nodup := by
      rcases hsummary with rfl | hsummary
      · rfl
      · rw [List.map_append, hsummary, List.singleton_append, List.nodup_cons, and_iff_right hnew]
    rw [hpages, hiff, Site.nodup_draftNames (planPages_correct hload hplan)]
    simp

/-! ## Publishing a site of bare declarations -/

/-- The body of a page that has a title and nothing else. -/
theorem Site.pageBody_of_parts [Packages] {site : Site} {p : Place} {s : Session}
    (htitle : ∃ title, (site.title p).run.run s = (.ok title, s))
    (hextensions : (site.extensions p).run.run s = (.ok [], s))
    (hdocs : (site.docParts (site.graph.node p)).run.run s = (.ok [], s))
    (hsource : (Work.ofExcept (site.sourceParts (site.graph.node p))).run.run s = (.ok [], s))
    (hgroups : (site.memberPrinter.groups site.graph p).run.run s = (.ok [], s))
    (hinherited : (site.inheritedParts p).run.run s = (.ok [], s)) :
    ∃ body, (site.pageBody p).run.run s = (.ok body, s) := by
  obtain ⟨title, htitle⟩ := htitle
  rw [Site.pageBody, Work.run_bind_ok htitle, Work.run_bind_ok hextensions, Work.run_bind_ok hdocs,
    Work.run_bind_ok hsource, Work.run_bind_ok hgroups, Work.run_bind_ok hinherited]
  exact ⟨_, rfl⟩

/-- A document whose name, path, text and markup are found. -/
theorem ExtraDocument.draft_of_parts [Packages] {doc : ExtraDocument} {o : Options} {fs : Files}
    {name text body : String} {path : Path} (hname : doc.pageName = .ok name)
    (hpath : pathOfValue doc.file = .ok path) (htext : fs.readPart path = .ok text)
    (hbody : o.renderMarkdown text false true = .ok body) :
    doc.draft o fs = .ok ⟨name, body, doc.title⟩ := by
  simp only [draft, hname, hpath, htext, hbody, bind, Except.bind]
  rfl

/-- Without a summary the files of the site are all that is published. -/
theorem publish_of_renderFiles [Packages] {g : Graph} {o : Options} {fs : Files} {plan : PagePlan}
    (hplan : (planPages g o).1 = .ok plan) (hsummary : o.summary = false) (hhtml : o.noHtml = false)
    {files : List OutputFile} {s' : Session}
    (h : (Site.renderFiles ⟨g, plan, o⟩ fs).run.run {} = (.ok files, s')) :
    (publish g o fs).1 = .ok files := by
  rcases hrun : planPages g o with ⟨result, planned⟩
  obtain rfl : result = .ok plan := by rw [← hplan, hrun]
  simp only [publish, hrun, hsummary, hhtml, Bool.false_eq_true, if_false, Work.runFresh, h]
  rfl

/-! ## A clash -/

/-- The module `index.ts`. -/
def landingDocument : Value :=
  .record [("modules", .list [.record [("kind", .int 1), ("id", .int 1),
    ("name", .text "index.ts"), ("children", .list [.record [("kind", .int 35)]])]])]

/-- The graph of the document. -/
def landingGraph : Graph where
  nodes := #[
    { Node.bare .moduleFile with id := some (.int 1), name := "index.ts", children := some [1] },
    { Node.bare .baseType with parent := some 0 }]
  modules := [0]
  index := [(.int 1, 0)]

/-- A landing page among the documents written by hand, which is not a readme file. -/
def landingOptions : Options where
  extra := [⟨[⟨.text "Home", .text "home.md", .null, true⟩], .null⟩]

/-- The module does not give way to it. -/
def landingPlan : PagePlan :=
  ⟨[(0, "index.html")], [0], false⟩

/-- The file of the landing page, which is empty. -/
def landingFiles : Files :=
  ⟨⟨"/", []⟩, [(⟨"/", ["home.md"]⟩, .file ByteArray.empty)]⟩

/-- The site that is published. -/
def landingSite : Site :=
  ⟨landingGraph, landingPlan, landingOptions⟩

theorem landingDocument_loads : Graph.ofValue landingDocument = .ok landingGraph := by
  cbv

theorem landingGraph_planned : (planPages landingGraph landingOptions).1 = .ok landingPlan := by
  have horder : planningOrder landingGraph landingOptions = [(0, true), (1, true)] := by cbv
  rw [planPages, horder]
  rfl

theorem landingSite_pageBody : ∃ body, (landingSite.pageBody 0).run.run {} = (.ok body, {}) :=
  Site.pageBody_of_parts ⟨_, rfl⟩ rfl rfl rfl (by cbv) rfl

/-- Nothing is written on the landing page. -/
theorem landingOptions_renderMarkdown : landingOptions.renderMarkdown "" false true = .ok "" := by
  have hblank : Markdown.convert true landingOptions.rewrite "" = .ok "" := if_pos rfl
  change Markdown.convert true landingOptions.rewrite "" >>= _ = _
  rw [hblank]
  rfl

theorem landingSite_drafts : (Work.ofExcept (landingSite.options.extra.mapM fun s =>
    s.drafts landingSite.options landingFiles)).run.run {} =
      (.ok [(⟨[⟨.text "Home", "index.html", .null⟩], .null⟩, [⟨"index.html", "", .text "Home"⟩])],
        {}) := by
  have hdraft : (⟨.text "Home", .text "home.md", .null, true⟩ : ExtraDocument).draft landingSite.options
      landingFiles = .ok ⟨"index.html", "", .text "Home"⟩ :=
    ExtraDocument.draft_of_parts rfl rfl (by cbv) landingOptions_renderMarkdown
  have hdrafts : (⟨[⟨.text "Home", .text "home.md", .null, true⟩], .null⟩ : ExtraSection).drafts
      landingSite.options landingFiles = .ok (⟨[⟨.text "Home", "index.html", .null⟩], .null⟩,
        [⟨"index.html", "", .text "Home"⟩]) := by
    simp only [ExtraSection.drafts, List.mapM_cons, List.mapM_nil, hdraft]
    rfl
  have hextra : landingSite.options.extra =
      [⟨[⟨.text "Home", .text "home.md", .null, true⟩], .null⟩] := rfl
  rw [hextra, List.mapM_cons, hdrafts]
  rfl

theorem landingSite_renderFiles :
    ∃ files, (landingSite.renderFiles landingFiles).run.run {} = (.ok files, {}) := by
  obtain ⟨body, hbody⟩ := landingSite_pageBody
  have hname : (Work.ofExcept (landingSite.plan.pageOf landingSite.graph 0)).run.run {} =
      (.ok "index.html", {}) := rfl
  have hpages : landingSite.pages.run.run {} = (.ok [⟨"index.html", body, .text "index.ts"⟩], {}) := by
    change (landingSite.pagesOf [0]).run.run {} = _
    rw [Site.pagesOf, Work.run_bind_ok hname, Work.run_bind_ok hbody]
    rfl
  have hhead : (Work.ofExcept (Site.headMarkup landingSite.options landingFiles)).run.run {} =
      (.ok "", {}) := rfl
  have hnavigation : landingSite.navigation.run.run {} = (.ok [], {}) := by
    cbv
  rw [Site.renderFiles, Work.run_bind_ok hpages]
  dsimp only
  rw [Work.run_bind_ok landingSite_drafts, Work.run_bind_ok hhead, Work.run_bind_ok hnavigation]
  exact ⟨_, rfl⟩

theorem landing_published :
    ∃ files, (publish landingGraph landingOptions landingFiles).1 = .ok files := by
  obtain ⟨files, hfiles⟩ := landingSite_renderFiles
  exact ⟨files, publish_of_renderFiles landingGraph_planned rfl rfl hfiles⟩

/-- The landing page is written over the page of the module. -/
theorem landing_document_clashes :
    Graph.ofValue landingDocument = .ok landingGraph ∧
      (planPages landingGraph landingOptions).1 = .ok landingPlan ∧
      ∃ files, (publish landingGraph landingOptions landingFiles).1 = .ok files ∧
        ¬(files.map OutputFile.name).Nodup := by
  refine ⟨landingDocument_loads, landingGraph_planned, ?_⟩
  obtain ⟨files, hfiles⟩ := landing_published
  refine ⟨files, hfiles, fun hnodup => ?_⟩
  rcases (published_names_distinct_iff landingDocument_loads landingGraph_planned hfiles).mp hnodup with
    hno | hspa | ⟨-, hne⟩
  · cases hno
  · cases hspa
  · exact hne _ List.mem_cons_self 0 List.mem_cons_self rfl

end SymbolDocs
