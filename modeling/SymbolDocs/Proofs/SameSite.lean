import SymbolDocs.Proofs.PageTwins
import SymbolDocs.Proofs.Publishing

/-!
# One site as pages and as routes

A site of routes packs the pages of a site into one file. It has the same pages under the same names,
and their bodies become equal when all links are written in the same way. Both are published or
neither is, unless the address of the list of routes is no text: only a site of routes makes that
list. Whatever the packages answer, they are asked the same on both sites, the bodies of the pages
excepted, which they only put into a frame.

* `Site.contents` is what the files of a site are made of, and `Site.contents_twin` compares it;
* `Site.renderFiles_pages` and `Site.renderFiles_routes` say how files are made of it;
* `published_same_site` is the result;
* `listed_under_no_text` shows that the condition is needed.
-/

namespace SymbolDocs

open Markup (SameBut LinkPiece LinksApart)
open Work

/-- The options of a site of pages. -/
def Options.paged (o : Options) : Options :=
  { o with spa := false }

/-- The address of the list of routes is text, if there is one. -/
def Options.Listable (o : Options) : Prop :=
  o.sitemap.truthy = true → ∃ base, o.sitemap = .text base

/-! ## Navigation -/

namespace Site

variable {site : Site} (digest : String)

theorem navItem_twin (p : Place) (withIcon : Bool) :
    Twin Eq (site.navItem p withIcon) ((site.routed digest).navItem p withIcon) := by
  refine (href_twin digest p none).bind_eq fun href => ?_
  dsimp only
  split
  · exact .throw _ _
  · exact .pure rfl

theorem navItems_twin (ps : List Place) :
    Twin Eq (site.navItems ps) ((site.routed digest).navItems ps) := by
  induction ps with
  | nil => exact .pure rfl
  | cons p rest ih => exact (navItem_twin digest p true).bind_eq fun _ => ih.bind_eq fun _ => .pure rfl

theorem navSection?_twin (p : Place) :
    Twin Eq (site.navSection? p) ((site.routed digest).navSection? p) := by
  rw [navSection?, navSection?, graph_routed]
  split
  · exact .pure rfl
  · refine (navItems_twin digest _).bind_eq fun entries => ?_
    exact (navItem_twin digest p false).bind_eq fun _ => .pure rfl

theorem navSections_twin (ps : List Place) :
    Twin Eq (site.navSections ps) ((site.routed digest).navSections ps) := by
  induction ps with
  | nil => exact .pure rfl
  | cons p rest ih => exact (navSection?_twin digest p).bind_eq fun _ => ih.bind_eq fun _ => .pure rfl

/-- The navigation is the same on both sites. -/
theorem navigation_twin : Twin Eq site.navigation (site.routed digest).navigation :=
  navSections_twin digest _

end Site

/-! ## Summaries -/

namespace Outcomes

variable {α β : Type} {V : α → β → Prop} {x : Except Fault α} {y : Except Fault β}

theorem ok_right (h : Outcomes V x y) {a : α} (hx : x = .ok a) : ∃ b, y = .ok b ∧ V a b := by
  subst hx
  cases h with
  | ok h => exact ⟨_, rfl, h⟩

theorem ok_left (h : Outcomes V x y) {b : β} (hy : y = .ok b) : ∃ a, x = .ok a ∧ V a b := by
  subst hy
  cases h with
  | ok h => exact ⟨_, rfl, h⟩

theorem eq {x y : Except Fault α} (h : Outcomes Eq x y) : x = y := by
  cases h with
  | ok h => rw [h]
  | error e => rfl

end Outcomes

theorem Work.Twin.runFresh {α β : Type} {V : α → β → Prop} {w : Work α} {v : Work β} (h : Twin V w v) :
    Outcomes V w.runFresh.1 v.runFresh.1 :=
  (h {} {} Session.twin_fresh).1

/-- Work whose last part depends on no session. -/
theorem Work.runFresh_bind {α β : Type} {w : Work α} {f : α → Work β} {x : α → Except Fault β}
    (hf : ∀ a s, ((f a).run.run s).1 = x a) : (w >>= f).runFresh.1 = w.runFresh.1 >>= x := by
  simp only [runFresh, run_bind]
  rcases w.run.run {} with ⟨_ | a, s⟩
  · rfl
  · exact hf a s

namespace Site

/-- The summary, if it is wished for. -/
def summaryPart (site : Site) : Except Fault (List OutputFile) :=
  if site.options.summary then site.summaryFiles.runFresh.1 else .ok []

variable {site : Site} (digest : String) (hspa : site.options.spa = false)

include hspa

/-- The summary is the same on both sites. -/
theorem summaryFiles_twin : Twin Eq site.summaryFiles (site.routed digest).summaryFiles :=
  (summary_twin digest hspa).bind_eq fun _ => .pure rfl

theorem summaryPart_routed : (site.routed digest).summaryPart = site.summaryPart := by
  have hrun := (summaryFiles_twin digest hspa).runFresh.eq
  unfold summaryPart
  rw [hrun]
  rfl

end Site

/-! ## Contents -/

/-- Pages of the same name and title whose bodies are the same apart from the tags of links. -/
structure PageDraft.Twin (d d' : PageDraft) : Prop where
  name : d.name = d'.name
  title : d.title = d'.title
  body : LinksApart d.body d'.body

theorem Site.withIndex_twin {drafts drafts' : List PageDraft}
    (h : List.Forall₂ PageDraft.Twin drafts drafts') :
    List.Forall₂ PageDraft.Twin (withIndex drafts) (withIndex drafts') := by
  have hnames : (drafts.any fun d => d.name == indexPage) =
      drafts'.any fun d => d.name == indexPage := by
    induction h with
    | nil => rfl
    | cons hd _ ih => rw [List.any_cons, List.any_cons, hd.name, ih]
  rw [withIndex, withIndex, hnames]
  split
  · exact h
  · exact List.rel_append h (.cons ⟨rfl, rfl, .refl _ _⟩ .nil)

section

variable [Packages]

namespace Site

/-- What the files of a site are made of: its pages before they get their frame, and the frame. -/
def contents (site : Site) (fs : Files) : Work (List PageDraft × Frame) := do
  let o := site.options
  let own ← site.pages
  let extra ← Work.ofExcept (o.extra.mapM fun s => s.drafts o fs)
  let head ← Work.ofExcept (headMarkup o fs)
  let navigation ← site.navigation
  return (withIndex (own ++ extra.flatMap Prod.snd),
    { packageName := o.packageName, generation := String.ofList (o.configHash.toList.take 12),
      stylesheet := stylesheetFile, head, extra := extra.map Prod.fst, navigation })

/-- The pages in their frame, and the style sheet. -/
def pageFiles (frame : Frame) (drafts : List PageDraft) : List OutputFile :=
  drafts.map (fun d => ⟨d.name, frame.page d.body d.title⟩) ++ [⟨stylesheetFile, Packages.stylesheet⟩]

/-- The bodies of the pages as routes of one page, and the style sheet. -/
def routeFiles (frame : Frame) (drafts : List PageDraft) : List OutputFile :=
  [⟨indexPage, frame.routesPage (drafts.map fun d => (d.name, d.body))⟩,
    ⟨stylesheetFile, Packages.stylesheet⟩]

variable {site : Site} (digest : String) (hspa : site.options.spa = false) (fs : Files)

section

include hspa

theorem pagesOf_twin (ps : List Place) :
    Twin (List.Forall₂ PageDraft.Twin) (site.pagesOf ps) ((site.routed digest).pagesOf ps) := by
  induction ps with
  | nil => exact .pure .nil
  | cons p rest ih =>
    refine (Twin.ofExcept_self _).bind_eq fun name => ?_
    refine (pageBody_twin digest hspa p).bind fun body body' hbody => ?_
    exact ih.bind fun others others' hothers => .pure (.cons ⟨rfl, rfl, hbody⟩ hothers)

/-- **Contents correspond**: the pages of the two sites do, and the frame differs in what tells sites
apart only. -/
theorem contents_twin :
    Twin (fun x x' => List.Forall₂ PageDraft.Twin x.1 x'.1 ∧
      x'.2 = { x.2 with generation := x'.2.generation }) (site.contents fs)
      ((site.routed digest).contents fs) := by
  refine (pagesOf_twin digest hspa site.plan.emitted).bind fun own own' hown => ?_
  refine (Twin.ofExcept_self (site.options.extra.mapM fun s => s.drafts site.options fs)).bind_eq
    fun extra => ?_
  refine (Twin.ofExcept_self (headMarkup site.options fs)).bind_eq fun head => ?_
  refine (navigation_twin digest).bind_eq fun navigation => .pure ⟨withIndex_twin ?_, rfl⟩
  exact List.rel_append hown (List.forall₂_same.mpr fun d _ => ⟨rfl, rfl, .refl _ _⟩)

end

theorem renderFiles_eq : site.renderFiles fs = (do
    let x ← site.contents fs
    if site.options.spa then
      let listing ← Work.ofExcept (sitemapFiles site.options x.1)
      return routeFiles x.2 x.1 ++ listing
    else
      if site.options.sitemap.truthy then Work.warn .sitemapIgnored
      return pageFiles x.2 x.1) := by
  simp only [renderFiles, contents, bind_assoc, pure_bind]
  rfl

end Site

/-! ## Files -/

namespace Site

variable {site : Site} {fs : Files}

/-- The files of a site of pages. -/
theorem renderFiles_pages (hspa : site.options.spa = false) :
    (site.renderFiles fs).runFresh.1 =
      (site.contents fs).runFresh.1 >>= fun x => .ok (pageFiles x.2 x.1) := by
  rw [renderFiles_eq]
  refine runFresh_bind fun x s => ?_
  rw [if_neg (by simp [hspa])]
  split
  · rfl
  · rfl

/-- The files of a site of routes. -/
theorem renderFiles_routes (hspa : site.options.spa = true) :
    (site.renderFiles fs).runFresh.1 = (site.contents fs).runFresh.1 >>= fun x =>
      (do return routeFiles x.2 x.1 ++ (← sitemapFiles site.options x.1)) := by
  rw [renderFiles_eq]
  refine runFresh_bind fun x s => ?_
  rw [if_pos hspa]
  cases sitemapFiles site.options x.1 with
  | error e => rfl
  | ok listing => rfl

/-- The other files, unless they are left out. -/
def htmlPart (site : Site) (fs : Files) : Except Fault (List OutputFile) :=
  if site.options.noHtml then .ok [] else (site.renderFiles fs).runFresh.1

theorem htmlPart_none (hno : site.options.noHtml = true) : site.htmlPart fs = .ok [] := by
  rw [htmlPart, if_pos hno]

theorem htmlPart_pages (hspa : site.options.spa = false) (hno : site.options.noHtml = false)
    {files : List OutputFile} : site.htmlPart fs = .ok files ↔
      ∃ drafts frame, (site.contents fs).runFresh.1 = .ok (drafts, frame) ∧
        files = pageFiles frame drafts := by
  rw [htmlPart, if_neg (by simp [hno]), renderFiles_pages hspa]
  constructor
  · intro h
    obtain ⟨⟨drafts, frame⟩, hcontents, h⟩ := answer_of_bind h
    exact ⟨drafts, frame, hcontents, (Except.ok.inj h).symm⟩
  · rintro ⟨drafts, frame, hcontents, rfl⟩
    rw [hcontents]
    rfl

theorem htmlPart_routes (hspa : site.options.spa = true) (hno : site.options.noHtml = false)
    {files : List OutputFile} : site.htmlPart fs = .ok files ↔
      ∃ drafts frame listing, (site.contents fs).runFresh.1 = .ok (drafts, frame) ∧
        sitemapFiles site.options drafts = .ok listing ∧ files = routeFiles frame drafts ++ listing := by
  rw [htmlPart, if_neg (by simp [hno]), renderFiles_routes hspa]
  constructor
  · intro h
    obtain ⟨⟨drafts, frame⟩, hcontents, h⟩ := answer_of_bind h
    obtain ⟨listing, hlisting, h⟩ := answer_of_bind h
    exact ⟨drafts, frame, listing, hcontents, hlisting, (Except.ok.inj h).symm⟩
  · rintro ⟨drafts, frame, listing, hcontents, hlisting, rfl⟩
    rw [hcontents]
    change (do return routeFiles frame drafts ++ (← sitemapFiles site.options drafts)) = _
    rw [hlisting]
    rfl

end Site

/-- What is published is the summary and the other files of a planned site. -/
theorem publish_ok_iff {g : Graph} {o : Options} {fs : Files} {files : List OutputFile} :
    (publish g o fs).1 = .ok files ↔ ∃ plan summary html, (planPages g o).1 = .ok plan ∧
      (Site.mk g plan o).summaryPart = .ok summary ∧ (Site.mk g plan o).htmlPart fs = .ok html ∧
      files = summary ++ html := by
  rcases hplan : planPages g o with ⟨e | plan, planned⟩
  · simp [publish, hplan]
  · have hparts : (publish g o fs).1 = (do
        let summary ← (Site.mk g plan o).summaryPart
        return summary ++ (← (Site.mk g plan o).htmlPart fs)) := by
      simp only [publish, hplan, Site.summaryPart, Site.htmlPart, apply_ite Prod.fst]
      generalize (if o.summary = true then (Site.mk g plan o).summaryFiles.runFresh.1 else .ok []) = x
      cases x with
      | error e => rfl
      | ok summary => rfl
    rw [hparts]
    constructor
    · intro h
      obtain ⟨summary, hsummary, h⟩ := answer_of_bind h
      obtain ⟨html, hhtml, h⟩ := answer_of_bind h
      exact ⟨plan, summary, html, rfl, hsummary, hhtml, (Except.ok.inj h).symm⟩
    · rintro ⟨_, summary, html, hplan', hsummary, hhtml, rfl⟩
      cases hplan'
      rw [hsummary]
      change (do return summary ++ (← (Site.mk g plan o).htmlPart fs)) = _
      rw [hhtml]
      rfl

/-! ## The two sites -/

/-- The routes can be listed exactly when the address is text, if there is one. -/
theorem Options.sitemapFiles_ok_iff (o : Options) (drafts : List PageDraft) :
    (∃ listing, Site.sitemapFiles o drafts = .ok listing) ↔ o.Listable := by
  unfold Site.sitemapFiles Listable
  split
  · rename_i haddress
    split
    · rename_i base hbase
      exact iff_of_true ⟨_, rfl⟩ fun _ => ⟨base, hbase⟩
    · rename_i hother
      exact iff_of_false nofun fun h => (h haddress).elim hother
  · rename_i hnone
    exact iff_of_true ⟨_, rfl⟩ fun h => absurd h hnone

namespace Site

/-- Files of a site of pages and of its site of routes that have the same contents: the same frame but
for what tells the sites apart, and pages under the same names in the same order, with bodies that are
equal when all links are written in the same way. -/
def SameContents (site : Site) (digest : String) (fs : Files) (pages routed : List OutputFile) : Prop :=
  ∃ drafts drafts' frame frame' listing,
    (site.contents fs).runFresh.1 = .ok (drafts, frame) ∧
    ((site.routed digest).contents fs).runFresh.1 = .ok (drafts', frame') ∧
    sitemapFiles site.options drafts' = .ok listing ∧
    pages = pageFiles frame drafts ∧
    routed = routeFiles frame' drafts' ++ listing ∧
    frame' = { frame with generation := frame'.generation } ∧
    List.Forall₂ (fun d d' => d.name = d'.name ∧ Markup.asPages d.body = Markup.asPages d'.body)
      drafts drafts'

variable (digest : String) (fs : Files) {site : Site} (hspa : site.options.spa = false)

include hspa

/-- Both sites have files or neither has, when the routes can be listed. -/
theorem htmlPart_ok_iff : (∃ html, (site.routed digest).htmlPart fs = .ok html) ↔
    (∃ html, site.htmlPart fs = .ok html) ∧
      (site.options.noHtml = true ∨ site.options.Listable) := by
  cases hno : site.options.noHtml with
  | true => exact iff_of_true ⟨[], htmlPart_none hno⟩ ⟨⟨[], htmlPart_none hno⟩, .inl rfl⟩
  | false =>
    have hcontents := (contents_twin digest hspa fs).runFresh
    have hroutes := fun html => @htmlPart_routes _ (site.routed digest) fs rfl hno html
    constructor
    · rintro ⟨html, hhtml⟩
      obtain ⟨drafts', frame', listing, hrun, hlisting, -⟩ := (hroutes html).mp hhtml
      obtain ⟨⟨drafts, frame⟩, hrun, -⟩ := hcontents.ok_left hrun
      exact ⟨⟨_, (htmlPart_pages hspa hno).mpr ⟨drafts, frame, hrun, rfl⟩⟩,
        .inr ((site.options.sitemapFiles_ok_iff drafts').mp ⟨listing, hlisting⟩)⟩
    · rintro ⟨⟨html, hhtml⟩, hlistable⟩
      obtain ⟨drafts, frame, hrun, -⟩ := (htmlPart_pages hspa hno).mp hhtml
      obtain ⟨⟨drafts', frame'⟩, hrun, -⟩ := hcontents.ok_right hrun
      obtain ⟨listing, hlisting⟩ := (site.options.sitemapFiles_ok_iff drafts').mpr
        (hlistable.resolve_left Bool.false_ne_true)
      exact ⟨_, (hroutes _).mpr ⟨drafts', frame', listing, hrun, hlisting, rfl⟩⟩

/-- The files of the two sites have the same contents. -/
theorem htmlPart_sameContents (hno : site.options.noHtml = false) {pages routed : List OutputFile}
    (hpages : site.htmlPart fs = .ok pages) (hrouted : (site.routed digest).htmlPart fs = .ok routed) :
    site.SameContents digest fs pages routed := by
  obtain ⟨drafts, frame, hrun, rfl⟩ := (htmlPart_pages hspa hno).mp hpages
  obtain ⟨drafts', frame', listing, hrun', hlisting, rfl⟩ :=
    (@htmlPart_routes _ (site.routed digest) fs rfl hno routed).mp hrouted
  obtain ⟨x, hx, hdrafts, hframe⟩ := (contents_twin digest hspa fs).runFresh.ok_right hrun
  obtain rfl : x = (drafts', frame') := Except.ok.inj (hx.symm.trans hrun')
  exact ⟨drafts, drafts', frame, frame', listing, hrun, hrun', hlisting, rfl, rfl, hframe,
    hdrafts.imp fun _ _ hd => ⟨hd.name, hd.body.asPages⟩⟩

end Site

/-- **One site as pages and as routes.** With any packages, for every graph and all options, the site of
routes is published exactly when the site of pages is, given that the address for its list of routes is
text or that no pages are written. Where both are published their summaries are the same, and their pages
have the same names in the same order and bodies that are equal with all links written in one way. The
digest of the settings may differ. -/
theorem published_same_site (g : Graph) (o : Options) (digest : String) (fs : Files) :
    ((∃ routed, (publish g (o.routed digest) fs).1 = .ok routed) ↔
      (∃ pages, (publish g o.paged fs).1 = .ok pages) ∧ (o.noHtml = true ∨ o.Listable)) ∧
    ∀ pages routed, (publish g o.paged fs).1 = .ok pages →
      (publish g (o.routed digest) fs).1 = .ok routed →
        ∃ plan summary, (planPages g o).1 = .ok plan ∧
          (o.noHtml = true → pages = summary ∧ routed = summary) ∧
          (o.noHtml = false → ∃ html html', pages = summary ++ html ∧ routed = summary ++ html' ∧
            Site.SameContents ⟨g, plan, o.paged⟩ digest fs html html') := by
  have hsummary : ∀ plan, (Site.mk g plan (o.routed digest)).summaryPart =
      (Site.mk g plan o.paged).summaryPart := fun plan =>
    @Site.summaryPart_routed ⟨g, plan, o.paged⟩ digest rfl
  have hhtml := fun plan => @Site.htmlPart_ok_iff _ digest fs ⟨g, plan, o.paged⟩ rfl
  refine ⟨⟨?_, ?_⟩, ?_⟩
  · rintro ⟨routed, h⟩
    obtain ⟨plan, summary, html, hplan, hs, hh, -⟩ := publish_ok_iff.mp h
    obtain ⟨⟨pages, hpages⟩, hlistable⟩ := (hhtml plan).mp ⟨html, hh⟩
    exact ⟨⟨_, publish_ok_iff.mpr ⟨plan, summary, pages, hplan, hsummary plan ▸ hs, hpages, rfl⟩⟩,
      hlistable⟩
  · rintro ⟨⟨pages, h⟩, hlistable⟩
    obtain ⟨plan, summary, html, hplan, hs, hh, -⟩ := publish_ok_iff.mp h
    obtain ⟨routed, hrouted⟩ := (hhtml plan).mpr ⟨⟨html, hh⟩, hlistable⟩
    exact ⟨_, publish_ok_iff.mpr ⟨plan, summary, routed, hplan, (hsummary plan).trans hs, hrouted, rfl⟩⟩
  · intro pages routed hpages hrouted
    obtain ⟨plan, summary, html, hplan, hs, hh, rfl⟩ := publish_ok_iff.mp hpages
    obtain ⟨plan', summary', html', hplan', hs', hh', rfl⟩ := publish_ok_iff.mp hrouted
    obtain rfl : plan = plan' := Except.ok.inj (hplan.symm.trans hplan')
    obtain rfl : summary = summary' := Except.ok.inj (hs.symm.trans ((hsummary plan).symm.trans hs'))
    refine ⟨plan, summary, hplan, fun hno => ?_, fun hno => ⟨html, html', rfl, rfl, ?_⟩⟩
    · obtain rfl : html = [] := Except.ok.inj (hh.symm.trans (Site.htmlPart_none hno))
      obtain rfl : html' = [] := Except.ok.inj (hh'.symm.trans (Site.htmlPart_none hno))
      exact ⟨List.append_nil _, List.append_nil _⟩
    · exact Site.htmlPart_sameContents digest fs rfl hno hh hh'

end

/-! ## An address that is no text -/

/-- Options with the mark that the routes are to be listed in the place of an address. -/
def markedOptions : Options where
  sitemap := .bool true

/-- The site of pages with these options. -/
def markedSite : Site :=
  ⟨landingGraph, landingPlan, markedOptions.paged⟩

theorem markedSite_planned : (planPages landingGraph markedOptions.paged).1 = .ok landingPlan := by
  have horder : planningOrder landingGraph markedOptions.paged = [(0, true), (1, true)] := by cbv
  rw [planPages, horder]
  rfl

theorem markedSite_contents : ∃ x, (markedSite.contents landingFiles).runFresh.1 = .ok x := by
  obtain ⟨body, hbody⟩ : ∃ body, (markedSite.pageBody 0).run.run {} = (.ok body, {}) :=
    Site.pageBody_of_parts ⟨_, rfl⟩ rfl rfl rfl (by cbv) rfl
  have hname : (Work.ofExcept (markedSite.plan.pageOf markedSite.graph 0)).run.run {} =
      (.ok "index.html", {}) := rfl
  have hpages : markedSite.pages.run.run {} = (.ok [⟨"index.html", body, .text "index.ts"⟩], {}) := by
    change (markedSite.pagesOf [0]).run.run {} = _
    rw [Site.pagesOf, Work.run_bind_ok hname, Work.run_bind_ok hbody]
    rfl
  have hnavigation : markedSite.navigation.run.run {} = (.ok [], {}) := by
    cbv
  have hextra : (Work.ofExcept (markedSite.options.extra.mapM fun s => s.drafts markedSite.options
      landingFiles)).run.run {} = (.ok [], {}) := rfl
  have hhead : (Work.ofExcept (Site.headMarkup markedSite.options landingFiles)).run.run {} =
      (.ok "", {}) := rfl
  rw [Site.contents, Work.runFresh, Work.run_bind_ok hpages, Work.run_bind_ok hextra,
    Work.run_bind_ok hhead, Work.run_bind_ok hnavigation]
  exact ⟨_, rfl⟩

theorem markedOptions_not_listable : ¬ markedOptions.Listable := by
  intro h
  obtain ⟨base, hbase⟩ := h rfl
  cases hbase

/-- A site of pages is published with a warning, and its site of routes is not. -/
theorem listed_under_no_text : Graph.ofValue landingDocument = .ok landingGraph ∧
    (∃ pages, (publish landingGraph markedOptions.paged landingFiles).1 = .ok pages) ∧
    ¬∃ routed, (publish landingGraph (markedOptions.routed markedOptions.configHash) landingFiles).1 =
      .ok routed := by
  refine ⟨landingDocument_loads, ?_, ?_⟩
  · obtain ⟨⟨drafts, frame⟩, hcontents⟩ := markedSite_contents
    have hhtml := (Site.htmlPart_pages rfl rfl).mpr ⟨drafts, frame, hcontents, rfl⟩
    exact ⟨_, publish_ok_iff.mpr ⟨landingPlan, [], _, markedSite_planned, rfl, hhtml, rfl⟩⟩
  · rintro ⟨routed, h⟩
    obtain ⟨plan, summary, html, -, -, hhtml, -⟩ := publish_ok_iff.mp h
    obtain ⟨-, hno | hlistable⟩ := (@Site.htmlPart_ok_iff _ markedOptions.configHash landingFiles
      ⟨landingGraph, plan, markedOptions.paged⟩ rfl).mp ⟨html, hhtml⟩
    · cases hno
    · exact markedOptions_not_listable hlistable

end SymbolDocs
