import SymbolDocs.Files
import SymbolDocs.Json.Writer
import SymbolDocs.Page.Body
import SymbolDocs.Page.Frame
import SymbolDocs.Summary.Serialize

/-!
# Publishing a site

All files of a site, made before any of them is written: the summary, the pages of the graph, the
documents written by hand, a landing page if there is none, and the style sheet. As a single-page site
they are one file of routes.

* `Site.pages` are the pages of the graph, `Site.extraPages` the documents written by hand;
* `Site.render` makes the files of the site;
* `publish` plans the pages of a graph and makes the files.
-/

namespace SymbolDocs

/-- A file to be written, named relative to the output directory. -/
structure OutputFile where
  /-- Its name. -/
  name : String
  /-- What is in it. -/
  content : String
  deriving DecidableEq, Inhabited

/-- A page before it gets its frame. -/
structure PageDraft where
  /-- Its file. -/
  name : String
  /-- Its body. -/
  body : String
  /-- Its title. -/
  title : Value
  deriving Inhabited

/-- The file of the summary. -/
def summaryFile : String := "summary.json"

/-- The file of the style sheet. -/
def stylesheetFile : String := "pygments.css"

/-- The file that lists the routes. -/
def sitemapFile : String := "sitemap.xml"

/-- The text of a path that has to be text. -/
def pathOfValue : Value → Except Fault Path
  | .scalar (.text s) => .ok (Path.ofString s)
  | _ => .error .wrongShape

/-- The text of a file that belongs to the site. -/
def Files.readPart (fs : Files) (p : Path) : Except Fault String :=
  fs.readText p (.unreadable p.text)

/-- The page of a document written by hand. -/
def ExtraDocument.pageName (doc : ExtraDocument) : Except Fault String :=
  if doc.index then .ok indexPage
  else
    match doc.file with
    | .scalar (.text s) =>
      let name := Page.fileToken s
      .ok (if Text.endsWith name.toList ".html".toList then name else name ++ ".html")
    | _ => .error .wrongShape

/-- A document written by hand as a page. -/
def ExtraDocument.draft [Packages] (doc : ExtraDocument) (o : Options) (fs : Files) :
    Except Fault PageDraft := do
  let name ← doc.pageName
  let path ← pathOfValue doc.file
  let text ← fs.readPart path
  let body ← o.renderMarkdown text false true
  return ⟨name, body, doc.title⟩

/-- The documents of a section as pages, with the links to them. -/
def ExtraSection.drafts [Packages] (s : ExtraSection) (o : Options) (fs : Files) :
    Except Fault (ExtraLinks × List PageDraft) := do
  let drafts ← s.items.mapM fun doc => doc.draft o fs
  let links := (s.items.zip drafts).map fun (doc, draft) => ⟨doc.title, draft.name, doc.icon⟩
  return (⟨links, s.title⟩, drafts)

namespace Site

/-- The pages of the nodes, in turn. -/
def pagesOf [Packages] (site : Site) : List Place → Work (List PageDraft)
  | [] => pure []
  | p :: rest => do
    let name ← Work.ofExcept (site.plan.pageOf site.graph p)
    let body ← site.pageBody p
    let others ← pagesOf site rest
    return ⟨name, body, .text (site.graph.node p).name⟩ :: others

/-- The pages of the graph. -/
def pages [Packages] (site : Site) : Work (List PageDraft) :=
  site.pagesOf site.plan.emitted

/-- Pages with an empty landing page after them if there is none among them. -/
def withIndex (drafts : List PageDraft) : List PageDraft :=
  if drafts.any fun d => d.name == indexPage then drafts else drafts ++ [⟨indexPage, "", .text ""⟩]

/-- The markup that goes into the head of each page. -/
def headMarkup (o : Options) (fs : Files) : Except Fault String :=
  if o.headHtml.truthy then do
    let path ← pathOfValue o.headHtml
    fs.readPart path
  else .ok ""

/-- The file that lists the routes, if an address is given. -/
def sitemapFiles [Packages] (o : Options) (drafts : List PageDraft) : Except Fault (List OutputFile) :=
  if o.sitemap.truthy then
    match o.sitemap with
    | .scalar (.text base) => .ok [⟨sitemapFile, sitemap base (drafts.map PageDraft.name)⟩]
    | _ => .error .notMapping
  else .ok []

/-- The files of the site, without the summary. -/
def renderFiles [Packages] (site : Site) (fs : Files) : Work (List OutputFile) := do
  let o := site.options
  let own ← site.pages
  let extra ← Work.ofExcept (o.extra.mapM fun s => s.drafts o fs)
  let drafts := withIndex (own ++ extra.flatMap Prod.snd)
  let head ← Work.ofExcept (headMarkup o fs)
  let navigation ← site.navigation
  let frame : Frame :=
    { packageName := o.packageName, generation := String.ofList (o.configHash.toList.take 12),
      stylesheet := stylesheetFile, head, extra := extra.map Prod.fst, navigation }
  let css : OutputFile := ⟨stylesheetFile, Packages.stylesheet⟩
  if o.spa then
    let page := frame.routesPage (drafts.map fun d => (d.name, d.body))
    let listing ← Work.ofExcept (sitemapFiles o drafts)
    return [⟨indexPage, page⟩, css] ++ listing
  else
    if o.sitemap.truthy then Work.warn .sitemapIgnored
    return drafts.map (fun d => ⟨d.name, frame.page d.body d.title⟩) ++ [css]

/-- The file of the summary. -/
def summaryFiles (site : Site) : Work (List OutputFile) := do
  let doc ← site.summary
  return [⟨summaryFile, Json.write Json.Style.compact doc⟩]

end Site

/-- Runs a computation in a session of its own; the answer has the warnings given. -/
def Work.runFresh {α : Type} (w : Work α) : Except Fault α × List Warning :=
  let (result, session) := w.run.run {}
  (result, session.warnings)

/-- The files of a site for a graph. The summary is made in a session of its own. -/
def publish [Packages] (g : Graph) (o : Options) (fs : Files) :
    Except Fault (List OutputFile) × List Warning :=
  let (plan, planned) := planPages g o
  match plan with
  | .error e => (.error e, planned)
  | .ok plan =>
    let site : Site := ⟨g, plan, o⟩
    let (summary, given) := if o.summary then site.summaryFiles.runFresh else (.ok [], [])
    match summary with
    | .error e => (.error e, planned ++ given)
    | .ok summary =>
      let (pages, later) := if o.noHtml then (.ok [], []) else (site.renderFiles fs).runFresh
      (pages.map (summary ++ ·), planned ++ given ++ later)

end SymbolDocs
