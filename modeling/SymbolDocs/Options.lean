import SymbolDocs.Value.Basic

/-!
# Options

What a site is made with. Options that come from a settings file unchecked are kept as the values
they were given and are judged where they are used.
-/

namespace SymbolDocs

/-- A document written by hand and published beside the pages of the graph. -/
structure ExtraDocument where
  /-- Its title. -/
  title : Value
  /-- Its file. -/
  file : Value
  /-- Its icon in the navigation. -/
  icon : Value
  /-- Is it the landing page? -/
  index : Bool
  deriving Inhabited

/-- A group of such documents in the navigation. -/
structure ExtraSection where
  /-- The documents. -/
  items : List ExtraDocument
  /-- The title of the group. -/
  title : Value
  deriving Inhabited

/-- What a site is made with. -/
structure Options where
  /-- The name of the package. -/
  packageName : String := ""
  /-- The address of the repository that source links lead to. -/
  repository : Value := .null
  /-- The directory of the package. -/
  packageRoot : String := "."
  /-- The address that relative links in documentation start from. -/
  baseHref : Value := .null
  /-- Is documentation written in Markdown? -/
  markdown : Bool := false
  /-- The source files left out. -/
  exclude : List Value := []
  /-- Is a summary written? -/
  summary : Bool := false
  /-- Are the pages left out? -/
  noHtml : Bool := false
  /-- Is there a landing page? -/
  hasReadme : Bool := false
  /-- The file of the landing page. -/
  readme : Option String := none
  /-- The file set into the head of each page. -/
  headHtml : Value := .null
  /-- Is the site one document of routes? -/
  spa : Bool := false
  /-- The address under which the routes are listed. -/
  sitemap : Value := .null
  /-- Are details reported? -/
  debug : Bool := false
  /-- The documents written by hand. -/
  extra : List ExtraSection := []
  /-- The digest of the settings. -/
  configHash : String := ""
  deriving Inhabited

/-- Is a name among the excluded files? -/
def Options.excludes (o : Options) (name : String) : Bool :=
  o.exclude.any fun v => v.same (.text name)

end SymbolDocs
