import SymbolDocs.Text.Quoted

/-!
# Warnings

What is reported without stopping the work.
-/

namespace SymbolDocs

/-- Something worth a look. -/
inductive Warning where
  /-- A documentation link names nothing in the graph. -/
  | unresolvedLink (name : String)
  /-- References lead back to themselves. -/
  | referenceCycle (name : String)
  /-- A page name was taken. -/
  | pageCollision (page name used : String)
  /-- A list of routes was asked for without routes. -/
  | sitemapIgnored
  deriving DecidableEq

/-- The wording. -/
def Warning.message : Warning → String
  | .unresolvedLink name => "Unresolved documentation link " ++ Text.quoted name
  | .referenceCycle name => "Reference cycle through " ++ Text.quoted name
  | .pageCollision page name used =>
    "Page name \"" ++ page ++ "\" collides for \"" ++ name ++ "\"; using \"" ++ used ++ "\""
  | .sitemapIgnored => "Ignoring sitemap: it is only written for the single-page site"

end SymbolDocs
