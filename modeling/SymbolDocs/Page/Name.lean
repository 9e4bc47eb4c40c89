import SymbolDocs.Fault
import SymbolDocs.Graph.Basic

/-!
# Page names

Which nodes have a page of their own, and the file name such a page takes from the kind, the name
and the declaring source file of its node.

* `Node.hasOwnPage` decides ownership;
* `Page.fileToken` turns a source path into part of a file name;
* `Node.pageName` is the name of a node's page.
-/

namespace SymbolDocs

namespace Page

/-- The source extensions that a page name does not keep. -/
def sourceExtensions : List (List Char) :=
  [".ts".toList, ".tsx".toList, ".js".toList, ".jsx".toList, ".md".toList]

/-- A final line end, and the text before it. -/
def splitFinalBreak (cs : List Char) : List Char × List Char :=
  match cs.reverse with
  | '\n' :: rest => (rest.reverse, ['\n'])
  | _ => (cs, [])

/-- The source extension at the end replaced; a line end after it stays. -/
def replaceExtension (ext cs : List Char) : List Char :=
  match sourceExtensions.find? fun e => Text.endsWith cs e with
  | some e => cs.take (cs.length - e.length) ++ ext
  | none =>
    let (body, final) := splitFinalBreak cs
    match sourceExtensions.find? fun e => Text.endsWith body e with
    | some e => body.take (body.length - e.length) ++ ext ++ final
    | none => cs

/-- Separators of paths and quotes do not go into file names. -/
def safeChar (c : Char) : List Char :=
  if c = '/' || c = '"' then ['-', '-'] else [c]

/-- A source path as a flat token, with `ext` for its source extension. -/
def fileToken (name : String) (ext : String := ".html") : String :=
  String.ofList ((replaceExtension ext.toList name.toList).flatMap safeChar)

end Page

namespace Node

/-- Is the node shown on a page of its own rather than at an anchor of its owner's page? An ambient
function merged with a namespace carries the members of the namespace and has one. -/
def hasOwnPage (n : Node) : Bool :=
  match n.kind with
  | .classDecl | .moduleFile | .enumDecl | .component | .namespaceDecl => true
  | .interfaceDecl => !n.has .declarationMerge
  | .function => n.flags == Flags.single .ambient && !n.members.isEmpty
  | _ => false

/-- The page of a module: the landing page takes precedence over a module named for it. -/
def modulePage (n : Node) (hasReadme : Bool) : String :=
  let token := Page.fileToken n.name
  let page := if Text.endsWith token.toList ".html".toList then token else token ++ ".html"
  if page == "index.html" && hasReadme then "index-api.html" else page

/-- The file name of the page of a node that owns one. -/
def pageName (n : Node) (hasReadme : Bool) : Except Fault String :=
  match n.kind with
  | .moduleFile => .ok (n.modulePage hasReadme)
  | .namespaceDecl => .ok ("ns--" ++ Page.fileToken n.name ++ ".html")
  | _ =>
    match n.firstSource? with
    | some source => .ok (Page.fileToken source.name "--" ++ n.name ++ ".html")
    | none => .error (.missingSource n.name)

end Node

end SymbolDocs
