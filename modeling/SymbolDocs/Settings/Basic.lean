import SymbolDocs.Documentation.Codec
import SymbolDocs.Files
import SymbolDocs.Options
import SymbolDocs.Packages
import SymbolDocs.Settings.Canonical
import SymbolDocs.Settings.Merge

/-!
# Settings

What a site is made with is set in a file laid over the defaults, and on the command line. The options
are read off the result: whether there is a landing page is decided here, once, so that the names of
pages depend on the graph and the options only.

* `defaultSettings` are the defaults, `loadSettings` lays a file over them;
* `optionsOf` reads the options off.
-/

namespace SymbolDocs

/-- The defaults. -/
def defaultSettings : Fields :=
  [("output_dir", Value.text "./docs"), ("package_name", .null), ("repository", .null),
    ("package_root", .text "."), ("base_href", .null), ("markdown", .bool false), ("exclude", .list []),
    ("summary", .bool false), ("no_html", .bool false), ("readme", .text "README.md"),
    ("head_html", .null), ("spa", .bool false), ("sitemap", .null), ("debug", .bool false),
    ("extra", .list [])].map fun (k, v) => (.text k, v)

/-- The value of a setting; nothing when it is not there. -/
def setting (fields : Fields) (key : String) : Value :=
  (Value.map fields).field key

/-- The fields of a value that has to be a mapping. -/
def fieldsOfMapping : Value → Except Fault Fields
  | .map fields => .ok fields
  | _ => .error .notMapping

/-- The defaults with a value laid over them. -/
def settingsOver (update : Value) : Except Fault Fields := do
  let merged ← (Value.map defaultSettings).merge update
  fieldsOfMapping merged

/-- The settings of a file, if one is named and there is one. -/
def loadSettings [Packages] (fs : Files) (file : Option String) : Except Fault Fields :=
  match file with
  | none => .ok defaultSettings
  | some name =>
    if name = "" || !fs.contains (Path.ofString name) then .ok defaultSettings
    else do
      let text ← fs.readText (Path.ofString name) .refused
      match Packages.yaml? text with
      | none => .error .badSettings
      | some v => settingsOver (if v.truthy then v else .map [])

namespace ExtraDocument

/-- A required field of a document. -/
def required (key : String) (fields : Fields) : Except Fault Value :=
  match Fields.get? (.text key) fields with
  | some v => .ok v
  | none => .error .missingKey

/-- A document as it is set. -/
def ofValue : Value → Except Fault ExtraDocument
  | .map fields => do
    let title ← required "title" fields
    let file ← required "file" fields
    return ⟨title, file, setting fields "icon", (setting fields "index").truthy⟩
  | _ => .error .wrongShape

end ExtraDocument

/-- The items of a value that may be empty. -/
def itemsOrNone (v : Value) : Except Fault (List Value) :=
  if v.truthy then v.items else .ok []

/-- A section of documents as it is set. -/
def ExtraSection.ofValue : Value → Except Fault ExtraSection
  | .map fields => do
    let items ← itemsOrNone (setting fields "items")
    let docs ← items.mapM ExtraDocument.ofValue
    return ⟨docs, setting fields "title"⟩
  | _ => .error .notMapping

/-- The text of a setting, or another when it is empty. -/
def textOr (default : String) (v : Value) : String :=
  if v.truthy then v.plain else default

/-- The path of the landing page, if one is named. -/
def readmePath (fields : Fields) : Except Fault (Option Path) :=
  let readme := setting fields "readme"
  if readme.truthy then
    match readme with
    | .scalar (.text s) =>
      let root := Path.ofString (textOr "." (setting fields "package_root"))
      .ok (some (root.join (Path.ofString s)))
    | _ => .error .wrongShape
  else .ok none

/-- The documents beside the pages: those set, or else the landing page. -/
def extraSections (fields : Fields) (readme : Option Path) : Except Fault (List ExtraSection) := do
  let raw ← itemsOrNone (setting fields "extra")
  let sections ← raw.mapM ExtraSection.ofValue
  match sections, readme with
  | [], some path => return [⟨[⟨.text "Home", .text path.text, .null, true⟩], .null⟩]
  | sections, _ => return sections

/-- The options that settings come to. -/
def optionsOf (fields : Fields) (fs : Files) : Except Fault Options := do
  let named ← readmePath fields
  let readme := named.bind fun path => if fs.isFile path then some path else none
  let extra ← extraSections fields readme
  let exclude ← itemsOrNone (setting fields "exclude")
  let configHash ← settingsDigest fields
  return {
    packageName := textOr "" (setting fields "package_name")
    repository := setting fields "repository"
    packageRoot := textOr "." (setting fields "package_root")
    baseHref := setting fields "base_href"
    markdown := (setting fields "markdown").truthy
    exclude
    summary := (setting fields "summary").truthy
    noHtml := (setting fields "no_html").truthy
    hasReadme := readme.isSome
    readme := readme.map Path.text
    headHtml := setting fields "head_html"
    spa := (setting fields "spa").truthy
    sitemap := setting fields "sitemap"
    debug := (setting fields "debug").truthy
    extra
    configHash }

end SymbolDocs
