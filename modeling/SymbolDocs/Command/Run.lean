import SymbolDocs.Command.Arguments
import SymbolDocs.Graph.Load
import SymbolDocs.Json.Reader
import SymbolDocs.Packages.Bundled
import SymbolDocs.Publish
import SymbolDocs.Settings.Basic

/-!
# Running the command

A run reads the settings and the graph, makes the files of the site and writes them below the output
directory. It is a function from arguments and a file tree to a file tree, what is printed, and how it
ends.

* `loadGraph` reads the file of a graph;
* `Arguments.settings` lays the arguments over the settings;
* `writeFiles` writes the files of a site;
* `Command.run` is a run, and `Command.wanted` the paths it may read.
-/

namespace SymbolDocs

/-- Reads the text of a graph file; files that are not JSON by name are YAML. -/
def parseGraph [Packages] (path : Path) (text : String) : Except Fault Graph :=
  let doc := if path.suffix = ".json" then Json.read? text else Packages.yaml? text
  match doc with
  | none => .error (.load (.unparsable path.text))
  | some v => Graph.ofValue (if v.truthy then v else .map [])

/-- Reads the file of a graph. -/
def loadGraph [Packages] (fs : Files) (path : Path) : Except Fault Graph := do
  let text ← fs.readText path fun cause => .load (.unreadable path.text cause)
  parseGraph path text

namespace Arguments

/-- The settings that arguments set, in order. -/
def overrides (a : Arguments) : List (String × Value) :=
  let flag (key : String) (b : Bool) : List (String × Value) := if b then [(key, .bool true)] else []
  let text (key : String) (s : Option String) : List (String × Value) :=
    match s with
    | some s => [(key, .text s)]
    | none => []
  flag "summary" a.summary ++ flag "no_html" a.noHtml ++ flag "markdown" a.markdown ++
    text "base_href" a.baseHref ++ text "repository" a.repository ++ text "readme" a.readme ++
    flag "spa" a.spa ++ text "sitemap" a.sitemap ++ flag "debug" a.debug

/-- Settings with the arguments laid over them; excluded files are added. -/
def settings (a : Arguments) (fields : Fields) : Except Fault Fields := do
  let fields := a.overrides.foldl (fun fields (k, v) => Fields.insert (.text k) v fields) fields
  let fields ←
    if a.exclude.isEmpty then pure fields
    else do
      let current ← ((Fields.get? (.text "exclude") fields).getD (.list [])).items
      let all ← Value.unionItems current (a.exclude.map .text)
      pure (Fields.insert (.text "exclude") (.list all) fields)
  return match a.outDir with
    | some dir => Fields.insert (.text "output_dir") (.text (Path.ofString dir).text) fields
    | none => fields

end Arguments

/-! ## Writing -/

/-- Files in the making: the tree and what has been printed, kept also when writing fails. -/
abbrev Writing := ExceptT Fault (StateM (Files × String))

namespace Writing

/-- Prints a line. -/
def print (line : String) : Writing Unit :=
  modify fun (fs, out) => (fs, out ++ line ++ "\n")

/-- Changes the tree. -/
def change (f : Files → Except Fault Files) : Writing Unit := do
  let (fs, out) ← get
  match f fs with
  | .ok fs => set (fs, out)
  | .error e => throw e

end Writing

/-- The full path of an output file. -/
def outputPath (root : Path) (name : String) : Path :=
  (root.join (Path.ofString (String.ofList (name.toList.dropWhile (· == '/'))))).resolve

/-- Writes output files after so many others; every fiftieth is reported. -/
def writeEach (root : Path) (total : Nat) : Nat → List OutputFile → Writing Unit
  | _, [] => pure ()
  | count, f :: rest => do
    let path := outputPath root f.name
    Writing.change fun fs => fs.makeDirectory path.parent
    Writing.change fun fs => fs.write path f.content
    if (count + 1) % 50 = 0 then
      Writing.print ("  ... wrote " ++ Text.natText (count + 1) ++ "/" ++ Text.natText total ++ " files")
    writeEach root total (count + 1) rest

/-- Writes the files of a site below a directory. -/
def writeFiles (root : Path) (files : List OutputFile) : Writing Unit := do
  Writing.change fun fs => fs.makeDirectory root
  Writing.print ("Writing " ++ Text.natText files.length ++ " files...")
  writeEach root files.length 0 files
  Writing.print ("Generated " ++ Text.natText files.length ++ " files into: " ++ root.text)

/-! ## Runs -/

namespace Command

/-- How a run ends. -/
inductive Ending where
  /-- All files are written. -/
  | done
  /-- Help was asked for. -/
  | help
  /-- The arguments are wrong. -/
  | usage (fault : ArgumentFault)
  /-- The input is wrong. -/
  | rejected (fault : Fault)
  /-- Something that is no matter of the input goes wrong. -/
  | broken (fault : Fault)

/-- What a run leaves behind. -/
structure Result where
  /-- How it ended. -/
  ending : Ending
  /-- The file tree after it. -/
  files : Files
  /-- What it printed. -/
  printed : String := ""
  /-- The warnings it gave. -/
  warnings : List Warning := []

/-- The status a run ends with, if it ends by itself. -/
def Ending.status? : Ending → Option Nat
  | .done => some 0
  | .help => some 0
  | .usage _ => some 2
  | .rejected _ => some 1
  | .broken _ => none

/-- The message a run ends with. -/
def Ending.message? : Ending → Option String
  | .usage fault => some fault.message
  | .rejected fault => fault.message?.map ("error: " ++ ·)
  | .broken fault => fault.message?
  | _ => none

/-- A fault of the input is rejected, another one breaks the run. -/
def Ending.ofFault (e : Fault) : Ending :=
  if e.isFatal then .rejected e else .broken e

/-- The settings a run works with. -/
def settingsOf [Packages] (fs : Files) (a : Arguments) : Except Fault Fields := do
  let fields ← loadSettings fs a.config
  a.settings fields

/-- Makes and writes the site of a graph file. -/
def generate [Packages] (fs : Files) (path : Path) (fields : Fields) (o : Options) : Result :=
  match loadGraph fs path with
  | .error e => { ending := .ofFault e, files := fs }
  | .ok g =>
    match publish g o fs with
    | (.error e, warnings) => { ending := .ofFault e, files := fs, warnings }
    | (.ok outputs, warnings) =>
      match pathOfValue (setting fields "output_dir") with
      | .error e => { ending := .broken e, files := fs, warnings }
      | .ok dir =>
        let (written, files, printed) := (writeFiles (fs.locate dir) outputs).run.run (fs, "")
        match written with
        | .ok _ => { ending := .done, files, printed, warnings }
        | .error e => { ending := .broken e, files, printed, warnings }

/-- A run of the command. -/
def run [Packages] (fs : Files) (argv : List String) : Result :=
  match Arguments.parse argv with
  | .error fault => { ending := .usage fault, files := fs }
  | .ok a =>
    if a.help then { ending := .help, files := fs }
    else
      let prepared := do
        let fields ← settingsOf fs a
        let o ← optionsOf fields fs
        return (fields, o)
      match prepared with
      | .error e => { ending := .broken e, files := fs }
      | .ok (fields, o) => generate fs (Path.ofString (a.graph.getD "")) fields o

/-- The paths of a value that may name a file. -/
def pathsOfValue : Value → List Path
  | .scalar (.text s) => [Path.ofString s]
  | _ => []

/-- The paths that settings name. -/
def pathsOfSettings (fields : Fields) : List Path :=
  let readme := match readmePath fields with
    | .ok path => path.toList
    | .error _ => []
  let extra := match extraSections fields none with
    | .ok sections => sections.flatMap fun s => s.items.flatMap fun doc => pathsOfValue doc.file
    | .error _ => []
  readme ++ extra ++ pathsOfValue (setting fields "head_html") ++
    pathsOfValue (setting fields "output_dir")

/-- The paths a run may read or write under, as far as they can be told from what is there. -/
def wanted [Packages] (fs : Files) (argv : List String) : List Path :=
  match Arguments.parse argv with
  | .error _ => []
  | .ok a =>
    let named := (a.config.toList ++ a.graph.toList).map Path.ofString
    match settingsOf fs a with
    | .ok fields => named ++ pathsOfSettings fields
    | .error _ => named

end Command

end SymbolDocs
