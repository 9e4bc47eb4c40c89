import SymbolDocs.Text.Quoted
import SymbolDocs.Text.Search

/-!
# The arguments of the command

The command takes the file of a graph and switches. A switch may be shortened as long as one switch only
starts that way, its value may follow it or an equals sign, and after two dashes alone everything is
plain. Words are first told apart, then read in order.

* `Switch` is a switch, `Switch.all` are all of them under their names;
* `Word` is an argument with what it is, `classify` tells arguments apart;
* `Arguments` is what they come to, `Arguments.parse` reads them;
* `ArgumentFault.message` is the wording of what can be wrong.
-/

namespace SymbolDocs

/-- A switch of the command. -/
inductive Switch where
  /-- Asks for help. -/
  | help
  /-- The output directory. -/
  | outDir
  /-- The settings file. -/
  | config
  /-- Write a summary. -/
  | summary
  /-- Leave the pages out. -/
  | noHtml
  /-- Documentation is Markdown. -/
  | markdown
  /-- Source files to leave out. -/
  | exclude
  /-- The address relative links start from. -/
  | baseHref
  /-- The address of the repository. -/
  | repository
  /-- The file of the landing page. -/
  | readme
  /-- Make one page of routes. -/
  | spa
  /-- The address routes are listed under. -/
  | sitemap
  /-- Report details. -/
  | debug
  deriving DecidableEq, Inhabited

/-- How many values a switch takes. -/
inductive Arity where
  /-- None. -/
  | none
  /-- One. -/
  | one
  /-- One or more. -/
  | many
  deriving DecidableEq

namespace Switch

/-- The names of all switches, in order. -/
def all : List (String × Switch) :=
  [("-h", .help), ("--help", .help), ("-o", .outDir), ("--out-dir", .outDir), ("--config", .config),
    ("--summary", .summary), ("--no-html", .noHtml), ("--markdown", .markdown),
    ("--exclude", .exclude), ("--base-href", .baseHref), ("--repository", .repository),
    ("--readme", .readme), ("--spa", .spa), ("--sitemap", .sitemap), ("--debug", .debug)]

/-- The switch with a name. -/
def ofName? (name : String) : Option Switch :=
  all.lookup name

/-- How many values it takes. -/
def arity : Switch → Arity
  | .help | .summary | .noHtml | .markdown | .spa | .debug => .none
  | .exclude => .many
  | _ => .one

/-- Its names as messages give them. -/
def label (s : Switch) : String :=
  Text.joinWith "/" ((all.filter fun e => e.2 == s).map Prod.fst)

end Switch

/-- What can be wrong with arguments. -/
inductive ArgumentFault where
  /-- More than one switch starts like this. -/
  | ambiguous (text : String) (names : List String)
  /-- A switch without values is given one. -/
  | unexpectedValue (switch : Switch) (value : String)
  /-- A switch lacks its value. -/
  | missingValue (switch : Switch)
  /-- The file of the graph is missing. -/
  | missingGraph
  /-- Arguments are left over. -/
  | leftOver (texts : List String)
  deriving DecidableEq

/-- The wording. -/
def ArgumentFault.message : ArgumentFault → String
  | .ambiguous text names =>
    "ambiguous option: " ++ text ++ " could match " ++ Text.joinWith ", " names
  | .unexpectedValue switch value =>
    "argument " ++ switch.label ++ ": ignored explicit argument " ++ Text.quoted value
  | .missingValue switch =>
    "argument " ++ switch.label ++ ": expected " ++
      (if switch.arity = .many then "at least one argument" else "one argument")
  | .missingGraph => "the following arguments are required: graph"
  | .leftOver texts => "unrecognized arguments: " ++ Text.joinWith " " texts

/-! ## Words -/

/-- An argument with what it is. -/
inductive Word where
  /-- A plain word. -/
  | plain (text : String)
  /-- Two dashes alone. -/
  | separator
  /-- A switch by the name it has in full, with a value joined to it. -/
  | switch (s : Switch) (name : String) (value : Option String)
  /-- Something that looks like a switch and is none. -/
  | unknown (text : String)
  deriving DecidableEq

/-- Is the text a negative number? -/
def isNegativeNumber (cs : List Char) : Bool :=
  match cs with
  | '-' :: rest =>
    let whole := rest.takeWhile Char.isDigit
    match rest.drop whole.length with
    | [] => !whole.isEmpty
    | '.' :: part => !part.isEmpty && part.all Char.isDigit
    | _ => false
  | _ => false

/-- The switches that a shortened one with two dashes can be. -/
def longMatches (text : String) : List Word :=
  let (start, value) :=
    match Text.cutAt? ['='] text.toList with
    | some (start, value) => (start, some (String.ofList value))
    | none => (text.toList, none)
  (Switch.all.filter fun e => Text.startsWith e.1.toList start).map fun e => .switch e.2 e.1 value

/-- What is joined to a switch of one letter: its value, or, when it takes none, more letters, which
start with no dash and are not looked at. -/
def joinedValue (s : Switch) (cs : List Char) : Option String :=
  if s.arity = .none && cs.head? != some '-' then none else some (String.ofList cs)

/-- The switches that a word with one dash can be: a letter with what is joined to it. -/
def shortMatches (text : String) : List Word :=
  let cs := text.toList
  Switch.all.filterMap fun (name, s) =>
    if name.toList == cs.take 2 then some (.switch s name (joinedValue s (cs.drop 2)))
    else if Text.startsWith name.toList cs then some (.switch s name none)
    else none

/-- The name of a switch. -/
def Word.name : Word → String
  | .switch _ name _ => name
  | .plain text => text
  | .unknown text => text
  | .separator => "--"

/-- What an argument that starts with a dash is. -/
def dashed (text : String) : Except ArgumentFault Word :=
  let cs := text.toList
  match Switch.ofName? text with
  | some s => .ok (.switch s text none)
  | none =>
    if cs.length = 1 then .ok (.plain text)
    else
      let joined :=
        (Text.cutAt? ['='] cs).bind fun (name, value) =>
          (Switch.ofName? (String.ofList name)).map fun s =>
            Word.switch s (String.ofList name) (some (String.ofList value))
      match joined with
      | some w => .ok w
      | none =>
        match if cs.getD 1 ' ' = '-' then longMatches text else shortMatches text with
        | [w] => .ok w
        | [] =>
          if isNegativeNumber cs || cs.contains ' ' then .ok (.plain text) else .ok (.unknown text)
        | ws => .error (.ambiguous text (ws.map Word.name))

/-- Tells arguments apart. -/
def classify : List String → Except ArgumentFault (List Word)
  | [] => .ok []
  | arg :: rest =>
    if arg = "--" then .ok (.separator :: rest.map .plain)
    else do
      let w ← if arg.toList.head? = some '-' then dashed arg else .ok (.plain arg)
      let ws ← classify rest
      return w :: ws

/-! ## Arguments -/

/-- What the arguments come to. -/
structure Arguments where
  /-- The file of the graph. -/
  graph : Option String := none
  /-- The output directory. -/
  outDir : Option String := none
  /-- The settings file. -/
  config : Option String := none
  /-- Write a summary. -/
  summary : Bool := false
  /-- Leave the pages out. -/
  noHtml : Bool := false
  /-- Documentation is Markdown. -/
  markdown : Bool := false
  /-- Source files to leave out. -/
  exclude : List String := []
  /-- The address relative links start from. -/
  baseHref : Option String := none
  /-- The address of the repository. -/
  repository : Option String := none
  /-- The file of the landing page. -/
  readme : Option String := none
  /-- Make one page of routes. -/
  spa : Bool := false
  /-- The address routes are listed under. -/
  sitemap : Option String := none
  /-- Report details. -/
  debug : Bool := false
  /-- Arguments that nothing takes. -/
  extras : List String := []
  /-- Is help asked for? -/
  help : Bool := false
  deriving DecidableEq, Inhabited

namespace Arguments

/-- Sets what a switch with values sets. -/
def set (a : Arguments) (s : Switch) (values : List String) : Arguments :=
  match s with
  | .help => { a with help := true }
  | .outDir => { a with outDir := values.head? }
  | .config => { a with config := values.head? }
  | .summary => { a with summary := true }
  | .noHtml => { a with noHtml := true }
  | .markdown => { a with markdown := true }
  | .exclude => { a with exclude := values }
  | .baseHref => { a with baseHref := values.head? }
  | .repository => { a with repository := values.head? }
  | .readme => { a with readme := values.head? }
  | .spa => { a with spa := true }
  | .sitemap => { a with sitemap := values.head? }
  | .debug => { a with debug := true }

/-- Adds an argument that nothing takes. -/
def leave (a : Arguments) (text : String) : Arguments :=
  { a with extras := a.extras ++ [text] }

/-- The plain words in front. -/
def plainFront : List Word → List String
  | .plain text :: rest => text :: plainFront rest
  | _ => []

/-- Without two dashes in front. -/
def dropSeparator : List Word → List Word
  | .separator :: rest => rest
  | ws => ws

/-- Reads words in order. Asking for help ends it. Each step takes one word at least. -/
def readWords : Nat → Arguments → List Word → Except ArgumentFault Arguments
  | 0, a, _ => .ok a
  | _, a, [] => .ok a
  | fuel + 1, a, w :: rest =>
    match w with
    | .unknown text => readWords fuel (a.leave text) rest
    | .plain text =>
      if a.graph.isNone then readWords fuel { a with graph := some text } (dropSeparator rest)
      else readWords fuel (a.leave text) rest
    | .separator =>
      if a.graph.isNone && !rest.isEmpty then readWords fuel a rest
      else readWords fuel (a.leave "--") rest
    | .switch s _ (some value) =>
      if s.arity = .none then .error (.unexpectedValue s value)
      else readWords fuel (a.set s [value]) rest
    | .switch s _ none =>
      let values := plainFront rest
      match s.arity with
      | .none => if s = .help then .ok (a.set s []) else readWords fuel (a.set s []) rest
      | .one =>
        match values with
        | [] => .error (.missingValue s)
        | value :: _ => readWords fuel (a.set s [value]) (rest.drop 1)
      | .many =>
        if values.isEmpty then .error (.missingValue s)
        else readWords fuel (a.set s values) (rest.drop values.length)

/-- Reads arguments: there has to be a graph, and nothing may be left over. -/
def parse (argv : List String) : Except ArgumentFault Arguments := do
  let words ← classify argv
  let a ← readWords (words.length + 1) {} words
  if a.help then return a
  if a.graph.isNone then throw .missingGraph
  if !a.extras.isEmpty then throw (.leftOver a.extras)
  return a

end Arguments

end SymbolDocs
