import SymbolDocs.Kind
import SymbolDocs.Value.Text

/-!
# Faults

Everything that can stop the work, as causes. `Fault.message` gives each cause its wording, and
`Fault.isFatal` says which of them the command line reports as a plain error.
-/

namespace SymbolDocs

/-- What can be wrong with the host of an address. -/
inductive HostFault where
  /-- A bracket has no counterpart. -/
  | unbalanced
  /-- The version in the brackets is not spelled out. -/
  | badVersion
  /-- An address of four numbers stands in the brackets. -/
  | bracketedQuad
  /-- No address stands in the brackets. -/
  | noAddress (text : String)
  /-- A character would become a separator when the host is normalised. -/
  | hiddenSeparator (host : String)
  deriving DecidableEq, Inhabited

/-- A value that is of the right shape and still not acceptable. -/
inductive ValueFault where
  /-- No kind has this name. -/
  | unknownKind (value : Value)
  /-- No modifier has this name. -/
  | unknownFlag (value : Value)
  /-- No kind has this number. -/
  | invalidKind (value : Value)
  /-- A truth value where a type is expected in a summary. -/
  | invalidTypeValue (b : Bool)
  /-- Text that does not spell an integer. -/
  | invalidInteger (text : String)
  /-- A number that is none cannot be made an integer. -/
  | nanToInteger
  /-- An address cannot be taken apart, because of its host. -/
  | host (cause : HostFault)
  deriving Inhabited

/-- What the file system answers when a file cannot be read. -/
inductive ReadFault where
  /-- Nothing stands at the path. -/
  | missing
  /-- A directory stands at the path. -/
  | directory
  /-- A file stands where the path needs a directory. -/
  | notDirectory
  deriving DecidableEq, Inhabited

/-- A document that cannot be made a graph. -/
inductive LoadFault where
  /-- The document is no mapping with a list of modules. -/
  | noModules
  /-- A node is expected and something else stands there. -/
  | notNode (kindWord : String)
  /-- A kind or modifier is not acceptable. -/
  | invalid (cause : ValueFault)
  /-- Two nodes have the same id. -/
  | duplicateId (id : Scalar)
  /-- A reference names an id that no node has. -/
  | unknownId (owner : String) (id : Scalar)
  /-- The file cannot be read. -/
  | unreadable (path : String) (cause : ReadFault)
  /-- The text of the file is not of its format. -/
  | unparsable (path : String)
  deriving Inhabited

/-- The cause of a failure. -/
inductive Fault where
  /-- A mapping is expected and something else stands there. -/
  | notMapping
  /-- A value cannot be used in this place: it has no items, no length, or is no number. -/
  | wrongShape
  /-- A mapping lacks a required key. -/
  | missingKey
  /-- A file is not UTF-8 text. -/
  | undecodable
  /-- A directory is needed where a file stands. -/
  | pathTaken
  /-- The file system refuses a path. -/
  | refused (cause : ReadFault)
  /-- A settings file is not of the indented format. -/
  | badSettings
  /-- A value is of the right shape and still not acceptable. -/
  | value (cause : ValueFault)
  /-- The document cannot be made a graph. -/
  | load (cause : LoadFault)
  /-- A node of a kind that needs children comes without them. -/
  | missingChildren (kind : Kind) (name : String)
  /-- A node that owns a page has no source location. -/
  | missingSource (name : String)
  /-- A file of the site cannot be read. -/
  | unreadable (path : String) (cause : ReadFault)
  /-- A navigation entry leads nowhere. -/
  | noHref (name : String)
  /-- A link of the graph runs in circles through owners and targets. -/
  | unbounded
  deriving Inhabited

/-- The wording. -/
def HostFault.message : HostFault → String
  | .unbalanced => "Invalid IPv6 URL"
  | .badVersion => "IPvFuture address is invalid"
  | .bracketedQuad => "An IPv4 address cannot be in brackets"
  | .noAddress s => Text.quoted s ++ " does not appear to be an IPv4 or IPv6 address"
  | .hiddenSeparator host =>
    "netloc \x27" ++ host ++ "\x27 contains invalid characters under NFKC normalization"

namespace ValueFault

/-- The wording. -/
def message : ValueFault → String
  | .unknownKind v => "Unknown node kind: " ++ v.detail
  | .unknownFlag v => "Unknown node flag: " ++ v.detail
  | .invalidKind v => v.detail ++ " is not a valid Kind"
  | .invalidTypeValue b => "Invalid summary type value: " ++ (Scalar.bool b).plain
  | .invalidInteger s => "invalid literal for int() with base 10: " ++ Text.quoted s
  | .nanToInteger => "cannot convert float NaN to integer"
  | .host cause => cause.message

end ValueFault

namespace ReadFault

/-- The wording, with the path quoted. -/
def message (path : String) : ReadFault → String
  | .missing => "[Errno 2] No such file or directory: " ++ Text.quoted path
  | .directory => "[Errno 21] Is a directory: " ++ Text.quoted path
  | .notDirectory => "[Errno 20] Not a directory: " ++ Text.quoted path

end ReadFault

/-- The wording for a file that cannot be read. -/
def cannotRead (path : String) (cause : ReadFault) : String :=
  "Cannot read " ++ path ++ ": " ++ cause.message path

namespace LoadFault

/-- The wording. -/
def message : LoadFault → String
  | .noModules => "Symbol graph must be a mapping with a \"modules\" list"
  | .notNode w => "Expected a node mapping, got " ++ w
  | .invalid cause => cause.message
  | .duplicateId id => "Duplicate node id " ++ id.plain
  | .unknownId owner id => "Node \"" ++ owner ++ "\" refers to unknown id " ++ id.plain
  | .unreadable path cause => cannotRead path cause
  | .unparsable path => "Cannot parse " ++ path

end LoadFault

namespace Fault

/-- The wording, where a cause has one of its own. -/
def message? : Fault → Option String
  | .value cause => some cause.message
  | .load cause => some cause.message
  | .missingChildren kind name =>
    let label := if name = "" then "" else " \"" ++ name ++ "\""
    some ("Invalid " ++ kind.name ++ " node" ++ label ++ ": missing children")
  | .missingSource name => some ("Source not found for page node \"" ++ name ++ "\"")
  | .unreadable path cause => some (cannotRead path cause)
  | .noHref name => some ("No href for navigation entry \"" ++ name ++ "\"")
  | _ => none

/-- Is the cause one that the program reports as an error of its input? -/
def isFatal : Fault → Bool
  | .load _ | .missingChildren _ _ | .missingSource _ | .unreadable _ _ | .noHref _ => true
  | _ => false

end Fault

end SymbolDocs
