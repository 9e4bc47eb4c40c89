import SymbolDocs.Link.Host

/-!
# Joining addresses

A relative address in documentation is read from a base address. Both are taken apart into scheme,
host, path, parameters, query and fragment; the path of the one is resolved against the other, and the
parts are put together again. Addresses of schemes without a hierarchy are left alone.

* `Address.read` takes an address apart, `Address.text` puts it together; `Address.check` fails when
  the host is not well-formed;
* `Address.join` reads an address from a base;
* `normalizeLink` does so only for addresses that are relative, and `readLink` only when both of them
  can be taken apart.
-/

namespace SymbolDocs

/-- The parts of an address. -/
structure Address where
  /-- The scheme, in small letters. -/
  scheme : String
  /-- The host, with what belongs to it. -/
  host : List Char
  /-- The path. -/
  path : List Char
  /-- The parameters after the last segment of the path. -/
  params : List Char
  /-- The query. -/
  query : List Char
  /-- The fragment. -/
  fragment : List Char
  deriving Inhabited

namespace Address

/-- Schemes whose addresses can be relative. -/
def relativeSchemes : List String :=
  ["", "ftp", "http", "gopher", "nntp", "imap", "wais", "file", "https", "shttp", "mms", "prospero",
    "rtsp", "rtsps", "rtspu", "sftp", "svn", "svn+ssh", "ws", "wss"]

/-- Schemes whose addresses name a host. -/
def hostSchemes : List String :=
  ["", "ftp", "http", "gopher", "nntp", "telnet", "imap", "wais", "file", "mms", "https", "shttp",
    "snews", "prospero", "rtsp", "rtsps", "rtspu", "rsync", "svn", "svn+ssh", "sftp", "nfs", "git",
    "git+ssh", "ws", "wss"]

/-- Schemes whose paths can have parameters. -/
def paramSchemes : List String :=
  ["", "ftp", "hdl", "prospero", "http", "imap", "https", "shttp", "rtsp", "rtsps", "rtspu", "sip",
    "sips", "mms", "sftp", "tel"]

/-- The characters of a scheme. -/
def isSchemeChar (c : Char) : Bool :=
  c.isAlphanum || c == '+' || c == '-' || c == '.'

/-- A scheme in front, in small letters, and what follows it; the given one when there is none. -/
def splitScheme (default : String) (cs : List Char) : String × List Char :=
  match Text.cutAt? [':'] cs with
  | some (word, rest) =>
    match word with
    | c :: _ =>
      if c.isAlpha && word.all isSchemeChar then (String.ofList (word.map Char.toLower), rest)
      else (default, cs)
    | [] => (default, cs)
  | none => (default, cs)

/-- The host after two slashes, and what follows it. -/
def splitHost : List Char → List Char × List Char
  | '/' :: '/' :: rest =>
    let host := rest.takeWhile fun c => !(c == '/' || c == '?' || c == '#')
    (host, rest.drop host.length)
  | cs => ([], cs)

/-- What stands before a mark and after it; nothing after it when it is absent. -/
def splitMark (mark : Char) (cs : List Char) : List Char × List Char :=
  (Text.cutAt? [mark] cs).getD (cs, [])

/-- Where the last segment of a path starts. -/
def lastSegment (cs : List Char) : List Char :=
  (cs.reverse.takeWhile (· != '/')).reverse

/-- The parameters of the last segment. -/
def splitParams (cs : List Char) : List Char × List Char :=
  let last := lastSegment cs
  match Text.cutAt? [';'] last with
  | some (name, params) => (cs.take (cs.length - last.length) ++ name, params)
  | none => (cs, [])

/-- Takes an address apart; controls and blanks in front, tabs and line ends do not count. -/
def read (s : List Char) (defaultScheme : String := "") : Address :=
  let cs := (s.dropWhile fun c => c.toNat ≤ 32).filter fun c => !(c == '\t' || c == '\r' || c == '\n')
  let (scheme, rest) := splitScheme defaultScheme cs
  let (host, rest) := splitHost rest
  let (rest, fragment) := splitMark '#' rest
  let (rest, query) := splitMark '?' rest
  let (path, params) := if paramSchemes.contains scheme then splitParams rest else (rest, [])
  ⟨scheme, host, path, params, query, fragment⟩

/-- Takes an address apart whose host has to be well-formed. -/
def check (s : List Char) (defaultScheme : String := "") : Except Fault Address :=
  let a := read s defaultScheme
  match Host.fault? a.host with
  | some e => .error (.value (.host e))
  | none => .ok a

/-- A part with its mark in front, unless it is empty. -/
def marked (mark : Char) (cs : List Char) : List Char :=
  if cs.isEmpty then [] else mark :: cs

/-- Puts an address together. -/
def text (a : Address) : List Char :=
  let path := a.path ++ marked ';' a.params
  let body :=
    if !a.host.isEmpty || (a.scheme != "" && hostSchemes.contains a.scheme) ||
        Text.startsWith path ['/', '/'] then
      let path := if path.isEmpty || path.head? = some '/' then path else '/' :: path
      '/' :: '/' :: a.host ++ path
    else path
  let body := if a.scheme = "" then body else a.scheme.toList ++ ':' :: body
  body ++ marked '?' a.query ++ marked '#' a.fragment

/-- Resolves dots: a single one is dropped, a double one takes the segment before it away. -/
def resolveDots : List (List Char) → List (List Char) → List (List Char)
  | acc, [] => acc.reverse
  | acc, seg :: rest =>
    if seg = ['.', '.'] then resolveDots acc.tail rest
    else if seg = ['.'] then resolveDots acc rest
    else resolveDots (seg :: acc) rest

/-- The segments without empty ones, the first and the last excepted. -/
def dropInnerEmpty (segs : List (List Char)) : List (List Char) :=
  match segs with
  | [] => []
  | first :: rest =>
    match rest.getLast? with
    | none => [first]
    | some last => first :: (rest.dropLast.filter fun s => !s.isEmpty) ++ [last]

/-- A path resolved against the path of the base. -/
def joinPaths (base path : List Char) : List Char :=
  let segs :=
    if path.head? = some '/' then Text.splitOn (· == '/') path
    else
      let parts := Text.splitOn (· == '/') base
      let dirs := if parts.getLast? = some [] then parts else parts.dropLast
      dropInnerEmpty (dirs ++ Text.splitOn (· == '/') path)
  let resolved := resolveDots [] segs
  let resolved :=
    if segs.getLast? = some ['.'] || segs.getLast? = some ['.', '.'] then resolved ++ [[]]
    else resolved
  let joined := Text.join ['/'] resolved
  if joined.isEmpty then ['/'] else joined

/-- An address read from a base. -/
def join (base url : List Char) : List Char :=
  if base.isEmpty then url
  else if url.isEmpty then base
  else
    let b := read base
    let u := read url b.scheme
    if u.scheme != b.scheme || !relativeSchemes.contains u.scheme then url
    else if hostSchemes.contains u.scheme && !u.host.isEmpty then u.text
    else
      let host := if hostSchemes.contains u.scheme then b.host else u.host
      if u.path.isEmpty && u.params.isEmpty then
        let query := if u.query.isEmpty then b.query else u.query
        text { b with scheme := u.scheme, host, query, fragment := u.fragment }
      else text { u with host, path := joinPaths b.path u.path }

end Address

/-- A letter in either case; four letters outside ASCII have a small or capital form inside it. -/
def isLetterAnyCase (c : Char) : Bool :=
  c.isAlpha || c.toNat == 0x130 || c.toNat == 0x131 || c.toNat == 0x17F || c.toNat == 0x212A

/-- What follows the word of a scheme in front. -/
def afterSchemeWord? (cs : List Char) : Option (List Char) :=
  match cs with
  | c :: rest =>
    if isLetterAnyCase c then
      some (rest.dropWhile fun c =>
        isLetterAnyCase c || Text.isAsciiDigit c || c == '+' || c == '.' || c == '-')
    else none
  | [] => none

/-- Does an address start with a scheme, a fragment or the root? -/
def isAbsoluteLink (cs : List Char) : Bool :=
  match cs with
  | '#' :: _ => true
  | '/' :: _ => true
  | cs =>
    match afterSchemeWord? cs with
    | some (':' :: _) => true
    | _ => false

/-- A relative address is read from the base; others are left alone. -/
def normalizeLink (url base : String) : String :=
  if base = "" || isAbsoluteLink url.toList then url
  else String.ofList (Address.join base.toList url.toList)

/-- The same with the addresses checked that are taken apart: the base first, then the other one. -/
def readLink (url base : String) : Except Fault String :=
  if base = "" || url = "" || isAbsoluteLink url.toList then .ok (normalizeLink url base)
  else do
    let start ← Address.check base.toList
    let _ ← Address.check url.toList start.scheme
    return normalizeLink url base

end SymbolDocs
