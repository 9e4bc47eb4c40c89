import SymbolDocs.Printing.Layout

/-!
# The rules of printing

One rule for each kind of node says how it is laid out. A declaration prints its heading: name, type
parameters, parameters, type and initial value. A type expression prints its parts with the signs
between them.

* `Graph.signatureText` is the heading of a declaration, `Graph.signature` the heading with badges;
* `Graph.typeRule` is the rule of a node in a type position.
-/

namespace SymbolDocs

/-- The badges: label, modifier and colour. -/
def badges : List (String × Flag × Color) :=
  [("static", .staticMember, .primary), ("protected", .protectedMember, .primary),
    ("abstract", .abstractMember, .primary), ("overload", .overload, .primary),
    ("private", .privateMember, .primary), ("deprecated", .deprecated, .error),
    ("readonly", .readonly, .primary), ("internal", .internal, .primary),
    ("default", .defaultExport, .primary)]

/-- A badge. -/
def chip (label : String) (color : Color := .primary) : Layout :=
  .element .span (.chip color) (.text label) ++ .text " "

/-- The badge of a node that is still being tried out. -/
def betaChip (n : Node) : Layout :=
  match n.docs with
  | some docs => if docs.beta then chip "beta" .warning else .empty
  | none => .empty

/-- The badges of a node, in a fixed order. -/
def nodeChips (n : Node) : Layout :=
  badges.foldl
    (fun l (label, flag, color) => if n.has flag then l ++ chip label color else l) (betaChip n)

/-- What stands between a heading and its type. -/
def typeColon (kind : Kind) (name : String) : String :=
  if kind == .typeAlias then " = "
  else if name != "" || kind == .constructor then ": "
  else if kind == .readonlyKeyword then "readonly "
  else " => "

/-- How long an initial value may be to be shown. -/
def valueLimit : Nat := 50

/-- The initial value of a heading; a long one is not shown. -/
def signatureValue : Option String → Layout
  | some v => if v = "" || valueLimit < v.length then .empty else .text (" = " ++ v)
  | none => .empty

/-- Kinds whose type is their heritage clause. -/
def Kind.hasHeritage (k : Kind) : Bool :=
  k == .classDecl || k == .interfaceDecl || k == .component

/-- The name of a heading; a construct signature without a name is `new`. -/
def signatureName (n : Node) : Layout :=
  let name := if n.name = "" && n.kind == .constructSignature then "new" else n.name
  .text name ++ .text (if n.has .optional then "?" else "")

/-- The accessibility of a parameter that declares a property. -/
def parameterModifiers (fs : Flags) : String :=
  (if fs.has .publicMember then "public " else "") ++
  (if fs.has .privateMember then "private " else "") ++
  (if fs.has .protectedMember then "protected " else "")

namespace Graph

/-- A parameter: modifiers, name, type and default. -/
def parameter (g : Graph) (p : Place) : Layout :=
  let n := g.node p
  .text (parameterModifiers n.flags) ++ .text (if n.has .rest then "..." else "") ++
    .text n.name ++ .text (if n.has .optional then "?" else "") ++ .text ": " ++
    Layout.optional n.type ++
    .text (match n.value with
      | some v => if v = "" then "" else " = " ++ v
      | none => "")

/-- A list of parameters; without a list the node is not called. -/
def signatureParameters (g : Graph) : Option (List Place) → Layout
  | none => .empty
  | some ps => .text "(" ++ Layout.separated (.text ", ") (ps.map g.parameter) ++ .text ")"

/-- One type parameter with its bound, or one type argument. -/
def typeArgument (g : Graph) (p : Place) : Layout :=
  let n := g.node p
  match n.kind, n.type with
  | .typeParameter, some t => .type p ++ .text " extends " ++ .type t
  | _, _ => .type p

/-- A list of type parameters or arguments between angle brackets. -/
def typeArguments (g : Graph) : Option (List Place) → Layout
  | none => .empty
  | some [] => .empty
  | some ps => .sign "<" ++ Layout.separated (.text ", ") (ps.map g.typeArgument) ++ .sign ">"

/-- The type of a heading. -/
def signatureType (n : Node) : Layout :=
  match n.type with
  | none => .empty
  | some t =>
    if n.kind.hasHeritage then .spaced t else .text (typeColon n.kind n.name) ++ .type t

/-- The value type of an index signature. -/
def indexValue (n : Node) : Layout :=
  match n.type with
  | some t => .type t
  | none => .text "?"

/-- The heading of a declaration. The keys of an index signature are headings themselves; they stand
after their owner in the table, so the number of nodes bounds how deep that goes. -/
def headingFrom (g : Graph) : Nat → Place → Layout
  | 0, _ => .empty
  | fuel + 1, p =>
    let n := g.node p
    match n.kind with
    | .moduleFile => .text n.name
    | .indexSignature =>
      .text "[" ++ Layout.separated (.text ", ") ((n.parameters.getD []).map (headingFrom g fuel)) ++
        .text "]: " ++ indexValue n
    | _ =>
      signatureName n ++ g.typeArguments n.typeParameters ++ g.signatureParameters n.parameters ++
        signatureType n ++ signatureValue n.value

/-- The plain heading of a declaration. -/
def signatureText (g : Graph) (p : Place) : Layout :=
  g.headingFrom (g.size + 1) p

/-- An index signature: its keys in brackets, and its value type. -/
def indexSignature (g : Graph) (p : Place) : Layout :=
  let n := g.node p
  .text "[" ++ Layout.separated (.text ", ") ((n.parameters.getD []).map g.signatureText) ++
    .text "]: " ++ indexValue n

/-- The heading of a declaration with its badges. -/
def signature (g : Graph) (p : Place) : Layout :=
  let n := g.node p
  if n.kind == .moduleFile || n.kind == .indexSignature then g.signatureText p
  else nodeChips n ++ .element .span .signature (g.signatureText p)

/-- A member of an object type. -/
def property (g : Graph) (p : Place) : Layout :=
  let n := g.node p
  match n.kind, n.members with
  | .indexSignature, _ => g.indexSignature p
  | .spread, c :: _ => .text "..." ++ .type c
  | _, _ => g.signatureText p

/-- A function type. -/
def functionType (g : Graph) (p : Place) : Layout :=
  let n := g.node p
  signatureName n ++ g.typeArguments n.typeParameters ++ g.signatureParameters n.parameters ++
    .sign " => " ++ Layout.optional n.type

/-- The class or interface whose heritage clause a node is. -/
def heritageOwner? (g : Graph) (p : Place) : Option Place :=
  let n := g.node p
  match n.type with
  | some t => some t
  | none => n.parent

/-- Is an entry of a heritage clause extended? An interface extends all its entries; a class extends
what is a class or an interface and implements the rest. -/
def isExtended (g : Graph) (clause entry : Place) : Bool :=
  (match g.heritageOwner? clause with
    | some o => (g.node o).kind == .interfaceDecl
    | none => false) ||
  (match (g.node entry).type with
    | some t => (g.node t).kind.hasHeritage
    | none => false)

/-- A heritage clause. -/
def classType (g : Graph) (p : Place) : Layout :=
  .heritage ((g.node p).members.map fun c => (c, g.isExtended p c))

/-- A type chosen by a test; it has exactly four parts. -/
def conditionalType (n : Node) : Layout :=
  match n.members with
  | [check, bound, yes, no] =>
    .type check ++ .text " extends " ++ .type bound ++ .text " ? " ++ .type yes ++ .text " : " ++
      .type no
  | _ => .broken n.kind n.name

/-- The type of a member of another type; it has at least two parts. -/
def indexedType (n : Node) : Layout :=
  match n.members with
  | a :: b :: _ => .type a ++ .text "[" ++ .type b ++ .text "]"
  | _ => .broken n.kind n.name

/-- A type built over the keys of another. -/
def mappedType (n : Node) : Layout :=
  match n.members, n.type with
  | key :: source :: _, some t =>
    .text "\x7b [" ++ .type key ++ .text " in " ++ .type source ++ .text "]: " ++ .type t ++
      .text " \x7d"
  | _, _ => .text "?"

/-- The parts of a node with a sign between them. -/
def joined (sep : Layout) (n : Node) : Layout :=
  Layout.separated sep (n.members.map .type)

/-- A type parameter, with its bound when it is given in place. -/
def typeParameter (n : Node) : Layout :=
  match n.members with
  | bound :: _ => .text n.name ++ .text " extends " ++ .type bound
  | [] => .text n.name

/-- The keys of a type; what they come to is shown on demand. -/
def keyofType (n : Node) : Layout :=
  let written := Layout.text "keyof " ++ Layout.optional n.type
  match n.resolvedType with
  | none => written
  | some r => .element .details .more (.element .summary .plain written ++ .type r)

/-- The rule of a node in a type position. -/
def typeRule (g : Graph) (p : Place) : Layout :=
  let n := g.node p
  match n.kind with
  | .classType => g.classType p
  | .inferType => .text "infer " ++ Layout.optional n.type
  | .parenthesized => .text "(" ++ Layout.optional n.type ++ .text ")"
  | .conditionalType => conditionalType n
  | .indexedType => indexedType n
  | .typeUnion => joined (.text " | ") n
  | .typeIntersection => joined (.sign " & ") n
  | .tuple => .text "[" ++ joined (.text ", ") n ++ .text "]"
  | .array => Layout.optional n.type ++ .text "[]"
  | .reference | .importType => .link p ++ g.typeArguments n.typeParameters
  | .functionType | .function | .method => g.functionType p
  | .constructorType => .text "new " ++ g.functionType p
  | .mappedType => mappedType n
  | .objectType => .members (Layout.separated (.text "; ") (n.members.map g.property))
  | .literal | .typeAlias | .baseType => .text n.name
  | .typeParameter => typeParameter n
  | .keyof => keyofType n
  | .typeof => .text "typeof " ++ .text n.name
  | .thisType => .text "this"
  | .readonlyKeyword => .text "readonly " ++ Layout.optional n.type
  | .uniqueSymbol => .text "Symbol"
  | .unknownType => .text "unknown"
  | _ => g.signature p

end Graph

end SymbolDocs
