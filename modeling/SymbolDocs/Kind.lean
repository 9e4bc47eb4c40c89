import SymbolDocs.Text.Search

/-!
# Kinds of nodes

What a node of the symbol graph can be: a declaration, a type expression, or a part of one. Each
kind has a number and a name in documents, a label for one of its kind, a title for a group of
members and, in the navigation, an icon.

* `Kind.code` and `Kind.ofCode?` are the numbering; `Kind.ofName?` reads a name in any casing and
  with or without underscores;
* `Kind.label`, `Kind.groupTitle`, `Kind.icon` are what readers of a page see.
-/

namespace SymbolDocs

/-- The kind of a node. -/
inductive Kind where
  /-- A node of no known kind. -/
  | unknown
  /-- A source file with its declarations. -/
  | moduleFile
  /-- A named group of declarations. -/
  | namespaceDecl
  /-- A class. -/
  | classDecl
  /-- An interface. -/
  | interfaceDecl
  /-- A custom element. -/
  | component
  /-- An enumeration. -/
  | enumDecl
  /-- A member of an enumeration. -/
  | enumMember
  /-- A function. -/
  | function
  /-- A method. -/
  | method
  /-- A property. -/
  | property
  /-- A getter. -/
  | getter
  /-- A setter. -/
  | setter
  /-- A constructor. -/
  | constructor
  /-- A named type. -/
  | typeAlias
  /-- A variable. -/
  | variable
  /-- A constant. -/
  | constant
  /-- A parameter. -/
  | parameter
  /-- An attribute of a component. -/
  | attribute
  /-- An event of a component. -/
  | event
  /-- A mention of a declaration. -/
  | reference
  /-- An array type. -/
  | array
  /-- A tuple type. -/
  | tuple
  /-- A union of types. -/
  | typeUnion
  /-- An intersection of types. -/
  | typeIntersection
  /-- A type chosen by a test. -/
  | conditionalType
  /-- A type built over the keys of another. -/
  | mappedType
  /-- A type written as its members. -/
  | objectType
  /-- The type of a member of another type. -/
  | indexedType
  /-- The keys of a type. -/
  | keyof
  /-- The type of a value. -/
  | typeof
  /-- A type to be inferred. -/
  | inferType
  /-- A type in parentheses. -/
  | parenthesized
  /-- The type of the receiver. -/
  | thisType
  /-- A literal type. -/
  | literal
  /-- A built-in type. -/
  | baseType
  /-- A parameter of a generic declaration. -/
  | typeParameter
  /-- A function type. -/
  | functionType
  /-- A constructor type. -/
  | constructorType
  /-- A member for every key of a type. -/
  | indexSignature
  /-- A member that is called. -/
  | callSignature
  /-- A member that constructs. -/
  | constructSignature
  /-- A declaration handed on from elsewhere. -/
  | reExport
  /-- A mention of a declaration of another module. -/
  | importType
  /-- Members taken over from another type. -/
  | spread
  /-- The heritage clause of a class or interface. -/
  | classType
  /-- A read-only type. -/
  | readonlyKeyword
  /-- A unique symbol. -/
  | uniqueSymbol
  /-- A type that is not known. -/
  | unknownType
  deriving DecidableEq, Repr, Inhabited

namespace Kind

/-- Every kind, in the order of the numbering. -/
def all : List Kind :=
  [.unknown, .moduleFile, .namespaceDecl, .classDecl, .interfaceDecl, .component, .enumDecl,
    .enumMember, .function, .method, .property, .getter, .setter, .constructor, .typeAlias,
    .variable, .constant, .parameter, .attribute, .event, .reference, .array, .tuple, .typeUnion,
    .typeIntersection, .conditionalType, .mappedType, .objectType, .indexedType, .keyof, .typeof,
    .inferType, .parenthesized, .thisType, .literal, .baseType, .typeParameter, .functionType,
    .constructorType, .indexSignature, .callSignature, .constructSignature, .reExport,
    .importType, .spread, .classType, .readonlyKeyword, .uniqueSymbol, .unknownType]

/-- The name of a kind in documents and messages. -/
def name : Kind → String
  | .unknown => "UNKNOWN"
  | .moduleFile => "MODULE"
  | .namespaceDecl => "NAMESPACE"
  | .classDecl => "CLASS"
  | .interfaceDecl => "INTERFACE"
  | .component => "COMPONENT"
  | .enumDecl => "ENUM"
  | .enumMember => "ENUM_MEMBER"
  | .function => "FUNCTION"
  | .method => "METHOD"
  | .property => "PROPERTY"
  | .getter => "GETTER"
  | .setter => "SETTER"
  | .constructor => "CONSTRUCTOR"
  | .typeAlias => "TYPE_ALIAS"
  | .variable => "VARIABLE"
  | .constant => "CONSTANT"
  | .parameter => "PARAMETER"
  | .attribute => "ATTRIBUTE"
  | .event => "EVENT"
  | .reference => "REFERENCE"
  | .array => "ARRAY"
  | .tuple => "TUPLE"
  | .typeUnion => "TYPE_UNION"
  | .typeIntersection => "TYPE_INTERSECTION"
  | .conditionalType => "CONDITIONAL_TYPE"
  | .mappedType => "MAPPED_TYPE"
  | .objectType => "OBJECT_TYPE"
  | .indexedType => "INDEXED_TYPE"
  | .keyof => "KEYOF"
  | .typeof => "TYPEOF"
  | .inferType => "INFER"
  | .parenthesized => "PARENTHESIZED"
  | .thisType => "THIS_TYPE"
  | .literal => "LITERAL"
  | .baseType => "BASE_TYPE"
  | .typeParameter => "TYPE_PARAMETER"
  | .functionType => "FUNCTION_TYPE"
  | .constructorType => "CONSTRUCTOR_TYPE"
  | .indexSignature => "INDEX_SIGNATURE"
  | .callSignature => "CALL_SIGNATURE"
  | .constructSignature => "CONSTRUCT_SIGNATURE"
  | .reExport => "EXPORT"
  | .importType => "IMPORT_TYPE"
  | .spread => "SPREAD"
  | .classType => "CLASS_TYPE"
  | .readonlyKeyword => "READONLY_KEYWORD"
  | .uniqueSymbol => "SYMBOL"
  | .unknownType => "UNKNOWN_TYPE"

/-- The number of a kind. -/
def code (k : Kind) : Nat :=
  all.idxOf k

/-- The kind with a number. -/
def ofCode? (n : Int) : Option Kind :=
  if 0 ≤ n then all[n.toNat]? else none

/-- A small letter for a capital one. The Kelvin sign is the one character outside ASCII whose small
letter is an ASCII letter. -/
def lowerChar (c : Char) : Char :=
  if c.toNat = 0x212A then 'k' else c.toLower

/-- The letters of a name, without underscores and case. -/
def nameKey (s : String) : List Char :=
  (s.toList.filter (· != '_')).map lowerChar

/-- The kind with a name, whatever its case and underscores. -/
def ofName? (s : String) : Option Kind :=
  all.find? fun k => nameKey k.name == nameKey s

/-- A capital first and small letters after it. -/
def capitalized (w : List Char) : List Char :=
  match w with
  | [] => []
  | c :: cs => c.toUpper :: cs.map Char.toLower

/-- The label of one node of the kind: the words of its name, capitalised. -/
def label (k : Kind) : String :=
  String.ofList (Text.join [' '] ((Text.splitOn (· == '_') k.name.toList).map capitalized))

/-- The heading of a group of members of the kind. -/
def groupTitle : Kind → String
  | .namespaceDecl => "Namespaces"
  | .classDecl => "Classes"
  | .interfaceDecl => "Interfaces"
  | .component => "Components"
  | .enumDecl => "Enums"
  | .enumMember => "Members"
  | .function => "Functions"
  | .method => "Methods"
  | .property => "Properties"
  | .getter => "Getters"
  | .setter => "Setters"
  | .variable => "Variables"
  | .constant => "Constants"
  | .attribute => "Attributes"
  | .event => "Events"
  | .reExport => "Exports"
  | k => k.label

/-- The icon of the kind in the navigation. -/
def icon : Kind → String
  | .namespaceDecl => "N"
  | .classDecl => "C"
  | .interfaceDecl => "I"
  | .component => "C"
  | .enumDecl => "E"
  | .function => "F"
  | .typeAlias => "T"
  | .variable => "V"
  | .constant => "K"
  | _ => "?"

/-- Every kind has the number of its place in the list. -/
theorem ofCode?_code (k : Kind) : ofCode? k.code = some k := by
  cases k <;> rfl

end Kind

end SymbolDocs
