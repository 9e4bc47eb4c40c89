import SymbolDocs.Kind

/-!
# Modifier flags

The modifiers of a node as a set of bits. Documents give them as a number, whose unknown bits are
kept, or by name.
-/

namespace SymbolDocs

/-- A modifier. -/
inductive Flag where
  /-- Visible outside its module. -/
  | exported
  /-- Declared without an implementation. -/
  | ambient
  /-- A member of the class itself. -/
  | staticMember
  /-- Left to subclasses. -/
  | abstractMember
  /-- Not assignable. -/
  | readonly
  /-- May be absent. -/
  | optional
  /-- Takes the remaining arguments. -/
  | rest
  /-- Public. -/
  | publicMember
  /-- Private. -/
  | privateMember
  /-- Protected. -/
  | protectedMember
  /-- One of several signatures. -/
  | overload
  /-- Not to be used any more. -/
  | deprecated
  /-- Left out of the documentation. -/
  | internal
  /-- The default export. -/
  | defaultExport
  /-- Merged from several declarations. -/
  | declarationMerge
  /-- Declared in another package. -/
  | external
  /-- Declared in the standard library. -/
  | defaultLibrary
  deriving DecidableEq, Repr

namespace Flag

/-- Every modifier, from the lowest bit up. -/
def all : List Flag :=
  [.exported, .ambient, .staticMember, .abstractMember, .readonly, .optional, .rest,
    .publicMember, .privateMember, .protectedMember, .overload, .deprecated, .internal,
    .defaultExport, .declarationMerge, .external, .defaultLibrary]

/-- The place of the modifier's bit. -/
def index : Flag → Nat
  | .exported => 0
  | .ambient => 1
  | .staticMember => 2
  | .abstractMember => 3
  | .readonly => 4
  | .optional => 5
  | .rest => 6
  | .publicMember => 7
  | .privateMember => 8
  | .protectedMember => 9
  | .overload => 10
  | .deprecated => 11
  | .internal => 12
  | .defaultExport => 13
  | .declarationMerge => 14
  | .external => 15
  | .defaultLibrary => 16

/-- The name of a modifier, without underscores and case. -/
def key : Flag → String
  | .exported => "export"
  | .ambient => "ambient"
  | .staticMember => "static"
  | .abstractMember => "abstract"
  | .readonly => "readonly"
  | .optional => "optional"
  | .rest => "rest"
  | .publicMember => "public"
  | .privateMember => "private"
  | .protectedMember => "protected"
  | .overload => "overload"
  | .deprecated => "deprecated"
  | .internal => "internal"
  | .defaultExport => "default"
  | .declarationMerge => "declarationmerge"
  | .external => "external"
  | .defaultLibrary => "defaultlibrary"

/-- The modifier with a name, whatever its case and underscores. -/
def ofName? (s : String) : Option Flag :=
  all.find? fun f => f.key.toList == Kind.nameKey s

end Flag

/-- A set of modifiers. -/
structure Flags where
  /-- The bits of the modifiers. -/
  bits : Nat
  deriving DecidableEq, Repr, Inhabited

namespace Flags

/-- No modifier. -/
def empty : Flags := ⟨0⟩

/-- Is the modifier in the set? -/
def has (fs : Flags) (f : Flag) : Bool :=
  fs.bits.testBit f.index

/-- Is one of the modifiers in the set? -/
def hasAny (fs : Flags) (f : List Flag) : Bool :=
  f.any fs.has

/-- The set with a modifier added. -/
def insert (fs : Flags) (f : Flag) : Flags :=
  ⟨fs.bits ||| Nat.pow 2 f.index⟩

/-- The set of one modifier. -/
def single (f : Flag) : Flags :=
  ⟨Nat.pow 2 f.index⟩

/-- The set a number stands for. A negative number counts down from the first power of two past
the known bits, or past its own bits when it has more. -/
def ofInt : Int → Flags
  | .ofNat n => ⟨n⟩
  | .negSucc n =>
    let size := n + 1
    let top := if size ≤ Nat.pow 2 17 then Nat.pow 2 17 else Nat.pow 2 (Nat.log2 size + 1)
    ⟨top - size⟩

@[simp] theorem ofInt_natCast (n : Nat) : ofInt (n : Int) = ⟨n⟩ := rfl

end Flags

end SymbolDocs
