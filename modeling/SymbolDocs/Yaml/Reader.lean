import SymbolDocs.Yaml.Scalar
import SymbolDocs.Yaml.Token

/-!
# Reading YAML

The tokens of a text read as one value. A value is a scalar, a list or mapping by columns or in
brackets, or a value that was given a name before. A key has to be a scalar; when it is written twice
the last value counts; the key `<<` takes over the fields of other mappings. A text holds at most one
document, and an empty one is nothing.

* `Reading` is what is left to read, with the names given so far;
* `readNode` reads a value;
* `read?` reads a text; there is no answer where it is malformed.

Every step of the reader takes one unit of fuel. It consumes a token or ends, so a multiple of the
number of tokens is enough.
-/

namespace SymbolDocs.Yaml

/-- What is left to read. -/
structure Reading where
  /-- The tokens. -/
  tokens : List Token
  /-- The values with names. -/
  names : List (String × Value) := []

/-- A step of the reader. -/
abbrev Read := StateT Reading Option

namespace Read

/-- The next token, without consuming it. -/
def peek : Read (Option Token) := do
  return (← get).tokens.head?

/-- Consumes a token. -/
def next : Read Unit :=
  modify fun r => { r with tokens := r.tokens.tail }

/-- Is the next token one of these, or is there none? -/
def atOneOf (ts : List Token) : Read Bool := do
  match ← peek with
  | some t => return ts.contains t
  | none => return true

/-- Consumes the token if it is next. -/
def accept (t : Token) : Read Bool := do
  if (← peek) = some t then
    next
    return true
  else return false

/-- Consumes the token, which has to be next. -/
def expect (t : Token) : Read Unit := do
  if !(← accept t) then failure

/-- Gives a value a name; a name is given once. -/
def give (name : Option String) (v : Value) : Read Value := do
  match name with
  | none => return v
  | some name =>
    if ((← get).names.lookup name).isSome then failure
    modify fun r => { r with names := (name, v) :: r.names }
    return v

end Read

open Read

/-- The fields of a value that is a mapping. -/
def fieldsOf? : Value → Option Fields
  | .map fields => some fields
  | _ => none

/-- The fields of mappings taken over; of several mappings the first one wins. -/
def mergedFields : Value → Option Fields
  | .map fields => some fields
  | .list items => (items.reverse.mapM fieldsOf?).map List.flatten
  | _ => none

/-- The mapping of the pairs read, after the fields taken over. -/
def buildMap (taken : Fields) (pairs : Fields) : Value :=
  .map (Fields.ofPairs (taken ++ pairs))

/-- One pair of a mapping: a field, or fields to take over. -/
def addPair (merge : Bool) (k v : Value) (taken pairs : Fields) : Option (Fields × Fields) :=
  if merge then (mergedFields v).map fun more => (taken ++ more, pairs)
  else
    match k with
    | .scalar s => some (taken, pairs ++ [(s, v)])
    | _ => none

mutual

/-- A value. `inBlock` allows lists and mappings by columns, `indentless` a list whose dashes stand
below their key. -/
def readNode : Nat → Bool → Bool → Read Value
  | 0, _, _ => failure
  | fuel + 1, inBlock, indentless => do
    match ← peek with
    | some (.alias name) =>
      next
      match (← get).names.lookup name with
      | some v => return v
      | none => failure
    | some (.anchor name) =>
      next
      let v ← readContent fuel inBlock indentless true
      give (some name) v
    | _ => readContent fuel inBlock indentless false

/-- A value without a name in front; with one before it, it may be empty. -/
def readContent : Nat → Bool → Bool → Bool → Read Value
  | 0, _, _, _ => failure
  | fuel + 1, inBlock, indentless, named => do
    match ← peek with
    | some (.scalar plain text) =>
      next
      if plain then
        match resolve? text with
        | some s => return .scalar s
        | none => failure
      else return .text text
    | some .listStart =>
      next
      let items ← readFlowList fuel true
      return .list items
    | some .mapStart =>
      next
      readFlowMap fuel true [] []
    | some .blockList =>
      if inBlock then
        next
        let items ← readBlockList fuel
        return .list items
      else failure
    | some .blockMap =>
      if inBlock then
        next
        readBlockMap fuel [] []
      else failure
    | some .item =>
      if indentless then
        let items ← readIndentless fuel
        return .list items
      else if named then return .null
      else failure
    | _ => if named then return .null else failure

/-- The items of a list by columns. -/
def readBlockList : Nat → Read (List Value)
  | 0 => failure
  | fuel + 1 => do
    if ← accept .item then
      let v ← if ← atOneOf [.item, .blockEnd] then pure Value.null else readNode fuel true false
      let rest ← readBlockList fuel
      return v :: rest
    else
      expect .blockEnd
      return []

/-- The items of a list whose dashes stand below their key. -/
def readIndentless : Nat → Read (List Value)
  | 0 => failure
  | fuel + 1 => do
    if ← accept .item then
      let v ←
        if ← atOneOf [.item, .key, .value, .blockEnd] then pure Value.null
        else readNode fuel true false
      let rest ← readIndentless fuel
      return v :: rest
    else return []

/-- The pairs of a mapping by columns. -/
def readBlockMap : Nat → Fields → Fields → Read Value
  | 0, _, _ => failure
  | fuel + 1, taken, pairs => do
    if ← accept .key then
      let merge := (← peek) = some (.scalar true "<<")
      let ends : List Token := [.key, .value, .blockEnd]
      let k ←
        if merge then do
          next
          pure Value.null
        else if ← atOneOf ends then pure Value.null
        else readNode fuel true true
      let v ←
        if ← accept .value then
          if ← atOneOf ends then pure Value.null else readNode fuel true true
        else pure Value.null
      match addPair merge k v taken pairs with
      | some (taken, pairs) => readBlockMap fuel taken pairs
      | none => failure
    else
      expect .blockEnd
      return buildMap taken pairs

/-- The items of a list in brackets. A pair among them is a mapping of its own. -/
def readFlowList : Nat → Bool → Read (List Value)
  | 0, _ => failure
  | fuel + 1, first => do
    if ← accept .listEnd then return []
    if !first then expect .comma
    if ← accept .listEnd then return []
    if ← accept .key then
      let merge := (← peek) = some (.scalar true "<<")
      let k ←
        if merge then do
          next
          pure Value.null
        else if ← atOneOf [.value, .comma, .listEnd] then pure Value.null
        else readNode fuel false false
      let v ← readFlowValue fuel .listEnd
      match addPair merge k v [] [] with
      | some (taken, pairs) =>
        let rest ← readFlowList fuel false
        return buildMap taken pairs :: rest
      | none => failure
    else
      let v ← readNode fuel false false
      let rest ← readFlowList fuel false
      return v :: rest

/-- The value of a pair in brackets; nothing when there is none. -/
def readFlowValue : Nat → Token → Read Value
  | 0, _ => failure
  | fuel + 1, closing => do
    if ← accept .value then
      if ← atOneOf [.comma, closing] then return .null else readNode fuel false false
    else return .null

/-- The pairs of a mapping in braces. -/
def readFlowMap : Nat → Bool → Fields → Fields → Read Value
  | 0, _, _, _ => failure
  | fuel + 1, first, taken, pairs => do
    if ← accept .mapEnd then return buildMap taken pairs
    if !first then expect .comma
    if ← accept .mapEnd then return buildMap taken pairs
    let keyed ← accept .key
    let merge := (← peek) = some (.scalar true "<<")
    let k ←
      if merge then do
        next
        pure Value.null
      else if keyed && (← atOneOf [.value, .comma, .mapEnd]) then pure Value.null
      else readNode fuel false false
    let v ← if keyed then readFlowValue fuel .mapEnd else pure Value.null
    match addPair merge k v taken pairs with
    | some (taken, pairs) => readFlowMap fuel false taken pairs
    | none => failure

end

/-- The value of a document, up to the mark that closes it or opens another. -/
def readDocument (fuel : Nat) : Read Value := do
  let v ←
    if ← atOneOf [.documentStart, .documentEnd] then pure Value.null
    else readNode fuel true false
  let _ ← accept .documentEnd
  return v

/-- The tokens without marks that close documents in front. -/
def dropEnds : List Token → List Token
  | .documentEnd :: ts => dropEnds ts
  | ts => ts

/-- The only document of a text. -/
def readStream (fuel : Nat) : Read Value := do
  modify fun r => { r with tokens := dropEnds r.tokens }
  if (← peek).isNone then return .null
  let _ ← accept .documentStart
  let v ← readDocument fuel
  modify fun r => { r with tokens := dropEnds r.tokens }
  if (← peek).isSome then failure
  return v

/-- Reads a text. -/
def read? (text : String) : Option Value :=
  (scan? text).bind fun tokens =>
    ((readStream (4 * tokens.length + 8)).run { tokens }).map Prod.fst

end SymbolDocs.Yaml
