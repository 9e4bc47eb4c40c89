import SymbolDocs.Decimal.Double

/-!
# Document values

Graph documents, settings and summaries are read as values: scalars, lists, and mappings that keep
their keys in the order of first insertion. A key can be any scalar, because the indented format
allows it. Integers and numbers with a fractional part are different values, but as keys and in
comparisons `true`, `1` and `1.0` are the same.

* `Scalar.same` and `Value.same` are that comparison;
* `Value.truthy` is the test for being present and not empty;
* `Fields.get?` and `Fields.insert` look a key up and set it.
-/

namespace SymbolDocs

/-- A value without parts. -/
inductive Scalar where
  /-- Nothing. -/
  | null
  /-- A truth value. -/
  | bool (b : Bool)
  /-- An integer of any size. -/
  | int (n : Int)
  /-- A number with a fractional part. -/
  | real (d : Double)
  /-- Text. -/
  | text (s : String)
  /-- A day of the calendar. -/
  | date (year month day : Nat)
  deriving DecidableEq, Repr, Inhabited

namespace Scalar

/-- The representative of a scalar up to `same`: truth values and whole numbers are integers. -/
def norm : Scalar → Scalar
  | .bool b => .int (if b then 1 else 0)
  | .real d =>
    match d.integral? with
    | some n => .int n
    | none => .real d
  | s => s

/-- Equality across the kinds of numbers. -/
def same : Scalar → Scalar → Bool
  | .text a, .text b => decide (a = b)
  | .int a, .int b => decide (a = b)
  | a, b => decide (a.norm = b.norm)

/-- Present and not empty. -/
def truthy : Scalar → Bool
  | .null => false
  | .bool b => b
  | .int n => n != 0
  | .real d => !d.isZero
  | .text s => s != ""
  | .date _ _ _ => true

/-- The integer a scalar is when integers are asked for; a truth value counts as one. -/
def int? : Scalar → Option Int
  | .bool b => some (if b then 1 else 0)
  | .int n => some n
  | _ => none

@[simp] theorem norm_int (n : Int) : norm (.int n) = .int n := rfl

@[simp] theorem norm_text (s : String) : norm (.text s) = .text s := rfl

theorem same_iff (a b : Scalar) : same a b = true ↔ a.norm = b.norm := by
  unfold same
  split
  · simp [norm]
  · simp [norm]
  · exact decide_eq_true_iff

theorem same_refl (a : Scalar) : same a a = true := (same_iff a a).mpr rfl

theorem same_symm {a b : Scalar} (h : same a b = true) : same b a = true :=
  (same_iff b a).mpr ((same_iff a b).mp h).symm

theorem same_trans {a b c : Scalar} (h : same a b = true) (h' : same b c = true) :
    same a c = true :=
  (same_iff a c).mpr (((same_iff a b).mp h).trans ((same_iff b c).mp h'))

@[simp] theorem same_int (a b : Int) : same (.int a) (.int b) = decide (a = b) := rfl

@[simp] theorem same_text (a b : String) : same (.text a) (.text b) = decide (a = b) := rfl

end Scalar

/-- A document value. -/
inductive Value where
  /-- A value without parts. -/
  | scalar (s : Scalar)
  /-- Values in order. -/
  | list (items : List Value)
  /-- Keys with their values, in order of first insertion. -/
  | map (fields : List (Scalar × Value))
  deriving Inhabited

/-- The keys and values of a mapping. -/
abbrev Fields := List (Scalar × Value)

namespace Fields

/-- The value at a key. -/
def get? (key : Scalar) : Fields → Option Value
  | [] => none
  | (k, v) :: rest =>
    match k.same key with
    | true => some v
    | false => get? key rest

/-- Sets the value at a key: in its place when the key is there, at the end otherwise. -/
def insert (key : Scalar) (value : Value) : Fields → Fields
  | [] => [(key, value)]
  | (k, v) :: rest => if k.same key then (k, value) :: rest else (k, v) :: insert key value rest

/-- The fields that pairs written one after the other leave behind. -/
def ofPairs (pairs : List (Scalar × Value)) : Fields :=
  pairs.foldl (fun fields (k, v) => insert k v fields) []

end Fields

namespace Value

/-- Nothing. -/
abbrev null : Value := .scalar .null
/-- A truth value. -/
abbrev bool (b : Bool) : Value := .scalar (.bool b)
/-- An integer. -/
abbrev int (n : Int) : Value := .scalar (.int n)
/-- Text. -/
abbrev text (s : String) : Value := .scalar (.text s)

/-- Text, or nothing. -/
def ofText? : Option String → Value
  | some s => .text s
  | none => .null

/-- A mapping with text keys. -/
def record (fields : List (String × Value)) : Value :=
  .map (fields.map fun (k, v) => (.text k, v))

/-- Nothing at all. -/
def isNull : Value → Bool
  | .scalar .null => true
  | _ => false

/-- Present and not empty. -/
def truthy : Value → Bool
  | .scalar s => s.truthy
  | .list items => !items.isEmpty
  | .map fields => !fields.isEmpty

/-- The value at a text key of a mapping; nothing when it is absent or the value is no mapping. -/
def field (key : String) : Value → Value
  | .map fields => (Fields.get? (.text key) fields).getD .null
  | _ => .null

mutual

/-- Equality across the kinds of numbers; mappings are equal whatever the order of their keys. -/
def same : Value → Value → Bool
  | .scalar a, .scalar b => a.same b
  | .list xs, .list ys => sameItems xs ys
  | .map xs, .map ys => xs.length == ys.length && sameFields xs ys
  | _, _ => false

/-- Item by item. -/
def sameItems : List Value → List Value → Bool
  | [], [] => true
  | x :: xs, y :: ys => same x y && sameItems xs ys
  | _, _ => false

/-- Every field of the first is found with the same value in the second. -/
def sameFields : List (Scalar × Value) → List (Scalar × Value) → Bool
  | [], _ => true
  | (k, v) :: rest, ys =>
    (match Fields.get? k ys with
      | some w => same v w
      | none => false) && sameFields rest ys

end

/-- The value at a key is smaller than the mapping it stands in. -/
theorem sizeOf_get?_lt {fields : Fields} {key : Scalar} {v : Value}
    (h : Fields.get? key fields = some v) : sizeOf v < sizeOf fields := by
  induction fields with
  | nil => simp [Fields.get?] at h
  | cons f rest ih =>
    obtain ⟨k, w⟩ := f
    simp only [Fields.get?] at h
    split at h
    · cases h
      simp +arith
    · have := ih h
      simp +arith at this ⊢
      omega

end Value

/-- The value at a key with the fact that it is smaller than the mapping. -/
def Fields.part? (key : Scalar) : (fields : Fields) → Option { v : Value // sizeOf v < sizeOf fields }
  | [] => none
  | (k, v) :: rest =>
    match k.same key with
    | true => some ⟨v, by simp +arith⟩
    | false =>
      match part? key rest with
      | some ⟨w, h⟩ => some ⟨w, by simp +arith at h ⊢; omega⟩
      | none => none

end SymbolDocs
