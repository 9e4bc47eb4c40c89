import SymbolDocs.Value.Basic
import Mathlib.Data.List.Basic

/-!
# Mappings and paths

A mapping has one value at a key, and mappings inside mappings have one at a path of keys. Keys that
compare as the same lead to the same value.

* `Fields.get?_insert` is the law of setting a key;
* `Value.at?` follows a path of keys through mappings;
* `Value.isProper` says that no mapping of a value holds a key twice, as is so of every document read.
-/

namespace SymbolDocs

namespace Scalar

theorem same_congr {a b : Scalar} (h : a.same b = true) (c : Scalar) : c.same a = c.same b := by
  rw [Bool.eq_iff_iff]
  exact ⟨fun hc => same_trans hc h, fun hc => same_trans hc (same_symm h)⟩

theorem same_comm (a b : Scalar) : a.same b = b.same a := by
  rw [Bool.eq_iff_iff]
  exact ⟨same_symm, same_symm⟩

/-- A key that compares as text is that text. -/
theorem same_text_iff {k : Scalar} {s : String} : k.same (.text s) = true ↔ k = .text s := by
  rw [same_iff, norm_text]
  cases k with
  | real d =>
    rw [norm]
    split <;> simp
  | _ => simp [norm]

end Scalar

namespace Fields

theorem get?_cons (k key : Scalar) (v : Value) (fields : Fields) :
    get? key ((k, v) :: fields) = if k.same key then some v else get? key fields := by
  cases h : k.same key <;> simp [get?, h]

theorem get?_congr {k key : Scalar} (h : k.same key = true) (fields : Fields) :
    get? k fields = get? key fields := by
  induction fields with
  | nil => rfl
  | cons f rest ih =>
    obtain ⟨k', v⟩ := f
    rw [get?_cons, get?_cons, Scalar.same_congr h, ih]

theorem get?_insert (k key : Scalar) (v : Value) (fields : Fields) :
    get? key (insert k v fields) = if k.same key then some v else get? key fields := by
  induction fields with
  | nil => rw [insert, get?_cons]
  | cons f rest ih =>
    obtain ⟨k', w⟩ := f
    rw [insert]
    split
    · rename_i hsame
      rw [get?_cons, get?_cons, Scalar.same_comm k' key, Scalar.same_congr hsame,
        Scalar.same_comm key k]
      split <;> rfl
    · rename_i hother
      rw [get?_cons, get?_cons, ih]
      split
      · rename_i hkey
        have hdiffer : k.same key = false := by
          rw [Bool.eq_false_iff]
          intro hk
          exact hother (Scalar.same_trans hkey (Scalar.same_symm hk))
        rw [hdiffer]
        rfl
      · rfl

theorem get?_eq_none {key : Scalar} {fields : Fields} (h : ∀ e ∈ fields, e.1.same key = false) :
    get? key fields = none := by
  induction fields with
  | nil => rfl
  | cons f rest ih =>
    obtain ⟨k, v⟩ := f
    rw [get?_cons, h _ List.mem_cons_self]
    exact ih fun e he => h e (List.mem_cons_of_mem _ he)

theorem exists_mem_of_get? {key : Scalar} {v : Value} {fields : Fields} (h : get? key fields = some v) :
    ∃ k, (k, v) ∈ fields ∧ k.same key = true := by
  induction fields with
  | nil => cases h
  | cons f rest ih =>
    obtain ⟨k, w⟩ := f
    rw [get?_cons] at h
    split at h
    · rename_i hsame
      cases h
      exact ⟨k, List.mem_cons_self, hsame⟩
    · obtain ⟨k', hmem, hsame⟩ := ih h
      exact ⟨k', List.mem_cons_of_mem _ hmem, hsame⟩

end Fields

namespace Value

/-- The value at the end of a path of keys. -/
def at? : Value → List Scalar → Option Value
  | v, [] => some v
  | .map fields, key :: path => (Fields.get? key fields).bind fun v => v.at? path
  | _, _ :: _ => none

@[simp] theorem at?_nil (v : Value) : v.at? [] = some v := by
  cases v <;> rfl

@[simp] theorem at?_map (fields : Fields) (key : Scalar) (path : List Scalar) :
    (Value.map fields).at? (key :: path) = (Fields.get? key fields).bind fun v => v.at? path := rfl

/-- Only mappings have something at a path of one key or more. -/
theorem exists_fields_of_at? {v w : Value} {path : List Scalar} (hne : path ≠ [])
    (h : v.at? path = some w) : ∃ fields, v = .map fields := by
  cases path with
  | nil => exact absurd rfl hne
  | cons key path =>
    cases v with
    | map fields => exact ⟨fields, rfl⟩
    | scalar s => cases h
    | list items => cases h

mutual

/-- No mapping in the value holds a key twice. -/
def isProper : Value → Bool
  | .scalar _ => true
  | .list items => properItems items
  | .map fields => properFields fields

/-- The same for items. -/
def properItems : List Value → Bool
  | [] => true
  | v :: rest => isProper v && properItems rest

/-- The same for a mapping: its keys differ, and its values are proper. -/
def properFields : List (Scalar × Value) → Bool
  | [] => true
  | (k, v) :: rest => (rest.all fun e => !e.1.same k) && isProper v && properFields rest

end

theorem properFields_cons {k : Scalar} {v : Value} {rest : Fields}
    (h : properFields ((k, v) :: rest) = true) :
    (∀ e ∈ rest, e.1.same k = false) ∧ v.isProper = true ∧ properFields rest = true := by
  simp only [properFields, Bool.and_eq_true, List.all_eq_true, Bool.not_eq_true'] at h
  exact ⟨h.1.1, h.1.2, h.2⟩

/-- What a proper mapping has at a key is proper. -/
theorem isProper_of_get? {fields : Fields} {key : Scalar} {v : Value}
    (h : properFields fields = true) (hget : Fields.get? key fields = some v) : v.isProper = true := by
  induction fields with
  | nil => cases hget
  | cons f rest ih =>
    obtain ⟨k, w⟩ := f
    obtain ⟨-, hw, hrest⟩ := properFields_cons h
    rw [Fields.get?_cons] at hget
    split at hget
    · cases hget
      exact hw
    · exact ih hrest hget

end Value

namespace Fields

theorem insert_of_absent {key : Scalar} {v : Value} {fields : Fields}
    (h : ∀ e ∈ fields, e.1.same key = false) : insert key v fields = fields ++ [(key, v)] := by
  induction fields with
  | nil => rfl
  | cons f rest ih =>
    obtain ⟨k, w⟩ := f
    rw [insert, h _ List.mem_cons_self, ih fun e he => h e (List.mem_cons_of_mem _ he)]
    rfl

/-- Pairs whose keys differ are the mapping they leave behind. -/
theorem ofPairs_eq {pairs : Fields} (h : Value.properFields pairs = true) : ofPairs pairs = pairs := by
  have hrun : ∀ front : Fields, (∀ e ∈ front, ∀ f ∈ pairs, e.1.same f.1 = false) →
      pairs.foldl (fun fields e => insert e.1 e.2 fields) front = front ++ pairs := by
    induction pairs with
    | nil => simp
    | cons f rest ih =>
      obtain ⟨k, v⟩ := f
      obtain ⟨hdiffer, -, hrest⟩ := Value.properFields_cons h
      intro front hfront
      have hnew : ∀ e ∈ front, e.1.same k = false := fun e he => hfront e he _ List.mem_cons_self
      rw [List.foldl_cons, insert_of_absent hnew, ih hrest]
      · simp
      · intro e he f hf
        rcases List.mem_append.mp he with he | he
        · exact hfront e he f (List.mem_cons_of_mem _ hf)
        · rw [List.mem_singleton.mp he, Scalar.same_comm]
          exact hdiffer f hf
  exact hrun [] (by simp)

end Fields

end SymbolDocs
