import SymbolDocs.Proofs.Encoding
import SymbolDocs.Proofs.Loading

/-!
# The plain text of headings

What is seen of the layouts that headings and types are made from, and which nodes they print.

* `Graph.shownLayout_separated` and its neighbours read a layout piece by piece;
* `Graph.types_typeArguments` and its neighbours list the nodes printed;
* `Graph.signatureText_plain` and its neighbours unfold a heading.
-/

namespace SymbolDocs

theorem Layout.types_separated (sep : String) (ls : List Layout) :
    (separated (.text sep) ls).types = ls.flatMap types := by
  induction ls with
  | nil => rfl
  | cons l rest ih =>
    cases rest with
    | nil => simp [separated]
    | cons l' rest =>
      rw [separated, types_append, types_append, ih, List.flatMap_cons]
      · rfl
      · simp

namespace Graph

variable {g : Graph}

/-! ## What is seen of a layout -/

@[simp] theorem shownLayout_append (a b : Layout) :
    (g.shownLayout (a ++ b)).text = (g.shownLayout a).text ++ (g.shownLayout b).text := rfl

@[simp] theorem shownLayout_empty : (g.shownLayout .empty).text = "" := rfl

@[simp] theorem shownLayout_text (s : String) : (g.shownLayout (.text s)).text = s := rfl

@[simp] theorem shownLayout_sign (s : String) : (g.shownLayout (.sign s)).text = s := rfl

@[simp] theorem shownLayout_type (p : Place) :
    (g.shownLayout (.type p)).text = (g.shownType p).text := rfl

theorem shownLayout_separated (sep : String) (ls : List Layout) :
    (g.shownLayout (Layout.separated (.text sep) ls)).text =
      Text.joinWith sep (ls.map fun l => (g.shownLayout l).text) := by
  induction ls with
  | nil => rfl
  | cons l rest ih =>
    cases rest with
    | nil => rfl
    | cons l' rest =>
      rw [Layout.separated, shownLayout_append, shownLayout_append, ih, shownLayout_text,
        ← String.append_assoc]
      · rfl
      · simp

/-- A heritage clause with an entry is not empty. -/
theorem heritageText_eq_empty_iff {entries : List (String × Bool)} :
    Layout.heritageText entries = "" ↔ entries = [] := by
  refine ⟨fun h => ?_, fun h => by rw [h]; rfl⟩
  rw [← Layout.heritageParts_eq_nil_iff]
  have hword : ∀ w ∈ Layout.heritageParts entries, w ≠ "" := by
    intro w hw
    simp only [Layout.heritageParts, List.mem_append] at hw
    rcases hw with hw | hw <;>
    · split at hw
      · cases hw
      · rw [List.mem_singleton.mp hw]
        simp [String.append_eq_empty_iff]
  rw [Layout.heritageText] at h
  rcases hparts : Layout.heritageParts entries with _ | ⟨w, _ | ⟨w', rest⟩⟩
  · rfl
  · rw [hparts] at h
    exact absurd h (hword w (by simp [hparts]))
  · rw [hparts, Text.joinWith, String.append_eq_empty_iff, String.append_eq_empty_iff] at h
    · exact absurd h.1.1 (hword w (by simp [hparts]))
    · simp

/-- What is seen of a node that is printed without dots. -/
theorem shownType_eq {p : Place} (hp : g.PrintsFinitely p) (hrest : (g.node p).has .rest = false) :
    g.shownType p = g.shownLayout (g.typeRule p) := by
  rw [shownType, Node.dotted, if_neg (by simp [hrest]), shownFrom_of_finite hp]

/-- What is seen of a reference. -/
theorem shownType_reference {p : Place} (hp : g.PrintsFinitely p)
    (hrest : (g.node p).has .rest = false) (hk : (g.node p).kind = .reference) :
    (g.shownType p).text =
      (g.node p).label ++ (g.shownLayout (g.typeArguments (g.node p).typeParameters)).text := by
  rw [shownType_eq hp hrest, typeRule]
  simp only [hk]
  rfl

/-! ## The nodes printed -/

theorem types_typeArguments (ps : Option (List Place)) :
    (g.typeArguments ps).types = (ps.getD []).flatMap fun a => (g.typeArgument a).types := by
  rcases ps with _ | _ | ⟨p, ps⟩
  · rfl
  · rfl
  · simp [typeArguments, Layout.types_append, Layout.types_separated, Layout.types, List.flatMap_map]

theorem types_optional (p : Option Place) : (Layout.optional p).types = p.toList := by
  cases p <;> rfl

theorem types_signatureParameters (ps : Option (List Place)) :
    (g.signatureParameters ps).types = (ps.getD []).flatMap fun q => (g.node q).type.toList := by
  cases ps with
  | none => rfl
  | some ps =>
    simp [signatureParameters, parameter, Layout.types_append, Layout.types_separated, Layout.types,
      List.flatMap_map, types_optional]

theorem types_signatureType (n : Node) : (signatureType n).types = n.type.toList := by
  unfold signatureType
  split
  · rename_i ht
    rw [ht]
    rfl
  · rename_i t ht
    rw [ht]
    split <;> rfl

theorem types_signatureValue (value : Option String) : (signatureValue value).types = [] := by
  unfold signatureValue
  split
  · split <;> rfl
  · rfl

/-- Without type arguments there are no brackets. -/
theorem typeArguments_of_nil {n : Node} (h : n.arguments = []) :
    g.typeArguments n.typeParameters = .empty := by
  rw [Node.arguments] at h
  rcases hn : n.typeParameters with _ | _ | _
  · rfl
  · rfl
  · rw [hn] at h
    cases h

/-! ## Headings, one level at a time -/

/-- Keys stand behind their owner, so any depth beyond the rest of the table is enough. -/
theorem headingFrom_eq (hg : g.Sound) (m n : Nat) (p : Place) (hm : g.size - p < m)
    (hn : g.size - p < n) : g.headingFrom m p = g.headingFrom n p := by
  induction m generalizing n p with
  | zero => omega
  | succ m ih =>
    obtain ⟨n, rfl⟩ : ∃ k, n = k + 1 := ⟨n - 1, by omega⟩
    have hkeys : ((g.node p).parameters.getD []).map (g.headingFrom m) =
        ((g.node p).parameters.getD []).map (g.headingFrom n) := by
      refine List.map_congr_left fun q hq => ?_
      have howned := hg.owned (Node.mem_owned_of_mem_parts (List.mem_append_right _ hq))
      have hlt : g.size - q < g.size - p :=
        Nat.sub_lt_sub_left (Nat.lt_trans howned.1 howned.2) howned.1
      exact ih n q (by omega) (by omega)
    rw [headingFrom, headingFrom, hkeys]

theorem signatureText_indexSignature (hg : g.Sound) {p : Place}
    (hk : (g.node p).kind = .indexSignature) : g.signatureText p = g.indexSignature p := by
  have hkeys : ((g.node p).parameters.getD []).map (g.headingFrom g.size) =
      ((g.node p).parameters.getD []).map g.signatureText := by
    refine List.map_congr_left fun q hq => ?_
    have howned := hg.owned (Node.mem_owned_of_mem_parts (List.mem_append_right _ hq))
    have hlt : g.size - q < g.size :=
      Nat.sub_lt (Nat.zero_lt_of_lt howned.2) (Nat.zero_lt_of_lt howned.1)
    exact headingFrom_eq hg _ _ q hlt (by omega)
  rw [signatureText, headingFrom, indexSignature, hkeys]
  simp only [hk]

theorem signatureText_moduleFile {p : Place} (hk : (g.node p).kind = .moduleFile) :
    g.signatureText p = .text (g.node p).name := by
  rw [signatureText, headingFrom]
  simp only [hk]

theorem signatureText_plain {p : Place} (hk : (g.node p).kind ≠ .moduleFile)
    (hk' : (g.node p).kind ≠ .indexSignature) :
    g.signatureText p = signatureName (g.node p) ++ g.typeArguments (g.node p).typeParameters ++
      g.signatureParameters (g.node p).parameters ++ signatureType (g.node p) ++
      signatureValue (g.node p).value := by
  rw [signatureText, headingFrom]
  split
  · contradiction
  · contradiction
  · rfl

end Graph

end SymbolDocs
