import Mathlib
import SymbolDocs.Proofs.References
import SymbolDocs.Text.Search

/-!
# What markup reads as

The visible text of markup is found in two passes, one that cuts tags and one that replaces
references. Either pass can look past the end of a piece of markup, so in general the visible text
of `a ++ b` is not put together from those of `a` and `b`. It is when `a` is complete: no tag or
reference begun in it is still open at its end.

* `Markup.Spells` says that a list of characters is complete and what it reads as, whatever follows;
* `Markup.Reads` says it of texts, and `Reads.visible` gives the visible text back;
* escaped text reads as the text (`reads_escape`), a tag as nothing (`spells_tag`), and complete
  pieces can be put together (`Reads.append`).
-/

namespace SymbolDocs.Markup

/-- Whatever follows `m`, cutting tags and replacing references turns `m` into `t` and goes on with
what follows. -/
def Spells (m t : List Char) : Prop :=
  ∃ u, (∀ k, stripTags (m ++ k) = u ++ stripTags k) ∧
    ∀ k, unescapeChars (u ++ k) = t ++ unescapeChars k

namespace Spells

theorem nil : Spells [] [] := ⟨[], fun _ => rfl, fun _ => rfl⟩

theorem append {a b x y : List Char} (ha : Spells a x) (hb : Spells b y) :
    Spells (a ++ b) (x ++ y) := by
  obtain ⟨u, hu, hx⟩ := ha
  obtain ⟨v, hv, hy⟩ := hb
  refine ⟨u ++ v, fun k => ?_, fun k => ?_⟩
  · rw [List.append_assoc, hu, hv, List.append_assoc]
  · rw [List.append_assoc, hx, hy, List.append_assoc]

theorem flatMap {f : Char → List Char} (hf : ∀ c, Spells (f c) [c]) (cs : List Char) :
    Spells (cs.flatMap f) cs := by
  induction cs with
  | nil => exact nil
  | cons c cs ih => exact (hf c).append ih

/-- Without a bracket in it, only references can change a piece. -/
theorem of_references {m t : List Char} (hm : '<' ∉ m)
    (h : ∀ k, unescapeChars (m ++ k) = t ++ unescapeChars k) : Spells m t := by
  refine ⟨m, fun k => ?_, h⟩
  clear h
  induction m with
  | nil => rfl
  | cons c cs ih =>
    have hc : c ≠ '<' := fun e => hm (by simp [e])
    have ih := ih fun h => hm (List.mem_cons_of_mem _ h)
    simp only [stripTags, List.cons_append, stripTagsFrom, if_neg hc] at ih ⊢
    rw [ih]

end Spells

/-- A reference to one of the escaped characters. -/
theorem unescapeChars_escapes {name : List Char} {c : Char} (h : (name, c) ∈ escapes) (k : List Char) :
    unescapeChars ('&' :: name ++ k) = [c] ++ unescapeChars k := by
  have skip : ∀ n (cs : List Char), cs.length = n → unescapeFrom n (cs ++ k) = unescapeFrom 0 k := by
    intro n
    induction n with
    | zero => rintro cs hcs; rw [List.length_eq_zero_iff.mp hcs, List.nil_append]
    | succ n ih =>
      rintro (_ | ⟨d, cs⟩) hcs
      · simp at hcs
      · exact ih cs (by simpa using hcs)
  simp only [unescapeChars, List.cons_append, unescapeFrom, if_true, reference_escapes h,
    skip _ name rfl]

theorem spells_escapeChar (c : Char) : Spells (escapeChar c) [c] := by
  unfold escapeChar
  split
  · rename_i h
    subst h
    exact .of_references (by decide) (unescapeChars_escapes (c := '&') (by decide))
  split
  · rename_i h
    subst h
    exact .of_references (by decide) (unescapeChars_escapes (c := '<') (by decide))
  split
  · rename_i h
    subst h
    exact .of_references (by decide) (unescapeChars_escapes (c := '"') (by decide))
  · rename_i hamp hlt _
    refine .of_references (by simpa using Ne.symm hlt) fun k => ?_
    simp [unescapeChars, unescapeFrom, hamp]

theorem spells_signChar (c : Char) : Spells (signChar c) [c] := by
  unfold signChar
  split
  · rename_i h
    subst h
    exact .of_references (by decide) (unescapeChars_escapes (c := '>') (by decide))
  · exact spells_escapeChar c

/-- A tag is cut out. -/
theorem stripTags_tag {body : List Char} (hne : body ≠ []) (hbody : '>' ∉ body) (k : List Char) :
    stripTags ('<' :: body ++ '>' :: k) = stripTags k := by
  have htake : (body ++ '>' :: k).takeWhile (· != '>') = body := by
    rw [List.takeWhile_append_of_pos (fun c hc => by
      simpa using fun e : c = '>' => hbody (e ▸ hc))]
    simp
  have hlen : tagLength? (body ++ '>' :: k) = some (body.length + 1) := by
    simp [tagLength?, htake, hne]
  have skip : ∀ (cs : List Char), stripTagsFrom (cs.length + 1) (cs ++ '>' :: k) = stripTagsFrom 0 k := by
    intro cs
    induction cs with
    | nil => rfl
    | cons c cs ih => exact ih
  simp only [stripTags, List.cons_append, stripTagsFrom, if_true, hlen, skip]

/-- Nothing of a tag is seen. -/
theorem spells_tag {body : List Char} (hne : body ≠ []) (hbody : '>' ∉ body) :
    Spells ('<' :: body ++ ['>']) [] := by
  refine ⟨[], fun k => ?_, fun k => rfl⟩
  rw [List.append_assoc]
  exact stripTags_tag hne hbody k

/-! ## Texts -/

/-- The markup `m` is complete and reads as `t`. -/
def Reads (m t : String) : Prop :=
  Spells m.toList t.toList

namespace Reads

theorem visible {m t : String} (h : Reads m t) : Markup.visible m = t := by
  obtain ⟨u, hu, ht⟩ := h
  have hu := hu []
  have ht := ht []
  rw [List.append_nil] at hu ht
  rw [Markup.visible, hu, show stripTags [] = [] from rfl, List.append_nil, ht]
  exact (congrArg String.ofList (List.append_nil _)).trans String.ofList_toList

theorem empty : Reads "" "" := by
  rw [Reads, String.toList_empty]
  exact .nil

theorem append {a b x y : String} (ha : Reads a x) (hb : Reads b y) : Reads (a ++ b) (x ++ y) := by
  rw [Reads, String.toList_append, String.toList_append]
  exact Spells.append ha hb

/-- Text of the graph reads as it is. -/
theorem escape (s : String) : Reads (Markup.escape s) s := by
  rw [Reads, Markup.escape, String.toList_ofList]
  exact Spells.flatMap spells_escapeChar _

/-- A sign of the printer reads as it is. -/
theorem sign (s : String) : Reads (Markup.sign s) s := by
  rw [Reads, Markup.sign, String.toList_ofList]
  exact Spells.flatMap spells_signChar _

/-- Text without brackets and ampersands is its own markup. -/
theorem plain {s : String} (hlt : '<' ∉ s.toList) (hamp : '&' ∉ s.toList) : Reads s s := by
  refine .of_references hlt fun k => ?_
  generalize s.toList = cs at hamp
  induction cs with
  | nil => rfl
  | cons c cs ih =>
    rw [List.mem_cons, not_or] at hamp
    simp only [unescapeChars, List.cons_append, unescapeFrom, if_neg (Ne.symm hamp.1)] at ih ⊢
    rw [ih hamp.2]

theorem tag {body : String} (hne : body.toList ≠ []) (hbody : '>' ∉ body.toList) :
    Reads ("<" ++ body ++ ">") "" := by
  rw [Reads, String.toList_append, String.toList_append, String.toList_empty]
  exact spells_tag hne hbody

/-- Joined pieces. -/
theorem joinWith {sep sep' : String} (hsep : Reads sep sep') {ms ts : List String}
    (h : List.Forall₂ Reads ms ts) : Reads (Text.joinWith sep ms) (Text.joinWith sep' ts) := by
  induction h with
  | nil => exact empty
  | cons hm hms ih =>
    cases hms with
    | nil => exact hm
    | cons _ _ => exact (hm.append hsep).append ih

end Reads

end SymbolDocs.Markup
