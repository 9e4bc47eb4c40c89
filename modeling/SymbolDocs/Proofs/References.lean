import SymbolDocs.Markup.Strip

/-!
# References in escaped text

Text and signs enter markup with four references and no others: those to the ampersand, to both angle
brackets and to the double quote. Text put together of such pieces has only these, and cutting tags out of
it leaves them whole, since no name holds a bracket. So whatever else the table of entities lists, nothing
of it is looked up when such markup is read back.

* `Markup.reference_escapes` reads one of the four references back;
* `Markup.EscapedOnly` says that every ampersand starts one of them;
* `EscapedOnly.escape` and `EscapedOnly.sign` say it of the pieces, and `EscapedOnly.append` of their
  concatenation;
* `EscapedOnly.stripTags` says that it is still so without the tags.
-/

namespace SymbolDocs.Markup

/-- The references that escaping writes, behind their ampersands, and what they stand for. -/
def escapes : List (List Char × Char) :=
  [(['a', 'm', 'p', ';'], '&'), (['l', 't', ';'], '<'), (['g', 't', ';'], '>'),
    (['q', 'u', 'o', 't', ';'], '"')]

theorem reference_escapes {name : List Char} {c : Char} (h : (name, c) ∈ escapes) (k : List Char) :
    reference (name ++ k) = ([c], name.length) := by
  have hall : ∀ e ∈ escapes, reference (e.1 ++ k) = ([e.2], e.1.length) := by
    simp [escapes, reference, List.takeWhile, isNameChar, entity?, entities]
  exact hall _ h

/-- One of these references stands in front, without its ampersand. -/
def StartsEscape (cs : List Char) : Prop :=
  ∃ e ∈ escapes, e.1 <+: cs

/-- It is read as what it stands for. -/
theorem StartsEscape.reference {cs : List Char} (h : StartsEscape cs) :
    ∃ e ∈ escapes, reference cs = ([e.2], e.1.length) := by
  obtain ⟨e, he, k, rfl⟩ := h
  exact ⟨e, he, reference_escapes he k⟩

theorem StartsEscape.append {cs : List Char} (h : StartsEscape cs) (k : List Char) :
    StartsEscape (cs ++ k) := by
  obtain ⟨e, he, hprefix⟩ := h
  exact ⟨e, he, hprefix.trans (List.prefix_append cs k)⟩

/-- Behind every ampersand stands one of the references that escaping writes. -/
def EscapedOnly (cs : List Char) : Prop :=
  ∀ rest, '&' :: rest <:+ cs → StartsEscape rest

namespace EscapedOnly

theorem cons_iff {c : Char} {cs : List Char} :
    EscapedOnly (c :: cs) ↔ (c = '&' → StartsEscape cs) ∧ EscapedOnly cs := by
  constructor
  · refine fun h => ⟨?_, fun rest hrest => h rest (hrest.trans (List.suffix_cons c cs))⟩
    rintro rfl
    exact h cs List.suffix_rfl
  · rintro ⟨hc, hcs⟩ rest hrest
    rcases List.suffix_cons_iff.mp hrest with heq | hrest
    · obtain ⟨rfl, rfl⟩ := List.cons.inj heq
      exact hc rfl
    · exact hcs rest hrest

theorem of_not_mem {cs : List Char} (h : '&' ∉ cs) : EscapedOnly cs :=
  fun _ hrest => absurd (hrest.subset List.mem_cons_self) h

theorem append {a b : List Char} (ha : EscapedOnly a) (hb : EscapedOnly b) : EscapedOnly (a ++ b) := by
  induction a with
  | nil => exact hb
  | cons c cs ih =>
    obtain ⟨hc, hcs⟩ := cons_iff.mp ha
    exact cons_iff.mpr ⟨fun hamp => (hc hamp).append b, ih hcs⟩

theorem flatMap {f : Char → List Char} (hf : ∀ c, EscapedOnly (f c)) (cs : List Char) :
    EscapedOnly (cs.flatMap f) := by
  induction cs with
  | nil => exact of_not_mem List.not_mem_nil
  | cons c cs ih => exact (hf c).append ih

/-- One of the references. -/
theorem reference {name : List Char} {c : Char} (h : (name, c) ∈ escapes) :
    EscapedOnly ('&' :: name) := by
  have hamp : ∀ e ∈ escapes, '&' ∉ e.1 := by decide
  exact cons_iff.mpr ⟨fun _ => ⟨_, h, List.prefix_rfl⟩, of_not_mem (hamp _ h)⟩

theorem escapeChar (c : Char) : EscapedOnly (Markup.escapeChar c) := by
  unfold Markup.escapeChar
  split
  · exact reference (c := '&') (by decide)
  split
  · exact reference (c := '<') (by decide)
  split
  · exact reference (c := '"') (by decide)
  · rename_i hamp _ _
    exact of_not_mem (by simpa using Ne.symm hamp)

theorem signChar (c : Char) : EscapedOnly (Markup.signChar c) := by
  unfold Markup.signChar
  split
  · exact reference (c := '>') (by decide)
  · exact escapeChar c

theorem escape (s : String) : EscapedOnly (Markup.escape s).toList := by
  rw [Markup.escape, String.toList_ofList]
  exact flatMap escapeChar _

theorem sign (s : String) : EscapedOnly (Markup.sign s).toList := by
  rw [Markup.sign, String.toList_ofList]
  exact flatMap signChar _

end EscapedOnly

/-- What opens no tag stays in front when tags are cut out behind it. -/
theorem prefix_stripTagsFrom {a cs : List Char} (ha : '<' ∉ a) (h : a <+: cs) :
    a <+: stripTagsFrom 0 cs := by
  induction a generalizing cs with
  | nil => exact List.nil_prefix
  | cons c a ih =>
    obtain ⟨k, rfl⟩ := h
    rw [List.mem_cons, not_or] at ha
    obtain ⟨hc, ha⟩ := ha
    rw [List.cons_append, stripTagsFrom, if_neg (Ne.symm hc)]
    exact List.cons_prefix_cons.mpr ⟨rfl, ih ha (List.prefix_append a k)⟩

theorem StartsEscape.stripTags {cs : List Char} (h : StartsEscape cs) :
    StartsEscape (stripTagsFrom 0 cs) := by
  obtain ⟨e, he, hprefix⟩ := h
  have hbracket : ∀ e ∈ escapes, '<' ∉ e.1 := by decide
  exact ⟨e, he, prefix_stripTagsFrom (hbracket e he) hprefix⟩

theorem EscapedOnly.stripTagsFrom {cs : List Char} (h : EscapedOnly cs) (skip : Nat) :
    EscapedOnly (stripTagsFrom skip cs) := by
  induction cs generalizing skip with
  | nil => cases skip <;> exact h
  | cons c cs ih =>
    obtain ⟨hc, hcs⟩ := cons_iff.mp h
    have hkept : EscapedOnly (c :: Markup.stripTagsFrom 0 cs) :=
      cons_iff.mpr ⟨fun hamp => (hc hamp).stripTags, ih hcs 0⟩
    cases skip with
    | succ skip => exact ih hcs skip
    | zero =>
      rw [Markup.stripTagsFrom]
      split
      · split
        · exact ih hcs _
        · exact hkept
      · exact hkept

/-- Cutting tags out leaves every reference whole. -/
theorem EscapedOnly.stripTags {cs : List Char} (h : EscapedOnly cs) : EscapedOnly (stripTags cs) :=
  h.stripTagsFrom 0

end SymbolDocs.Markup
