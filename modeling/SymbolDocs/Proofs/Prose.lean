import SymbolDocs.Documentation.Render
import SymbolDocs.Proofs.Navigating
import SymbolDocs.Proofs.Swapping
import SymbolDocs.Proofs.Work

/-!
# Links in prose

Prose is laid out with a mark in the place of each link, and the marks are replaced when the layout is
done. What is meant by that is another thing: a link is one glyph of the prose, as a letter is, and the
layout moves glyphs. Here both are compared, for prose that is not markdown.

* `Glyph.layout` lays out glyphs, `Glyph.spell` writes them with a word for each link;
* `Glyph.spell_layout` says that the layout of spelled glyphs is the spelled layout, if the words for
  links have no blanks;
* `Glyph.replaceMarks_spell` replaces the marks by the links;
* `Site.prose_exact` is the result: prose is what is meant, unless that has a mark in it;
* `Site.prose_takes_mark` shows that text which reads like a mark is lost.
-/

namespace SymbolDocs

/-- What the links among spans lead to. -/
def linkValues (spans : List DocSpan) : List String :=
  (spans.filter fun span => span.tag = some "link").map DocSpan.value

theorem linkValues_link {span : DocSpan} (h : span.tag = some "link") (rest : List DocSpan) :
    linkValues (span :: rest) = span.value :: linkValues rest := by
  simp [linkValues, h]

theorem linkValues_text {span : DocSpan} (h : span.tag ≠ some "link") (rest : List DocSpan) :
    linkValues (span :: rest) = linkValues rest := by
  simp [linkValues, h]

/-- A character of prose, or the link with a number. -/
inductive Glyph where
  | char (c : Char)
  | link (k : Nat)
  deriving DecidableEq

namespace Glyph

/-! ## Layout -/

/-- A link is not blank. -/
def isBlank : Glyph → Bool
  | char c => Text.isBlank c
  | link _ => false

/-- Characters as glyphs. -/
def ofText (cs : List Char) : List Glyph :=
  cs.map char

/-- The glyphs of spans, whose links have numbers from `count` on. -/
def ofSpans : Nat → List DocSpan → List Glyph
  | _, [] => []
  | count, span :: rest =>
    if span.tag = some "link" then link count :: ofSpans (count + 1) rest
    else ofText span.value.toList ++ ofSpans count rest

/-- Without the blanks at either end. -/
def trim (gs : List Glyph) : List Glyph :=
  ((gs.dropWhile isBlank).reverse.dropWhile isBlank).reverse

/-- Characters are escaped, links are not. -/
def escape (gs : List Glyph) : List Glyph :=
  gs.flatMap fun
    | char c => ofText (Markup.escapeChar c)
    | link k => [link k]

/-- How many of the blanks after a line end lie before the end of their last line. -/
def blankLines (gs : List Glyph) : Nat :=
  ((gs.takeWhile isBlank).reverse.dropWhile (· != char '\n')).length

/-- Cuts prose where a line end is followed by blanks with another one; `skip` glyphs of such a stretch
are still to be passed over. -/
def splitParagraphs : Nat → List Glyph → List (List Glyph)
  | _, [] => [[]]
  | skip + 1, _ :: gs => splitParagraphs skip gs
  | 0, g :: gs =>
    if g = char '\n' ∧ 0 < blankLines gs then [] :: splitParagraphs (blankLines gs) gs
    else (splitParagraphs 0 gs).modifyHead (g :: ·)

/-- The paragraphs of prose, without blanks around them. -/
def paragraphs (gs : List Glyph) : List (List Glyph) :=
  ((splitParagraphs 0 (trim gs)).map trim).filter fun p => !p.isEmpty

/-- Does prose without the blanks around it fit on one line? -/
def fitsLine (gs : List Glyph) : Bool :=
  !(trim gs).contains (char '\n')

/-- A paragraph in its element. -/
def inElement (p : List Glyph) : List Glyph :=
  ofText ['<', 'p', '>'] ++ p ++ ofText ['<', '/', 'p', '>']

/-- Prose in a line or in paragraphs. -/
def layout (inLine : Bool) (gs : List Glyph) : List Glyph :=
  if inLine then escape (trim gs) else (paragraphs (escape gs)).flatMap inElement

/-- Writes glyphs, with a word for each link. -/
def spell (word : Nat → List Char) (gs : List Glyph) : List Char :=
  gs.flatMap fun
    | char c => [c]
    | link k => word k

/-! ## Spelling -/

section Spelling

variable {word word' : Nat → List Char}

@[simp] theorem spell_nil : spell word [] = [] := rfl

@[simp] theorem spell_char (c : Char) (gs : List Glyph) :
    spell word (char c :: gs) = c :: spell word gs := rfl

@[simp] theorem spell_link (k : Nat) (gs : List Glyph) :
    spell word (link k :: gs) = word k ++ spell word gs := rfl

@[simp] theorem spell_append (gs hs : List Glyph) :
    spell word (gs ++ hs) = spell word gs ++ spell word hs :=
  List.flatMap_append

@[simp] theorem spell_ofText (cs : List Char) : spell word (ofText cs) = cs := by
  induction cs with
  | nil => rfl
  | cons c cs ih => rw [ofText, List.map_cons, spell_char, ← ofText, ih]

/-- Only the words of links that occur matter. -/
theorem spell_congr {gs : List Glyph} (h : ∀ k, link k ∈ gs → word k = word' k) :
    spell word gs = spell word' gs := by
  induction gs with
  | nil => rfl
  | cons g gs ih =>
    have htail := ih fun k hk => h k (List.mem_cons_of_mem _ hk)
    cases g with
    | char c => rw [spell_char, spell_char, htail]
    | link k => rw [spell_link, spell_link, htail, h k List.mem_cons_self]

theorem reverse_spell (gs : List Glyph) :
    (spell word gs).reverse = spell (fun k => (word k).reverse) gs.reverse := by
  induction gs with
  | nil => rfl
  | cons g gs ih => cases g <;> simp [ih]

end Spelling

theorem escape_char (c : Char) (gs : List Glyph) :
    escape (char c :: gs) = ofText (Markup.escapeChar c) ++ escape gs := rfl

theorem escape_link (k : Nat) (gs : List Glyph) : escape (link k :: gs) = link k :: escape gs := rfl

/-! ## The layout of words -/

/-- A word that the layout leaves whole. -/
structure IsWord (w : List Char) : Prop where
  ne_nil : w ≠ []
  solid : ∀ c ∈ w, Text.isBlank c = false
  plain : ∀ c ∈ w, Markup.escapeChar c = [c]

theorem IsWord.reverse {w : List Char} (h : IsWord w) : IsWord w.reverse where
  ne_nil := by simpa using h.ne_nil
  solid c hc := h.solid c (List.mem_reverse.mp hc)
  plain c hc := h.plain c (List.mem_reverse.mp hc)

theorem IsWord.newline_notMem {w : List Char} (h : IsWord w) : '\n' ∉ w := fun hmem =>
  absurd (h.solid _ hmem) (by decide)

theorem IsWord.escapeChars {w : List Char} (h : IsWord w) : Markup.escapeChars w = w := by
  have hplain : w.flatMap Markup.escapeChar = w.flatMap fun c => [c] := List.flatMap_congr h.plain
  rw [Markup.escapeChars, hplain, List.flatMap_singleton']

section Words

variable {word : Nat → List Char}

theorem dropWhile_spell (hw : ∀ k, IsWord (word k)) (gs : List Glyph) :
    (spell word gs).dropWhile Text.isBlank = spell word (gs.dropWhile isBlank) := by
  induction gs with
  | nil => rfl
  | cons g gs ih =>
    cases g with
    | char c =>
      cases hc : Text.isBlank c
      · simp [isBlank, hc]
      · simpa [isBlank, hc] using ih
    | link k =>
      obtain ⟨c, cs, hcs⟩ := List.exists_cons_of_ne_nil (hw k).ne_nil
      have hc := (hw k).solid c (hcs ▸ List.mem_cons_self)
      simp [isBlank, hcs, hc]

theorem trim_spell (hw : ∀ k, IsWord (word k)) (gs : List Glyph) :
    Text.trim (spell word gs) = spell word (trim gs) := by
  rw [Text.trim, Text.trimEnd, Text.trimStart, dropWhile_spell hw, reverse_spell,
    dropWhile_spell fun k => (hw k).reverse, reverse_spell]
  simp only [List.reverse_reverse]
  rfl

theorem escapeChars_spell (hw : ∀ k, IsWord (word k)) (gs : List Glyph) :
    Markup.escapeChars (spell word gs) = spell word (escape gs) := by
  induction gs with
  | nil => rfl
  | cons g gs ih =>
    cases g with
    | char c =>
      rw [escape_char, spell_append, spell_ofText, ← ih]
      rfl
    | link k =>
      rw [escape_link, spell_link, spell_link, Markup.escapeChars_append, (hw k).escapeChars, ih]

theorem newline_mem_spell (hw : ∀ k, IsWord (word k)) (gs : List Glyph) :
    '\n' ∈ spell word gs ↔ char '\n' ∈ gs := by
  induction gs with
  | nil => simp
  | cons g gs ih =>
    cases g with
    | char c => simp [ih]
    | link k => simp [ih, (hw k).newline_notMem]

theorem fitsLine_spell (hw : ∀ k, IsWord (word k)) (gs : List Glyph) :
    SymbolDocs.fitsLine (String.ofList (spell word gs)) = fitsLine gs := by
  have hmem := newline_mem_spell hw (trim gs)
  rw [SymbolDocs.fitsLine, fitsLine, String.toList_ofList, trim_spell hw]
  congr 1
  rw [Bool.eq_iff_iff]
  simpa using hmem

/-! ## Paragraphs -/

/-- The blanks in front are characters. -/
theorem takeWhile_spell (hw : ∀ k, IsWord (word k)) (gs : List Glyph) :
    gs.takeWhile isBlank = ofText ((spell word gs).takeWhile Text.isBlank) := by
  induction gs with
  | nil => rfl
  | cons g gs ih =>
    cases g with
    | char c =>
      cases hc : Text.isBlank c
      · simp [isBlank, hc, ofText]
      · simpa [isBlank, hc, ofText] using ih
    | link k =>
      obtain ⟨c, cs, hcs⟩ := List.exists_cons_of_ne_nil (hw k).ne_nil
      have hc := (hw k).solid c (hcs ▸ List.mem_cons_self)
      simp [isBlank, hcs, hc, ofText]

theorem blankLines_spell (hw : ∀ k, IsWord (word k)) (gs : List Glyph) :
    SymbolDocs.blankLines (spell word gs) = blankLines gs := by
  have hend : (fun g => g != char '\n') ∘ char = fun c => c != '\n' := by
    funext c
    rw [Bool.eq_iff_iff]
    simp
  rw [SymbolDocs.blankLines, blankLines, takeWhile_spell hw, ofText, ← List.map_reverse,
    List.dropWhile_map, hend, List.length_map]

theorem blankLines_le (gs : List Glyph) : blankLines gs ≤ (gs.takeWhile isBlank).length := by
  rw [blankLines, ← (gs.takeWhile isBlank).length_reverse]
  exact (List.dropWhile_sublist _).length_le

theorem splitParagraphs_ne_nil (skip : Nat) (cs : List Char) :
    SymbolDocs.splitParagraphs skip cs ≠ [] := by
  fun_induction SymbolDocs.splitParagraphs skip cs <;> simp_all

/-- A character that ends no paragraph goes to the first one. -/
theorem splitParagraphs_cons {c : Char} {cs : List Char}
    (h : ¬(c = '\n' ∧ 0 < SymbolDocs.blankLines cs)) :
    SymbolDocs.splitParagraphs 0 (c :: cs) = (SymbolDocs.splitParagraphs 0 cs).modifyHead (c :: ·) := by
  rw [SymbolDocs.splitParagraphs, if_neg (by simpa using h)]
  cases hps : SymbolDocs.splitParagraphs 0 cs with
  | nil => exact absurd hps (splitParagraphs_ne_nil 0 cs)
  | cons p ps => rfl

theorem splitParagraphs_append {t : List Char} (ht : '\n' ∉ t) (cs : List Char) :
    SymbolDocs.splitParagraphs 0 (t ++ cs) = (SymbolDocs.splitParagraphs 0 cs).modifyHead (t ++ ·) := by
  induction t with
  | nil => exact (congrFun List.modifyHead_id _).symm
  | cons c t ih =>
    have hc : c ≠ '\n' := fun h => ht (h ▸ List.mem_cons_self)
    rw [List.cons_append, splitParagraphs_cons fun h => hc h.1,
      ih fun h => ht (List.mem_cons_of_mem _ h), List.modifyHead_modifyHead]
    rfl

theorem map_modifyHead {f : List Glyph → List Glyph} {f' : List Char → List Char}
    (hf : ∀ gs, spell word (f gs) = f' (spell word gs)) (ps : List (List Glyph)) :
    (ps.modifyHead f).map (spell word) = (ps.map (spell word)).modifyHead f' := by
  cases ps with
  | nil => rfl
  | cons p ps => simp [hf]

/-- Only blanks are passed over, so that the cuts are the same. -/
theorem splitParagraphs_spell (hw : ∀ k, IsWord (word k)) (gs : List Glyph) (skip : Nat)
    (hskip : skip ≤ (gs.takeWhile isBlank).length) :
    SymbolDocs.splitParagraphs skip (spell word gs) = (splitParagraphs skip gs).map (spell word) := by
  -- a link is passed over as a whole word, so only characters may be left to skip
  induction gs generalizing skip with
  | nil => cases skip <;> rfl
  | cons g gs ih =>
    cases skip with
    | succ skip =>
      cases g with
      | char c =>
        cases hc : Text.isBlank c
        · simp [isBlank, hc] at hskip
        · have hskip' : skip ≤ (gs.takeWhile isBlank).length := by simpa [isBlank, hc] using hskip
          exact ih skip hskip'
      | link k => simp [isBlank] at hskip
    | zero =>
      cases g with
      | char c =>
        by_cases hend : c = '\n' ∧ 0 < blankLines gs
        · obtain ⟨rfl, hblank⟩ := hend
          have hrest := ih (blankLines gs) (blankLines_le gs)
          simp [splitParagraphs, SymbolDocs.splitParagraphs, blankLines_spell hw, hblank, hrest]
        · rw [spell_char, splitParagraphs_cons (by rwa [blankLines_spell hw]), ih 0 (Nat.zero_le _),
            splitParagraphs, if_neg (by simpa using hend)]
          exact (map_modifyHead (fun _ => rfl) _).symm
      | link k =>
        rw [spell_link, splitParagraphs_append (hw k).newline_notMem, ih 0 (Nat.zero_le _),
          splitParagraphs, if_neg (by simp)]
        exact (map_modifyHead (fun _ => rfl) _).symm

theorem isEmpty_spell (hw : ∀ k, IsWord (word k)) (gs : List Glyph) :
    (spell word gs).isEmpty = gs.isEmpty := by
  cases gs with
  | nil => rfl
  | cons g gs =>
    cases g with
    | char c => rfl
    | link k => simp [(hw k).ne_nil]

theorem paragraphs_spell (hw : ∀ k, IsWord (word k)) (gs : List Glyph) :
    SymbolDocs.paragraphs (String.ofList (spell word gs)) =
      ((paragraphs gs).map (spell word)).map String.ofList := by
  have htrim : Text.trim ∘ spell word = spell word ∘ trim := funext (trim_spell hw)
  have hempty : (fun p => !List.isEmpty p) ∘ spell word = fun p => !List.isEmpty p := by
    funext p
    rw [Function.comp_apply, isEmpty_spell hw]
  rw [SymbolDocs.paragraphs, paragraphs, String.toList_ofList, trim_spell hw,
    splitParagraphs_spell hw _ 0 (Nat.zero_le _), List.map_map, htrim, ← List.map_map, List.filter_map,
    hempty]

theorem formatContent_spell (hw : ∀ k, IsWord (word k)) (gs : List Glyph) :
    (formatContent (String.ofList (spell word gs))).toList =
      spell word ((paragraphs gs).flatMap inElement) := by
  rw [formatContent, paragraphs_spell hw]
  induction paragraphs gs with
  | nil => rfl
  | cons p ps ih =>
    rw [List.flatMap_cons, spell_append, ← ih]
    simp [String.join_cons, inElement]

/-- **Layout**: where words stand for the links, they go where the links go. -/
theorem spell_layout [Packages] (hw : ∀ k, IsWord (word k)) {site : Site}
    (hplain : site.options.markdown = false) (inLine : Bool) (gs : List Glyph) :
    site.proseText inLine (String.ofList (spell word gs)) =
      .ok (String.ofList (spell word (layout inLine gs))) := by
  cases inLine with
  | true =>
    simp only [Site.proseText, hplain, Bool.false_eq_true, if_false, if_true, Markup.escape, Text.strip,
      String.toList_ofList, trim_spell hw, escapeChars_spell hw]
    rfl
  | false =>
    have hlaid : formatContent (String.ofList (spell word (escape gs))) =
        String.ofList (spell word ((paragraphs (escape gs)).flatMap inElement)) := by
      rw [← String.toList_inj, formatContent_spell hw, String.toList_ofList]
    simp only [Site.proseText, hplain, Bool.false_eq_true, if_false, Markup.escape, String.toList_ofList,
      escapeChars_spell hw, hlaid]
    rfl

end Words

/-! ## The links of a layout -/

theorem mem_of_mem_trim {g : Glyph} {gs : List Glyph} (h : g ∈ trim gs) : g ∈ gs := by
  have hsub := (List.dropWhile_sublist isBlank).trans (List.reverse_sublist.mpr
    (List.dropWhile_sublist (l := gs) isBlank))
  exact List.mem_reverse.mp (hsub.subset (List.mem_reverse.mp h))

theorem link_mem_escape {k : Nat} {gs : List Glyph} (h : link k ∈ escape gs) : link k ∈ gs := by
  obtain ⟨g, hg, hk⟩ := List.mem_flatMap.mp h
  cases g with
  | char c => simp [ofText] at hk
  | link j =>
    have hkj : link k = link j := List.mem_singleton.mp hk
    rwa [hkj]

theorem mem_of_mem_splitParagraphs {g : Glyph} {skip : Nat} {gs p : List Glyph}
    (hp : p ∈ splitParagraphs skip gs) (hg : g ∈ p) : g ∈ gs := by
  fun_induction splitParagraphs skip gs generalizing p with
  | case1 => simp_all
  | case2 skip g' gs ih => exact List.mem_cons_of_mem _ (ih hp hg)
  | case3 g' gs hend ih =>
    rcases List.mem_cons.mp hp with rfl | hp
    · cases hg
    · exact List.mem_cons_of_mem _ (ih hp hg)
  | case4 g' gs hend ih =>
    cases hps : splitParagraphs 0 gs with
    | nil => simp [hps] at hp
    | cons q qs =>
      rw [hps, List.modifyHead_cons] at hp
      rw [hps] at ih
      rcases List.mem_cons.mp hp with rfl | hp
      · rcases List.mem_cons.mp hg with rfl | hg
        · exact List.mem_cons_self
        · exact List.mem_cons_of_mem _ (ih List.mem_cons_self hg)
      · exact List.mem_cons_of_mem _ (ih (List.mem_cons_of_mem _ hp) hg)

/-- The layout has no other links than the prose. -/
theorem link_mem_layout {k : Nat} {inLine : Bool} {gs : List Glyph} (h : link k ∈ layout inLine gs) :
    link k ∈ gs := by
  cases inLine with
  | true => exact mem_of_mem_trim (link_mem_escape h)
  | false =>
    obtain ⟨p, hp, hk⟩ := List.mem_flatMap.mp h
    have hk' : link k ∈ p := by simpa [inElement, ofText] using hk
    obtain ⟨q, hq, rfl⟩ := List.mem_map.mp (List.mem_of_mem_filter hp)
    exact link_mem_escape (mem_of_mem_trim (mem_of_mem_splitParagraphs hq (mem_of_mem_trim hk')))

end Glyph

/-! ## Marks -/

/-- Spells a link as its mark. -/
def Glyph.mark (k : Nat) : List Char :=
  (linkMark k).toList

/-- The letters of a mark in front of its number, without the first one. -/
def markStart : List Char :=
  ['O', 'C', 'G', 'R', 'A', 'P', 'H', 'L', 'I', 'N', 'K']

/-- A mark without the letter it starts and ends with. -/
def markBody (k : Nat) : List Char :=
  markStart ++ ((Text.natText k).toList ++ ['E', 'N'])

theorem Glyph.mark_eq (k : Nat) : Glyph.mark k = 'D' :: (markBody k ++ ['D']) := by
  have hstart : "DOCGRAPHLINK".toList = 'D' :: markStart := rfl
  have hend : "END".toList = ['E', 'N', 'D'] := rfl
  rw [Glyph.mark, linkMark, String.toList_append, String.toList_append, hstart, hend, markBody]
  simp

/-- A character that the layout leaves as it is, other than the letter of marks. -/
def isBody (c : Char) : Bool :=
  !Text.isBlank c && Markup.escapeChar c == [c] && c != 'D'

theorem isBody_of_isDigit {c : Char} (h : c.isDigit = true) : isBody c = true := by
  have hne : ∀ x : Char, x.isDigit = false → c ≠ x := by
    rintro x hx rfl
    exact Bool.noConfusion (h.symm.trans hx)
  have hescape : Markup.escapeChar c = [c] := by
    rw [Markup.escapeChar, if_neg (hne _ (by decide)), if_neg (hne _ (by decide)),
      if_neg (hne _ (by decide))]
  have hblank : Text.isBlank c = false := by
    simp only [Char.isDigit, Bool.and_eq_true, decide_eq_true_eq, UInt32.le_iff_toNat_le] at h
    have hlow : 48 ≤ c.toNat := h.1
    have hhigh : c.toNat ≤ 57 := h.2
    simp only [Text.isBlank, Bool.or_eq_false_iff, Bool.and_eq_false_iff, decide_eq_false_iff_not,
      beq_eq_false_iff_ne]
    omega
  simp [isBody, hescape, hblank, hne 'D' (by decide)]

theorem isBody_of_mem_markBody {k : Nat} {c : Char} (h : c ∈ markBody k) : isBody c = true := by
  have hstart : markStart.all isBody = true := by decide
  have hend : ['E', 'N'].all isBody = true := by decide
  rw [markBody, List.mem_append, List.mem_append] at h
  rcases h with h | h | h
  · exact List.all_eq_true.mp hstart c h
  · exact isBody_of_isDigit (Text.isDigit_of_mem_natText h)
  · exact List.all_eq_true.mp hend c h

/-- The letter stands nowhere else in a mark. -/
theorem notMem_markBody (k : Nat) : 'D' ∉ markBody k := fun h =>
  absurd (isBody_of_mem_markBody h) (by decide)

theorem Glyph.isWord_mark (k : Nat) : IsWord (mark k) := by
  have hplain : ∀ c ∈ mark k, Text.isBlank c = false ∧ Markup.escapeChar c = [c] := by
    intro c hc
    rw [mark_eq, List.mem_cons, List.mem_append, List.mem_singleton] at hc
    rcases hc with rfl | hc | rfl
    · decide
    · have hbody := isBody_of_mem_markBody hc
      simp only [isBody, Bool.and_eq_true, Bool.not_eq_true', beq_iff_eq] at hbody
      exact hbody.1
    · decide
  exact ⟨by simp [mark_eq], fun c hc => (hplain c hc).1, fun c hc => (hplain c hc).2⟩

/-- The bodies of different marks differ, whatever follows them. -/
theorem eq_of_markBody_append {j k : Nat} {cs ds : List Char}
    (h : markBody j ++ cs = markBody k ++ ds) : j = k := by
  have htake : ∀ i (es : List Char), ((Text.natText i).toList ++ 'E' :: es).takeWhile Char.isDigit =
      (Text.natText i).toList := by
    intro i es
    rw [List.takeWhile_append_of_pos fun c hc => Text.isDigit_of_mem_natText hc,
      List.takeWhile_cons_of_neg (by decide), List.append_nil]
  simp only [markBody, List.append_assoc, List.append_cancel_left_eq, List.cons_append] at h
  have hdigits := congrArg (List.takeWhile Char.isDigit) h
  rw [htake, htake] at hdigits
  exact Text.natText_injective (String.toList_injective hdigits)

namespace Glyph

/-- The glyphs with one link written out. -/
def put (k : Nat) (text : List Char) (gs : List Glyph) : List Glyph :=
  gs.flatMap fun
    | char c => [char c]
    | link j => if j = k then ofText text else [link j]

theorem put_char (k : Nat) (text : List Char) (c : Char) (gs : List Glyph) :
    put k text (char c :: gs) = char c :: put k text gs := rfl

theorem put_link (k : Nat) (text : List Char) (j : Nat) (gs : List Glyph) :
    put k text (link j :: gs) = (if j = k then ofText text else [link j]) ++ put k text gs := rfl

/-- Text that has not the letter of marks in it does not reach into a mark: it stands in front of the
first link, whatever is written for the links. -/
theorem prefix_spell {t : List Char} (ht : 'D' ∉ t) (word : Nat → List Char) {gs : List Glyph}
    (h : t <+: spell mark gs) : t <+: spell word gs := by
  induction gs generalizing t with
  | nil => exact h
  | cons g gs ih =>
    cases t with
    | nil => exact List.nil_prefix
    | cons a t =>
      cases g with
      | char c =>
        rw [spell_char, List.cons_prefix_cons] at h ⊢
        exact ⟨h.1, ih (fun hmem => ht (List.mem_cons_of_mem _ hmem)) h.2⟩
      | link k =>
        rw [spell_link, mark_eq, List.cons_append, List.cons_prefix_cons] at h
        exact absurd (h.1 ▸ List.mem_cons_self) ht

/-- Where the body of a mark does not stand in what is to be written, no mark starts with a letter that
is not the first one of a genuine mark. -/
theorem startsWith_mark {k : Nat} {word : Nat → List Char} {gs : List Glyph}
    (hclear : ¬ markBody k <:+: spell word gs) (c : Char) :
    Text.startsWith (c :: spell mark gs) (mark k) = false := by
  refine Bool.eq_false_iff.mpr fun hstarts => hclear ?_
  obtain ⟨rest, hrest⟩ := Text.startsWith_iff.mp hstarts
  rw [mark_eq, List.cons_append, List.append_assoc, List.cons.injEq] at hrest
  have hprefix : markBody k <+: spell mark gs := ⟨_, hrest.2.symm⟩
  exact (prefix_spell (notMem_markBody k) word hprefix).isInfix

/-- **One mark**: its link is written in its place, and nowhere else. -/
theorem replaceAll_spell {k : Nat} (text : List Char) {word : Nat → List Char} {gs : List Glyph}
    (hclear : ¬ markBody k <:+: spell word gs) :
    Text.replaceAll (mark k) text (spell mark gs) = spell mark (put k text gs) := by
  induction gs with
  | nil => simp [Text.replaceAll, Text.replaceFrom, put]
  | cons g gs ih =>
    cases g with
    | char c =>
      have hclear' : ¬ markBody k <:+: spell word gs := fun h =>
        hclear (h.trans (List.suffix_cons c _).isInfix)
      have hstarts := startsWith_mark hclear' c
      rw [mark_eq] at hstarts
      rw [put_char, spell_char, spell_char, ← ih hclear', mark_eq, Text.replaceAll_cons hstarts]
    | link j =>
      have hclear' : ¬ markBody k <:+: spell word gs := fun h =>
        hclear (h.trans (List.suffix_append _ _).isInfix)
      rw [put_link, spell_append, ← ih hclear', spell_link]
      by_cases hj : j = k
      · subst hj
        rw [if_pos rfl, spell_ofText, mark_eq, Text.replaceAll_pattern]
      · -- the other mark ends with a letter that a mark could start with
        have hstarts := startsWith_mark hclear' 'D'
        have hother : Text.startsWith ('D' :: (markBody j ++ 'D' :: spell mark gs)) (mark k) = false := by
          refine Bool.eq_false_iff.mpr fun hstarts => hj ?_
          obtain ⟨rest, hrest⟩ := Text.startsWith_iff.mp hstarts
          rw [mark_eq, List.cons_append, List.append_assoc, List.cons.injEq] at hrest
          exact eq_of_markBody_append hrest.2
        have hmark : mark j ++ spell mark gs = 'D' :: markBody j ++ 'D' :: spell mark gs := by
          simp [mark_eq]
        rw [mark_eq] at hstarts hother
        rw [if_neg hj, hmark, mark_eq, Text.replaceAll_other hother (notMem_markBody j),
          Text.replaceAll_cons hstarts]
        simp [mark_eq]

/-- Spells a link as it is printed, where the first link has number `i`. -/
def printed (i : Nat) (links : List String) (k : Nat) : List Char :=
  (links.getD (k - i) "").toList

/-- Links that are written out one after the other are written out. -/
theorem spell_put {i : Nat} (text : String) (links : List String) {gs : List Glyph}
    (hfrom : ∀ k, link k ∈ gs → i ≤ k) :
    spell (printed (i + 1) links) (put i text.toList gs) = spell (printed i (text :: links)) gs := by
  induction gs with
  | nil => rfl
  | cons g gs ih =>
    have htail := ih fun k hk => hfrom k (List.mem_cons_of_mem _ hk)
    cases g with
    | char c => rw [put_char, spell_char, spell_char, htail]
    | link k =>
      rw [put_link, spell_append, spell_link, htail]
      by_cases hk : k = i
      · simp [hk, printed]
      · have hik : i ≤ k := hfrom k List.mem_cons_self
        have hnext : k - i = k - (i + 1) + 1 := by omega
        simp [hk, printed, hnext]

theorem link_mem_put {i k : Nat} {text : List Char} {gs : List Glyph} (h : link k ∈ put i text gs) :
    link k ∈ gs ∧ k ≠ i := by
  obtain ⟨g, hg, hmem⟩ := List.mem_flatMap.mp h
  cases g with
  | char c => simp at hmem
  | link j =>
    by_cases hj : j = i
    · simp [hj, ofText] at hmem
    · obtain rfl : k = j := by simpa [hj] using hmem
      exact ⟨hg, hj⟩

/-- **Marks**: all of them are replaced by their links, if the body of no mark stands in what is to be
written. -/
theorem replaceMarks_spell {links : List String} {i : Nat} {gs : List Glyph}
    (hlinks : ∀ k, link k ∈ gs → i ≤ k ∧ k < i + links.length)
    (hclear : ∀ k, i ≤ k → k < i + links.length → ¬ markBody k <:+: spell (printed i links) gs) :
    replaceMarks i links (spell mark gs) = spell (printed i links) gs := by
  induction links generalizing i gs with
  | nil =>
    refine spell_congr fun k hk => ?_
    have hbound := hlinks k hk
    rw [List.length_nil] at hbound
    omega
  | cons text links ih =>
    have hput := spell_put text links fun k hk => (hlinks k hk).1
    rw [replaceMarks, ← mark, replaceAll_spell _ (hclear i (Nat.le_refl i) (by simp))]
    rw [← hput] at hclear ⊢
    refine ih (fun k hk => ?_) fun k hik hk => hclear k (by omega) (by rw [List.length_cons]; omega)
    obtain ⟨hmem, hne⟩ := link_mem_put hk
    have hbound := hlinks k hmem
    rw [List.length_cons] at hbound
    omega

/-- The links of spans are numbered in turn. -/
theorem lt_of_link_mem_ofSpans {k count : Nat} {spans : List DocSpan} (h : link k ∈ ofSpans count spans) :
    count ≤ k ∧ k < count + (linkValues spans).length := by
  induction spans generalizing count with
  | nil => cases h
  | cons span rest ih =>
    rw [ofSpans] at h
    split at h
    · rename_i htag
      rw [linkValues_link htag, List.length_cons]
      rcases List.mem_cons.mp h with h | h
      · obtain rfl : k = count := by simpa using h
        omega
      · have := ih h
        omega
    · rename_i htag
      rw [linkValues_text htag]
      refine ih ((List.mem_append.mp h).resolve_left fun hmem => ?_)
      simp [ofText] at hmem

end Glyph

/-! ## Prose -/

theorem Work.length_mapM {α β : Type} {f : α → Work β} {as : List α} {bs : List β} {s s' : Session}
    (h : (as.mapM f).run.run s = (.ok bs, s')) : bs.length = as.length := by
  induction as generalizing bs s with
  | nil =>
    rw [List.mapM_nil] at h
    cases h
    rfl
  | cons a as ih =>
    rw [List.mapM_cons] at h
    obtain ⟨b, s₁, -, h⟩ := Work.bind_ok h
    obtain ⟨bs', s₂, hrest, h⟩ := Work.bind_ok h
    cases h
    rw [List.length_cons, List.length_cons, ih hrest]

namespace Site

variable {site : Site} {spans : List DocSpan} {inLine : Option Bool}

/-- Prose as it is meant: laid out with each link as one glyph, and printed with the links. -/
def laidOut (site : Site) (spans : List DocSpan) (inLine : Option Bool) : Work String := do
  let links ← (linkValues spans).mapM site.docLink
  let gs := Glyph.ofSpans 0 spans
  let laid := Glyph.layout (inLine.getD (Glyph.fitsLine gs)) gs
  return String.ofList (Glyph.spell (Glyph.printed 0 links) laid)

/-- The marked text of spans is their glyphs spelled with marks. -/
theorem markSpans_eq (site : Site) (count : Nat) (spans : List DocSpan) :
    site.markSpans count spans = (do
      let links ← (linkValues spans).mapM site.docLink
      return (String.ofList (Glyph.spell Glyph.mark (Glyph.ofSpans count spans)), links)) := by
  induction spans generalizing count with
  | nil => rfl
  | cons span rest ih =>
    by_cases htag : span.tag = some "link"
    · simp [markSpans, htag, ih, linkValues_link htag, Glyph.ofSpans, Glyph.mark]
    · simp [markSpans, htag, ih, linkValues_text htag, Glyph.ofSpans]

/-- Prose that is not markdown: the marks of the layout are replaced. -/
theorem prose_eq [Packages] (hplain : site.options.markdown = false) (spans : List DocSpan)
    (inLine : Option Bool) :
    site.prose (.spans spans) inLine = (do
      let links ← (linkValues spans).mapM site.docLink
      let gs := Glyph.ofSpans 0 spans
      let laid := Glyph.layout (inLine.getD (Glyph.fitsLine gs)) gs
      return String.ofList (replaceMarks 0 links (Glyph.spell Glyph.mark laid))) := by
  simp only [prose, markSpans_eq, bind_assoc, pure_bind, Glyph.fitsLine_spell Glyph.isWord_mark,
    Glyph.spell_layout Glyph.isWord_mark hplain, Work.ofExcept, String.toList_ofList]

/-- **Prose**: where it is not markdown it is what is meant, with every link in its place, and it fails
where that fails. This is so unless what is meant has the body of a mark in it. -/
theorem prose_exact [Packages] (hplain : site.options.markdown = false) {s s' : Session}
    {r : Except Fault String}
    (hrun : (site.laidOut spans inLine).run.run s = (r, s'))
    (hclear : ∀ text, r = .ok text → ∀ k < (linkValues spans).length, ¬ markBody k <:+: text.toList) :
    (site.prose (.spans spans) inLine).run.run s = (r, s') := by
  rw [prose_eq hplain, Work.run_bind]
  rw [laidOut, Work.run_bind] at hrun
  rcases hlinks : ((linkValues spans).mapM site.docLink).run.run s with ⟨_ | links, s₁⟩
  · rw [hlinks] at hrun
    exact hrun
  · rw [hlinks] at hrun
    obtain ⟨rfl, rfl⟩ := Prod.mk.inj hrun
    have hlength := Work.length_mapM hlinks
    have hclear' := hclear _ rfl
    rw [String.toList_ofList, ← hlength] at hclear'
    have hreplaced := Glyph.replaceMarks_spell (i := 0)
      (fun k hk => by
        have := Glyph.lt_of_link_mem_ofSpans (Glyph.link_mem_layout hk)
        rwa [← hlength] at this)
      (fun k _ hk => hclear' k (by rwa [Nat.zero_add] at hk))
    exact congrArg (fun t => ((.ok (String.ofList t), s₁) : Except Fault String × Session)) hreplaced

/-- A module with two classes, whose pages are listed. -/
def readSite : Site :=
  ⟨listedGraph, listedPlan, {}⟩

/-- Three paragraphs with two links, and text that looks like the start of a mark. -/
def readSpans : List DocSpan :=
  [⟨" See\n\n ", none⟩, ⟨"Ant", some "link"⟩, ⟨" & DOCGRAPHLINK1 \n \n", none⟩,
    ⟨"Zoo|them", some "link"⟩]

/-- The paragraphs as they are meant. -/
def readText : String :=
  "<p>See</p><p><a href=\"a--Ant.html\">Ant</a> &amp; DOCGRAPHLINK1</p>" ++
    "<p><a href=\"a--Zoo.html\">them</a></p>"

/-- The paragraphs are printed as they are meant, with both links in their places. -/
theorem prose_exact_read : readSite.options.markdown = false ∧
    (readSite.laidOut readSpans none).run.run {} = (.ok readText, {}) ∧
    (∀ k < (linkValues readSpans).length, ¬ markBody k <:+: readText.toList) ∧
    (readSite.prose (.spans readSpans)).run.run {} = (.ok readText, {}) := by
  have hlaid : (readSite.laidOut readSpans none).run.run {} = (.ok readText, {}) := by
    cbv
  have hclear : ∀ k < (linkValues readSpans).length, ¬ markBody k <:+: readText.toList := by
    decide +kernel
  refine ⟨rfl, hlaid, hclear, prose_exact rfl hlaid fun text htext => ?_⟩
  obtain rfl := Except.ok.inj htext
  exact hclear

/-- Text that reads like the mark of a link is lost: the link is printed in its place too. -/
theorem prose_takes_mark [Packages] (hplain : site.options.markdown = false) (v : String) :
    let spans : List DocSpan := [⟨"DOCGRAPHLINK0END ", none⟩, ⟨v, some "link"⟩]
    site.laidOut spans (some true) = (do
      let link ← site.docLink v
      return "DOCGRAPHLINK0END " ++ link) ∧
    site.prose (.spans spans) (some true) = (do
      let link ← site.docLink v
      return link ++ " " ++ link) := by
  intro spans
  have hvalues : linkValues spans = [v] := rfl
  have hlaid : Glyph.layout true (Glyph.ofSpans 0 spans) =
      Glyph.ofText "DOCGRAPHLINK0END ".toList ++ [.link 0] := rfl
  have hprinted : ∀ link : String, String.ofList (Glyph.printed 0 [link] 0) = link := fun link =>
    String.ofList_toList
  have hreplaced : ∀ link : String, replaceMarks 0 [link] (Glyph.spell Glyph.mark
      (Glyph.ofText "DOCGRAPHLINK0END ".toList ++ [.link 0])) = (link ++ " " ++ link).toList := by
    intro link
    have hspell : Glyph.spell Glyph.mark (Glyph.ofText "DOCGRAPHLINK0END ".toList ++ [.link 0]) =
      Glyph.mark 0 ++ ([' '] ++ (Glyph.mark 0 ++ [])) := rfl
    rw [hspell, replaceMarks, replaceMarks, ← Glyph.mark, Glyph.mark_eq, Text.replaceAll_pattern,
      Text.replaceAll_append (by decide), Text.replaceAll_pattern]
    simp [Text.replaceAll, Text.replaceFrom]
  constructor
  · rw [laidOut, hvalues]
    simp only [Option.getD_some, hlaid, List.mapM_cons, List.mapM_nil, bind_assoc, pure_bind,
      Glyph.spell_append, Glyph.spell_ofText, Glyph.spell_link, Glyph.spell_nil, List.append_nil,
      String.ofList_append, String.ofList_toList, hprinted]
  · rw [prose_eq hplain, hvalues]
    simp only [Option.getD_some, hlaid, List.mapM_cons, List.mapM_nil, bind_assoc, pure_bind, hreplaced,
      String.ofList_toList]

end Site

end SymbolDocs
