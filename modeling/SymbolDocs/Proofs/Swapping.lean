import SymbolDocs.Proofs.Visible
import SymbolDocs.Text.Blank

/-!
# Markup with other tags for links

On a site of pages a link is an `a` element, on a site of routes a `doc-a` element. Two texts that are
made alike but for that are compared piece by piece.

* `Markup.Swapped` relates texts that are alike but for certain pieces;
* `Swapped.replaceAll` goes through a replacement, `Swapped.trimEnd` through trimming;
* `Swapped.stripTags` says that texts with whole tags swapped read alike;
* `Markup.SameBut` says the same of strings;
* `Markup.asPages` writes all links in the first way, and `SameBut.asPages` says that what differs in
  links only becomes equal.
-/

namespace SymbolDocs

namespace Text

/-! ## Replacing -/

theorem replaceFrom_skip (pat sub : List Char) (xs cs : List Char) :
    replaceFrom pat sub xs.length (xs ++ cs) = replaceFrom pat sub 0 cs := by
  induction xs with
  | nil => rfl
  | cons x xs ih => exact ih

variable {p : Char} {ps sub cs : List Char}

/-- A pattern in front is replaced. -/
theorem replaceAll_pattern (p : Char) (ps sub cs : List Char) :
    replaceAll (p :: ps) sub (p :: ps ++ cs) = sub ++ replaceAll (p :: ps) sub cs := by
  have hstarts : startsWith (p :: ps ++ cs) (p :: ps) = true := startsWith_iff.mpr ⟨cs, rfl⟩
  rw [List.cons_append] at hstarts ⊢
  simp only [replaceAll, List.isEmpty_cons, Bool.false_eq_true, if_false, replaceFrom, hstarts, if_true,
    List.length_cons, Nat.add_sub_cancel]
  rw [replaceFrom_skip]

/-- A character that no pattern starts with stays. -/
theorem replaceAll_cons {c : Char} (h : startsWith (c :: cs) (p :: ps) = false) :
    replaceAll (p :: ps) sub (c :: cs) = c :: replaceAll (p :: ps) sub cs := by
  simp only [replaceAll, List.isEmpty_cons, Bool.false_eq_true, if_false, replaceFrom, h]

/-- Text without the first character of the pattern stays. -/
theorem replaceAll_append {t : List Char} (h : p ∉ t) (cs : List Char) :
    replaceAll (p :: ps) sub (t ++ cs) = t ++ replaceAll (p :: ps) sub cs := by
  induction t with
  | nil => rfl
  | cons c t ih =>
    have hc : p ≠ c := fun he => h (he ▸ List.mem_cons_self)
    have hstarts : startsWith (c :: (t ++ cs)) (p :: ps) = false := by
      simp [startsWith, afterPrefix?, hc]
    rw [List.cons_append, replaceAll_cons hstarts, ih fun hmem => h (List.mem_cons_of_mem _ hmem)]
    rfl

/-- A piece that starts like the pattern and goes on differently stays. -/
theorem replaceAll_other {t : List Char} (h : startsWith (p :: (t ++ cs)) (p :: ps) = false)
    (ht : p ∉ t) : replaceAll (p :: ps) sub (p :: t ++ cs) = p :: t ++ replaceAll (p :: ps) sub cs := by
  rw [List.cons_append, replaceAll_cons h, replaceAll_append ht]
  rfl

/-! ## Trimming -/

theorem trimEnd_append (xs ys : List Char) :
    trimEnd (xs ++ ys) = if (trimEnd ys).isEmpty then trimEnd xs else xs ++ trimEnd ys := by
  have hempty : (trimEnd ys).isEmpty = (ys.reverse.dropWhile isBlank).isEmpty := by
    rw [trimEnd, List.isEmpty_reverse]
  rw [hempty, trimEnd, List.reverse_append, List.dropWhile_append]
  split
  · rfl
  · simp [trimEnd]

theorem trimEnd_of_getLast? {t : List Char} {c : Char} (h : t.getLast? = some c)
    (hc : isBlank c = false) : trimEnd t = t := by
  obtain ⟨init, rfl⟩ := List.getLast?_eq_some_iff.mp h
  simp [trimEnd, hc]

end Text

namespace Markup

/-! ## Texts that are alike but for certain pieces -/

/-- Texts that are alike but for pieces which `T` relates. -/
inductive Swapped (T : List Char → List Char → Prop) : List Char → List Char → Prop
  | nil : Swapped T [] []
  | char (c : Char) {m m' : List Char} (h : Swapped T m m') : Swapped T (c :: m) (c :: m')
  | piece {t t' m m' : List Char} (ht : T t t') (h : Swapped T m m') : Swapped T (t ++ m) (t' ++ m')

namespace Swapped

variable {T U : List Char → List Char → Prop} {m m' n n' : List Char}

theorem refl (T : List Char → List Char → Prop) (m : List Char) : Swapped T m m := by
  induction m with
  | nil => exact nil
  | cons c m ih => exact char c ih

theorem of_piece {t t' : List Char} (ht : T t t') : Swapped T t t' := by
  have h := piece ht nil
  rwa [List.append_nil, List.append_nil] at h

theorem append (h : Swapped T m m') (h' : Swapped T n n') : Swapped T (m ++ n) (m' ++ n') := by
  induction h with
  | nil => exact h'
  | char c _ ih => exact char c ih
  | piece ht _ ih =>
    rw [List.append_assoc, List.append_assoc]
    exact piece ht ih

/-- Pieces may be made of smaller ones. -/
theorem lift (hT : ∀ {t t'}, T t t' → Swapped U t t') (h : Swapped T m m') : Swapped U m m' := by
  induction h with
  | nil => exact nil
  | char c _ ih => exact char c ih
  | piece ht _ ih => exact (hT ht).append ih

theorem symm (h : Swapped T m m') : Swapped (fun t' t => T t t') m' m := by
  induction h with
  | nil => exact nil
  | char c _ ih => exact char c ih
  | piece ht _ ih => exact piece ht ih

/-- Without pieces to swap the texts are the same. -/
theorem eq_of_none (h : Swapped (fun _ _ => False) m m') : m = m' := by
  induction h with
  | nil => rfl
  | char c _ ih => rw [ih]
  | piece ht => exact ht.elim

end Swapped

/-- All pieces start with the bracket that opens a tag. -/
def Bracketed (T : List Char → List Char → Prop) : Prop :=
  ∀ {t t'}, T t t' → t.head? = some '<' ∧ t'.head? = some '<'

namespace Swapped

variable {T U : List Char → List Char → Prop} {m m' : List Char}

theorem eq_nil_iff (hT : Bracketed T) (h : Swapped T m m') : m = [] ↔ m' = [] := by
  cases h with
  | nil => exact Iff.rfl
  | char c _ => simp
  | piece ht _ =>
    obtain ⟨hopen, hopen'⟩ := hT ht
    refine iff_of_false (fun hnil => ?_) fun hnil => ?_
    · rw [(List.append_eq_nil_iff.mp hnil).1] at hopen
      cases hopen
    · rw [(List.append_eq_nil_iff.mp hnil).1] at hopen'
      cases hopen'

/-- What has no bracket in it cannot reach into a piece. -/
theorem of_append (hT : Bracketed T) {ps rest : List Char} (hps : '<' ∉ ps)
    (h : Swapped T (ps ++ rest) m') : ∃ rest', m' = ps ++ rest' ∧ Swapped T rest rest' := by
  induction ps generalizing m' with
  | nil => exact ⟨m', rfl, h⟩
  | cons p ps ih =>
    generalize hm : p :: ps ++ rest = m at h
    cases h with
    | nil => cases hm
    | char c h =>
      rw [List.cons_append] at hm
      injection hm with hp hrest
      obtain ⟨rest', rfl, hrest'⟩ := ih (fun hmem => hps (List.mem_cons_of_mem _ hmem)) (hrest ▸ h)
      exact ⟨rest', by rw [hp]; rfl, hrest'⟩
    | @piece t t' l l' ht h =>
      obtain ⟨hopen, -⟩ := hT ht
      cases t with
      | nil => cases hopen
      | cons c t =>
        rw [List.cons_append, List.cons_append] at hm
        injection hm with hp hrest
        obtain rfl : c = '<' := Option.some.inj hopen
        exact absurd (hp ▸ List.mem_cons_self) hps

theorem startsWith_iff (hT : Bracketed T) {c p : Char} {ps : List Char} (hps : '<' ∉ ps)
    (h : Swapped T m m') : Text.startsWith (c :: m) (p :: ps) = true ↔
      Text.startsWith (c :: m') (p :: ps) = true := by
  have himp : ∀ {T : List Char → List Char → Prop} {m m' : List Char}, Bracketed T → Swapped T m m' →
      Text.startsWith (c :: m) (p :: ps) = true → Text.startsWith (c :: m') (p :: ps) = true := by
    intro T m m' hT h hstarts
    obtain ⟨rest, hrest⟩ := Text.startsWith_iff.mp hstarts
    rw [List.cons_append] at hrest
    injection hrest with hc hm
    obtain ⟨rest', rfl, -⟩ := of_append hT hps (hm ▸ h)
    exact Text.startsWith_iff.mpr ⟨rest', by rw [hc]; rfl⟩
  exact ⟨himp hT h, himp (fun ht => (hT ht).symm) h.symm⟩

/-- **Replacing goes through swapped pieces** when each piece is replaced to swapped pieces, whatever
follows it. -/
theorem replaceAll (hT : Bracketed T) {p : Char} {ps sub sub' : List Char} (hps : '<' ∉ ps)
    (hsub : Swapped U sub sub')
    (hpiece : ∀ {t t'}, T t t' → ∃ u u', Swapped U u u' ∧
      (∀ l, Text.replaceAll (p :: ps) sub (t ++ l) = u ++ Text.replaceAll (p :: ps) sub l) ∧
      ∀ l, Text.replaceAll (p :: ps) sub' (t' ++ l) = u' ++ Text.replaceAll (p :: ps) sub' l)
    (h : Swapped T m m') :
    Swapped U (Text.replaceAll (p :: ps) sub m) (Text.replaceAll (p :: ps) sub' m') := by
  induction hn : m.length using Nat.strongRecOn generalizing m m' with
  | _ n ih =>
    subst hn
    cases h with
    | nil => exact nil
    | @char c l l' h =>
      cases hstarts : Text.startsWith (c :: l) (p :: ps) with
      | true =>
        -- the rest of the pattern has no bracket, so it ends before the next piece on both sides
        obtain ⟨rest, hrest⟩ := Text.startsWith_iff.mp hstarts
        rw [List.cons_append] at hrest
        injection hrest with hc hl
        subst hc hl
        obtain ⟨rest', rfl, hrest'⟩ := of_append hT hps h
        rw [← List.cons_append, ← List.cons_append, Text.replaceAll_pattern, Text.replaceAll_pattern]
        exact hsub.append (ih _ (by simp) hrest' rfl)
      | false =>
        have hstarts' : Text.startsWith (c :: l') (p :: ps) = false := by
          rw [Bool.eq_false_iff, ne_eq, ← startsWith_iff hT hps h, hstarts]
          simp
        rw [Text.replaceAll_cons hstarts, Text.replaceAll_cons hstarts']
        exact char c (ih _ (by simp) h rfl)
    | @piece t t' l l' ht h =>
      obtain ⟨u, u', hu, ht₁, ht₂⟩ := hpiece ht
      have hlt : l.length < (t ++ l).length := by
        cases t with
        | nil => cases (hT ht).1
        | cons c t => simp
      rw [ht₁, ht₂]
      exact hu.append (ih _ hlt h rfl)

/-- Trimming goes through swapped pieces that end with no blank. -/
theorem trimEnd (hT : ∀ {t t'}, T t t' → Text.trimEnd t = t ∧ Text.trimEnd t' = t')
    (hbracket : Bracketed T) (h : Swapped T m m') : Swapped T (Text.trimEnd m) (Text.trimEnd m') := by
  induction h with
  | nil => exact nil
  | @char c l l' _ ih =>
    have hempty := eq_nil_iff hbracket ih
    rw [← List.singleton_append (l := l), ← List.singleton_append (l := l'), Text.trimEnd_append,
      Text.trimEnd_append]
    by_cases hl : Text.trimEnd l = []
    · rw [hl, hempty.mp hl]
      exact refl T _
    · have hl' : Text.trimEnd l' ≠ [] := fun h => hl (hempty.mpr h)
      simpa [hl, hl'] using char c ih
  | @piece t t' l l' ht _ ih =>
    obtain ⟨ht₁, ht₂⟩ := hT ht
    have hempty := eq_nil_iff hbracket ih
    rw [Text.trimEnd_append, Text.trimEnd_append, ht₁, ht₂]
    by_cases hl : Text.trimEnd l = []
    · rw [hl, hempty.mp hl]
      exact of_piece ht
    · have hl' : Text.trimEnd l' ≠ [] := fun h => hl (hempty.mpr h)
      simpa [hl, hl'] using piece ht ih

end Swapped

/-! ## Links -/

/-- How a link begins on a site of pages. -/
def pageOpening : List Char := ['<', 'a', ' ', 'h', 'r', 'e', 'f', '=', '"']

/-- How a link begins on a site of routes. -/
def routeOpening : List Char :=
  ['<', 'd', 'o', 'c', '-', 'a', ' ', 'h', 'r', 'e', 'f', '=', '"']

/-- How a link ends on a site of pages. -/
def pageClosing : List Char := ['<', '/', 'a', '>']

/-- How a link ends on a site of routes. -/
def routeClosing : List Char := ['<', '/', 'd', 'o', 'c', '-', 'a', '>']

/-- The tags of a link on a site of pages and on a site of routes. -/
inductive LinkTag : List Char → List Char → Prop
  | opening (v : List Char) : LinkTag (pageOpening ++ (v ++ ['>'])) (routeOpening ++ (v ++ ['>']))
  | closing : LinkTag pageClosing routeClosing

/-- What differs in these tags. -/
inductive LinkPiece : List Char → List Char → Prop
  | opening : LinkPiece pageOpening routeOpening
  | closing : LinkPiece pageClosing routeClosing

/-- The part of it that stands in the closing tags. -/
inductive LinkEnd : List Char → List Char → Prop
  | closing : LinkEnd pageClosing routeClosing

theorem LinkTag.bracketed : Bracketed LinkTag := by
  rintro _ _ (_ | _) <;> exact ⟨rfl, rfl⟩

theorem LinkPiece.bracketed : Bracketed LinkPiece := by
  rintro _ _ (_ | _) <;> exact ⟨rfl, rfl⟩

theorem LinkEnd.bracketed : Bracketed LinkEnd := by
  rintro _ _ ⟨⟩
  exact ⟨rfl, rfl⟩

theorem LinkTag.pieces {t t' : List Char} (h : LinkTag t t') : Swapped LinkPiece t t' := by
  cases h with
  | opening v => exact .piece .opening (.refl _ _)
  | closing => exact .of_piece .closing

/-! ## Visible text -/

theorem stripTags_cons {c : Char} (hc : c ≠ '<') (k : List Char) :
    stripTags (c :: k) = c :: stripTags k := by
  simp only [stripTags, stripTagsFrom, if_neg hc]

/-- A bracket that opens no tag stays: nothing closes it, or it is closed at once. -/
theorem stripTags_bracket {k : List Char} (h : '>' ∉ k ∨ k.head? = some '>') :
    stripTags ('<' :: k) = '<' :: stripTags k := by
  have hnone : tagLength? k = none := by
    rcases h with h | h
    · have hall : k.takeWhile (· != '>') = k :=
        List.takeWhile_eq_self_iff.mpr fun c hc => by
          simpa using fun he : c = '>' => h (he ▸ hc)
      simp [tagLength?, hall]
    · cases k with
      | nil => cases h
      | cons c k =>
        obtain rfl : c = '>' := Option.some.inj h
        simp [tagLength?]
  simp only [stripTags, stripTagsFrom, if_true, hnone]

/-- Text up to the first closing bracket. -/
theorem exists_first_closing (v : List Char) :
    ∃ a r, v ++ ['>'] = a ++ '>' :: r ∧ '>' ∉ a := by
  induction v with
  | nil => exact ⟨[], [], rfl, by simp⟩
  | cons c v ih =>
    by_cases hc : c = '>'
    · exact ⟨[], v ++ ['>'], by rw [hc]; rfl, by simp⟩
    · obtain ⟨a, r, h, ha⟩ := ih
      refine ⟨c :: a, r, by rw [List.cons_append, h]; rfl, ?_⟩
      simpa [Ne.symm hc] using ha

/-- The first closing brackets of two texts with swapped tags correspond, and so does what follows. -/
theorem Swapped.first_closing {m m' : List Char} (h : Swapped LinkTag m m') :
    ('>' ∉ m ∧ '>' ∉ m') ∨ ∃ a a' r r', m = a ++ '>' :: r ∧ m' = a' ++ '>' :: r' ∧ '>' ∉ a ∧
      '>' ∉ a' ∧ (a = [] ↔ a' = []) ∧ Swapped LinkTag r r' := by
  induction h with
  | nil => exact .inl ⟨by simp, by simp⟩
  | @char c l l' h ih =>
    by_cases hc : c = '>'
    · exact .inr ⟨[], [], l, l', by rw [hc]; rfl, by rw [hc]; rfl, by simp, by simp, Iff.rfl, h⟩
    · rcases ih with ⟨hl, hl'⟩ | ⟨a, a', r, r', rfl, rfl, ha, ha', -, hr⟩
      · exact .inl ⟨by simpa [Ne.symm hc] using hl, by simpa [Ne.symm hc] using hl'⟩
      · exact .inr ⟨c :: a, c :: a', r, r', rfl, rfl, by simpa [Ne.symm hc] using ha,
          by simpa [Ne.symm hc] using ha', by simp, hr⟩
  | @piece t t' l l' ht h =>
    cases ht with
    | opening v =>
      obtain ⟨a, r, hv, ha⟩ := exists_first_closing v
      refine .inr ⟨pageOpening ++ a, routeOpening ++ a, r ++ l, r ++ l', by simp [hv], by simp [hv], ?_,
        ?_, by simp [pageOpening, routeOpening], (Swapped.refl _ r).append h⟩
      · simpa [pageOpening] using ha
      · simpa [routeOpening] using ha
    | closing =>
      exact .inr ⟨['<', '/', 'a'], ['<', '/', 'd', 'o', 'c', '-', 'a'], l, l', rfl, rfl, by decide,
        by decide, by simp, h⟩

/-- **Texts with swapped tags read alike**: a tag is cut up to the first closing bracket, which may
stand inside an attribute, and what is left is the same. -/
theorem Swapped.stripTags {m m' : List Char} (h : Swapped LinkTag m m') :
    Markup.stripTags m = Markup.stripTags m' := by
  induction hn : m.length using Nat.strongRecOn generalizing m m' with
  | _ n ih =>
    subst hn
    cases h with
    | nil => rfl
    | @char c l l' h =>
      have hrest := ih _ (by simp) h rfl
      by_cases hc : c = '<'
      · subst hc
        rcases h.first_closing with ⟨hl, hl'⟩ | ⟨a, a', r, r', rfl, rfl, ha, ha', hempty, hr⟩
        · rw [stripTags_bracket (.inl hl), stripTags_bracket (.inl hl'), hrest]
        · by_cases hnil : a = []
          · rw [hempty.mp hnil] at hrest ⊢
            rw [hnil] at hrest ⊢
            rw [stripTags_bracket (.inr rfl), stripTags_bracket (.inr rfl), hrest]
          · have hnil' : a' ≠ [] := fun h => hnil (hempty.mpr h)
            rw [← List.cons_append, ← List.cons_append, stripTags_tag hnil ha, stripTags_tag hnil' ha']
            exact ih _ (by simp; omega) hr rfl
      · rw [stripTags_cons hc, stripTags_cons hc, hrest]
    | @piece t t' l l' ht h =>
      cases ht with
      | opening v =>
        obtain ⟨a, r, hv, ha⟩ := exists_first_closing v
        have hpage : Markup.stripTags ('<' :: (pageOpening.tail ++ a) ++ '>' :: (r ++ l)) =
            Markup.stripTags (r ++ l) :=
          stripTags_tag (by simp [pageOpening]) (by simpa [pageOpening] using ha) _
        have hroute : Markup.stripTags ('<' :: (routeOpening.tail ++ a) ++ '>' :: (r ++ l')) =
            Markup.stripTags (r ++ l') :=
          stripTags_tag (by simp [routeOpening]) (by simpa [routeOpening] using ha) _
        have hshorter : (r ++ l).length < (pageOpening ++ (v ++ ['>']) ++ l).length := by
          rw [hv]
          simp [pageOpening]
          omega
        have hrest := ih _ hshorter ((Swapped.refl _ r).append h) rfl
        rw [hv]
        rw [← hpage, ← hroute] at hrest
        simpa [pageOpening, routeOpening] using hrest
      | closing =>
        have hpage : Markup.stripTags ('<' :: ['/', 'a'] ++ '>' :: l) = Markup.stripTags l :=
          stripTags_tag (by decide) (by decide) _
        have hroute : Markup.stripTags ('<' :: ['/', 'd', 'o', 'c', '-', 'a'] ++ '>' :: l') =
            Markup.stripTags l' :=
          stripTags_tag (by decide) (by decide) _
        have hrest := ih _ (by simp [pageClosing]; omega) h rfl
        rw [← hpage, ← hroute] at hrest
        exact hrest

/-! ## All links as on a site of pages -/

/-- Markup with its links written as on a site of pages. -/
def asPages (m : String) : String :=
  String.ofList (Text.replaceAll "</doc-a>".toList "</a>".toList
    (Text.replaceAll "<doc-a ".toList "<a ".toList m.toList))

/-- The first replacement makes the openings equal. -/
theorem Swapped.replaceOpenings {m m' : List Char} (h : Swapped LinkPiece m m') :
    Swapped LinkEnd (Text.replaceAll "<doc-a ".toList "<a ".toList m)
      (Text.replaceAll "<doc-a ".toList "<a ".toList m') := by
  have hpat : "<doc-a ".toList = ['<', 'd', 'o', 'c', '-', 'a', ' '] := by decide
  have hsub : "<a ".toList = ['<', 'a', ' '] := by decide
  rw [hpat, hsub]
  refine replaceAll LinkPiece.bracketed (by decide) (.refl _ _) (fun ht => ?_) h
  cases ht with
  | opening =>
    refine ⟨pageOpening, pageOpening, .refl _ _, fun l => ?_, fun l => ?_⟩
    · exact Text.replaceAll_other rfl (by decide)
    · have hrest : routeOpening ++ l = ['<', 'd', 'o', 'c', '-', 'a', ' '] ++ (['h', 'r', 'e', 'f', '=',
        '"'] ++ l) := rfl
      rw [hrest, Text.replaceAll_pattern, Text.replaceAll_append (by decide)]
      rfl
  | closing =>
    refine ⟨pageClosing, routeClosing, .of_piece .closing, fun l => ?_, fun l => ?_⟩
    · exact Text.replaceAll_other rfl (by decide)
    · exact Text.replaceAll_other rfl (by decide)

/-- The second replacement makes the closings equal. -/
theorem Swapped.replaceClosings {m m' : List Char} (h : Swapped LinkEnd m m') :
    Text.replaceAll "</doc-a>".toList "</a>".toList m =
      Text.replaceAll "</doc-a>".toList "</a>".toList m' := by
  have hpat : "</doc-a>".toList = ['<', '/', 'd', 'o', 'c', '-', 'a', '>'] := by decide
  have hsub : "</a>".toList = pageClosing := by decide
  rw [hpat, hsub]
  refine eq_of_none (replaceAll LinkEnd.bracketed (by decide) (.refl _ _) (fun ht => ?_) h)
  cases ht with
  | closing =>
    refine ⟨pageClosing, pageClosing, .refl _ _, fun l => ?_, fun l => ?_⟩
    · exact Text.replaceAll_other rfl (by decide)
    · exact Text.replaceAll_pattern _ _ _ _

/-! ## Texts -/

/-- Markup that is alike but for pieces which `T` relates. -/
def SameBut (T : List Char → List Char → Prop) (m m' : String) : Prop :=
  Swapped T m.toList m'.toList

namespace SameBut

variable {T : List Char → List Char → Prop} {m m' n n' : String}

theorem refl (T : List Char → List Char → Prop) (m : String) : SameBut T m m :=
  Swapped.refl T _

theorem append (h : SameBut T m m') (h' : SameBut T n n') : SameBut T (m ++ n) (m' ++ n') := by
  rw [SameBut, String.toList_append, String.toList_append]
  exact Swapped.append h h'

theorem eq_empty_iff (hT : Bracketed T) (h : SameBut T m m') : m = "" ↔ m' = "" := by
  rw [← String.toList_eq_nil_iff, ← String.toList_eq_nil_iff]
  exact Swapped.eq_nil_iff hT h

/-- What depends on whether the markup is empty. -/
theorem ite_empty {α : Type} {R : α → α → Prop} (hT : Bracketed T) (h : SameBut T m m') {a a' b b' : α}
    (ha : R a a') (hb : R b b') : R (if m = "" then a else b) (if m' = "" then a' else b') := by
  have hempty := eq_empty_iff hT h
  by_cases hm : m = ""
  · rw [if_pos hm, if_pos (hempty.mp hm)]
    exact ha
  · rw [if_neg hm, if_neg (mt hempty.mpr hm)]
    exact hb

theorem joinWith (sep : String) {ms ms' : List String} (h : List.Forall₂ (SameBut T) ms ms') :
    SameBut T (Text.joinWith sep ms) (Text.joinWith sep ms') := by
  induction h with
  | nil => exact refl T _
  | cons hm hms ih =>
    cases hms with
    | nil => exact hm
    | cons _ _ => exact (hm.append (refl T sep)).append ih

theorem join {ms ms' : List String} (h : List.Forall₂ (SameBut T) ms ms') :
    SameBut T (String.join ms) (String.join ms') := by
  induction h with
  | nil => exact refl T _
  | cons hm _ ih =>
    rw [String.join_cons, String.join_cons]
    exact hm.append ih

/-- Swapped tags are swapped pieces. -/
theorem pieces (h : SameBut LinkTag m m') : SameBut LinkPiece m m' :=
  Swapped.lift LinkTag.pieces h

/-- Markup with swapped tags reads alike. -/
theorem visible (h : SameBut LinkTag m m') : Markup.visible m = Markup.visible m' := by
  rw [Markup.visible, Markup.visible, Swapped.stripTags h]

theorem stripEnd (h : SameBut LinkPiece m m') :
    SameBut LinkPiece (Text.stripEnd m) (Text.stripEnd m') := by
  rw [SameBut, Text.stripEnd, Text.stripEnd, String.toList_ofList, String.toList_ofList]
  refine Swapped.trimEnd (fun ht => ?_) LinkPiece.bracketed h
  cases ht with
  | opening | closing =>
    exact ⟨Text.trimEnd_of_getLast? rfl (by decide), Text.trimEnd_of_getLast? rfl (by decide)⟩

/-- **With all links as on a site of pages**, markup that is alike is equal. -/
theorem asPages (h : SameBut LinkPiece m m') : Markup.asPages m = Markup.asPages m' := by
  rw [Markup.asPages, Markup.asPages, (Swapped.replaceOpenings h).replaceClosings]

example : Markup.asPages "<doc-a href=\"b.html\">B</doc-a>[]" = "<a href=\"b.html\">B</a>[]" := by
  decide

end SameBut

end Markup

end SymbolDocs
