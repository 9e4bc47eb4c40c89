import SymbolDocs.Documentation.Grammar
import SymbolDocs.Proofs.Swapping

/-!
# Links and examples in documentation

A documentation link is a target of one word and, after a bar or blanks, a title. The split tries
shorter targets before longer ones and skips as many blanks as it can; the title it looks for lies on
one line. An example may open with a caption, and what is left after the caption is the code.

* `parseDocLink_titled_iff` says when the target is the first word and the title what follows: exactly
  when the title has no line end in it, blanks at its end apart;
* `parseExample_captioned_iff` says when a caption leaves the code as it is: exactly when the first line
  of the code that is not empty starts without a blank.
-/

namespace SymbolDocs

open Text (isBlank)

namespace DocLink

/-- A target is one word without a bar. -/
def IsTarget (n : List Char) : Prop :=
  n ≠ [] ∧ ∀ c ∈ n, c ≠ '|' ∧ isBlank c = false

/-- What parts a title from its target: a bar that may have blanks around it, or blanks alone. -/
inductive IsSeparator : List Char → Prop
  | bar {before after : List Char} (hbefore : ∀ c ∈ before, isBlank c = true)
      (hafter : ∀ c ∈ after, isBlank c = true) : IsSeparator (before ++ '|' :: after)
  | blanks {sep : List Char} (hne : sep ≠ []) (hsep : ∀ c ∈ sep, isBlank c = true) :
      IsSeparator sep

/-- A title is more than blanks and starts with neither a blank nor a bar. -/
def IsTitle (t : List Char) : Prop :=
  t.all isBlank = false ∧ ∀ c, t.head? = some c → c ≠ '|' ∧ isBlank c = false

theorem IsTitle.exists_cons {t : List Char} (h : IsTitle t) :
    ∃ c rest, t = c :: rest ∧ c ≠ '|' ∧ isBlank c = false := by
  cases t with
  | nil => exact absurd h.1 (by simp)
  | cons c rest => exact ⟨c, rest, rfl, h.2 c rfl⟩

/-! ## Titles lie on one line -/

theorem newline_notMem_of_lineTitle? {cs t : List Char} (h : lineTitle? cs = some t) : '\n' ∉ t := by
  simp only [lineTitle?] at h
  split at h
  · cases h
  · cases h
    intro hmem
    simpa using List.mem_takeWhile_imp hmem

theorem newline_notMem_of_titleAfter? {cs t : List Char} {skip : Nat}
    (h : titleAfter? cs skip = some t) : '\n' ∉ t := by
  induction skip with
  | zero => exact newline_notMem_of_lineTitle? h
  | succ skip ih =>
    rw [titleAfter?] at h
    split at h
    · rename_i hline
      cases h
      exact newline_notMem_of_lineTitle? hline
    · exact ih h

theorem newline_notMem_of_ending? {cs t : List Char} (h : ending? cs = some (some t)) : '\n' ∉ t := by
  cases cs with
  | nil => simp [ending?] at h
  | cons c rest =>
    simp only [ending?] at h
    split at h
    · rename_i htitled
      cases h
      split at htitled
      · exact newline_notMem_of_titleAfter? htitled
      · cases htitled
    · split at h <;> cases h

theorem newline_notMem_of_endingAfter? {cs t : List Char} {skip : Nat}
    (h : endingAfter? cs skip = some (some t)) : '\n' ∉ t := by
  induction skip with
  | zero => exact newline_notMem_of_ending? h
  | succ skip ih =>
    rw [endingAfter?] at h
    split at h
    · rename_i hending
      cases h
      exact newline_notMem_of_ending? hending
    · exact ih h

theorem newline_notMem_of_targetFrom? {passed cs n t : List Char}
    (h : targetFrom? passed cs = some (n, some t)) : '\n' ∉ t := by
  induction cs generalizing passed with
  | nil => cases h
  | cons c cs ih =>
    rw [targetFrom?] at h
    split at h
    · cases h
    · split at h
      · rename_i hending
        cases h
        exact newline_notMem_of_endingAfter? hending
      · exact ih h

theorem newline_notMem_of_targetAfter? {cs n t : List Char} {skip : Nat}
    (h : targetAfter? cs skip = some (n, some t)) : '\n' ∉ t := by
  induction skip with
  | zero => exact newline_notMem_of_targetFrom? h
  | succ skip ih =>
    rw [targetAfter?] at h
    split at h
    · rename_i htarget
      cases h
      exact newline_notMem_of_targetFrom? htarget
    · exact ih h

/-! ## A title on one line is found -/

theorem drop_line (t : List Char) :
    t.drop (t.takeWhile (· != '\n')).length = t.dropWhile (· != '\n') := by
  have hsplit : t.takeWhile (· != '\n') ++ t.dropWhile (· != '\n') = t :=
    List.takeWhile_append_dropWhile
  calc t.drop (t.takeWhile (· != '\n')).length
      = (t.takeWhile (· != '\n') ++ t.dropWhile (· != '\n')).drop
          (t.takeWhile (· != '\n')).length := by rw [hsplit]
    _ = t.dropWhile (· != '\n') := List.drop_left

/-- When the last line end is among the blanks at the end, only blanks follow the first line. -/
theorem blank_of_mem_dropWhile {t : List Char} (h : '\n' ∉ Text.trimEnd t) :
    ∀ c ∈ t.dropWhile (· != '\n'), isBlank c = true := by
  have hsplit : Text.trimEnd t ++ t.rtakeWhile isBlank = t := List.rdropWhile_append_rtakeWhile
  have hline : ∀ c ∈ Text.trimEnd t, (c != '\n') = true := by
    intro c hc
    simpa using ne_of_mem_of_not_mem hc h
  intro c hc
  rw [← hsplit, List.dropWhile_append_of_pos hline] at hc
  exact List.mem_rtakeWhile_imp ((List.dropWhile_sublist _).mem hc)

theorem lineTitle?_of_line {t : List Char} (ht : IsTitle t) (h : '\n' ∉ Text.trimEnd t) :
    lineTitle? t = some (t.takeWhile (· != '\n')) := by
  have hblank : (t.dropWhile (· != '\n')).all isBlank = true :=
    List.all_eq_true.mpr (blank_of_mem_dropWhile h)
  have hne : (t.takeWhile (· != '\n')).isEmpty = false := by
    obtain ⟨c, rest, rfl, -, hc⟩ := ht.exists_cons
    have hnewline : c ≠ '\n' := by
      rintro rfl
      exact absurd hc (by decide)
    simp [hnewline]
  simp [lineTitle?, drop_line, hblank, hne]

theorem trimEnd_line {t : List Char} (h : '\n' ∉ Text.trimEnd t) :
    Text.trimEnd (t.takeWhile (· != '\n')) = Text.trimEnd t := by
  have hempty : Text.trimEnd (t.dropWhile (· != '\n')) = [] :=
    List.rdropWhile_eq_nil_iff.mpr (blank_of_mem_dropWhile h)
  calc Text.trimEnd (t.takeWhile (· != '\n'))
      = Text.trimEnd (t.takeWhile (· != '\n') ++ t.dropWhile (· != '\n')) := by
        rw [Text.trimEnd_append, hempty]
        rfl
    _ = Text.trimEnd t := by rw [List.takeWhile_append_dropWhile]

theorem titleAfter?_of_lineTitle? {cs t : List Char} {skip : Nat}
    (h : lineTitle? (cs.drop skip) = some t) : titleAfter? cs skip = some t := by
  cases skip with
  | zero => simpa [titleAfter?] using h
  | succ skip => rw [titleAfter?, h]

theorem endingAfter?_of_ending? {cs : List Char} {e : Option (List Char)} {skip : Nat}
    (h : ending? (cs.drop skip) = some e) : endingAfter? cs skip = some e := by
  cases skip with
  | zero => simpa [endingAfter?] using h
  | succ skip => rw [endingAfter?, h]

/-- After a bar or a blank and further blanks comes the title. -/
theorem ending?_titled {s : Char} {after t line : List Char} (hs : s = '|' ∨ isBlank s = true)
    (hafter : ∀ c ∈ after, isBlank c = true) (ht : IsTitle t) (hline : lineTitle? t = some line) :
    ending? (s :: (after ++ t)) = some (some line) := by
  obtain ⟨c, rest, rfl, -, hc⟩ := ht.exists_cons
  have hrun : (after ++ c :: rest).takeWhile isBlank = after := by
    rw [List.takeWhile_append_of_pos hafter, List.takeWhile_cons_of_neg (by simp [hc]),
      List.append_nil]
  have htitle : titleAfter? (after ++ c :: rest) after.length = some line :=
    titleAfter?_of_lineTitle? (by rwa [List.drop_left])
  simp [ending?, hs, hrun, htitle]

/-- Where neither a bar nor a blank stands a target does not end. -/
theorem ending?_of_word {c : Char} (hbar : c ≠ '|') (hc : isBlank c = false) (rest : List Char) :
    ending? (c :: rest) = none := by
  simp [ending?, hbar, hc]

theorem endingAfter?_of_word {c : Char} (hbar : c ≠ '|') (hc : isBlank c = false) (rest : List Char) :
    endingAfter? (c :: rest) ((c :: rest).takeWhile isBlank).length = none := by
  rw [List.takeWhile_cons_of_neg (by simp [hc])]
  exact ending?_of_word hbar hc rest

theorem endingAfter?_separated {sep t line : List Char} (hsep : IsSeparator sep) (ht : IsTitle t)
    (hline : lineTitle? t = some line) :
    endingAfter? (sep ++ t) ((sep ++ t).takeWhile isBlank).length = some (some line) := by
  cases hsep with
  | @bar before after hbefore hafter =>
    have hrun : (before ++ '|' :: (after ++ t)).takeWhile isBlank = before := by
      rw [List.takeWhile_append_of_pos hbefore, List.takeWhile_cons_of_neg (by decide),
        List.append_nil]
    rw [List.append_assoc, List.cons_append, hrun]
    apply endingAfter?_of_ending?
    rw [List.drop_left]
    exact ending?_titled (.inl rfl) hafter ht hline
  | blanks hne hblank =>
    obtain ⟨c, rest, hcons, hbar, hc⟩ := ht.exists_cons
    have hrun : (sep ++ t).takeWhile isBlank = sep := by
      rw [hcons, List.takeWhile_append_of_pos hblank, List.takeWhile_cons_of_neg (by simp [hc]),
        List.append_nil]
    have hnone : ending? t = none := hcons ▸ ending?_of_word hbar hc rest
    rw [hrun]
    obtain ⟨before, s, rfl⟩ : ∃ before s, sep = before ++ [s] :=
      ⟨_, _, (List.dropLast_append_getLast hne).symm⟩
    -- with all blanks skipped no separator is left, so the last of them is one
    rw [List.length_append, List.length_singleton, endingAfter?, ← List.length_singleton (a := s),
      ← List.length_append, List.drop_left, hnone]
    apply endingAfter?_of_ending?
    rw [List.append_assoc, List.drop_left]
    exact ending?_titled (.inr (hblank s (by simp))) (List.forall_mem_nil _) ht hline

/-- A word is passed over until an ending follows it. -/
theorem targetFrom?_word {n rest : List Char} {e : Option (List Char)} (hn : IsTarget n)
    (hrest : endingAfter? rest (rest.takeWhile isBlank).length = some e) (passed : List Char) :
    targetFrom? passed (n ++ rest) = some (passed.reverse ++ n, e) := by
  obtain ⟨hne, hword⟩ := hn
  induction n generalizing passed with
  | nil => exact absurd rfl hne
  | cons c n ih =>
    obtain ⟨hbar, -⟩ := hword c List.mem_cons_self
    rw [List.cons_append, targetFrom?, if_neg hbar]
    cases n with
    | nil => simp [hrest]
    | cons d n =>
      obtain ⟨hbar', hblank'⟩ := hword d (by simp)
      rw [List.cons_append, endingAfter?_of_word hbar' hblank', ← List.cons_append,
        ih (c :: passed) (by simp) fun x hx => hword x (List.mem_cons_of_mem c hx)]
      simp

end DocLink

theorem newline_notMem_of_parseDocLink {value n title : String}
    (h : parseDocLink value = (n, some title)) : '\n' ∉ title.toList := by
  rw [parseDocLink] at h
  split at h
  · rename_i target line htarget
    cases line with
    | none => cases h
    | some line =>
      cases h
      rw [String.toList_ofList]
      exact DocLink.newline_notMem_of_targetAfter? htarget
  · cases h

theorem parseDocLink_of_ending {n rest : String} {line : List Char} (hn : DocLink.IsTarget n.toList)
    (h : DocLink.endingAfter? rest.toList (rest.toList.takeWhile isBlank).length = some (some line)) :
    parseDocLink (n ++ rest) = (n, some (String.ofList line)) := by
  have hfront : ((n ++ rest).toList.takeWhile isBlank).length = 0 := by
    obtain ⟨hne, hword⟩ := hn
    obtain ⟨c, cs, hcs⟩ := List.exists_cons_of_ne_nil hne
    have hc := (hword c (by simp [hcs])).2
    simp [hcs, hc]
  have htarget := DocLink.targetFrom?_word hn h []
  rw [parseDocLink, hfront, DocLink.targetAfter?, String.toList_append, htarget]
  simp

/-- **The target of a titled link is its first word.** A link that is written as a target, a separator
and a title is split there, and the title is kept up to the blanks at its end, exactly when no line end
stands in the title before those blanks. -/
theorem parseDocLink_titled_iff {n sep t : String} (hn : DocLink.IsTarget n.toList)
    (hsep : DocLink.IsSeparator sep.toList) (ht : DocLink.IsTitle t.toList) :
    (∃ title, parseDocLink (n ++ sep ++ t) = (n, some title) ∧
        Text.stripEnd title = Text.stripEnd t) ↔
      '\n' ∉ (Text.stripEnd t).toList := by
  constructor
  · rintro ⟨title, hparse, htitle⟩ hmem
    have hline : '\n' ∉ title.toList := newline_notMem_of_parseDocLink hparse
    rw [← htitle, Text.stripEnd, String.toList_ofList] at hmem
    exact hline ((List.rdropWhile_prefix isBlank _).subset hmem)
  · intro hline
    rw [Text.stripEnd, String.toList_ofList] at hline
    refine ⟨String.ofList (t.toList.takeWhile (· != '\n')), ?_, ?_⟩
    · have hending := DocLink.endingAfter?_separated hsep ht (DocLink.lineTitle?_of_line ht hline)
      rw [String.append_assoc]
      exact parseDocLink_of_ending hn (by rwa [String.toList_append])
    · rw [Text.stripEnd, Text.stripEnd, String.toList_ofList, DocLink.trimEnd_line hline]

/-- Blanks around the bar and a line end behind the title do no harm. -/
theorem parseDocLink_titled_dog :
    DocLink.IsTarget "Dog".toList ∧ DocLink.IsSeparator " |\n".toList ∧
      DocLink.IsTitle "the dog \n".toList ∧
      ∃ title, parseDocLink ("Dog" ++ " |\n" ++ "the dog \n") = ("Dog", some title) ∧
        Text.stripEnd title = Text.stripEnd "the dog \n" := by
  have hn : DocLink.IsTarget "Dog".toList := ⟨by simp, by simp; decide⟩
  have hsep : DocLink.IsSeparator " |\n".toList :=
    @DocLink.IsSeparator.bar [' '] ['\n'] (by simp; decide) (by simp; decide)
  have ht : DocLink.IsTitle "the dog \n".toList :=
    ⟨by decide +kernel, by simp; decide⟩
  exact ⟨hn, hsep, ht, (parseDocLink_titled_iff hn hsep ht).mpr (by decide +kernel)⟩

/-- A title of two lines is cut off at its last line, or lost altogether. -/
theorem parseDocLink_two_lines :
    parseDocLink "Dog the\ndog" = ("Dog the", some "dog") ∧
      parseDocLink "Dog|the\ndog" = ("Dog|the\ndog", none) := by
  decide +kernel

/-! ## Captions -/

/-- Does the first line that is not empty start with a blank? -/
def startsIndented (code : List Char) : Bool :=
  (code.dropWhile (· == '\n')).head?.any isBlank

/-- A text is cut at a pattern that does not occur in front of it; no second occurrence of the pattern
can overlap the first, as its first character does not come back. -/
theorem Text.cutAt?_append {p : Char} {ps c : List Char} (hp : p ∉ ps) (hc : ¬ p :: ps <:+: c)
    (rest : List Char) : Text.cutAt? (p :: ps) (c ++ (p :: ps ++ rest)) = some (c, rest) := by
  induction c with
  | nil => rw [List.nil_append, List.cons_append, cutAt?, ← List.cons_append, afterPrefix?_append]
  | cons d c ih =>
    have hnone : afterPrefix? (p :: ps) (d :: c ++ (p :: ps ++ rest)) = none := by
      rw [Option.eq_none_iff_forall_ne_some]
      intro tail htail
      have heq := eq_append_of_afterPrefix? htail
      rcases List.append_eq_append_iff.mp heq with ⟨mid, hmid, hrest⟩ | ⟨mid, hmid, -⟩
      · cases mid with
        | nil => exact hc (by simp [hmid])
        | cons m mid =>
          -- the second occurrence starts inside the first
          obtain ⟨rfl, -⟩ := List.cons.inj hrest
          obtain ⟨-, rfl⟩ := List.cons.inj hmid
          exact hp (by simp)
      · exact hc ⟨[], mid, by simpa using hmid.symm⟩
    have htail : ¬ p :: ps <:+: c := fun h => hc (h.trans (List.suffix_cons d c).isInfix)
    rw [List.cons_append, cutAt?, ← List.cons_append, hnone, ih htail]
    rfl

theorem Text.head?_trimWhile (p : Char → Bool) (cs : List Char) :
    (trimWhile p cs).head? = (cs.dropWhile p).head? := by
  have hfirst := List.head?_dropWhile_not p cs
  have hprefix : trimWhile p cs <+: cs.dropWhile p := List.rdropWhile_prefix p _
  cases hcs : cs.dropWhile p with
  | nil => simpa [hcs] using hprefix
  | cons c rest =>
    rw [hcs] at hfirst hprefix
    have hne : trimWhile p cs ≠ [] := by
      rw [trimWhile, hcs]
      intro hnil
      have hc : p c = false := hfirst
      exact absurd (List.rdropWhile_eq_nil_iff.mp hnil c List.mem_cons_self) (by simp [hc])
    rw [List.head?_eq_some_head hne, hprefix.head hne]
    rfl

theorem Text.trimStart_dropWhile_break (b : List Char) :
    trimStart (b.dropWhile (· == '\n')) = trimStart b := by
  have hbreaks : (b.takeWhile (· == '\n')).all isBlank = true := by
    rw [List.all_eq_true]
    intro c hc
    have hbreak : c = '\n' := by simpa using List.mem_takeWhile_imp hc
    rw [hbreak]
    decide
  rw [← trimStart_append_of_blank hbreaks, List.takeWhile_append_dropWhile]

theorem Text.isBlank_of_mem_head?_trimStart {b : List Char} {c : Char}
    (h : c ∈ (trimStart b).head?) : isBlank c = false := by
  have hfirst := List.head?_dropWhile_not isBlank b
  rw [trimStart, Option.mem_def] at h
  rw [h] at hfirst
  exact hfirst

/-- Blanks in front are lost with a caption, line ends without: the same is left exactly when no other
blank comes first. -/
theorem Text.trimWhile_trimStart_iff (b : List Char) :
    trimWhile (· == '\n') (trimStart b) = trimWhile (· == '\n') b ↔
      startsIndented b = false := by
  rw [startsIndented, Option.any_eq_false]
  constructor
  · intro heq c hc
    have hhead : ((trimStart b).dropWhile (· == '\n')).head? = some c := by
      rw [← head?_trimWhile, heq, head?_trimWhile, hc]
    cases hb : trimStart b with
    | nil =>
      rw [hb] at hhead
      cases hhead
    | cons d rest =>
      have hd : isBlank d = false := isBlank_of_mem_head?_trimStart (by rw [hb]; rfl)
      have hbreak : d ≠ '\n' := by
        rintro rfl
        exact absurd hd (by decide)
      rw [hb, List.dropWhile_cons_of_neg (by simpa using hbreak)] at hhead
      cases hhead
      exact hd
  · intro hfront
    have hkept : trimStart (b.dropWhile (· == '\n')) = b.dropWhile (· == '\n') := by
      cases hb : b.dropWhile (· == '\n') with
      | nil => rfl
      | cons c rest => exact List.dropWhile_cons_of_neg (by simp [hfront c (by simp [hb])])
    rw [← trimStart_dropWhile_break, hkept, trimWhile, List.dropWhile_idempotent, trimWhile]

theorem parseExample_plain {b : String} (h : (parseExample b).1 = none) :
    parseExample b = (none, Text.stripMarks (· == '\n') b) := by
  rw [parseExample] at h ⊢
  split at h
  · split at h
    · cases h
    · rfl
  · rfl

theorem parseExample_captioned {c : String} (hc : ¬ "</caption>".toList <:+: c.toList) (b : String) :
    parseExample ("<caption>" ++ c ++ "</caption>\n" ++ b) =
      (some (Text.strip c),
        String.ofList (Text.trimWhile (· == '\n') (Text.trimStart b.toList))) := by
  have htext : ("<caption>" ++ c ++ "</caption>\n" ++ b).toList =
      "<caption>".toList ++ (c.toList ++ ("</caption>".toList ++ '\n' :: b.toList)) := by
    simp
  have hopen : Text.trimStart ("<caption>" ++ c ++ "</caption>\n" ++ b).toList =
      "<caption>".toList ++ (c.toList ++ ("</caption>".toList ++ '\n' :: b.toList)) := by
    rw [htext]
    rfl
  have hclose : Text.cutAt? "</caption>".toList
      (c.toList ++ ("</caption>".toList ++ '\n' :: b.toList)) =
        some (c.toList, '\n' :: b.toList) :=
    @Text.cutAt?_append '<' "/caption>".toList c.toList (by decide) hc _
  have hbreak : Text.trimStart ('\n' :: b.toList) = Text.trimStart b.toList :=
    Text.trimStart_append_of_blank (a := ['\n']) (by decide)
  rw [parseExample, hopen, Text.afterPrefix?_append]
  simp only [hclose, hbreak]
  rfl

/-- **A caption does not change the example unless its code is indented.** The caption becomes the title,
and the code is the same as without it exactly when the first line that is not empty does not start with
a blank. -/
theorem parseExample_captioned_iff {c b : String} (hc : ¬ "</caption>".toList <:+: c.toList)
    (hb : (parseExample b).1 = none) :
    (parseExample ("<caption>" ++ c ++ "</caption>\n" ++ b)).1 = some (Text.strip c) ∧
      ((parseExample ("<caption>" ++ c ++ "</caption>\n" ++ b)).2 = (parseExample b).2 ↔
        startsIndented b.toList = false) := by
  have hplain := parseExample_plain hb
  rw [parseExample_captioned hc, hplain]
  refine ⟨rfl, ?_⟩
  rw [← Text.trimWhile_trimStart_iff, Text.stripMarks, String.ofList_inj]

/-- Empty lines in front of the code make no difference. -/
theorem parseExample_captioned_usage :
    ¬ "</caption>".toList <:+: " Usage ".toList ∧ (parseExample "\nadd(1, 2)\n").1 = none ∧
      (parseExample ("<caption>" ++ " Usage " ++ "</caption>\n" ++ "\nadd(1, 2)\n")).1 =
        some (Text.strip " Usage ") ∧
      (parseExample ("<caption>" ++ " Usage " ++ "</caption>\n" ++ "\nadd(1, 2)\n")).2 =
        (parseExample "\nadd(1, 2)\n").2 := by
  have hc : ¬ "</caption>".toList <:+: " Usage ".toList := by decide
  have hb : (parseExample "\nadd(1, 2)\n").1 = none := by decide +kernel
  obtain ⟨htitle, hbody⟩ := parseExample_captioned_iff hc hb
  exact ⟨hc, hb, htitle, hbody.mpr (by decide +kernel)⟩

/-- Behind a caption the first line of the code is not indented any more. -/
theorem parseExample_indent_lost :
    parseExample "<caption>Usage</caption>\n  add(1, 2)" = (some "Usage", "add(1, 2)") ∧
      parseExample "  add(1, 2)" = (none, "  add(1, 2)") := by
  decide +kernel

end SymbolDocs
