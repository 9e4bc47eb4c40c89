import SymbolDocs.Proofs.Faults
import SymbolDocs.Proofs.Rendering

/-!
# Where the visible text is the plain text

The visible text of a type is found by cutting the tags out of its markup. Text of the graph is escaped,
so that it comes back as it was, and every piece of markup is complete, so that pieces can be read one
after the other. One thing is not escaped: a closing bracket in an address. It ends the tag that the
address stands in, and the rest of the address is read as text.

* `Markup.spilt` is what is read of an address, and `Markup.reads_link` says so of a link;
* `Site.print_complete`: all markup that is printed is complete, whatever was cut short in it;
* `Shown.OfUnless` says that markup reads as it should, or else as something with more quotes in it;
* `Layout.print_shows` carries this through a layout, and `Site.plainNode_shows` through the rules;
* `Site.visible_text_exact` is the result: the visible text of a type is its plain text exactly when
  nothing in it lacks parts and no link in it has such an address.
-/

namespace SymbolDocs

open Relation Work

/-! ## Links -/

namespace Markup

/-- What is read of an address in a tag: nothing, or what follows its first closing bracket and then the
end of the tag. -/
def spilt (address : String) : String :=
  match address.toList.dropWhile (· != '>') with
  | [] => ""
  | _ :: rest => String.ofList rest ++ "\">"

/-- An address is kept inside its tag, or it is cut at its first closing bracket. -/
theorem spilt_cases (address : String) : '>' ∉ address.toList ∧ spilt address = "" ∨
    ∃ before after : String, address = before ++ ">" ++ after ∧ '>' ∉ before.toList ∧
      spilt address = after ++ "\">" := by
  have hparts := List.takeWhile_append_dropWhile (p := (· != '>')) (l := address.toList)
  have hbefore : '>' ∉ address.toList.takeWhile (· != '>') := by
    intro h
    simpa using List.mem_takeWhile_imp h
  rw [spilt]
  cases hrest : address.toList.dropWhile (· != '>') with
  | nil =>
    rw [hrest, List.append_nil] at hparts
    rw [hparts] at hbefore
    exact .inl ⟨hbefore, rfl⟩
  | cons c rest =>
    have hc : c = '>' := by
      have := List.head_dropWhile_not (p := (· != '>')) (l := address.toList) (by simp [hrest])
      simpa [hrest] using this
    refine .inr ⟨String.ofList (address.toList.takeWhile (· != '>')), String.ofList rest, ?_, ?_, rfl⟩
    · rw [hrest, hc] at hparts
      refine String.toList_inj.mp ?_
      simpa using hparts.symm
    · simpa using hbefore

theorem escape_append (a b : String) : escape (a ++ b) = escape a ++ escape b := by
  simp [escape, escapeChars, String.ofList_append]

/-- **A link** reads as what is spilt of its address, and then its label. -/
theorem reads_link {word : String} (hne : word.toList ≠ []) (hword : '>' ∉ word.toList)
    (address : String) {m t : String} (hm : Reads m t) :
    Reads ("<" ++ word ++ " href=\"" ++ escape address ++ "\">" ++ m ++ ("</" ++ word ++ ">"))
      (spilt address ++ t) := by
  have hclose : Reads ("<" ++ ("/" ++ word) ++ ">") "" := by
    refine .tag ?_ ?_
    · simp
    · simp [hword]
  have hslash : ("</" : String) = "<" ++ "/" := rfl
  have hend : ("\">" : String) = "\"" ++ ">" := rfl
  rcases spilt_cases address with ⟨hclean, hspilt⟩ | ⟨before, after, rfl, hbefore, hspilt⟩
  · have hopen : Reads ("<" ++ (word ++ " href=\"" ++ escape address ++ "\"") ++ ">") "" := by
      refine .tag ?_ ?_
      · simp [hne]
      · simp [hword, not_mem_escape hclean]
    have h := (hopen.append hm).append hclose
    rw [hspilt, hslash, hend]
    simpa only [String.append_assoc, String.append_empty] using h
  · -- the tag ends inside the address
    have hopen : Reads ("<" ++ (word ++ " href=\"" ++ escape before) ++ ">") "" := by
      refine .tag ?_ ?_
      · simp [hne]
      · simp [hword, not_mem_escape hbefore]
    have hquote : Reads "\">" "\">" := .plain (by decide) (by decide)
    have h := (((hopen.append (Reads.escape after)).append hquote).append hm).append hclose
    have hgt : escape ">" = ">" := by decide
    rw [hspilt, hslash, escape_append, escape_append, hgt]
    simpa only [String.append_assoc, String.empty_append, String.append_empty] using h

/-! ## Complete markup -/

/-- No tag and no reference begun in the markup is still open at its end. -/
def Complete (m : String) : Prop :=
  Reads m (visible m)

theorem Reads.complete {m t : String} (h : Reads m t) : Complete m := by
  rw [Complete, h.visible]
  exact h

/-- Complete markup is read by itself, whatever follows. -/
theorem Complete.visible_append {m : String} (h : Complete m) (k : String) :
    visible (m ++ k) = visible m ++ visible k := by
  obtain ⟨u, hu, ht⟩ := h
  have hrun : unescapeChars (stripTags (m.toList ++ k.toList)) =
      (visible m).toList ++ unescapeChars (stripTags k.toList) := by
    rw [hu, ht]
  rw [visible, String.toList_append, hrun, String.ofList_append, String.ofList_toList]
  rfl

end Markup

open Markup (Complete)

namespace Layout

/-- Entries of a heritage clause, each with what is seen of it. -/
theorem entryOf_visible {ms : List (String × Bool)} (h : ∀ e ∈ ms, Complete e.1) :
    List.Forall₂ EntryOf ms (ms.map fun e => (Markup.visible e.1, e.2)) := by
  induction ms with
  | nil => exact .nil
  | cons e ms ih =>
    exact .cons ⟨h e List.mem_cons_self, rfl⟩ (ih fun e he => h e (List.mem_cons_of_mem _ he))

section

variable {M : Place → String → Prop} {R : Place → Record → Prop} {type link : Place → Work String}

theorem printEntries_complete (htype : ∀ q, Ensures M R (type q) Complete)
    (entries : List (Place × Bool)) :
    Ensures M R (printEntries type entries) fun ms => ∀ e ∈ ms, Complete e.1 := by
  induction entries with
  | nil => exact .pure fun e he => absurd he List.not_mem_nil
  | cons e rest ih =>
    refine (htype e.1).bind fun m hm => ih.bind fun ms hms => .pure ?_
    exact List.forall_mem_cons.mpr ⟨hm, hms⟩

/-- **Layouts print complete markup** when their types and links do. -/
theorem print_complete (htype : ∀ q, Ensures M R (type q) Complete)
    (hlink : ∀ q, Ensures M R (link q) Complete) (l : Layout) :
    Ensures M R (l.print type link) Complete := by
  induction l with
  | empty => exact .pure Markup.Reads.empty.complete
  | text s => exact .pure (Markup.Reads.escape s).complete
  | sign s => exact .pure (Markup.Reads.sign s).complete
  | append a b iha ihb =>
    exact iha.bind fun x hx => ihb.bind fun y hy => .pure (Markup.Reads.append hx hy).complete
  | type p => exact htype p
  | spaced p =>
    refine (htype p).bind fun m hm => .pure ?_
    split
    · exact Markup.Reads.empty.complete
    · have hblank : Markup.Reads " " " " := .plain (by decide) (by decide)
      exact (hblank.append hm).complete
  | link p => exact hlink p
  | element tag style body ih =>
    exact ih.bind fun m hm => .pure (Markup.reads_wrap tag style hm).complete
  | heritage entries =>
    refine (printEntries_complete htype entries).bind fun ms hms => .pure ?_
    exact (of_heritageMarkup (entryOf_visible hms)).reads.complete
  | members body ih => exact ih.bind fun m hm => .pure (of_membersMarkup hm).reads.complete
  | broken kind name => exact .throw _ _

end

end Layout

namespace Site

variable (site : Site) {M : Place → String → Prop} {R : Place → Record → Prop}

/-- What is seen of a link. -/
theorem of_linkMarkup (address : String) (n : Node) :
    Shown.Of ⟨Markup.spilt address ++ n.label, false⟩ (site.linkMarkup address (displayName n)) := by
  have hlabel := (of_displayName n).reads
  refine ⟨?_, iff_of_false (fun he => ?_) (by simp)⟩
  · rw [linkMarkup]
    split
    · exact Markup.reads_link (by decide) (by decide) address hlabel
    · exact Markup.reads_link (by decide) (by decide) address hlabel
  · have := congrArg String.toList he
    simp [linkMarkup] at this

theorem plainLink_complete {p : Place} {m : String} (h : site.plainLink p = .ok m) : Complete m := by
  rw [plainLink_eq] at h
  split at h
  · cases h
    exact (of_displayName _).reads.complete
  · cases ha : site.address (site.linkTarget p) with
    | error e =>
      rw [ha] at h
      cases h
    | ok a =>
      rw [ha] at h
      cases h
      exact (site.of_linkMarkup a _).reads.complete

theorem link_complete (p : Place) : Ensures M R (site.link p) Complete := by
  intro s hs
  refine ⟨(site.link_reads p s hs).1, fun m hm => ?_⟩
  rw [site.link_eq_plain p s] at hm
  exact site.plainLink_complete hm

/-- What every entry of the table of markup satisfies. -/
abbrev KeptComplete (_ : Place) (m : String) : Prop :=
  Complete m

theorem restDots_complete (n : Node) {m : String} (h : Complete m) : Complete (restDots n m) := by
  unfold restDots
  split
  · have hdots : Markup.Reads "..." "..." := .plain (by decide) (by decide)
    exact (hdots.append h).complete
  · exact h

/-- **Rendering** gives complete markup and keeps only such, also where a node is cut short because it is
in progress. -/
theorem renderNode_complete (budget : Nat) : ∀ (active : List Place) (p : Place),
    Ensures KeptComplete R (site.renderNode budget active p) Complete := by
  induction budget with
  | zero => exact fun _ _ => .throw _ _
  | succ budget ih =>
    intro active p
    refine (Ensures.markup? p).bind fun o ho => ?_
    cases o with
    | some m => exact .pure (ho m rfl)
    | none =>
      dsimp only
      split
      · refine .pure ?_
        unfold bareName
        split
        · have hmark : Markup.Reads "?" "?" := .plain (by decide) (by decide)
          exact hmark.complete
        · exact (Markup.Reads.escape _).complete
      · have hrule := Layout.print_complete (M := KeptComplete) (R := R)
          (fun q => (ih (p :: active) q).bind fun m hm =>
            .pure (restDots_complete (site.graph.node q) hm))
          (fun q => site.link_complete q) (site.graph.typeRule p)
        exact hrule.bind fun m hm => (Ensures.rememberMarkup hm).bind fun _ _ => .pure hm

theorem print_complete (l : Layout) : Ensures KeptComplete R (site.print l) Complete :=
  Layout.print_complete
    (fun q => (site.renderNode_complete _ [] q).bind fun _ hm =>
      .pure (restDots_complete (site.graph.node q) hm))
    (fun q => site.link_complete q) l

/-- In every session all markup kept is complete. -/
theorem Reached.keptComplete {s : Session} (hs : site.Reached s) :
    s.Keeps KeptComplete fun _ _ => True :=
  hs.kept site (Session.keeps_fresh _ _) (fun l s hs => (site.print_complete l s hs).1)
    fun _ _ _ h => h.add_record trivial

end Site

/-! ## What is read instead of a text -/

namespace Markup

/-- How many quotes a text has. An address that is spilt always brings one with it, and no sign that is
put between texts has any. -/
def quotes (t : String) : Nat :=
  t.toList.count '"'

@[simp]
theorem quotes_append (a b : String) : quotes (a ++ b) = quotes a + quotes b := by
  simp [quotes]

theorem quotes_joinWith {sep : String} (hsep : quotes sep = 0) (ws : List String) :
    quotes (Text.joinWith sep ws) = (ws.map quotes).sum := by
  induction ws with
  | nil => rfl
  | cons w ws ih =>
    cases ws with
    | nil => simp [Text.joinWith]
    | cons w' ws =>
      rw [Text.joinWith, quotes_append, quotes_append, hsep, ih]
      · simp
      · simp

theorem quotes_lt_spilt {address : String} (h : '>' ∈ address.toList) (t : String) :
    quotes t < quotes (spilt address ++ t) := by
  rcases spilt_cases address with ⟨hclean, -⟩ | ⟨before, after, -, -, hspilt⟩
  · exact absurd h hclean
  · have hone : quotes "\">" = 1 := by decide
    rw [hspilt, quotes_append, quotes_append, hone]
    omega

end Markup

open Markup (quotes)

namespace Layout

theorem quotes_membersText (t : String) : quotes (membersText t) = quotes t := by
  have hbody : quotes ("\x7b " ++ t ++ " \x7d") = quotes t := by
    have hopen : quotes "\x7b " = 0 := by decide
    have hclose : quotes " \x7d" = 0 := by decide
    rw [Markup.quotes_append, Markup.quotes_append, hopen, hclose, Nat.zero_add, Nat.add_zero]
  have hfold : quotes "\x7b ... \x7d" = 0 := by decide
  rw [membersText]
  split
  · rw [Markup.quotes_append, hfold, hbody, Nat.zero_add]
  · exact hbody

/-- One of the two lists of a heritage clause. -/
theorem quotes_side {word : String} (hword : quotes word = 0) (ws : List String) :
    ((if ws.isEmpty then [] else [word ++ Text.joinWith ", " ws]).map quotes).sum =
      (ws.map quotes).sum := by
  cases ws with
  | nil => rfl
  | cons w ws => simp [hword, Markup.quotes_joinWith (show quotes ", " = 0 by decide)]

theorem quotes_heritageText (entries : List (String × Bool)) :
    quotes (heritageText entries) = (entries.map fun e => quotes e.1).sum := by
  have hsplit : (((entries.filter Prod.snd).map Prod.fst).map quotes).sum +
      (((entries.filter fun e => !e.2).map Prod.fst).map quotes).sum =
      (entries.map fun e => quotes e.1).sum := by
    induction entries with
    | nil => rfl
    | cons e rest ih =>
      rcases hside : e.2 with _ | _ <;> simp [hside] at ih ⊢ <;> omega
  rw [heritageText, Markup.quotes_joinWith (by decide), heritageParts, List.map_append,
    List.sum_append, quotes_side (by decide), quotes_side (by decide), hsplit]

end Layout

/-- The markup is complete, and empty just when nothing is printed. It reads as the text unless something
is `bad`; then it has more quotes than the text, and so is different from it. -/
structure Shown.OfUnless (s : Shown) (bad : Prop) (m : String) : Prop where
  complete : Complete m
  blank : m = "" ↔ s.blank = true
  same : ¬ bad → Markup.visible m = s.text
  more : bad → quotes s.text < quotes (Markup.visible m)

namespace Shown.OfUnless

variable {s : Shown} {bad bad' : Prop} {m : String}

/-- What the markup reads as is known. -/
theorem of_seen {t : String} (hreads : Markup.Reads m t) (hblank : m = "" ↔ s.blank = true)
    (hsame : ¬ bad → t = s.text) (hmore : bad → quotes s.text < quotes t) : s.OfUnless bad m := by
  have ht : Markup.visible m = t := hreads.visible
  refine ⟨hreads.complete, hblank, fun hb => ?_, fun hb => ?_⟩
  · rw [ht, hsame hb]
  · rw [ht]
    exact hmore hb

theorem of_clean (h : s.Of m) (hbad : ¬ bad) : s.OfUnless bad m :=
  of_seen h.reads h.blank (fun _ => rfl) fun hb => absurd hb hbad

theorem seen (h : s.OfUnless bad m) : Shown.Of ⟨Markup.visible m, s.blank⟩ m :=
  ⟨h.complete, h.blank⟩

theorem congr (h : s.OfUnless bad m) (hbad : bad' ↔ bad) : s.OfUnless bad' m :=
  ⟨h.complete, h.blank, fun hb => h.same (mt hbad.mpr hb), fun hb => h.more (hbad.mp hb)⟩

theorem le (h : s.OfUnless bad m) : quotes s.text ≤ quotes (Markup.visible m) := by
  by_cases hb : bad
  · exact (h.more hb).le
  · rw [h.same hb]

/-- One after the other. -/
theorem append {s' : Shown} {m' : String} (h : s.OfUnless bad m) (h' : s'.OfUnless bad' m') :
    Shown.OfUnless ⟨s.text ++ s'.text, s.blank && s'.blank⟩ (bad ∨ bad') (m ++ m') := by
  have happend := Shown.of_append h.seen h'.seen
  refine of_seen happend.reads happend.blank (fun hb => ?_) fun hb => ?_
  · rw [not_or] at hb
    rw [h.same hb.1, h'.same hb.2]
  · have hle := h.le
    have hle' := h'.le
    simp only [Markup.quotes_append]
    rcases hb with hb | hb
    · have := h.more hb
      omega
    · have := h'.more hb
      omega

/-- Something around the text that has no quotes. -/
theorem around {f : String → String} (h : s.OfUnless bad m) {m' : String} {blank : Bool}
    (hf : Shown.Of ⟨f (Markup.visible m), blank⟩ m') (hquotes : ∀ t, quotes (f t) = quotes t) :
    Shown.OfUnless ⟨f s.text, blank⟩ bad m' := by
  refine of_seen hf.reads hf.blank (fun hb => ?_) fun hb => ?_
  · rw [h.same hb]
  · rw [hquotes, hquotes]
    exact h.more hb

end Shown.OfUnless

/-! ## Layouts -/

namespace Layout

/-- The nodes that a layout prints links to. -/
def links : Layout → List Place
  | .empty | .text _ | .sign _ | .type _ | .spaced _ | .heritage _ | .broken _ _ => []
  | .append a b => a.links ++ b.links
  | .link p => [p]
  | .element _ _ body | .members body => body.links

/-- One of the types or links of a layout is bad. -/
def Spoilt (B L : Place → Prop) (l : Layout) : Prop :=
  (∃ q ∈ l.types, B q) ∨ ∃ q ∈ l.links, L q

theorem spoilt_append {B L : Place → Prop} {a b : Layout} :
    (Layout.append a b).Spoilt B L ↔ a.Spoilt B L ∨ b.Spoilt B L := by
  simp only [Spoilt, types, links, List.mem_append, or_and_right, exists_or]
  exact or_or_or_comm

section

variable {type link : Place → Except Fault String} {T : Place → Shown} {f : Place → String}
  {B L : Place → Prop}

/-- Entries of a heritage clause, each as it should be unless it is bad. -/
theorem printEntries_shows {entries : List (Place × Bool)}
    (htype : ∀ e ∈ entries, ∃ m, type e.1 = .ok m ∧ (T e.1).OfUnless (B e.1) m) :
    ∃ ms, printEntries type entries = .ok ms ∧
      List.Forall₂ (fun e m => (T e.1).OfUnless (B e.1) m.1 ∧ m.2 = e.2) entries ms := by
  induction entries with
  | nil => exact ⟨[], rfl, .nil⟩
  | cons e rest ih =>
    obtain ⟨m, hm, hof⟩ := htype e List.mem_cons_self
    obtain ⟨ms, hms, hrest⟩ := ih fun e he => htype e (List.mem_cons_of_mem _ he)
    refine ⟨(m, e.2) :: ms, ?_, .cons ⟨hof, rfl⟩ hrest⟩
    rw [printEntries, hm, hms]
    rfl

/-- Each entry has as many quotes as it should, or more, and a bad one has more. -/
theorem sum_quotes {entries : List (Place × Bool)} {ms : List (String × Bool)}
    (h : List.Forall₂ (fun e m => (T e.1).OfUnless (B e.1) m.1 ∧ m.2 = e.2) entries ms) :
    (entries.map fun e => quotes (T e.1).text).sum ≤
        (ms.map fun m => quotes (Markup.visible m.1)).sum ∧
      ((∃ e ∈ entries, B e.1) → (entries.map fun e => quotes (T e.1).text).sum <
        (ms.map fun m => quotes (Markup.visible m.1)).sum) := by
  induction h with
  | nil => simp
  | cons hm _ ih =>
    obtain ⟨hle, hlt⟩ := ih
    have hfirst := hm.1.le
    simp only [List.map_cons, List.sum_cons]
    refine ⟨by omega, ?_⟩
    rintro ⟨e, he, hB⟩
    rcases List.mem_cons.mp he with rfl | he
    · have := hm.1.more hB
      omega
    · have := hlt ⟨e, he, hB⟩
      omega

/-- A heritage clause. -/
theorem heritageMarkup_shows {entries : List (Place × Bool)} {ms : List (String × Bool)}
    (h : List.Forall₂ (fun e m => (T e.1).OfUnless (B e.1) m.1 ∧ m.2 = e.2) entries ms) :
    Shown.OfUnless ⟨heritageText (entries.map fun e => ((T e.1).text, e.2)), entries.isEmpty⟩
      (∃ e ∈ entries, B e.1) (heritageMarkup ms) := by
  have hcomplete : ∀ e ∈ ms, Complete e.1 := by
    intro m hm
    obtain ⟨e, -, hof, -⟩ := exists_of_mem_forall₂ h hm
    exact hof.complete
  have hempty : (ms.map fun m => (Markup.visible m.1, m.2)).isEmpty = entries.isEmpty := by
    cases h <;> rfl
  have hseen := of_heritageMarkup (entryOf_visible hcomplete)
  rw [hempty] at hseen
  refine .of_seen hseen.reads hseen.blank (fun hgood => ?_) fun hbad => ?_
  · refine congrArg heritageText ?_
    clear hcomplete hempty hseen
    induction h with
    | nil => rfl
    | cons hm _ ih =>
      obtain ⟨hof, hside⟩ := hm
      rw [List.map_cons, List.map_cons, ih fun ⟨e, he, hB⟩ => hgood ⟨e, List.mem_cons_of_mem _ he, hB⟩,
        hof.same fun hB => hgood ⟨_, List.mem_cons_self, hB⟩, hside]
  · simp only [quotes_heritageText, List.map_map, Function.comp_def]
    exact (sum_quotes h).2 hbad

theorem print_shows {l : Layout} (hfaults : l.faults = [])
    (htype : ∀ q ∈ l.types, ∃ m, type q = .ok m ∧ (T q).OfUnless (B q) m)
    (hlink : ∀ q ∈ l.links, ∃ m, link q = .ok m ∧ Shown.OfUnless ⟨f q, false⟩ (L q) m) :
    ∃ m, l.print type link = .ok m ∧ (l.shown T f).OfUnless (l.Spoilt B L) m := by
  induction l with
  | empty =>
    exact ⟨"", rfl, .of_clean ⟨.empty, by simp [shown]⟩ (by simp [Spoilt, types, links])⟩
  | text s => exact ⟨_, rfl, .of_clean (of_escape s) (by simp [Spoilt, types, links])⟩
  | sign s => exact ⟨_, rfl, .of_clean (of_sign s) (by simp [Spoilt, types, links])⟩
  | append a b iha ihb =>
    obtain ⟨hfa, hfb⟩ := List.append_eq_nil_iff.mp hfaults
    obtain ⟨x, hx, hofx⟩ := iha hfa (fun q hq => htype q (List.mem_append_left _ hq))
      fun q hq => hlink q (List.mem_append_left _ hq)
    obtain ⟨y, hy, hofy⟩ := ihb hfb (fun q hq => htype q (List.mem_append_right _ hq))
      fun q hq => hlink q (List.mem_append_right _ hq)
    refine ⟨x ++ y, ?_, (hofx.append hofy).congr spoilt_append⟩
    rw [print, hx, hy]
    rfl
  | type p =>
    obtain ⟨m, hm, hof⟩ := htype p List.mem_cons_self
    exact ⟨m, hm, hof.congr (by simp [Spoilt, types, links])⟩
  | spaced p =>
    obtain ⟨m, hm, hof⟩ := htype p List.mem_cons_self
    refine ⟨if m = "" then "" else " " ++ m, by rw [print, hm]; rfl, ?_⟩
    have hbad : (Layout.spaced p).Spoilt B L ↔ B p := by simp [Spoilt, types, links]
    rw [shown]
    by_cases hempty : m = ""
    · -- nothing is read of no markup, so it cannot be bad
      subst hempty
      have hnone : quotes (Markup.visible "") = 0 := by decide
      have hclean : ¬ B p := fun hB => Nat.not_lt_zero _ (hnone ▸ hof.more hB)
      rw [if_pos rfl, if_pos (hof.blank.mp rfl)]
      exact .of_clean ⟨.empty, by simp⟩ (mt hbad.mp hclean)
    · have hblank : ¬ (T p).blank = true := mt hof.blank.mpr hempty
      rw [if_neg hempty, if_neg hblank]
      have hspace : Markup.Reads " " " " := .plain (by decide) (by decide)
      refine (hof.around (f := (" " ++ ·)) ⟨hspace.append hof.complete, ?_⟩ fun t => ?_).congr hbad
      · simp [String.append_eq_empty_iff]
      · simp [quotes]
  | link p =>
    obtain ⟨m, hm, hof⟩ := hlink p List.mem_cons_self
    exact ⟨m, hm, hof.congr (by simp [Spoilt, types, links])⟩
  | element tag style body ih =>
    obtain ⟨m, hm, hof⟩ := ih hfaults htype hlink
    refine ⟨tag.wrap style m, by rw [print, hm]; rfl, ?_⟩
    exact hof.around (f := id) (Shown.of_wrap tag style hof.complete) fun _ => rfl
  | heritage entries =>
    obtain ⟨ms, hms, hall⟩ := printEntries_shows fun e he => htype e.1 (List.mem_map_of_mem he)
    refine ⟨heritageMarkup ms, by rw [print, hms]; rfl, (heritageMarkup_shows hall).congr ?_⟩
    simp [Spoilt, types, links]
  | members body ih =>
    obtain ⟨m, hm, hof⟩ := ih hfaults htype hlink
    refine ⟨membersMarkup m, by rw [print, hm]; rfl, ?_⟩
    exact hof.around (f := membersText) (of_membersMarkup hof.complete) quotes_membersText
  | broken kind name => cases hfaults

theorem printEntries_parts {entries : List (Place × Bool)} {ms : List (String × Bool)}
    (h : printEntries type entries = .ok ms) : ∀ e ∈ entries, ∃ m, type e.1 = .ok m := by
  induction entries generalizing ms with
  | nil => simp
  | cons e rest ih =>
    obtain ⟨m, hm, h⟩ := answer_of_bind h
    obtain ⟨ms', hms, -⟩ := answer_of_bind h
    exact List.forall_mem_cons.mpr ⟨⟨m, hm⟩, ih hms⟩

/-- When a layout is printed, it raises no fault, and its types and links are printed. -/
theorem print_parts {l : Layout} {m : String} (h : l.print type link = .ok m) :
    l.faults = [] ∧ (∀ q ∈ l.types, ∃ m, type q = .ok m) ∧ ∀ q ∈ l.links, ∃ m, link q = .ok m := by
  induction l generalizing m with
  | empty | text | sign => simp [faults, types, links]
  | append a b iha ihb =>
    obtain ⟨x, hx, h⟩ := answer_of_bind h
    obtain ⟨y, hy, -⟩ := answer_of_bind h
    obtain ⟨hfa, hta, hla⟩ := iha hx
    obtain ⟨hfb, htb, hlb⟩ := ihb hy
    refine ⟨by simp [faults, hfa, hfb], fun q hq => ?_, fun q hq => ?_⟩
    · exact (List.mem_append.mp hq).elim (hta q) (htb q)
    · exact (List.mem_append.mp hq).elim (hla q) (hlb q)
  | type p =>
    have hp : ∃ m, type p = .ok m := ⟨m, h⟩
    simpa [faults, types, links] using hp
  | spaced p =>
    obtain ⟨x, hx, -⟩ := answer_of_bind h
    simp [faults, types, links, hx]
  | link p =>
    have hp : ∃ m, link p = .ok m := ⟨m, h⟩
    simpa [faults, types, links] using hp
  | element tag style body ih =>
    obtain ⟨x, hx, -⟩ := answer_of_bind h
    exact ih hx
  | heritage entries =>
    obtain ⟨ms, hms, -⟩ := answer_of_bind h
    refine ⟨rfl, fun q hq => ?_, by simp [links]⟩
    obtain ⟨e, he, rfl⟩ := List.mem_map.mp hq
    exact printEntries_parts hms e he
  | members body ih =>
    obtain ⟨x, hx, -⟩ := answer_of_bind h
    exact ih hx
  | broken kind name => cases h

end

end Layout

/-! ## Nodes -/

namespace Site

variable (site : Site)

/-- The link reads as its label: it has no address, or one that does not end its tag. -/
def CleanLink (p : Place) : Prop :=
  (site.graph.node (site.linkTarget p)).id = none ∨
    ∃ a, site.address (site.linkTarget p) = .ok a ∧ '>' ∉ a.toList

/-- A link that does not read as its label is printed somewhere in the node. -/
def Spills (p : Place) : Prop :=
  ∃ q, ReflTransGen site.graph.Prints p q ∧ ∃ r ∈ (site.graph.typeRule q).links, ¬ site.CleanLink r

theorem spills_iff (p : Place) : site.Spills p ↔
    (site.graph.typeRule p).Spoilt site.Spills fun r => ¬ site.CleanLink r := by
  constructor
  · rintro ⟨q, hq, hr⟩
    rcases hq.cases_head with rfl | ⟨q', hq', hrest⟩
    · exact .inr hr
    · exact .inl ⟨q', hq', q, hrest, hr⟩
  · rintro (⟨q, hq, r, hr, hspilt⟩ | hr)
    · exact ⟨r, .head hq hr, hspilt⟩
    · exact ⟨p, .refl, hr⟩

theorem plainLink_shows {p : Place} {m : String} (h : site.plainLink p = .ok m) :
    Shown.OfUnless ⟨(site.graph.node p).label, false⟩ (¬ site.CleanLink p) m := by
  rw [plainLink_eq] at h
  split at h
  · rename_i hid
    cases h
    exact .of_clean (of_displayName _) (not_not_intro (.inl hid))
  · rename_i hid
    obtain ⟨a, ha, h⟩ := answer_of_bind h
    cases h
    have hclean : site.CleanLink p ↔ '>' ∉ a.toList := by
      simp [CleanLink, hid, ha]
    have hseen := site.of_linkMarkup a (site.graph.node p)
    refine .of_seen hseen.reads hseen.blank (fun hc => ?_) fun hc => ?_
    · rcases Markup.spilt_cases a with ⟨-, hspilt⟩ | ⟨before, after, rfl, -⟩
      · rw [hspilt, String.empty_append]
      · exact absurd (hclean.mp (not_not.mp hc)) (by simp)
    · exact Markup.quotes_lt_spilt (by simpa [hclean] using hc) _

theorem plainLink_of_clean {p : Place} (h : site.CleanLink p) : ∃ m, site.plainLink p = .ok m := by
  rcases h with hid | ⟨a, ha, -⟩
  · exact ⟨_, (site.plainLink_eq p).trans (if_pos hid)⟩
  · exact site.plainLink_of_address ha

theorem restDots_shows {n : Node} {s : Shown} {bad : Prop} {m : String} (h : s.OfUnless bad m) :
    (n.dotted s).OfUnless bad (restDots n m) := by
  unfold Node.dotted restDots
  split
  · have hdots : Markup.Reads "..." "..." := .plain (by decide) (by decide)
    refine h.around (f := ("..." ++ ·)) ⟨hdots.append h.complete, ?_⟩ fun t => ?_
    · simp [String.append_eq_empty_iff]
    · simp [quotes]
  · exact h

/-- **The rules are followed to the end** where nothing lacks parts and all links can be written, and the
markup reads as the plain text unless a link spills its address. -/
theorem plainNode_shows {p : Place} (hp : site.graph.PrintsFinitely p)
    (hwhole : ∀ q, ReflTransGen site.graph.Prints p q → ¬ (site.graph.node q).LacksParts)
    (hlinks : ∀ q, ReflTransGen site.graph.Prints p q → ∀ r ∈ (site.graph.typeRule q).links,
      ∃ m, site.plainLink r = .ok m) :
    ∃ m, site.plainNode (site.graph.size + 1) p = .ok m ∧
      (site.graph.shownFrom (site.graph.size + 1) p).OfUnless (site.Spills p) m := by
  induction hp with
  | intro p hp ih =>
    have hfinite : site.graph.PrintsFinitely p := ⟨p, hp⟩
    have hfaults : (site.graph.typeRule p).faults = [] := by
      rw [Graph.faults_typeRule, if_neg (hwhole p .refl)]
    have htype : ∀ q ∈ (site.graph.typeRule p).types, ∃ m, site.plainType q = .ok m ∧
        (site.graph.shownType q).OfUnless (site.Spills q) m := by
      intro q hq
      obtain ⟨m, hm, hof⟩ := ih q hq (fun r hr => hwhole r (.head hq hr))
        fun r hr => hlinks r (.head hq hr)
      exact ⟨restDots (site.graph.node q) m, by rw [plainType, hm]; rfl, restDots_shows hof⟩
    have hlink : ∀ q ∈ (site.graph.typeRule p).links, ∃ m, site.plainLink q = .ok m ∧
        Shown.OfUnless ⟨(site.graph.node q).label, false⟩ (¬ site.CleanLink q) m := by
      intro q hq
      obtain ⟨m, hm⟩ := hlinks p .refl q hq
      exact ⟨m, hm, site.plainLink_shows hm⟩
    obtain ⟨m, hm, hof⟩ := Layout.print_shows hfaults htype hlink
    rw [site.plainNode_eq hfinite, Graph.shownFrom_of_finite hfinite]
    exact ⟨m, hm, hof.congr (site.spills_iff p)⟩

/-- When a node is printed, nothing in it lacks parts, and all its links are written. -/
theorem plainNode_parts {p : Place} (hp : site.graph.PrintsFinitely p) {m : String}
    (h : site.plainNode (site.graph.size + 1) p = .ok m) {q : Place}
    (hq : ReflTransGen site.graph.Prints p q) : ¬ (site.graph.node q).LacksParts ∧
      ∀ r ∈ (site.graph.typeRule q).links, ∃ m, site.plainLink r = .ok m := by
  induction hp generalizing m with
  | intro p hp ih =>
    rw [site.plainNode_eq ⟨p, hp⟩] at h
    obtain ⟨hfaults, htypes, hlinks⟩ := Layout.print_parts h
    rcases hq.cases_head with rfl | ⟨q', hq', hrest⟩
    · refine ⟨fun hlacks => ?_, hlinks⟩
      rw [Graph.faults_typeRule, if_pos hlacks] at hfaults
      cases hfaults
    · obtain ⟨m', hm'⟩ := htypes q' hq'
      obtain ⟨m'', hm'', -⟩ := answer_of_bind hm'
      exact ih q' hq' hm'' hrest

/-- What is read of a type is its plain text exactly when it can be printed and no link spills. -/
theorem visible_plainType_iff {p : Place} (hp : site.graph.PrintsFinitely p) :
    (do let m ← site.plainType p; return Markup.visible m) = .ok (site.graph.shownType p).text ↔
      (∀ q, ReflTransGen site.graph.Prints p q → ¬ (site.graph.node q).LacksParts) ∧
      ∀ q, ReflTransGen site.graph.Prints p q → ∀ r ∈ (site.graph.typeRule q).links,
        site.CleanLink r := by
  constructor
  · intro h
    obtain ⟨m, hm, hvisible⟩ := answer_of_bind h
    obtain ⟨m', hm', -⟩ := answer_of_bind hm
    have hparts := fun q hq => site.plainNode_parts hp hm' (q := q) hq
    have hwhole := fun q hq => (hparts q hq).1
    refine ⟨hwhole, fun q hq r hr => ?_⟩
    -- a link that spills its address would leave a quote behind
    by_contra hspilt
    obtain ⟨m₁, hm₁, hof⟩ := site.plainNode_shows hp hwhole fun q hq => (hparts q hq).2
    have hmarkup : m = restDots (site.graph.node p) m₁ := by
      rw [plainType, hm₁] at hm
      exact (Except.ok.inj hm).symm
    have hmore := (restDots_shows (n := site.graph.node p) hof).more ⟨q, hq, r, hr, hspilt⟩
    rw [← hmarkup, Except.ok.inj hvisible] at hmore
    exact Nat.lt_irrefl _ hmore
  · rintro ⟨hwhole, hclean⟩
    obtain ⟨m, hm, hof⟩ := site.plainNode_shows hp hwhole fun q hq r hr =>
      site.plainLink_of_clean (hclean q hq r hr)
    have hkept : ¬ site.Spills p := by
      rintro ⟨q, hq, r, hr, hspilt⟩
      exact hspilt (hclean q hq r hr)
    rw [plainType, hm]
    exact congrArg Except.ok ((restDots_shows (n := site.graph.node p) hof).same hkept)

/-- **The visible text of a type.** Text that is escaped and read again is the text. All markup that is
printed in any session is read by itself, whatever is put behind it, so reading goes part by part through
everything that printing puts together. And let no node that `p` leads to be a part of itself; then in
every session the visible text of `p` is its plain text exactly when no node in it lacks parts and each
link in it leads to a node without an id or to an address that is found and has no closing bracket. -/
theorem visible_text_exact (site : Site) {s : Session} (hs : site.Reached s) {p : Place}
    (hp : ∀ q, ReflTransGen site.graph.Prints p q → ¬ TransGen site.graph.Prints q q) :
    (∀ t, Markup.visible (Markup.escape t) = t) ∧
    (∀ l m, ((site.print l).run.run s).1 = .ok m →
      ∀ k, Markup.visible (m ++ k) = Markup.visible m ++ Markup.visible k) ∧
    (((site.renderText (some p)).run.run s).1 = .ok (site.graph.shownType p).text ↔
      (∀ q, ReflTransGen site.graph.Prints p q → ¬ (site.graph.node q).LacksParts) ∧
      ∀ q, ReflTransGen site.graph.Prints p q → ∀ r ∈ (site.graph.typeRule q).links,
        site.CleanLink r) := by
  have htext : ((site.renderText (some p)).run.run s).1 = do
      let m ← site.plainType p
      return Markup.visible m := by
    rw [← (site.render_eq_plain hp hs).1, renderText, run_bind]
    rcases (site.render (some p)).run.run s with ⟨_ | m, s'⟩ <;> rfl
  refine ⟨fun t => (Markup.Reads.escape t).visible, fun l m hm k => ?_, ?_⟩
  · exact ((site.print_complete l s (hs.keptComplete site)).2 m hm).visible_append k
  · rw [htext]
    exact site.visible_plainType_iff (Graph.printsFinitely_of_acyclic hp)

end Site

/-- A module with two classes, one of them with a closing bracket in its name, and two named types that
stand for them. -/
def bracketDocument : Value :=
  .record [("modules", .list [.record [("kind", .int 1), ("id", .int 1), ("name", .text "a.ts"),
    ("children", .list [
      .record [("kind", .int 3), ("id", .int 2), ("name", .text "Box"),
        ("source", .record [("name", .text "a.ts")])],
      .record [("kind", .int 3), ("id", .int 3), ("name", .text "A>B"),
        ("source", .record [("name", .text "a.ts")])],
      .record [("kind", .int 14), ("id", .int 4), ("name", .text "X"),
        ("type", .record [("kind", .int 20), ("name", .text "Box"), ("type", .int 2)])],
      .record [("kind", .int 14), ("id", .int 5), ("name", .text "Y"),
        ("type", .record [("kind", .int 20), ("name", .text "A>B"), ("type", .int 3)])]])]])]

/-- The site of the document. -/
def bracketSite : Site where
  graph :=
    { nodes := #[
        { Node.bare .moduleFile with
          id := some (.int 1), name := "a.ts", children := some [1, 2, 3, 5] },
        { Node.bare .classDecl with
          id := some (.int 2), name := "Box", source := [⟨"a.ts", 0, .null, none, false⟩]
          parent := some 0 },
        { Node.bare .classDecl with
          id := some (.int 3), name := "A>B", source := [⟨"a.ts", 0, .null, none, false⟩]
          parent := some 0 },
        { Node.bare .typeAlias with
          id := some (.int 4), name := "X", type := some 4, parent := some 0 },
        { Node.bare .reference with name := "Box", type := some 1 },
        { Node.bare .typeAlias with
          id := some (.int 5), name := "Y", type := some 6, parent := some 0 },
        { Node.bare .reference with name := "A>B", type := some 2 }]
      modules := [0]
      index := [(.int 1, 0), (.int 2, 1), (.int 3, 2), (.int 4, 3), (.int 5, 5)] }
  plan :=
    { names := [(0, "a.html"), (1, "a--Box.html"), (2, "a--A>B.html")]
      emitted := [0, 1, 2]
      hasReadme := false }
  options := {}

namespace Site

/-- The first type is read as it should be. The address of the second one ends its tag, and the rest of
the address is read in front of the name. -/
theorem visible_text_bracket : Graph.ofValue bracketDocument = .ok bracketSite.graph ∧
    (planPages bracketSite.graph {}).1 = .ok bracketSite.plan ∧
    ((bracketSite.renderText (some 4)).run.run {}).1 = .ok "Box" ∧
    (bracketSite.graph.shownType 6).text = "A>B" ∧
    ((bracketSite.renderText (some 6)).run.run {}).1 ≠ .ok "A>B" ∧
    ((bracketSite.renderText (some 6)).run.run {}).1 = .ok "B.html\">A>B" := by
  have horder : planningOrder bracketSite.graph {} =
      [(0, true), (1, true), (2, true), (3, true), (5, true)] := by cbv
  have hplan : (planPages bracketSite.graph {}).1 = .ok bracketSite.plan := by
    rw [planPages, horder]
    rfl
  -- a link prints no types, so it leads to itself only
  have hleaf : ∀ p, (bracketSite.graph.typeRule p).types = [] →
      ∀ q, ReflTransGen bracketSite.graph.Prints p q → q = p := by
    intro p hp q hq
    rcases hq.cases_head with rfl | ⟨r, hr, -⟩
    · rfl
    · rw [Graph.Prints, hp] at hr
      cases hr
  have hacyclic : ∀ p, (bracketSite.graph.typeRule p).types = [] →
      ∀ q, ReflTransGen bracketSite.graph.Prints p q → ¬ TransGen bracketSite.graph.Prints q q := by
    intro p hp q hq hcycle
    obtain rfl := hleaf p hp q hq
    obtain ⟨r, hr, -⟩ := TransGen.head'_iff.mp hcycle
    rw [Graph.Prints, hp] at hr
    cases hr
  have hplainBox : (bracketSite.graph.shownType 4).text = "Box" := by cbv
  have hplain : (bracketSite.graph.shownType 6).text = "A>B" := by cbv
  obtain ⟨-, -, hbox⟩ := visible_text_exact bracketSite .fresh (hacyclic 4 rfl)
  obtain ⟨-, -, hbracket⟩ := visible_text_exact bracketSite .fresh (hacyclic 6 rfl)
  rw [hplainBox] at hbox
  rw [hplain] at hbracket
  refine ⟨by cbv, hplan, hbox.mpr ⟨fun q hq => ?_, fun q hq r hr => ?_⟩, hplain, fun h => ?_, by cbv⟩
  · rw [hleaf 4 rfl q hq]
    decide
  · have hlinks : (bracketSite.graph.typeRule 4).links = [4] := rfl
    rw [hleaf 4 rfl q hq, hlinks] at hr
    obtain rfl := List.mem_singleton.mp hr
    exact .inr ⟨"a--Box.html", by cbv, by decide⟩
  · have haddress : bracketSite.address (bracketSite.linkTarget 6) = .ok "a--A>B.html" := by cbv
    rcases (hbracket.mp h).2 6 .refl 6 List.mem_cons_self with hid | ⟨a, ha, hclean⟩
    · cases hid
    · rw [haddress] at ha
      cases ha
      exact hclean (by decide)

end Site

end SymbolDocs
