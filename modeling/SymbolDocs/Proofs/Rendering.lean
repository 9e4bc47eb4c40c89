import SymbolDocs.Proofs.PlainText
import SymbolDocs.Proofs.Visible
import SymbolDocs.Proofs.Work

/-!
# What is rendered reads as the plain text

A session keeps the markup of the nodes rendered so far, and a node is often rendered in the middle
of the rendering of another one. For a node that is printed finitely none of that shows: whenever its
markup is asked for, it is complete and its visible text is the plain text of the node.

* `Site.Clean` says that no address can end a tag early;
* `Site.Shows` is what every entry of the table of markup satisfies;
* `Site.renderNode_reads` keeps it through the rendering of any node, `Site.print_reads` through the
  printing of any layout.

The nodes in progress around a node all lead to it. So a node that is printed finitely is never met
while it is in progress, and its rule is followed to the end.
-/

namespace SymbolDocs

open Relation Work

/-- The markup is complete, reads as the text, and is empty just when nothing is printed. -/
structure Shown.Of (s : Shown) (m : String) : Prop where
  reads : Markup.Reads m s.text
  blank : m = "" ↔ s.blank = true

namespace Markup

/-- An element reads as what it holds. -/
theorem Reads.element {word attributes m t : String} (hne : word.toList ≠ [])
    (hword : '>' ∉ word.toList) (hattr : '>' ∉ attributes.toList) (hm : Reads m t) :
    Reads ("<" ++ word ++ attributes ++ ">" ++ m ++ "</" ++ word ++ ">") t := by
  have hopen : Reads ("<" ++ (word ++ attributes) ++ ">") "" := by
    refine .tag ?_ ?_
    · simp [hne]
    · simp [hword, hattr]
  have hclose : Reads ("<" ++ ("/" ++ word) ++ ">") "" := by
    refine .tag ?_ ?_
    · simp
    · simp [hword]
  have h := (hopen.append hm).append hclose
  rw [String.empty_append, String.append_empty] at h
  have hslash : ("</" : String) = "<" ++ "/" := rfl
  simpa only [hslash, String.append_assoc] using h

theorem reads_wrap (tag : Tag) (style : Style) {m t : String} (h : Reads m t) :
    Reads (tag.wrap style m) t := by
  refine .element ?_ ?_ ?_ h
  · cases tag <;> decide
  · cases tag <;> decide
  · cases style with
    | chip color => cases color <;> decide
    | _ => decide

theorem not_mem_escape {s : String} (h : '>' ∉ s.toList) : '>' ∉ (escape s).toList := by
  rw [escape, String.toList_ofList, escapeChars, List.mem_flatMap]
  rintro ⟨c, hc, hgt⟩
  unfold escapeChar at hgt
  split at hgt
  · simp at hgt
  split at hgt
  · simp at hgt
  split at hgt
  · simp at hgt
  · rw [List.mem_singleton] at hgt
    exact h (hgt ▸ hc)

/-- Only the empty text is read from no markup. -/
theorem Reads.eq_empty {t : String} (h : Reads "" t) : t = "" :=
  h.visible.symm.trans (by decide)

theorem escape_eq_empty_iff {s : String} : escape s = "" ↔ s = "" := by
  constructor
  · intro h
    exact (h ▸ Reads.escape s).eq_empty
  · rintro rfl
    decide

theorem sign_eq_empty_iff {s : String} : sign s = "" ↔ s = "" := by
  constructor
  · intro h
    exact (h ▸ Reads.sign s).eq_empty
  · rintro rfl
    decide

end Markup

/-! ## Layouts -/

namespace Shown

theorem of_append {a b : Shown} {x y : String} (ha : a.Of x) (hb : b.Of y) :
    Of ⟨a.text ++ b.text, a.blank && b.blank⟩ (x ++ y) := by
  refine ⟨ha.reads.append hb.reads, ?_⟩
  rw [String.append_eq_empty_iff, ha.blank, hb.blank, Bool.and_eq_true]

theorem of_wrap (tag : Tag) (style : Style) {m t : String} (h : Markup.Reads m t) :
    Of ⟨t, false⟩ (tag.wrap style m) := by
  refine ⟨Markup.reads_wrap tag style h, iff_of_false (fun he => ?_) (by simp)⟩
  have := congrArg String.toList he
  simp [Tag.wrap] at this

end Shown

namespace Layout

/-- The members of an object type. -/
theorem of_membersMarkup {m t : String} (h : Markup.Reads m t) :
    Shown.Of ⟨membersText t, false⟩ (membersMarkup m) := by
  have hbody : Markup.Reads ("\x7b " ++ m ++ " \x7d") ("\x7b " ++ t ++ " \x7d") :=
    ((Markup.Reads.plain (by decide) (by decide)).append h).append (Markup.Reads.plain (by decide) (by decide))
  unfold membersText membersMarkup
  rw [h.visible]
  split
  · exact Shown.of_wrap .details .more
      ((Markup.reads_wrap .summary .plain (Markup.Reads.plain (by decide) (by decide))).append hbody)
  · refine ⟨hbody, iff_of_false (fun he => ?_) (by simp)⟩
    have := congrArg String.toList he
    simp at this

/-- Entries that are printed and what is seen of them, in the same of the two lists. -/
def EntryOf (x : String × Bool) (y : String × Bool) : Prop :=
  Markup.Reads x.1 y.1 ∧ x.2 = y.2

theorem reads_filter {xs ys : List (String × Bool)} (h : List.Forall₂ EntryOf xs ys)
    (side : Bool → Bool) :
    List.Forall₂ Markup.Reads ((xs.filter fun x => side x.2).map Prod.fst)
      ((ys.filter fun y => side y.2).map Prod.fst) := by
  induction h with
  | nil => exact .nil
  | @cons x y xs ys hxy _ ih =>
    obtain ⟨hread, hside⟩ := hxy
    rw [List.filter_cons, List.filter_cons, hside]
    split
    · exact .cons hread ih
    · exact ih

/-- One of the two lists with its word in front. -/
theorem reads_side (word : String) (hword : Markup.Reads word word) {xs ys : List String}
    (h : List.Forall₂ Markup.Reads xs ys) :
    List.Forall₂ Markup.Reads (if xs.isEmpty then [] else [word ++ Text.joinWith ", " xs])
      (if ys.isEmpty then [] else [word ++ Text.joinWith ", " ys]) := by
  cases h with
  | nil => exact .nil
  | cons hx hxs =>
    exact .cons (hword.append (.joinWith (.plain (by decide) (by decide)) (.cons hx hxs))) .nil

/-- A heritage clause. -/
theorem of_heritageMarkup {xs ys : List (String × Bool)} (h : List.Forall₂ EntryOf xs ys) :
    Shown.Of ⟨heritageText ys, ys.isEmpty⟩ (heritageMarkup xs) := by
  have hext := reads_side "extends " (.plain (by decide) (by decide)) (reads_filter h id)
  have himp := reads_side "implements " (.plain (by decide) (by decide)) (reads_filter h not)
  have hparts : List.Forall₂ Markup.Reads (heritageParts xs) (heritageParts ys) :=
    List.rel_append hext himp
  have hmarkup : heritageMarkup xs = if (heritageParts xs).isEmpty then ""
      else Tag.span.wrap .heritage (Text.joinWith " " (heritageParts xs)) := rfl
  rw [hmarkup]
  split
  · rename_i hxs
    obtain rfl := heritageParts_eq_nil_iff.mp (List.isEmpty_iff.mp hxs)
    cases h
    exact ⟨.empty, by decide⟩
  · rename_i hxs
    have hys : ys.isEmpty = false := by
      cases h with
      | nil => exact absurd rfl hxs
      | cons => rfl
    rw [hys]
    exact Shown.of_wrap .span .heritage (.joinWith (.plain (by decide) (by decide)) hparts)

/-- A text that reads as itself and is empty only when the text is. -/
theorem of_escape (s : String) : Shown.Of ⟨s, s == ""⟩ (Markup.escape s) :=
  ⟨.escape s, Markup.escape_eq_empty_iff.trans beq_iff_eq.symm⟩

theorem of_sign (s : String) : Shown.Of ⟨s, s == ""⟩ (Markup.sign s) :=
  ⟨.sign s, Markup.sign_eq_empty_iff.trans beq_iff_eq.symm⟩

section

variable {M : Place → String → Prop} {R : Place → Record → Prop} {C : Prop}
  {type link : Place → Work String} (shownType : Place → Shown) (label : Place → String)

theorem printEntries_reads (entries : List (Place × Bool))
    (htype : ∀ e ∈ entries, Ensures M R (type e.1) fun m => C → (shownType e.1).Of m) :
    Ensures M R (printEntries type entries) fun ms =>
      C → List.Forall₂ EntryOf ms (entries.map fun e => ((shownType e.1).text, e.2)) := by
  induction entries with
  | nil => exact .pure fun _ => .nil
  | cons e rest ih =>
    refine (htype e List.mem_cons_self).bind fun m hm => ?_
    refine (ih fun e' he' => htype e' (List.mem_cons_of_mem _ he')).bind fun ms hms => ?_
    exact .pure fun hC => .cons ⟨(hm hC).reads, rfl⟩ (hms hC)

/-- A layout reads as what is seen of it when its types and links do. -/
theorem print_reads (l : Layout)
    (htype : ∀ q ∈ l.types, Ensures M R (type q) fun m => C → (shownType q).Of m)
    (hlink : ∀ q, Ensures M R (link q) fun m => C → Shown.Of ⟨label q, false⟩ m) :
    Ensures M R (l.print type link) fun m => C → (l.shown shownType label).Of m := by
  induction l with
  | empty => exact .pure fun _ => ⟨.empty, by simp [shown]⟩
  | text s => exact .pure fun _ => of_escape s
  | sign s => exact .pure fun _ => of_sign s
  | append a b iha ihb =>
    refine (iha fun q hq => htype q (List.mem_append_left _ hq)).bind fun x hx => ?_
    refine (ihb fun q hq => htype q (List.mem_append_right _ hq)).bind fun y hy => ?_
    exact .pure fun hC => Shown.of_append (hx hC) (hy hC)
  | type p => exact htype p List.mem_cons_self
  | spaced p =>
    refine (htype p List.mem_cons_self).bind fun m hm => .pure fun hC => ?_
    simp only [shown, (hm hC).blank]
    split
    · exact ⟨.empty, by simp⟩
    · refine ⟨(Markup.Reads.plain (by decide) (by decide)).append (hm hC).reads, ?_⟩
      simp [String.append_eq_empty_iff]
  | link p => exact hlink p
  | element tag style body ih =>
    exact (ih htype).bind fun m hm => .pure fun hC => Shown.of_wrap tag style (hm hC).reads
  | heritage entries =>
    refine (printEntries_reads shownType entries fun e he => htype e.1 (List.mem_map_of_mem he)).bind
      fun ms hms => .pure fun hC => ?_
    simpa [shown] using of_heritageMarkup (hms hC)
  | members body ih =>
    exact (ih htype).bind fun m hm => .pure fun hC => of_membersMarkup (hm hC).reads
  | broken kind name => exact .throw _ _

end

end Layout

/-! ## Links -/

/-- No address holds a bracket that would end the tag it stands in. -/
structure Site.Clean (site : Site) : Prop where
  pages : ∀ p name, (site.graph.node p).hasOwnPage = true →
    site.plan.pageOf site.graph p = .ok name → '>' ∉ name.toList
  ids : ∀ p id, (site.graph.node p).id = some id → '>' ∉ id.plain.toList

/-- The label of a node reads as its text. -/
theorem of_displayName (n : Node) : Shown.Of ⟨n.label, false⟩ (displayName n) := by
  unfold displayName Node.label
  split
  · rename_i hname
    refine ⟨.escape _, ?_⟩
    simpa [Markup.escape_eq_empty_iff] using hname
  split
  · have hword : ("<i>default</i>" : String) =
        "<" ++ "i" ++ "" ++ ">" ++ "default" ++ "</" ++ "i" ++ ">" := rfl
    refine ⟨?_, by decide⟩
    rw [hword]
    exact Markup.Reads.element (by decide) (by decide) (by decide) (.plain (by decide) (by decide))
  · exact ⟨.plain (by decide) (by decide), by decide⟩

namespace Site

variable {M : Place → String → Prop} {R : Place → Record → Prop} (site : Site)

theorem target_ensures (p : Place) : Ensures M R (site.target p) fun _ => True := by
  unfold target
  dsimp only
  split
  · exact (Ensures.warn _).bind fun _ _ => .pure trivial
  · exact .pure trivial

theorem anchor_clean (hc : site.Clean) (p : Place) : '>' ∉ (anchor (site.graph.node p)).toList := by
  unfold anchor
  split
  · rename_i id hid
    simpa using hc.ids p id hid
  · simp

/-- No address ends the tag it stands in. -/
theorem hrefFrom_clean (fuel : Nat) : ∀ (p : Place) (page : Option Place),
    Ensures M R (site.hrefFrom fuel p page) fun a => site.Clean → '>' ∉ a.toList := by
  induction fuel with
  | zero => exact fun _ _ => .throw _ _
  | succ fuel ih =>
    intro p page
    refine (site.target_ensures p).bind fun q _ => ?_
    dsimp only
    split
    · rename_i hpage
      exact .ofExcept fun name hname hc => hc.pages q name hpage hname
    · -- the address of the owner, or nothing, and the anchor behind it
      have hanchor : ∀ w : Work String, Ensures M R w (fun a => site.Clean → '>' ∉ a.toList) →
          Ensures M R (do let base ← w; pure (base ++ anchor (site.graph.node q)))
            fun a => site.Clean → '>' ∉ a.toList := by
        refine fun w hw => hw.bind fun base hb => .pure fun hc => ?_
        simp [hb hc, site.anchor_clean hc q]
      have hnone : Ensures M R (pure "" : Work String) fun a => site.Clean → '>' ∉ a.toList :=
        .pure (by simp)
      split
      · exact hanchor _ hnone
      split
      · exact hanchor _ (ih _ _)
      split
      · exact hanchor _ (ih _ _)
      · exact hanchor _ hnone

/-- A link reads as the label of its node. -/
theorem link_reads (p : Place) :
    Ensures M R (site.link p) fun m =>
      site.Clean → Shown.Of ⟨(site.graph.node p).label, false⟩ m := by
  have hlabel := of_displayName (site.graph.node p)
  unfold link
  dsimp only
  split
  · exact .pure fun _ => hlabel
  refine (site.hrefFrom_clean _ _ _).bind fun address haddress => ?_
  -- both kinds of link are an element around the label
  have helement : ∀ word : String, word.toList ≠ [] → '>' ∉ word.toList → site.Clean →
      Shown.Of ⟨(site.graph.node p).label, false⟩ ("<" ++ word ++ (" href=\"" ++
        Markup.escape address ++ "\"") ++ ">" ++ displayName (site.graph.node p) ++ "</" ++ word ++
        ">") := by
    intro word hne hword hc
    refine ⟨.element hne hword ?_ hlabel.reads, iff_of_false (fun he => ?_) (by simp)⟩
    · simp [Markup.not_mem_escape (haddress hc)]
    · have := congrArg String.toList he
      simp at this
  split
  · refine .pure fun hc => ?_
    have h := helement "doc-a" (by decide) (by decide) hc
    rw [show ("<doc-a href=\"" : String) = "<" ++ "doc-a" ++ " href=\"" from rfl,
      show ("\">" : String) = "\"" ++ ">" from rfl,
      show ("</doc-a>" : String) = "</" ++ "doc-a" ++ ">" from rfl]
    simpa only [String.append_assoc] using h
  · refine .pure fun hc => ?_
    have h := helement "a" (by decide) (by decide) hc
    rw [show ("<a href=\"" : String) = "<" ++ "a" ++ " href=\"" from rfl,
      show ("\">" : String) = "\"" ++ ">" from rfl,
      show ("</a>" : String) = "</" ++ "a" ++ ">" from rfl]
    simpa only [String.append_assoc] using h

/-! ## Nodes -/

/-- The markup of a node that is printed finitely reads as the plain text of the node. -/
def Shows (p : Place) (m : String) : Prop :=
  site.Clean → site.graph.PrintsFinitely p → (site.graph.shownFrom (site.graph.size + 1) p).Of m

theorem of_restDots {n : Node} {s : Shown} {m : String} (h : s.Of m) :
    (n.dotted s).Of (restDots n m) := by
  unfold Node.dotted restDots
  split
  · refine ⟨(Markup.Reads.plain (by decide) (by decide)).append h.reads, ?_⟩
    simp [String.append_eq_empty_iff]
  · exact h

/-- Whatever is in progress around a node, its markup reads as its plain text. -/
theorem renderNode_reads (budget : Nat) : ∀ (active : List Place) (p : Place),
    (∀ a ∈ active, TransGen site.graph.Prints a p) →
    Ensures site.Shows R (site.renderNode budget active p) (site.Shows p) := by
  induction budget with
  | zero => exact fun _ _ _ => .throw _ _
  | succ budget ih =>
    intro active p hactive
    refine (Ensures.markup? p).bind fun o ho => ?_
    cases o with
    | some m => exact .pure (ho m rfl)
    | none =>
      dsimp only
      split
      · rename_i hp
        exact .pure fun _ hfinite => absurd (hactive p hp) hfinite.not_circular
      · refine Ensures.bind (Layout.print_reads (C := site.Clean ∧ site.graph.PrintsFinitely p)
          site.graph.shownType (fun q => (site.graph.node q).label) _ (fun q hq => ?_)
          fun q => ?_) fun m hm => ?_
        · have hbelow : ∀ a ∈ p :: active, TransGen site.graph.Prints a q := by
            intro a ha
            rcases List.mem_cons.mp ha with rfl | ha
            · exact .single hq
            · exact (hactive a ha).tail hq
          refine (ih (p :: active) q hbelow).bind fun m hm => .pure fun hC => ?_
          exact of_restDots (hm hC.1 (hC.2.step hq))
        · exact (site.link_reads q).mono fun m hm hC => hm hC.1
        · have hp : site.Shows p m := by
            intro hc hfinite
            rw [Graph.shownFrom_of_finite hfinite]
            exact hm ⟨hc, hfinite⟩
          exact (Ensures.rememberMarkup hp).bind fun _ _ => .pure hp

/-- A node in a type position. -/
theorem renderType_reads (p : Place) :
    Ensures site.Shows R (site.renderType p) fun m =>
      site.Clean → site.graph.PrintsFinitely p → (site.graph.shownType p).Of m := by
  refine (site.renderNode_reads _ [] p (by simp)).bind fun m hm => .pure fun hc hfinite => ?_
  exact of_restDots (hm hc hfinite)

/-- **Printing**: a layout of nodes that are printed finitely reads as its plain text. -/
theorem print_reads (l : Layout) :
    Ensures site.Shows R (site.print l) fun m =>
      site.Clean → (∀ q ∈ l.types, site.graph.PrintsFinitely q) → (site.graph.shownLayout l).Of m := by
  refine (Layout.print_reads (C := site.Clean ∧ ∀ q ∈ l.types, site.graph.PrintsFinitely q)
    site.graph.shownType (fun q => (site.graph.node q).label) l (fun q hq => ?_)
    fun q => ?_).mono fun m hm hc hl => hm ⟨hc, hl⟩
  · exact (site.renderType_reads q).mono fun m hm hC => hm hC.1 (hC.2 q hq)
  · exact (site.link_reads q).mono fun m hm hC => hm hC.1

/-- The visible text of a node. -/
theorem renderText_reads (p : Place) :
    Ensures site.Shows R (site.renderText (some p)) fun s =>
      site.Clean → site.graph.PrintsFinitely p → s = (site.graph.shownType p).text :=
  (site.renderType_reads p).bind fun _ hm => .pure fun hc hfinite => (hm hc hfinite).reads.visible

end Site

end SymbolDocs
