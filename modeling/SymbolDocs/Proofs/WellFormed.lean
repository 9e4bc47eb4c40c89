import SymbolDocs.Proofs.PlainMarkup
import SymbolDocs.Proofs.References

/-!
# Printed markup is well formed

Names, initial values, literals and paths may hold any characters. Whatever they hold, the markup of
types and headings is put together from characters that open no tag and from elements that are closed
again, and what stands in an attribute cannot end it. The only references in it are those that escaping
writes.

* `Markup.WellFormed` is the language of such markup;
* `Markup.Composed` says how markup is put together, from which both properties are read off;
* `Layout.print_composed` says that a layout prints such markup when its types and links do;
* `Site.renderNode_composed` carries it through the table of markup;
* `Site.printed_wellFormed` and `Site.printed_references` are the results for every session.
-/

namespace SymbolDocs

open Work

namespace Markup

/-- The elements that types and headings are made of. -/
def elementWords : List String :=
  ["a", "doc-a", "i", "span", "details", "summary"]

/-- The attributes that these elements have. -/
def attributeNames : List String :=
  ["href", "class"]

/-- Attributes as they are written in a tag, each with a blank in front. -/
def attributes : List (String × String) → String
  | [] => ""
  | (name, value) :: rest => " " ++ name ++ "=\"" ++ value ++ "\"" ++ attributes rest

/-- An attribute has one of the known names, and its value neither ends it nor opens a tag. -/
structure Contained (entry : String × String) : Prop where
  name : entry.1 ∈ attributeNames
  quote : '"' ∉ entry.2.toList
  bracket : '<' ∉ entry.2.toList

/-- **Well-formed markup**: characters that open no tag, and elements around such markup, in any
order. -/
inductive WellFormed : String → Prop
  | empty : WellFormed ""
  | char {c : Char} (hc : c ≠ '<') : WellFormed (String.singleton c)
  | append {a b : String} (ha : WellFormed a) (hb : WellFormed b) : WellFormed (a ++ b)
  | element {word m : String} {as : List (String × String)} (hword : word ∈ elementWords)
    (has : ∀ a ∈ as, Contained a) (hm : WellFormed m) :
    WellFormed ("<" ++ word ++ attributes as ++ ">" ++ m ++ "</" ++ word ++ ">")

namespace WellFormed

theorem of_chars {cs : List Char} (h : '<' ∉ cs) : WellFormed (String.ofList cs) := by
  induction cs with
  | nil => exact empty
  | cons c cs ih =>
    have hc : c ≠ '<' := fun he => h (he ▸ List.mem_cons_self)
    rw [String.ofList_cons]
    exact (char hc).append (ih fun hmem => h (List.mem_cons_of_mem _ hmem))

/-- Text without opening brackets. -/
theorem plain {s : String} (h : '<' ∉ s.toList) : WellFormed s := by
  have := of_chars h
  rwa [String.ofList_toList] at this

theorem escape (s : String) : WellFormed (Markup.escape s) :=
  of_chars (not_mem_escapeChars _)

theorem sign (s : String) : WellFormed (Markup.sign s) := by
  refine of_chars fun h => ?_
  obtain ⟨c, -, hc⟩ := List.mem_flatMap.mp h
  rw [signChar] at hc
  split at hc
  · simp at hc
  · have hmem : '<' ∈ escapeChars [c] := by simpa [escapeChars] using hc
    exact not_mem_escapeChars _ hmem

end WellFormed

/-- An attribute that is contained and has no references but those that escaping writes. -/
structure EscapedAttribute (entry : String × String) : Prop extends Contained entry where
  references : EscapedOnly entry.2.toList

theorem escapedOnly_attributes {as : List (String × String)} (h : ∀ a ∈ as, EscapedAttribute a) :
    EscapedOnly (attributes as).toList := by
  induction as with
  | nil => exact .of_not_mem (by decide)
  | cons a as ih =>
    have ha := h a List.mem_cons_self
    have hnone : ∀ name ∈ attributeNames, '&' ∉ name.toList := by decide
    have hname : EscapedOnly a.1.toList := .of_not_mem (hnone _ ha.name)
    have hblank : EscapedOnly " ".toList := .of_not_mem (by decide)
    have hopening : EscapedOnly "=\"".toList := .of_not_mem (by decide)
    have hclosing : EscapedOnly "\"".toList := .of_not_mem (by decide)
    simp only [attributes, String.toList_append]
    exact ((((hblank.append hname).append hopening).append ha.references).append hclosing).append
      (ih fun a ha => h a (List.mem_cons_of_mem _ ha))

/-- **How markup is put together**: escaped text, escaped signs, characters that need no escaping, and
elements around such markup. -/
inductive Composed : String → Prop
  | escape (s : String) : Composed (Markup.escape s)
  | sign (s : String) : Composed (Markup.sign s)
  | plain {s : String} (h : '<' ∉ s.toList ∧ '&' ∉ s.toList) : Composed s
  | append {a b : String} (ha : Composed a) (hb : Composed b) : Composed (a ++ b)
  | element {word m : String} {as : List (String × String)} (hword : word ∈ elementWords)
    (has : ∀ a ∈ as, EscapedAttribute a) (hm : Composed m) :
    Composed ("<" ++ word ++ attributes as ++ ">" ++ m ++ "</" ++ word ++ ">")

namespace Composed

theorem empty : Composed "" :=
  .plain (by decide)

/-- Such markup is well formed. -/
theorem wellFormed {m : String} (h : Composed m) : WellFormed m := by
  induction h with
  | escape s => exact .escape s
  | sign s => exact .sign s
  | plain h => exact .plain h.1
  | append _ _ iha ihb => exact iha.append ihb
  | element hword has _ ih => exact .element hword (fun a ha => (has a ha).toContained) ih

/-- **The only references are those that escaping writes.** -/
theorem escapedOnly {m : String} (h : Composed m) : EscapedOnly m.toList := by
  induction h with
  | escape s => exact .escape s
  | sign s => exact .sign s
  | plain h => exact .of_not_mem h.2
  | append _ _ iha ihb =>
    rw [String.toList_append]
    exact iha.append ihb
  | @element word m as hword has _ ih =>
    have hnone : ∀ word ∈ elementWords, '&' ∉ word.toList := by decide
    have hword : EscapedOnly word.toList := .of_not_mem (hnone word hword)
    have hopening : EscapedOnly "<".toList := .of_not_mem (by decide)
    have hclosing : EscapedOnly "</".toList := .of_not_mem (by decide)
    have hend : EscapedOnly ">".toList := .of_not_mem (by decide)
    simp only [String.toList_append]
    exact ((((((hopening.append hword).append (escapedOnly_attributes has)).append hend).append ih).append
      hclosing).append hword).append hend

theorem joinWith {sep : String} (hsep : Composed sep) {ms : List String} (h : ∀ m ∈ ms, Composed m) :
    Composed (Text.joinWith sep ms) := by
  induction ms with
  | nil => exact empty
  | cons m ms ih =>
    have hm := h m List.mem_cons_self
    have hms := ih fun m' hm' => h m' (List.mem_cons_of_mem _ hm')
    cases ms with
    | nil => exact hm
    | cons m' ms => exact (hm.append hsep).append hms

/-- A link: the address is escaped, so it stays inside its attribute. -/
theorem link {word : String} (hword : word ∈ elementWords) (address : String) {label : String}
    (h : Composed label) :
    Composed ("<" ++ word ++ " href=\"" ++ Markup.escape address ++ "\">" ++ label ++ "</" ++ word ++
      ">") := by
  have hattribute : ∀ a ∈ [("href", Markup.escape address)], EscapedAttribute a := by
    intro a ha
    obtain rfl := List.mem_singleton.mp ha
    refine ⟨⟨List.mem_cons_self, ?_, ?_⟩, .escape address⟩
    · rw [Markup.escape, String.toList_ofList]
      exact Markup.quote_not_mem_escapeChars _
    · rw [Markup.escape, String.toList_ofList]
      exact not_mem_escapeChars _
  have h := element hword hattribute h
  rw [show (" href=\"" : String) = " " ++ "href" ++ "=\"" from rfl,
    show ("\">" : String) = "\"" ++ ">" from rfl]
  simpa only [attributes, String.append_assoc, String.append_empty] using h

end Composed

end Markup

open Markup (WellFormed Composed EscapedOnly)

/-! ## Layouts -/

/-- The attributes for a style. -/
def Style.attributes : Style → List (String × String)
  | .plain => []
  | .more => [("class", "doc-more")]
  | .heritage => [("class", "heritage")]
  | .signature => [("class", "signature")]
  | .chip color => [("class", "chip chip-" ++ color.word)]

theorem Style.attribute_eq (style : Style) : style.attribute = Markup.attributes style.attributes := by
  cases style with
  | chip color => cases color <;> decide
  | _ => decide

theorem Style.escapedAttribute (style : Style) : ∀ a ∈ style.attributes, Markup.EscapedAttribute a := by
  have hclass : ∀ value : String, '"' ∉ value.toList ∧ '<' ∉ value.toList ∧ '&' ∉ value.toList →
      ∀ a ∈ [("class", value)], Markup.EscapedAttribute a := by
    rintro value ⟨hquote, hbracket, hamp⟩ a ha
    obtain rfl := List.mem_singleton.mp ha
    exact ⟨⟨by simp [Markup.attributeNames], hquote, hbracket⟩, .of_not_mem hamp⟩
  cases style with
  | plain => exact fun a ha => absurd ha List.not_mem_nil
  | chip color => cases color <;> exact hclass _ (by decide)
  | more | heritage | signature => exact hclass _ (by decide)

theorem Tag.wrap_composed (tag : Tag) (style : Style) {m : String} (h : Composed m) :
    Composed (tag.wrap style m) := by
  rw [Tag.wrap, Style.attribute_eq]
  exact .element (by cases tag <;> decide) style.escapedAttribute h

namespace Layout

theorem membersMarkup_composed {m : String} (h : Composed m) : Composed (membersMarkup m) := by
  have hbody : Composed ("\x7b " ++ m ++ " \x7d") :=
    ((Composed.plain (by decide)).append h).append (.plain (by decide))
  unfold membersMarkup
  dsimp only
  split
  · have hfold := Tag.summary.wrap_composed .plain (.plain (s := "\x7b ... \x7d") (by decide))
    exact Tag.details.wrap_composed .more (hfold.append hbody)
  · exact hbody

/-- One of the two lists of a heritage clause. -/
theorem side_composed {word : String} (hword : Composed word) {ms : List String}
    (h : ∀ m ∈ ms, Composed m) :
    ∀ m ∈ (if ms.isEmpty then [] else [word ++ Text.joinWith ", " ms]), Composed m := by
  intro m hm
  split at hm
  · cases hm
  · rw [List.mem_singleton.mp hm]
    exact hword.append (.joinWith (.plain (by decide)) h)

/-- The lists of a heritage clause in their element, or nothing. -/
theorem clause_composed {parts : List String} (h : ∀ m ∈ parts, Composed m) :
    Composed (if parts.isEmpty then "" else
      Tag.span.wrap .heritage (Text.joinWith " " parts)) := by
  split
  · exact .empty
  · exact Tag.span.wrap_composed .heritage (.joinWith (.plain (by decide)) h)

theorem heritageMarkup_composed {entries : List (String × Bool)}
    (h : ∀ e ∈ entries, Composed e.1) : Composed (heritageMarkup entries) := by
  have hside : ∀ side : String × Bool → Bool, ∀ m ∈ (entries.filter side).map Prod.fst, Composed m := by
    intro side m hm
    obtain ⟨e, he, rfl⟩ := List.mem_map.mp hm
    exact h e (List.mem_of_mem_filter he)
  refine clause_composed fun m hm => ?_
  rcases List.mem_append.mp hm with hm | hm
  · exact side_composed (.plain (by decide)) (hside _) m hm
  · exact side_composed (.plain (by decide)) (hside _) m hm

section

variable {M : Place → String → Prop} {R : Place → Record → Prop} {type link : Place → Work String}

theorem printEntries_composed (htype : ∀ q, Ensures M R (type q) Composed)
    (entries : List (Place × Bool)) :
    Ensures M R (printEntries type entries) fun ms => ∀ e ∈ ms, Composed e.1 := by
  induction entries with
  | nil => exact .pure fun e he => absurd he List.not_mem_nil
  | cons e rest ih =>
    refine (htype e.1).bind fun m hm => ih.bind fun ms hms => .pure ?_
    exact List.forall_mem_cons.mpr ⟨hm, hms⟩

/-- **Layouts print composed markup** when their types and links do: text and signs are escaped, and every
element is closed. -/
theorem print_composed (htype : ∀ q, Ensures M R (type q) Composed)
    (hlink : ∀ q, Ensures M R (link q) Composed) (l : Layout) :
    Ensures M R (l.print type link) Composed := by
  induction l with
  | empty => exact .pure .empty
  | text s => exact .pure (.escape s)
  | sign s => exact .pure (.sign s)
  | append a b iha ihb => exact iha.bind fun x hx => ihb.bind fun y hy => .pure (hx.append hy)
  | type p => exact htype p
  | spaced p =>
    refine (htype p).bind fun m hm => .pure ?_
    split
    · exact .empty
    · exact (Composed.plain (by decide)).append hm
  | link p => exact hlink p
  | element tag style body ih => exact ih.bind fun m hm => .pure (tag.wrap_composed style hm)
  | heritage entries =>
    exact (printEntries_composed htype entries).bind fun ms hms => .pure (heritageMarkup_composed hms)
  | members body ih => exact ih.bind fun m hm => .pure (membersMarkup_composed hm)
  | broken kind name => exact .throw _ _

end

end Layout

/-! ## Links and nodes -/

theorem displayName_composed (n : Node) : Composed (displayName n) := by
  unfold displayName
  split
  · exact .escape _
  split
  · have hword : "i" ∈ Markup.elementWords := by decide
    have hnone : ∀ a ∈ ([] : List (String × String)), Markup.EscapedAttribute a := by simp
    have hdefault : Composed "default" := .plain (by decide)
    exact .element hword hnone hdefault
  · exact .plain (by decide)

namespace Site

variable (site : Site) {M : Place → String → Prop} {R : Place → Record → Prop}

/-- A link under the label of its node, seen from any page. -/
theorem link_composed (p : Place) (page : Option Place) :
    Ensures M R (site.link p none page) Composed := by
  have hlabel := displayName_composed (site.graph.node p)
  unfold link
  dsimp only
  split
  · exact .pure hlabel
  refine (site.hrefFrom_clean _ _ page).bind fun address _ => ?_
  split
  · have hword : "doc-a" ∈ Markup.elementWords := by decide
    have h := Composed.link hword address hlabel
    refine .pure ?_
    rw [show ("<doc-a href=\"" : String) = "<" ++ "doc-a" ++ " href=\"" from rfl,
      show ("</doc-a>" : String) = "</" ++ "doc-a" ++ ">" from rfl]
    simpa only [String.append_assoc] using h
  · have hword : "a" ∈ Markup.elementWords := by decide
    have h := Composed.link hword address hlabel
    refine .pure ?_
    rw [show ("<a href=\"" : String) = "<" ++ "a" ++ " href=\"" from rfl,
      show ("</a>" : String) = "</" ++ "a" ++ ">" from rfl]
    simpa only [String.append_assoc] using h

/-- What every entry of the table of markup satisfies. -/
abbrev KeptComposed (_ : Place) (m : String) : Prop :=
  Composed m

theorem restDots_composed (n : Node) {m : String} (h : Composed m) : Composed (restDots n m) := by
  unfold restDots
  split
  · exact (Composed.plain (by decide)).append h
  · exact h

/-- **Rendering** gives composed markup and keeps only such, also where a node is cut short because it is
in progress. -/
theorem renderNode_composed (budget : Nat) : ∀ (active : List Place) (p : Place),
    Ensures KeptComposed R (site.renderNode budget active p) Composed := by
  induction budget with
  | zero => exact fun _ _ => .throw _ _
  | succ budget ih =>
    intro active p
    refine (Ensures.markup? p).bind fun o ho => ?_
    cases o with
    | some m => exact .pure (ho m rfl)
    | none =>
      dsimp only
      split
      · refine .pure ?_
        unfold bareName
        split
        · exact .plain (by decide)
        · exact .escape _
      · have hrule := Layout.print_composed (M := KeptComposed) (R := R)
          (fun q => (ih (p :: active) q).bind fun m hm =>
            .pure (restDots_composed (site.graph.node q) hm))
          (fun q => site.link_composed q none) (site.graph.typeRule p)
        exact hrule.bind fun m hm => (Ensures.rememberMarkup hm).bind fun _ _ => .pure hm

theorem print_composed (l : Layout) : Ensures KeptComposed R (site.print l) Composed :=
  Layout.print_composed
    (fun q => (site.renderNode_composed _ [] q).bind fun _ hm =>
      .pure (restDots_composed (site.graph.node q) hm))
    (fun q => site.link_composed q none) l

/-- In every session all markup kept is composed. -/
theorem Reached.keptComposed {s : Session} (hs : site.Reached s) :
    s.Keeps KeptComposed fun _ _ => True :=
  hs.kept site (Session.keeps_fresh _ _) (fun l s hs => (site.print_composed l s hs).1)
    fun _ _ _ h => h.add_record trivial

theorem Reached.print_composed {s : Session} (hs : site.Reached s) (l : Layout) (m : String)
    (hm : ((site.print l).run.run s).1 = .ok m) : Composed m :=
  (site.print_composed l s (hs.keptComposed site)).2 m hm

theorem Reached.link_composed {s : Session} (hs : site.Reached s) (p : Place) (page : Option Place)
    (m : String) (hm : ((site.link p none page).run.run s).1 = .ok m) : Composed m :=
  (site.link_composed p page s (hs.keptComposed site)).2 m hm

/-- **Printed markup is well formed.** In every session, and whether the site is one of pages or of
routes, what is returned for a type position, a heading with or without badges, a parameter, a type
argument, or a link under the label of its node is well-formed markup. -/
theorem printed_wellFormed {s : Session} (hs : site.Reached s) :
    (∀ p m, ((site.render p).run.run s).1 = .ok m → WellFormed m) ∧
    (∀ p m, ((site.print (site.graph.signature p)).run.run s).1 = .ok m → WellFormed m) ∧
    (∀ p m, ((site.print (site.graph.signatureText p)).run.run s).1 = .ok m → WellFormed m) ∧
    (∀ p m, ((site.print (site.graph.parameter p)).run.run s).1 = .ok m → WellFormed m) ∧
    (∀ p m, ((site.print (site.graph.typeArgument p)).run.run s).1 = .ok m → WellFormed m) ∧
    ∀ p page m, ((site.link p none page).run.run s).1 = .ok m → WellFormed m := by
  have hprint : ∀ l m, ((site.print l).run.run s).1 = .ok m → WellFormed m :=
    fun l m hm => (hs.print_composed site l m hm).wellFormed
  refine ⟨fun p => ?_, fun p => hprint _, fun p => hprint _, fun p => hprint _, fun p => hprint _,
    fun p page m hm => (hs.link_composed site p page m hm).wellFormed⟩
  rw [render_eq_print]
  exact hprint _

/-- **Printed references.** In every session the markup of a layout and of a link has only the references
that escaping writes, with its tags and without them. Read back they give the characters they stand for
(`Markup.StartsEscape.reference`), and no other entity is looked up. -/
theorem printed_references {s : Session} (hs : site.Reached s) :
    (∀ l m, ((site.print l).run.run s).1 = .ok m →
      EscapedOnly m.toList ∧ EscapedOnly (Markup.stripTags m.toList)) ∧
    ∀ p page m, ((site.link p none page).run.run s).1 = .ok m →
      EscapedOnly m.toList ∧ EscapedOnly (Markup.stripTags m.toList) := by
  constructor
  · intro l m hm
    have h := (hs.print_composed site l m hm).escapedOnly
    exact ⟨h, h.stripTags⟩
  · intro p page m hm
    have h := (hs.link_composed site p page m hm).escapedOnly
    exact ⟨h, h.stripTags⟩

/-! ## A class whose name looks like a tag -/

/-- A class with such a name, and a named type that stands for it. -/
def taggedDocument : Value :=
  .record [("modules", .list [.record [("kind", .int 1), ("id", .int 1), ("name", .text "a.ts"),
    ("children", .list [
      .record [("kind", .int 3), ("id", .int 2), ("name", .text "\"><i>"),
        ("source", .record [("name", .text "a.ts")])],
      .record [("kind", .int 14), ("id", .int 3), ("name", .text "T"),
        ("type", .record [("kind", .int 20), ("name", .text "\"><i>"), ("type", .int 2)])]])]])]

/-- The site of the document, with routes for its pages. -/
def taggedSite : Site where
  graph :=
    { nodes := #[
        { Node.bare .moduleFile with id := some (.int 1), name := "a.ts", children := some [1, 2] },
        { Node.bare .classDecl with
          id := some (.int 2), name := "\"><i>", source := [⟨"a.ts", 0, .null, none, false⟩]
          parent := some 0 },
        { Node.bare .typeAlias with
          id := some (.int 3), name := "T", type := some 3, parent := some 0 },
        { Node.bare .reference with name := "\"><i>", type := some 1 }]
      modules := [0]
      index := [(.int 1, 0), (.int 2, 1), (.int 3, 2)] }
  plan :=
    { names := [(0, "a.html"), (1, "a--\"><i>.html")], emitted := [0, 1], hasReadme := false }
  options := { spa := true }

theorem taggedSite_planned :
    (planPages taggedSite.graph taggedSite.options).1 = .ok taggedSite.plan := by
  have horder : planningOrder taggedSite.graph taggedSite.options =
      [(0, true), (1, true), (2, true)] := by cbv
  rw [planPages, horder]
  rfl

theorem printed_wellFormed_tagged : Graph.ofValue taggedDocument = .ok taggedSite.graph ∧
    (planPages taggedSite.graph taggedSite.options).1 = .ok taggedSite.plan ∧
    ((taggedSite.print (taggedSite.graph.signatureText 2)).run.run
      (taggedSite.session [.render (some 3)])).1 =
      .ok "T = <doc-a href=\"a--&quot;>&lt;i>.html\">&quot;>&lt;i></doc-a>" ∧
    WellFormed "T = <doc-a href=\"a--&quot;>&lt;i>.html\">&quot;>&lt;i></doc-a>" := by
  have hprinted : ((taggedSite.print (taggedSite.graph.signatureText 2)).run.run
      (taggedSite.session [.render (some 3)])).1 =
      .ok "T = <doc-a href=\"a--&quot;>&lt;i>.html\">&quot;>&lt;i></doc-a>" := by cbv
  obtain ⟨-, -, htext, -⟩ := printed_wellFormed taggedSite (taggedSite.reached_session [.render (some 3)])
  exact ⟨by cbv, taggedSite_planned, hprinted, htext 2 _ hprinted⟩

end Site

end SymbolDocs
