import SymbolDocs.Page.Body
import SymbolDocs.Proofs.Planning
import SymbolDocs.Proofs.Twins

/-!
# The bodies of pages and of routes

What a page says is the same on a site of pages and on a site of routes, apart from the tags of links.
Prose puts links where their marks are, members are grouped by kind, and groups are put in order; none
of this looks at the markup itself, and packages are asked the same on both sites.

* `replaceMarks_linksApart`: links are put into prose alike;
* `Site.documentation_twin` is the result for documentation, `Site.card_twin` for members;
* `MemberPrinter.groups_twin` and `MemberPrinter.inherited_twin` for groups;
* `Site.pageBody_twin` for the body of a page.
-/

namespace SymbolDocs

open Markup (SameBut LinkTag LinkPiece Swapped)
open Work

/-- Markup that is the same apart from the tags of its links. -/
abbrev Markup.LinksApart : String → String → Prop := SameBut LinkPiece

open Markup (LinksApart)

/-! ## Links in prose -/

/-- A mark is a word of its own: nothing in it looks like a tag. -/
theorem linkMark_cons (i : Nat) : ∃ ps, (linkMark i).toList = 'D' :: ps ∧ '<' ∉ ps := by
  refine ⟨"OCGRAPHLINK".toList ++ (Text.natText i).toList ++ "END".toList, by simp [linkMark], ?_⟩
  have hdigits : '<' ∉ (Text.natText i).toList := fun h =>
    absurd (Text.isDigit_of_mem_natText h) (by decide)
  simpa using hdigits

/-- **Marks are replaced alike**: no mark reaches into the tag of a link. -/
theorem replaceMarks_linksApart {links links' : List String} (h : List.Forall₂ LinksApart links links')
    (i : Nat) {cs cs' : List Char} (hcs : Swapped LinkPiece cs cs') :
    Swapped LinkPiece (replaceMarks i links cs) (replaceMarks i links' cs') := by
  induction h generalizing i cs cs' with
  | nil => exact hcs
  | cons hlink _ ih =>
    refine ih (i + 1) ?_
    obtain ⟨ps, hmark, hps⟩ := linkMark_cons i
    rw [hmark]
    refine Swapped.replaceAll LinkPiece.bracketed hps hlink (fun ht => ⟨_, _, .of_piece ht, ?_⟩) hcs
    cases ht with
    | opening | closing =>
      exact ⟨fun _ => Text.replaceAll_append (by decide) _,
        fun _ => Text.replaceAll_append (by decide) _⟩

namespace Site

variable {site : Site} (digest : String)

theorem graph_routed : (site.routed digest).graph = site.graph := rfl

/-- A link to an address is the same on both sites. -/
theorem externalLink_twin (url : String) (title : Option String) :
    Twin LinksApart (site.externalLink url title) ((site.routed digest).externalLink url title) :=
  (Twin.ofExcept_self (site.options.rebase url)).bind_eq fun _ => .pure (.refl _ _)

/-- What is printed in turn corresponds item by item. -/
theorem eachText_twin {α : Type} {f f' : α → Work String} (h : ∀ a, Twin LinksApart (f a) (f' a))
    (as : List α) : Twin (List.Forall₂ LinksApart) (eachText f as) (eachText f' as) := by
  induction as with
  | nil => exact .pure .nil
  | cons a rest ih => exact (h a).bind fun _ _ hm => ih.bind fun _ _ hms => .pure (.cons hm hms)

theorem printEach_twin {print print' : Place → Work String}
    (h : ∀ p, Twin LinksApart (print p) (print' p)) (ps : List Place) :
    Twin (List.Forall₂ LinksApart) (MemberPrinter.printEach print ps)
      (MemberPrinter.printEach print' ps) := by
  induction ps with
  | nil => exact .pure .nil
  | cons p rest ih => exact (h p).bind fun _ _ hm => ih.bind fun _ _ hms => .pure (.cons hm hms)

/-- Parts that have no links. -/
theorem forall₂_linksApart_refl (parts : List String) : List.Forall₂ LinksApart parts parts :=
  List.forall₂_same.mpr fun m _ => .refl _ m

variable (hspa : site.options.spa = false)

include hspa

theorem link_linksApart (p : Place) (content : Option String) (page : Option Place) :
    Twin LinksApart (site.link p content page) ((site.routed digest).link p content page) :=
  (link_twin digest hspa p content page).mono fun _ _ h => h.pieces

theorem print_linksApart (l : Layout) :
    Twin LinksApart (site.print l) ((site.routed digest).print l) :=
  (print_twin digest hspa l).mono fun _ _ h => h.pieces

theorem docLink_twin (value : String) :
    Twin LinksApart (site.docLink value) ((site.routed digest).docLink value) := by
  rcases hvalue : parseDocLink value with ⟨name, title⟩
  cases hname : site.graph.findByName? name with
  | some p =>
    simp only [docLink, graph_routed, hvalue, hname]
    exact link_linksApart digest hspa p _ _
  | none =>
    simp only [docLink, graph_routed, hvalue, hname]
    exact (Twin.warn _).bind_eq fun _ => externalLink_twin digest name title

/-- Spans are marked alike: the texts are the same and the links correspond. -/
theorem markSpans_twin (count : Nat) (spans : List DocSpan) :
    Twin (fun x x' => x.1 = x'.1 ∧ List.Forall₂ LinksApart x.2 x'.2) (site.markSpans count spans)
      ((site.routed digest).markSpans count spans) := by
  induction spans generalizing count with
  | nil => exact .pure ⟨rfl, .nil⟩
  | cons span rest ih =>
    by_cases htag : span.tag = some "link"
    · simp only [markSpans, if_pos htag]
      refine (docLink_twin digest hspa span.value).bind fun link link' hlink => ?_
      exact (ih (count + 1)).bind fun x x' hx => .pure ⟨by rw [hx.1], .cons hlink hx.2⟩
    · simp only [markSpans, if_neg htag]
      exact (ih count).bind fun x x' hx => .pure ⟨by rw [hx.1], hx.2⟩

theorem title_twin (p : Place) :
    Twin (List.Forall₂ LinksApart) (site.title p) ((site.routed digest).title p) := by
  refine (print_linksApart digest hspa _).bind fun heading heading' hheading => .pure ?_
  exact .cons (((SameBut.refl _ _).append hheading).append (.refl _ _)) (forall₂_linksApart_refl _)

theorem extensions_twin (p : Place) :
    Twin (List.Forall₂ LinksApart) (site.extensions p) ((site.routed digest).extensions p) := by
  cases hps : (site.graph.node p).extendedBy.getD [] with
  | nil =>
    simp only [extensions, graph_routed, hps]
    exact .pure .nil
  | cons q rest =>
    simp only [extensions, graph_routed, hps]
    refine (printEach_twin (fun q => link_linksApart digest hspa q none none) _).bind fun _ _ hlinks => ?_
    exact .pure (.cons (((SameBut.refl _ _).append (.joinWith _ hlinks)).append (.refl _ _)) .nil)

/-! ## Prose and documentation -/

variable [Packages]

theorem prose_twin (value : DocText) (inLine : Option Bool) :
    Twin LinksApart (site.prose value inLine) ((site.routed digest).prose value inLine) := by
  have hbody : ∀ body : String, ∀ links links' : List String, List.Forall₂ LinksApart links links' →
      LinksApart (String.ofList (replaceMarks 0 links body.toList))
        (String.ofList (replaceMarks 0 links' body.toList)) := by
    intro body links links' hlinks
    simpa [SameBut] using replaceMarks_linksApart hlinks 0 (.refl _ body.toList)
  cases value with
  | plain s => exact (Twin.ofExcept_self _).bind_eq fun _ => .pure (hbody _ _ _ .nil)
  | spans items =>
    refine (markSpans_twin digest hspa 0 items).bind fun x x' hx => ?_
    obtain ⟨source, links⟩ := x
    obtain ⟨source', links'⟩ := x'
    obtain ⟨rfl, hlinks⟩ := hx
    exact (Twin.ofExcept_self _).bind_eq fun _ => .pure (hbody _ _ _ hlinks)

theorem relatedEntry_twin (value : DocText) :
    Twin LinksApart (site.relatedEntry value) ((site.routed digest).relatedEntry value) := by
  cases value with
  | spans items => exact prose_twin digest hspa _ _
  | plain s =>
    cases hname : site.graph.findByName? (Text.strip s) with
    | some p =>
      simp only [relatedEntry, graph_routed, hname]
      exact link_linksApart digest hspa p _ _
    | none =>
      simp only [relatedEntry, graph_routed, hname]
      split
      · exact externalLink_twin digest _ _
      · exact prose_twin digest hspa _ _

theorem related_twin (values : List DocText) :
    Twin LinksApart (site.related values) ((site.routed digest).related values) :=
  (eachText_twin (relatedEntry_twin digest hspa) values).bind fun _ _ hentries =>
    .pure (((SameBut.refl _ _).append (.joinWith _ hentries)).append (.refl _ _))

theorem block_twin (value : DocText) :
    Twin LinksApart (site.block value) ((site.routed digest).block value) := by
  refine (prose_twin digest hspa value _).bind fun body body' hbody => .pure ?_
  split
  · exact ((SameBut.refl _ _).append hbody).append (.refl _ _)
  · exact hbody

theorem item_twin (item : DocItem) :
    Twin LinksApart (site.item item) ((site.routed digest).item item) := by
  unfold Site.item
  split
  · exact block_twin digest hspa _
  · exact block_twin digest hspa _
  · exact .pure (.refl _ _)
  · exact .pure (.refl _ _)
  · exact .pure (.refl _ _)
  · exact docLink_twin digest hspa _
  · exact (block_twin digest hspa _).bind fun _ _ hbody => .pure ((SameBut.refl _ _).append hbody)
  · exact .pure (.refl _ _)

theorem documentation_twin (n : Node) :
    Twin LinksApart (site.documentation n) ((site.routed digest).documentation n) := by
  cases hdocs : n.docs with
  | none =>
    simp only [documentation, hdocs]
    exact .pure (.refl _ _)
  | some docs =>
    simp only [documentation, hdocs]
    refine (eachText_twin (item_twin digest hspa) docs.content).bind fun parts parts' hparts => ?_
    split
    · exact .pure (.join hparts)
    · exact (related_twin digest hspa _).bind fun _ _ hline => .pure ((SameBut.join hparts).append hline)

theorem docParts_twin (n : Node) :
    Twin (List.Forall₂ LinksApart) (site.docParts n) ((site.routed digest).docParts n) := by
  refine (documentation_twin digest hspa n).bind fun docs docs' hdocs => .pure ?_
  exact hdocs.ite_empty LinkPiece.bracketed .nil (.cons hdocs .nil)

/-! ## Cards -/

theorem parameterItem_twin (p : Place) :
    Twin LinksApart (site.parameterItem p) ((site.routed digest).parameterItem p) := by
  refine (print_linksApart digest hspa _).bind fun code code' hcode => ?_
  refine (documentation_twin digest hspa _).bind fun docs docs' hdocs => .pure ?_
  have htail : LinksApart (if docs = "" then "" else " " ++ docs)
      (if docs' = "" then "" else " " ++ docs') :=
    hdocs.ite_empty LinkPiece.bracketed (.refl _ _) ((SameBut.refl _ _).append hdocs)
  exact ((((SameBut.refl _ _).append hcode).append (.refl _ _)).append htail).append (.refl _ _)

theorem parameterParts_twin (n : Node) :
    Twin (List.Forall₂ LinksApart) (site.parameterParts n) ((site.routed digest).parameterParts n) := by
  cases hps : n.parameters.getD [] with
  | nil =>
    simp only [parameterParts, hps]
    exact .pure .nil
  | cons p rest =>
    simp only [parameterParts, hps]
    refine (printEach_twin (parameterItem_twin digest hspa) _).bind fun _ _ hitems => .pure ?_
    have hsame := forall₂_linksApart_refl
    exact List.rel_append (List.rel_append (hsame _) hitems) (hsame _)

theorem card_twin (p : Place) : Twin LinksApart (site.card p) ((site.routed digest).card p) := by
  refine (print_linksApart digest hspa _).bind fun heading heading' hheading => ?_
  refine (docParts_twin digest hspa _).bind fun docs docs' hdocs => ?_
  refine (parameterParts_twin digest hspa _).bind fun parameters parameters' hparameters => ?_
  refine (Twin.ofExcept_self _).bind_eq fun source => .pure (.joinWith _ ?_)
  have htitle : LinksApart ("<h4>" ++ heading ++ "</h4>") ("<h4>" ++ heading' ++ "</h4>") :=
    ((SameBut.refl _ _).append hheading).append (.refl _ _)
  have hsame := forall₂_linksApart_refl
  refine List.rel_append (List.rel_append (List.rel_append (List.rel_append
    (List.rel_append (hsame _) ?_) hdocs) hparameters) (hsame source)) (hsame _)
  exact .cons (.refl _ _) (.cons htitle .nil)

end Site

/-! ## Groups -/

/-- Lists that correspond are sorted alike when the order sees no difference between what corresponds. -/
theorem forall₂_mergeSort {α : Type} {R : α → α → Prop} {le : α → α → Bool} {as bs : List α}
    (h : List.Forall₂ R as bs) (hle : ∀ {a b c d}, R a b → R c d → le a c = le b d) :
    List.Forall₂ R (as.mergeSort le) (bs.mergeSort le) := by
  obtain ⟨hlength, hzip⟩ := List.forall₂_iff_zip.mp h
  -- both lists are sorted by sorting the pairs
  have hfst : ((as.zip bs).mergeSort fun z w => le z.1 w.1).map Prod.fst = as.mergeSort le := by
    rw [List.map_mergeSort (s := le) fun _ _ _ _ => rfl, List.map_fst_zip hlength.le]
  have hsnd : ((as.zip bs).mergeSort fun z w => le z.1 w.1).map Prod.snd = bs.mergeSort le := by
    rw [List.map_mergeSort (s := le) fun z hz w hw => hle (hzip hz) (hzip hw),
      List.map_snd_zip hlength.ge]
  rw [← hfst, ← hsnd, List.forall₂_map_left_iff, List.forall₂_map_right_iff]
  exact List.forall₂_same.mpr fun z hz => hzip (List.mem_mergeSort.mp hz)

/-- Groups of the same kind with the same names, whose entries and cards correspond. -/
structure Group.Twin (a b : Group) : Prop where
  kind : a.kind = b.kind
  names : a.names = b.names
  index : List.Forall₂ LinksApart a.index b.index
  body : List.Forall₂ LinksApart a.body b.body

namespace Group

variable {groups groups' : List Group}

theorem Twin.title {a b : Group} (h : a.Twin b) : a.title = b.title := by
  rw [Group.title, Group.title, h.kind]

/-- The group of a kind among corresponding groups. -/
theorem ofKind_twin (kind : Kind) (h : List.Forall₂ Group.Twin groups groups') :
    (ofKind kind groups).Twin (ofKind kind groups') := by
  induction h with
  | nil => exact ⟨rfl, rfl, .nil, .nil⟩
  | @cons a b _ _ hab _ ih =>
    unfold ofKind at ih ⊢
    rw [List.find?_cons, List.find?_cons, ← hab.kind]
    cases a.kind == kind with
    | true => exact hab
    | false => exact ih

theorem put_twin {a b : Group} (hab : a.Twin b) (h : List.Forall₂ Group.Twin groups groups') :
    List.Forall₂ Group.Twin (a.put groups) (b.put groups') := by
  induction h with
  | nil => exact .cons hab .nil
  | @cons c d _ _ hcd hrest ih =>
    rw [put, put, ← hab.kind, ← hcd.kind]
    split
    · exact .cons hab hrest
    · exact .cons hcd ih

/-- Groups are put in order alike, because their titles are the same. -/
theorem sortByTitle_twin (h : List.Forall₂ Group.Twin groups groups') :
    List.Forall₂ Group.Twin (sortByTitle groups) (sortByTitle groups') := by
  refine forall₂_mergeSort h fun hab hcd => ?_
  rw [hab.title, hcd.title]

end Group

/-- Printers whose entries and cards correspond. -/
structure MemberPrinter.Twin (mp mp' : MemberPrinter) : Prop where
  entry : ∀ p page, Work.Twin LinksApart (mp.entry p page) (mp'.entry p page)
  card : ∀ p, Work.Twin LinksApart (mp.card p) (mp'.card p)

/-- Sections of the same entry with corresponding groups. -/
def InheritedSection.Twin (a b : InheritedSection) : Prop :=
  a.heritage = b.heritage ∧ List.Forall₂ Group.Twin a.groups b.groups

namespace MemberPrinter

/-- Sections that correspond, after the same ancestors were visited. -/
def SectionsTwin (x x' : List InheritedSection × List Place) : Prop :=
  List.Forall₂ InheritedSection.Twin x.1 x'.1 ∧ x.2 = x'.2

variable {mp mp' : MemberPrinter} (h : mp.Twin mp') (g : Graph)

include h

/-- **One more member** goes to corresponding groups. -/
theorem addMember_twin (indexOnly : Bool) {groups groups' : List Group}
    (hgroups : List.Forall₂ Group.Twin groups groups') (owner p : Place) :
    Work.Twin (List.Forall₂ Group.Twin) (mp.addMember g indexOnly groups owner p)
      (mp'.addMember g indexOnly groups' owner p) := by
  have hgroup := Group.ofKind_twin (g.node p).kind.grouped hgroups
  -- what is left to do when the member has been listed
  have hrest : ∀ {a b : Group}, a.Twin b → Work.Twin (List.Forall₂ Group.Twin)
      (do
        let group ←
          if indexOnly || (g.node p).hasOwnPage || (g.node p).kind == .reExport then pure a
          else do
            let card ← mp.card p
            pure { a with body := a.body ++ [card] }
        return group.put groups)
      (do
        let group ←
          if indexOnly || (g.node p).hasOwnPage || (g.node p).kind == .reExport then pure b
          else do
            let card ← mp'.card p
            pure { b with body := b.body ++ [card] }
        return group.put groups') := by
    intro a b hab
    split
    · exact .pure (Group.put_twin hab hgroups)
    · refine (h.card p).bind fun card card' hcard => .pure (Group.put_twin ?_ hgroups)
      exact ⟨hab.kind, hab.names, hab.index, List.rel_append hab.body (.cons hcard .nil)⟩
  unfold addMember
  dsimp only
  rw [← hgroup.names]
  split
  · exact hrest hgroup
  · refine (h.entry p _).bind fun entry entry' hentry => hrest ⟨hgroup.kind, rfl, ?_, hgroup.body⟩
    exact List.rel_append hgroup.index (.cons hentry .nil)

theorem addMembers_twin (indexOnly : Bool) (members : List (Place × Place)) {groups groups' : List Group}
    (hgroups : List.Forall₂ Group.Twin groups groups') :
    Work.Twin (List.Forall₂ Group.Twin) (mp.addMembers g indexOnly groups members)
      (mp'.addMembers g indexOnly groups' members) := by
  induction members generalizing groups groups' with
  | nil => exact .pure hgroups
  | cons m rest ih =>
    exact (addMember_twin h g indexOnly hgroups m.1 m.2).bind fun _ _ hgroups => ih hgroups

theorem enumGroups_twin (indexOnly : Bool) (owner : Place) :
    Work.Twin (List.Forall₂ Group.Twin) (mp.enumGroups g indexOnly owner)
      (mp'.enumGroups g indexOnly owner) := by
  have hentries := fun ps page => Site.printEach_twin (fun p => h.entry p page) ps
  unfold enumGroups
  dsimp only
  split
  · exact .pure .nil
  · refine (hentries _ _).bind fun index index' hindex => ?_
    cases indexOnly with
    | true => exact .pure (.cons ⟨rfl, rfl, hindex, .nil⟩ .nil)
    | false =>
      refine (Site.printEach_twin h.card _).bind fun body body' hbody => ?_
      exact .pure (.cons ⟨rfl, rfl, hindex, hbody⟩ .nil)

/-- **Members are grouped alike.** -/
theorem groups_twin (owner : Place) (indexOnly sorted : Bool) :
    Work.Twin (List.Forall₂ Group.Twin) (mp.groups g owner indexOnly sorted)
      (mp'.groups g owner indexOnly sorted) := by
  unfold groups
  split
  · exact .pure .nil
  split
  · exact enumGroups_twin h g indexOnly owner
  · refine (addMembers_twin h g indexOnly _ .nil).bind fun gs gs' hgs => .pure ?_
    cases sorted with
    | true => exact Group.sortByTitle_twin hgs
    | false => exact hgs

theorem inheritedEntries_twin {o o' : Options} (ho : ancestor? g o = ancestor? g o') {fuel : Nat}
    (hfrom : ∀ clause visited, Work.Twin SectionsTwin (mp.inheritedFrom g o fuel clause visited)
      (mp'.inheritedFrom g o' fuel clause visited)) (entries visited : List Place) :
    Work.Twin SectionsTwin (mp.inheritedEntries g o fuel entries visited)
      (mp'.inheritedEntries g o' fuel entries visited) := by
  induction entries generalizing visited with
  | nil =>
    rw [inheritedEntries, inheritedEntries]
    exact .pure ⟨.nil, rfl⟩
  | cons entry rest ih =>
    rw [inheritedEntries, inheritedEntries, ho]
    cases ancestor? g o' entry with
    | none => exact ih visited
    | some target =>
      dsimp only
      split
      · exact ih visited
      · refine (groups_twin h g target true true).bind fun groups groups' hgroups => ?_
        have hown : List.Forall₂ InheritedSection.Twin
            (if groups.isEmpty then [] else [{ heritage := entry, groups }])
            (if groups'.isEmpty then [] else [{ heritage := entry, groups := groups' }]) := by
          cases hgroups with
          | nil => exact .nil
          | cons hg hgs => exact .cons ⟨rfl, .cons hg hgs⟩ .nil
        have hlater : ∀ x x', SectionsTwin x x' → Work.Twin SectionsTwin
            (do
              let later ← mp.inheritedEntries g o fuel rest x.2
              return ((if groups.isEmpty then [] else [{ heritage := entry, groups }]) ++ x.1 ++ later.1,
                later.2))
            (do
              let later ← mp'.inheritedEntries g o' fuel rest x'.2
              return ((if groups'.isEmpty then [] else [{ heritage := entry, groups := groups' }]) ++
                x'.1 ++ later.1, later.2)) := by
          intro x x' hx
          rw [hx.2]
          refine (ih x'.2).bind fun y y' hy => .pure ⟨?_, hy.2⟩
          exact List.rel_append (List.rel_append hown hx.1) hy.1
        cases (g.node target).type with
        | some clause => exact (hfrom clause (target :: visited)).bind hlater
        | none => exact hlater ([], _) ([], _) ⟨.nil, rfl⟩

theorem inheritedFrom_twin {o o' : Options} (ho : ancestor? g o = ancestor? g o') (fuel : Nat)
    (clause : Place) (visited : List Place) :
    Work.Twin SectionsTwin (mp.inheritedFrom g o fuel clause visited)
      (mp'.inheritedFrom g o' fuel clause visited) := by
  induction fuel generalizing clause visited with
  | zero =>
    rw [inheritedFrom, inheritedFrom]
    exact .pure ⟨.nil, rfl⟩
  | succ fuel ih =>
    rw [inheritedFrom, inheritedFrom]
    exact inheritedEntries_twin h g ho ih _ visited

/-- **Ancestors are shown alike** when the options exclude the same. -/
theorem inherited_twin {o o' : Options} (ho : ancestor? g o = ancestor? g o') (clause : Place) :
    Work.Twin (List.Forall₂ InheritedSection.Twin) (mp.inherited g o clause)
      (mp'.inherited g o' clause) :=
  (inheritedFrom_twin h g ho _ clause []).bind fun _ _ hx => .pure hx.1

end MemberPrinter

/-! ## Bodies -/

namespace Site

theorem indexPart_linksApart {a b : Group} (h : a.Twin b) : LinksApart (indexPart a) (indexPart b) :=
  ((SameBut.refl _ _).append (.joinWith _ h.index)).append (.refl _ _)

theorem groupParts_linksApart {groups groups' : List Group}
    (h : List.Forall₂ Group.Twin groups groups') :
    List.Forall₂ LinksApart (groupParts groups) (groupParts groups') := by
  refine List.rel_flatMap h fun a b hab => List.rel_append ?_ hab.body
  rw [hab.title]
  exact .cons (.refl _ _) (.cons (indexPart_linksApart hab) .nil)

variable {site : Site} (digest : String) (hspa : site.options.spa = false)

include hspa

theorem sectionParts_twin {sections sections' : List InheritedSection}
    (h : List.Forall₂ InheritedSection.Twin sections sections') :
    Twin (List.Forall₂ LinksApart) (site.sectionParts sections)
      ((site.routed digest).sectionParts sections') := by
  induction h with
  | nil => exact .pure .nil
  | @cons a b _ _ hab _ ih =>
    rw [sectionParts, sectionParts, ← hab.1]
    refine (link_linksApart digest hspa _ none none).bind fun link link' hlink => ?_
    refine ih.bind fun others others' hothers => .pure (List.rel_append (.cons ?_ ?_) hothers)
    · exact ((SameBut.refl _ _).append hlink).append (.refl _ _)
    · refine List.rel_flatMap hab.2 fun c d hcd => ?_
      rw [hcd.title]
      exact .cons (.refl _ _) (.cons (indexPart_linksApart hcd) .nil)

variable [Packages]

theorem memberPrinter_twin : site.memberPrinter.Twin (site.routed digest).memberPrinter :=
  ⟨fun p page => link_linksApart digest hspa p none page, card_twin digest hspa⟩

theorem inheritedParts_twin (p : Place) :
    Twin (List.Forall₂ LinksApart) (site.inheritedParts p) ((site.routed digest).inheritedParts p) := by
  have hoptions : MemberPrinter.ancestor? site.graph site.options =
      MemberPrinter.ancestor? site.graph (site.routed digest).options := rfl
  have hsections := MemberPrinter.inherited_twin (memberPrinter_twin digest hspa) site.graph hoptions
  rw [inheritedParts, inheritedParts, graph_routed]
  cases (site.graph.node p).type with
  | none => exact .pure .nil
  | some clause =>
    dsimp only
    split
    · exact (hsections clause).bind fun _ _ h => sectionParts_twin digest hspa h
    · exact .pure .nil

/-- **The bodies of pages** are the same apart from the tags of links. -/
theorem pageBody_twin (p : Place) :
    Twin LinksApart (site.pageBody p) ((site.routed digest).pageBody p) := by
  refine (title_twin digest hspa p).bind fun title title' htitle => ?_
  refine (extensions_twin digest hspa p).bind fun extensions extensions' hextensions => ?_
  refine (docParts_twin digest hspa _).bind fun docs docs' hdocs => ?_
  refine (Twin.ofExcept_self _).bind_eq fun source => ?_
  have hmembers := MemberPrinter.groups_twin (memberPrinter_twin digest hspa) site.graph p false true
  refine hmembers.bind fun groups groups' hgroups => ?_
  refine (inheritedParts_twin digest hspa p).bind fun inherited inherited' hinherited => .pure ?_
  have hfront := List.rel_append (List.rel_append htitle hextensions) hdocs
  have hsource := forall₂_linksApart_refl (if (site.graph.node p).kind.isContainer then [] else source)
  have hmembers := List.rel_append (List.rel_append hfront hsource) (groupParts_linksApart hgroups)
  exact (SameBut.stripEnd (.joinWith _ (List.rel_append hmembers hinherited))).append (.refl _ _)

end Site

end SymbolDocs
