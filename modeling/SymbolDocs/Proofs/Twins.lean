import SymbolDocs.Proofs.PlainMarkup
import SymbolDocs.Proofs.Swapping

/-!
# A site of pages and a site of routes, step by step

Whether a site is one of pages or of routes changes the tags of links and nothing else. Links stand deep
inside markup that is kept and looked up again, and a long object type is folded by the length of its
visible text, so the two runs are followed side by side: their answers and the markup they keep are
alike, the records they keep are equal, and both fail in the same way.

* `Session.Twin` says when two sessions correspond, `Work.Twin` when two pieces of work do;
* `Site.routed` is the site of routes for a site of pages;
* `Layout.print_twin` says that layouts print alike when their types and links do;
* `Site.print_twin` is the result for printing, `Site.summary_twin` for summaries.
-/

namespace SymbolDocs

open Markup (SameBut LinkTag LinkPiece)

/-! ## Two sessions -/

/-- Two outcomes that correspond: answers that `V` relates, or the same fault. -/
inductive Outcomes {α β : Type} (V : α → β → Prop) : Except Fault α → Except Fault β → Prop
  | ok {a : α} {b : β} (h : V a b) : Outcomes V (.ok a) (.ok b)
  | error (e : Fault) : Outcomes V (.error e) (.error e)

/-- Two sessions with alike markup for the same nodes and with the same records. -/
structure Session.Twin (s s' : Session) : Prop where
  markup : List.Forall₂ (fun e e' => e.1 = e'.1 ∧ SameBut LinkTag e.2 e'.2) s.markup s'.markup
  records : s.records = s'.records

theorem Session.twin_fresh : Session.Twin {} {} :=
  ⟨.nil, rfl⟩

namespace Session.Twin

variable {s s' : Session}

/-- Corresponding sessions have markup for the same places. -/
theorem lookup_markup (h : s.Twin s') (p : Place) :
    Option.Rel (SameBut LinkTag) (s.markup.lookup p) (s'.markup.lookup p) := by
  have hmarkup := h.markup
  generalize s.markup = table at hmarkup ⊢
  generalize s'.markup = table' at hmarkup ⊢
  induction hmarkup with
  | nil => exact .none
  | @cons e e' _ _ he _ ih =>
    obtain ⟨q, b⟩ := e
    obtain ⟨q', b'⟩ := e'
    obtain ⟨rfl, hb⟩ := he
    rw [List.lookup_cons, List.lookup_cons]
    cases hq : p == q with
    | true => exact .some hb
    | false => exact ih

theorem lookup_record (h : s.Twin s') (p : Place) :
    Option.Rel Eq (s.records.lookup p) (s'.records.lookup p) := by
  rw [h.records]
  cases s'.records.lookup p with
  | none => exact .none
  | some r => exact .some rfl

theorem add_markup (h : s.Twin s') (p : Place) {m m' : String} (hm : SameBut LinkTag m m') :
    (Shelf.markup.add p m s).Twin (Shelf.markup.add p m' s') :=
  ⟨.cons ⟨rfl, hm⟩ h.markup, h.records⟩

theorem add_record (h : s.Twin s') (p : Place) {r r' : Record} (hr : r = r') :
    (Shelf.records.add p r s).Twin (Shelf.records.add p r' s') :=
  ⟨h.markup, congrArg₂ (fun r rs => (p, r) :: rs) hr h.records⟩

end Session.Twin

namespace Work

/-- In corresponding sessions the two pieces of work come to outcomes that correspond, and lead to
corresponding sessions again. -/
def Twin {α β : Type} (V : α → β → Prop) (w : Work α) (v : Work β) : Prop :=
  ∀ s s', s.Twin s' →
    Outcomes V (w.run.run s).1 (v.run.run s').1 ∧ (w.run.run s).2.Twin (v.run.run s').2

namespace Twin

variable {α β γ δ : Type} {V : α → β → Prop} {W : γ → δ → Prop}

theorem pure {a : α} {b : β} (h : V a b) : Twin V (Pure.pure a) (Pure.pure b) :=
  fun _ _ hs => ⟨.ok h, hs⟩

theorem throw (V : α → β → Prop) (e : Fault) :
    Twin V (MonadExcept.throw e : Work α) (MonadExcept.throw e : Work β) :=
  fun _ _ hs => ⟨.error e, hs⟩

theorem bind {w : Work α} {v : Work β} {f : α → Work γ} {g : β → Work δ} (hw : Twin V w v)
    (hf : ∀ a b, V a b → Twin W (f a) (g b)) : Twin W (w >>= f) (v >>= g) := by
  intro s s' hs
  obtain ⟨hx, hs'⟩ := hw s s' hs
  rw [run_bind, run_bind]
  rcases hrun : w.run.run s with ⟨x, s₁⟩
  rcases hrun' : v.run.run s' with ⟨x', s₁'⟩
  rw [hrun, hrun'] at hx hs'
  cases hx with
  | ok h => exact hf _ _ h s₁ s₁' hs'
  | error e => exact ⟨.error e, hs'⟩

/-- The rest of two pieces of work that give the same answer. -/
theorem bind_eq {w v : Work α} {f : α → Work γ} {g : α → Work δ} (hw : Twin Eq w v)
    (hf : ∀ a, Twin W (f a) (g a)) : Twin W (w >>= f) (v >>= g) :=
  hw.bind fun a b hab => by
    subst hab
    exact hf a

theorem mono {V' : α → β → Prop} {w : Work α} {v : Work β} (hw : Twin V w v)
    (h : ∀ a b, V a b → V' a b) : Twin V' w v := by
  intro s s' hs
  obtain ⟨hx, hs'⟩ := hw s s' hs
  rcases hrun : w.run.run s with ⟨x, s₁⟩
  rcases hrun' : v.run.run s' with ⟨x', s₁'⟩
  rw [hrun, hrun'] at hx hs'
  cases hx with
  | ok hab => exact ⟨.ok (h _ _ hab), hs'⟩
  | error e => exact ⟨.error e, hs'⟩

/-- What no session has a part in. -/
theorem ofExcept_self (x : Except Fault α) : Twin Eq (Work.ofExcept x) (Work.ofExcept x) := by
  cases x with
  | ok a => exact pure rfl
  | error e => exact throw Eq e

theorem warn (w : Warning) : Twin Eq (Work.warn w) (Work.warn w) :=
  fun _ _ hs => ⟨.ok rfl, ⟨hs.markup, hs.records⟩⟩

/-- Work that goes in step with itself in corresponding sessions. -/
theorem of_paired {w v : Work α} (h : (paired Session.Twin).Agree w v) : Twin Eq w v := by
  intro s s' hs
  obtain ⟨hx, hs'⟩ := h s s' hs
  refine ⟨?_, hs'⟩
  rw [hx]
  cases (v.run.run s').1 with
  | ok a => exact .ok rfl
  | error e => exact .error e

/-- Work that is done once, with corresponding entries in the tables. -/
theorem once {V : α → α → Prop} {k : Shelf α} {active : List Place} {p : Place} {short short' : α}
    {w v : Work α} (hfound : ∀ {s s' : Session}, s.Twin s' →
      Option.Rel V ((k.entries s).lookup p) ((k.entries s').lookup p)) (hshort : V short short')
    (hw : p ∉ active → Twin V w v)
    (hadd : ∀ {s s' : Session} {a b}, s.Twin s' → V a b → (k.add p a s).Twin (k.add p b s')) :
    Twin V (once k active p short w) (Work.once k active p short' v) := by
  intro s s' hs
  have hrel := hfound hs
  rw [run_once, run_once]
  generalize (k.entries s).lookup p = found at hrel ⊢
  generalize (k.entries s').lookup p = found' at hrel ⊢
  cases hrel with
  | some h => exact ⟨.ok h, hs⟩
  | none =>
    dsimp only
    by_cases hp : p ∈ active
    · rw [if_pos hp, if_pos hp]
      exact ⟨.ok hshort, hs⟩
    · rw [if_neg hp, if_neg hp]
      obtain ⟨hx, hs'⟩ := hw hp s s' hs
      rcases hrun : w.run.run s with ⟨x, s₁⟩
      rcases hrun' : v.run.run s' with ⟨x', s₁'⟩
      rw [hrun, hrun'] at hx hs'
      cases hx with
      | ok h => exact ⟨.ok h, hadd hs' h⟩
      | error e => exact ⟨.error e, hs'⟩

end Twin

end Work

open Work

/-! ## Layouts -/

section

variable {T : List Char → List Char → Prop} {m m' : String}

theorem Tag.wrap_sameBut (tag : Tag) (style : Style) (h : SameBut T m m') :
    SameBut T (tag.wrap style m) (tag.wrap style m') := by
  have hopen := SameBut.refl T ("<" ++ tag.word ++ style.attribute ++ ">")
  have hclose := (SameBut.refl T "</").append ((SameBut.refl T tag.word).append (SameBut.refl T ">"))
  have hwhole := (hopen.append h).append hclose
  simpa only [Tag.wrap, String.append_assoc] using hwhole

namespace Layout

/-- Members are folded alike, because alike markup has visible text of the same length. -/
theorem membersMarkup_sameBut (h : SameBut LinkTag m m') :
    SameBut LinkTag (membersMarkup m) (membersMarkup m') := by
  have hbody := ((SameBut.refl LinkTag "\x7b ").append h).append (.refl _ " \x7d")
  unfold membersMarkup
  dsimp only
  rw [h.visible]
  split
  · exact Tag.details.wrap_sameBut .more ((SameBut.refl _ _).append hbody)
  · exact hbody

/-- One of the two lists of a heritage clause. -/
theorem side_sameBut {ms ms' : List String} (word : String) (h : List.Forall₂ (SameBut T) ms ms') :
    List.Forall₂ (SameBut T) (if ms.isEmpty then [] else [word ++ Text.joinWith ", " ms])
      (if ms'.isEmpty then [] else [word ++ Text.joinWith ", " ms']) := by
  cases h with
  | nil => exact .nil
  | cons hm hms => exact .cons ((SameBut.refl T word).append (.joinWith _ (.cons hm hms))) .nil

/-- The lists of a heritage clause in their element, or nothing. -/
theorem clause_sameBut {parts parts' : List String} (h : List.Forall₂ (SameBut T) parts parts') :
    SameBut T (if parts.isEmpty then "" else Tag.span.wrap .heritage (Text.joinWith " " parts))
      (if parts'.isEmpty then "" else Tag.span.wrap .heritage (Text.joinWith " " parts')) := by
  cases h with
  | nil => exact .refl T _
  | cons hm hms => exact Tag.span.wrap_sameBut .heritage (.joinWith _ (.cons hm hms))

/-- Entries of a heritage clause that correspond: alike, and both extended or both implemented. -/
def SameEntry (e e' : String × Bool) : Prop :=
  SameBut LinkTag e.1 e'.1 ∧ e.2 = e'.2

theorem heritageMarkup_sameBut {entries entries' : List (String × Bool)}
    (h : List.Forall₂ SameEntry entries entries') :
    SameBut LinkTag (heritageMarkup entries) (heritageMarkup entries') := by
  have hside : ∀ side : Bool → Bool, List.Forall₂ (SameBut LinkTag)
      ((entries.filter fun e => side e.2).map Prod.fst)
      ((entries'.filter fun e => side e.2).map Prod.fst) := by
    intro side
    induction h with
    | nil => exact .nil
    | @cons e e' _ _ he _ ih =>
      rw [List.filter_cons, List.filter_cons, ← he.2]
      split
      · exact .cons he.1 ih
      · exact ih
  have hextended := side_sameBut "extends " (hside fun b => b)
  exact clause_sameBut (List.rel_append hextended (side_sameBut "implements " (hside fun b => !b)))

section

variable {type link type' link' : Place → Work String}

theorem printEntries_twin (htype : ∀ q, Twin (SameBut LinkTag) (type q) (type' q))
    (entries : List (Place × Bool)) :
    Twin (List.Forall₂ SameEntry) (printEntries type entries) (printEntries type' entries) := by
  induction entries with
  | nil => exact .pure .nil
  | cons e rest ih =>
    exact (htype e.1).bind fun m m' hm => ih.bind fun ms ms' hms => .pure (.cons ⟨hm, rfl⟩ hms)

/-- **Layouts print alike** when their types and links do. -/
theorem print_twin (htype : ∀ q, Twin (SameBut LinkTag) (type q) (type' q))
    (hlink : ∀ q, Twin (SameBut LinkTag) (link q) (link' q)) (l : Layout) :
    Twin (SameBut LinkTag) (l.print type link) (l.print type' link') := by
  induction l with
  | empty => exact .pure (.refl _ _)
  | text s => exact .pure (.refl _ _)
  | sign s => exact .pure (.refl _ _)
  | append a b iha ihb =>
    exact iha.bind fun x x' hx => ihb.bind fun y y' hy => .pure (hx.append hy)
  | type p => exact htype p
  | spaced p =>
    refine (htype p).bind fun m m' hm => .pure ?_
    exact hm.ite_empty LinkTag.bracketed (.refl _ _) ((SameBut.refl _ _).append hm)
  | link p => exact hlink p
  | element tag style body ih => exact ih.bind fun m m' hm => .pure (tag.wrap_sameBut style hm)
  | heritage entries =>
    exact (printEntries_twin htype entries).bind fun ms ms' hms => .pure (heritageMarkup_sameBut hms)
  | members body ih => exact ih.bind fun m m' hm => .pure (membersMarkup_sameBut hm)
  | broken kind name => exact .throw _ _

end

end Layout

end

/-! ## Links and types -/

/-- The options of a site of routes, with a digest of its own. -/
def Options.routed (o : Options) (digest : String) : Options :=
  { o with spa := true, configHash := digest }

/-- The site of routes for a site. -/
def Site.routed (site : Site) (digest : String) : Site :=
  { site with options := site.options.routed digest }

namespace Site

variable {site : Site} (digest : String)

/-- Addresses do not depend on the options. -/
theorem hrefFrom_routed (fuel : Nat) (p : Place) (page : Option Place) :
    (site.routed digest).hrefFrom fuel p page = site.hrefFrom fuel p page := by
  induction fuel generalizing p page with
  | zero => rfl
  | succ fuel ih =>
    simp only [hrefFrom, ih]
    rfl

theorem href_routed (p : Place) (page : Option Place) :
    (site.routed digest).href p page = site.href p page :=
  hrefFrom_routed digest _ _ _

theorem href_twin (p : Place) (page : Option Place) :
    Twin Eq (site.href p page) ((site.routed digest).href p page) := by
  rw [href_routed]
  exact Twin.of_paired ((paired Session.Twin).hrefFrom_self
    (fun _ _ _ hs => ⟨rfl, hs.markup, hs.records⟩) _ _ _)

/-- A link to an address as the two sites write it. -/
theorem anchor_sameBut (address label : String) :
    SameBut LinkTag ("<a href=\"" ++ Markup.escape address ++ "\">" ++ label ++ "</a>")
      ("<doc-a href=\"" ++ Markup.escape address ++ "\">" ++ label ++ "</doc-a>") := by
  have hopen : SameBut LinkTag ("<a href=\"" ++ Markup.escape address ++ "\">")
      ("<doc-a href=\"" ++ Markup.escape address ++ "\">") := by
    have h := Markup.Swapped.of_piece (LinkTag.opening ((Markup.escape address).toList ++ ['"']))
    simpa [SameBut, Markup.pageOpening, Markup.routeOpening] using h
  have hclose : SameBut LinkTag "</a>" "</doc-a>" := Markup.Swapped.of_piece .closing
  exact (hopen.append (.refl _ label)).append hclose

/-- Dots in front of what takes the remaining items. -/
theorem restDots_sameBut {n : Node} {m m' : String} (h : SameBut LinkTag m m') :
    SameBut LinkTag (restDots n m) (restDots n m') := by
  unfold restDots
  split
  · exact (SameBut.refl _ _).append h
  · exact h

variable (hspa : site.options.spa = false)

include hspa

/-- **Links differ in their tags only.** -/
theorem link_twin (p : Place) (content : Option String) (page : Option Place) :
    Twin (SameBut LinkTag) (site.link p content page) ((site.routed digest).link p content page) := by
  have hgraph : (site.routed digest).graph = site.graph := rfl
  have htarget : (site.routed digest).linkTarget p = site.linkTarget p := rfl
  have hroutes : (site.routed digest).options.spa = true := rfl
  simp only [link, hgraph, htarget, hroutes, hspa, Bool.false_and, Bool.true_and]
  split
  · exact .pure (.refl _ _)
  · refine (href_twin digest _ _).bind_eq fun address => ?_
    rw [if_neg Bool.false_ne_true]
    -- a link to an anchor of the same page is no route
    by_cases hroute : (address.toList.head? != some '#') = true
    · rw [if_pos hroute]
      exact .pure (anchor_sameBut _ _)
    · rw [if_neg hroute]
      exact .pure (.refl _ _)

/-- **Types print alike**, those kept in the two sessions included. -/
theorem renderNode_twin (budget : Nat) : ∀ (active : List Place) (p : Place),
    Twin (SameBut LinkTag) (site.renderNode budget active p)
      ((site.routed digest).renderNode budget active p) := by
  induction budget with
  | zero => exact fun _ _ => .throw _ _
  | succ budget ih =>
    intro active p
    rw [renderNode_succ, renderNode_succ]
    refine .once (fun hs => hs.lookup_markup p) (.refl _ _) (fun _ => ?_) fun hs hm => hs.add_markup p hm
    refine Layout.print_twin (fun q => ?_) (fun q => link_twin digest hspa q none none) _
    exact (ih (p :: active) q).bind fun m m' hm => .pure (restDots_sameBut hm)

theorem renderType_twin (p : Place) :
    Twin (SameBut LinkTag) (site.renderType p) ((site.routed digest).renderType p) :=
  (renderNode_twin digest hspa _ [] p).bind fun _ _ hm => .pure (restDots_sameBut hm)

theorem print_twin (l : Layout) :
    Twin (SameBut LinkTag) (site.print l) ((site.routed digest).print l) :=
  l.print_twin (renderType_twin digest hspa) fun q => link_twin digest hspa q none none

end Site

/-! ## Summaries -/

/-- Work for a site of routes. It prints layouts as on that site. -/
def RouteWork (_ : String) : Type → Type := Work

namespace RouteWork

variable (digest : String)

instance : Monad (RouteWork digest) := inferInstanceAs (Monad Work)

instance : MonadExceptOf Fault (RouteWork digest) := inferInstanceAs (MonadExceptOf Fault Work)

instance : Printer (RouteWork digest) := ⟨fun site l => (site.routed digest).print l⟩

/-- Work for a site of pages beside work for a site of routes, with the same answers. -/
def beside : Lockstep Work (RouteWork digest) where
  Agree w v := Work.Twin Eq w v
  pure _ := .pure rfl
  throw e := .throw Eq e
  bind hw hf := Work.Twin.bind_eq hw hf

end RouteWork

namespace Site

variable {site : Site} (digest : String) (hspa : site.options.spa = false)

include hspa

/-- What a type reads as is the same. -/
theorem text_twin (p : Place) :
    (RouteWork.beside digest).Agree (site.text p : Work String) (site.text p) :=
  (print_twin digest hspa (.type p)).bind fun _ _ hm => .pure hm.visible

theorem typeParameterRecord_twin {position position' : Place → Work (TypeValue Record)}
    (h : ∀ q, Twin Eq (position q) (position' q)) (p : Place) :
    (RouteWork.beside digest).Agree (site.typeParameterRecord position p)
      (site.typeParameterRecord (μ := RouteWork digest) position' p) := by
  unfold typeParameterRecord
  dsimp only
  split
  · exact (RouteWork.beside digest).argumentRecord (h p)
  · exact (print_twin digest hspa _).bind fun _ _ hm => .pure (by rw [hm.visible])

/-- **Records are the same.** A record has the texts of types as they read, without tags. -/
theorem summarizeFrom_twin (fuel : Nat) : ∀ active p,
    Twin Eq (site.summarizeFrom fuel active p) ((site.routed digest).summarizeFrom fuel active p) ∧
    Twin Eq (site.positionFrom fuel active p) ((site.routed digest).positionFrom fuel active p) := by
  induction fuel with
  | zero => exact fun _ _ => ⟨.throw _ _, .throw _ _⟩
  | succ fuel ih =>
    let L := RouteWork.beside digest
    have hbody : ∀ active p, L.Agree
        (site.recordWith (fun q => site.summarizeFrom fuel active q)
          (fun q => site.positionFrom fuel active q) p)
        (site.recordWith (fun q => (site.routed digest).summarizeFrom fuel active q)
          (fun q => (site.routed digest).positionFrom fuel active q) p) :=
      fun active p => L.recordWith_of_parts (fun q _ => (ih active q).1) (fun q _ => (ih active q).2)
        fun q _ => typeParameterRecord_twin digest hspa (fun r => (ih active r).2) q
    intro active p
    constructor
    · rw [summarizeFrom_succ, summarizeFrom_succ]
      refine .once (fun hs => hs.lookup_record p) rfl (fun _ => hbody (p :: active) p) fun hs hr => ?_
      exact hs.add_record p hr
    · rw [positionFrom, positionFrom]
      exact L.positionWith_of_texts (fun _ _ => Iff.rfl) (fun q _ => text_twin digest hspa q)
        (fun q _ _ => text_twin digest hspa q) (fun q _ => (ih active q).2)
        fun q _ _ => hbody (q :: active) q

/-- The summaries of the two sites are the same. -/
theorem summary_twin : Twin Eq site.summary (site.routed digest).summary := by
  have hrecords : Twin Eq (eachPlace site.summarize (summaryNodes site.graph))
      (eachPlace (site.routed digest).summarize (summaryNodes site.graph)) :=
    (RouteWork.beside digest).eachPlace fun p _ => (summarizeFrom_twin digest hspa _ [] p).1
  exact (hrecords.bind_eq fun records => .pure rfl).bind_eq fun records => .pure rfl

end Site

end SymbolDocs
