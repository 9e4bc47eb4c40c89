import SymbolDocs.Proofs.Addresses

/-!
# When rendering fails

Two kinds of types need their parts: one that is chosen by a test has exactly four, and one that is a
member of another has at least two. Their rules have nothing to print otherwise and raise a fault.
Everything else can be printed, so rendering fails exactly when such a node is met.

A node that is in progress is not entered again, and a node that has markup is not rendered again. Still
no node is missed: whatever a node with markup prints has markup too, or is in progress.

* `Layout.faults` lists the faults a layout raises, and `Node.LacksParts` says which rules have one;
* `Work.Completes` follows work that stops with a fault or has visited all that it should;
* `Session.Covered` is the invariant of the search, and `Site.renderNode_completes` carries it through
  the rendering of a node;
* `Site.render_fails_iff` is the result for a fresh session.
-/

namespace SymbolDocs

open Relation

/-! ## Rules that raise a fault -/

/-- The faults that a layout raises when it is printed, from left to right. -/
@[simp] def Layout.faults : Layout → List Fault
  | .empty | .text _ | .sign _ | .type _ | .spaced _ | .link _ | .heritage _ => []
  | .append a b => a.faults ++ b.faults
  | .element _ _ body | .members body => body.faults
  | .broken kind name => [.missingChildren kind name]

/-- The node is of a kind that needs parts and has not got them. -/
def Node.LacksParts (n : Node) : Prop :=
  n.kind = .conditionalType ∧ n.members.length ≠ 4 ∨ n.kind = .indexedType ∧ n.members.length < 2

instance (n : Node) : Decidable n.LacksParts :=
  inferInstanceAs (Decidable (_ ∨ _))

namespace Layout

@[simp]
theorem faults_append (a b : Layout) : (a ++ b).faults = a.faults ++ b.faults := rfl

@[simp]
theorem faults_optional (p : Option Place) : (Layout.optional p).faults = [] := by
  cases p <;> rfl

theorem faults_separated {sep : Layout} (hsep : sep.faults = []) {ls : List Layout}
    (h : ∀ l ∈ ls, l.faults = []) : (separated sep ls).faults = [] := by
  induction ls with
  | nil => rfl
  | cons l ls ih =>
    have hl := h l List.mem_cons_self
    have hrest := ih fun x hx => h x (List.mem_cons_of_mem _ hx)
    cases ls with
    | nil => exact hl
    | cons l' ls =>
      change (l ++ (sep ++ separated sep (l' :: ls))).faults = []
      simp [hl, hsep, hrest]

/-- Nodes in a list raise no faults when none of them raises one. -/
theorem faults_separated_map {f : Place → Layout} (hf : ∀ p, (f p).faults = []) (s : String)
    (ps : List Place) : (separated (.text s) (ps.map f)).faults = [] := by
  refine faults_separated rfl fun l hl => ?_
  obtain ⟨p, -, rfl⟩ := List.mem_map.mp hl
  exact hf p

end Layout

namespace Graph

variable (g : Graph)

/-! ### Headings raise none -/

@[simp]
theorem faults_typeArguments (ps : Option (List Place)) : (g.typeArguments ps).faults = [] := by
  have hone : ∀ p, (g.typeArgument p).faults = [] := by
    intro p
    rw [typeArgument]
    split <;> rfl
  unfold typeArguments
  split
  · rfl
  · rfl
  · simp [Layout.faults, Layout.faults_separated_map hone]

@[simp]
theorem faults_signatureParameters (ps : Option (List Place)) :
    (g.signatureParameters ps).faults = [] := by
  have hone : ∀ p, (g.parameter p).faults = [] := by
    intro p
    simp [parameter, Layout.faults]
  cases ps with
  | none => rfl
  | some ps => simp [signatureParameters, Layout.faults, Layout.faults_separated_map hone]

@[simp]
theorem faults_signatureType (n : Node) : (signatureType n).faults = [] := by
  rw [signatureType]
  split
  · rfl
  · split <;> rfl

@[simp]
theorem faults_indexValue (n : Node) : (indexValue n).faults = [] := by
  rw [indexValue]
  split <;> rfl

@[simp]
theorem faults_signatureValue (v : Option String) : (signatureValue v).faults = [] := by
  unfold signatureValue
  split
  · split <;> rfl
  · rfl

@[simp]
theorem faults_signatureName (n : Node) : (signatureName n).faults = [] := rfl

theorem faults_headingFrom (fuel : Nat) (p : Place) : (g.headingFrom fuel p).faults = [] := by
  induction fuel generalizing p with
  | zero => rfl
  | succ fuel ih =>
    rw [headingFrom]
    split
    · rfl
    · simp [Layout.faults, Layout.faults_separated_map ih]
    · simp

@[simp]
theorem faults_signatureText (p : Place) : (g.signatureText p).faults = [] :=
  g.faults_headingFrom _ p

theorem faults_nodeChips (n : Node) : (nodeChips n).faults = [] := by
  have hfold : ∀ (bs : List (String × Flag × Color)) (l : Layout), l.faults = [] →
      (bs.foldl (fun l b => if n.has b.2.1 then l ++ chip b.1 b.2.2 else l) l).faults = [] := by
    intro bs
    induction bs with
    | nil => exact fun _ hl => hl
    | cons b bs ih =>
      intro l hl
      refine ih _ ?_
      dsimp only
      split
      · simp [hl, chip, Layout.faults]
      · exact hl
  have hbeta : (betaChip n).faults = [] := by
    rw [betaChip]
    split
    · split <;> rfl
    · rfl
  exact hfold badges _ hbeta

@[simp]
theorem faults_signature (p : Place) : (g.signature p).faults = [] := by
  rw [signature]
  split
  · simp
  · simp [faults_nodeChips, Layout.faults]

theorem faults_property (p : Place) : (g.property p).faults = [] := by
  rw [property]
  split
  · simp [indexSignature, Layout.faults, Layout.faults_separated_map g.faults_signatureText]
  · rfl
  · simp

/-! ### Types -/

theorem faults_joined {sep : Layout} (hsep : sep.faults = []) (n : Node) :
    (joined sep n).faults = [] := by
  refine Layout.faults_separated hsep fun l hl => ?_
  obtain ⟨p, -, rfl⟩ := List.mem_map.mp hl
  rfl

@[simp]
theorem faults_functionType (p : Place) : (g.functionType p).faults = [] := by
  simp [functionType, Layout.faults]

@[simp]
theorem faults_classType (p : Place) : (g.classType p).faults = [] := rfl

@[simp]
theorem faults_mappedType (n : Node) : (mappedType n).faults = [] := by
  rw [mappedType]
  split <;> rfl

@[simp]
theorem faults_typeParameter (n : Node) : (typeParameter n).faults = [] := by
  rw [typeParameter]
  split <;> rfl

@[simp]
theorem faults_keyofType (n : Node) : (keyofType n).faults = [] := by
  rw [keyofType]
  split <;> simp [Layout.faults]

theorem faults_conditionalType (n : Node) : (conditionalType n).faults =
    if n.members.length = 4 then [] else [.missingChildren n.kind n.name] := by
  rw [conditionalType]
  split
  · rename_i h
    rw [h]
    rfl
  · rename_i h
    rw [if_neg fun hlen => ?_]
    · rfl
    · obtain ⟨a, b, c, d, hm⟩ := List.length_eq_four.mp hlen
      exact h a b c d hm

theorem faults_indexedType (n : Node) : (indexedType n).faults =
    if 2 ≤ n.members.length then [] else [.missingChildren n.kind n.name] := by
  rw [indexedType]
  split
  · rename_i h
    rw [h, if_pos (by simp)]
    rfl
  · rename_i h
    rw [if_neg fun hlen => ?_]
    · rfl
    · match hm : n.members with
      | [] | [_] => simp [hm] at hlen
      | a :: b :: rest => exact h a b rest hm

/-- **Which rules raise a fault**: that of a node that lacks its parts, for this node, and no other. -/
theorem faults_typeRule (p : Place) : (g.typeRule p).faults =
    if (g.node p).LacksParts then [.missingChildren (g.node p).kind (g.node p).name] else [] := by
  by_cases hcond : (g.node p).kind = .conditionalType
  · simp [typeRule, faults_conditionalType, Node.LacksParts, hcond]
  by_cases hindexed : (g.node p).kind = .indexedType
  · have hless : (g.node p).LacksParts ↔ ¬ 2 ≤ (g.node p).members.length := by
      simp [Node.LacksParts, hindexed]
    simp only [typeRule, hindexed, faults_indexedType, hless, ite_not]
  have hwhole : ¬ (g.node p).LacksParts := by simp [Node.LacksParts, hcond, hindexed]
  rw [if_neg hwhole, typeRule]
  split
  case h_4 => contradiction
  case h_5 => contradiction
  case h_6 => exact faults_joined rfl _
  case h_7 => exact faults_joined rfl _
  case h_8 =>
    have hparts : (joined (.text ", ") (g.node p)).faults = [] := faults_joined rfl _
    simp [Layout.faults, hparts]
  case h_17 => exact Layout.faults_separated_map g.faults_property _ _
  all_goals simp [Layout.faults]

end Graph

/-! ## Work that stops or goes through -/

namespace Session

/-- The session has markup for the node. -/
def Holds (s : Session) (p : Place) : Prop :=
  ∃ m, s.markup.lookup p = some m

/-- Markup stays. -/
theorem Holds.of_extends {s s' : Session} {p : Place} (hp : s.Holds p) (h : s.Extends s') :
    s'.Holds p :=
  let ⟨m, hm⟩ := hp
  ⟨m, h.markup.lookup_some hm⟩

theorem holds_add (s : Session) (p : Place) (m : String) : (Shelf.markup.add p m s).Holds p :=
  ⟨m, by simp [Shelf.markup]⟩

/-- A new entry leaves the others in place. -/
theorem holds_add_iff {s : Session} {p q : Place} {m : String} :
    (Shelf.markup.add p m s).Holds q ↔ q = p ∨ s.Holds q := by
  by_cases hqp : q = p
  · subst hqp
    exact iff_of_true (s.holds_add q m) (.inl rfl)
  · have hlookup : (Shelf.markup.add p m s).markup.lookup q = s.markup.lookup q :=
      Written.lookup_cons_of_ne hqp
    simp only [Holds, hlookup, hqp, false_or]

end Session

namespace Work

variable {α β : Type} {I D D' : Session → Prop} {F : Fault → Prop}

/-- In a session in which `I` holds, the work stops with a fault of the kind `F`, or it comes to an answer
in a larger session in which `I` holds again, and `D` besides. -/
def Completes (I : Session → Prop) (F : Fault → Prop) (D : Session → Prop) (w : Work α) : Prop :=
  ∀ s, I s → (∃ e s', w.run.run s = (.error e, s') ∧ F e) ∨
    ∃ a s', w.run.run s = (.ok a, s') ∧ I s' ∧ s.Extends s' ∧ D s'

namespace Completes

theorem pure (a : α) (hD : ∀ s, D s) : Completes I F D (Pure.pure a : Work α) :=
  fun s hs => .inr ⟨a, s, rfl, hs, .refl s, hD s⟩

theorem throw {e : Fault} (he : F e) : Completes I F D (MonadExcept.throw e : Work α) :=
  fun s _ => .inl ⟨e, s, rfl, he⟩

/-- One piece of work after another; what the first has done must not be undone. -/
theorem bind {w : Work α} {f : α → Work β} (hw : Completes I F D w)
    (hD : ∀ s s', s.Extends s' → D s → D s') (hf : ∀ a, Completes I F D' (f a)) :
    Completes I F (fun s => D s ∧ D' s) (w >>= f) := by
  intro s hs
  rw [run_bind]
  rcases hw s hs with ⟨e, s₁, hrun, he⟩ | ⟨a, s₁, hrun, hs₁, hextends, hdone⟩
  · rw [hrun]
    exact .inl ⟨e, s₁, rfl, he⟩
  · rw [hrun]
    rcases hf a s₁ hs₁ with ⟨e, s₂, hrun', he⟩ | ⟨b, s₂, hrun', hs₂, hextends', hdone'⟩
    · exact .inl ⟨e, s₂, hrun', he⟩
    · exact .inr ⟨b, s₂, hrun', hs₂, hextends.trans hextends', hD s₁ s₂ hextends' hdone, hdone'⟩

theorem mono {w : Work α} (hw : Completes I F D w) (hD : ∀ s, D s → D' s) : Completes I F D' w := by
  intro s hs
  rcases hw s hs with herror | ⟨a, s', hrun, hs', hextends, hdone⟩
  · exact .inl herror
  · exact .inr ⟨a, s', hrun, hs', hextends, hD s' hdone⟩

theorem mono_fault {F' : Fault → Prop} {w : Work α} (hw : Completes I F D w) (hF : ∀ e, F e → F' e) :
    Completes I F' D w := by
  intro s hs
  rcases hw s hs with ⟨e, s', hrun, he⟩ | hdone
  · exact .inl ⟨e, s', hrun, hF e he⟩
  · exact .inr hdone

/-- What is done with the answer outside of the session does not matter. -/
theorem map {w : Work α} (hw : Completes I F D w) (f : α → β) :
    Completes I F D (w >>= fun a => Pure.pure (f a)) := by
  intro s hs
  rw [run_bind]
  rcases hw s hs with ⟨e, s', hrun, he⟩ | ⟨a, s', hrun, hs', hextends, hdone⟩
  · rw [hrun]
    exact .inl ⟨e, s', rfl, he⟩
  · rw [hrun]
    exact .inr ⟨f a, s', rfl, hs', hextends, hdone⟩

section

variable {Done : Place → Session → Prop} {type link : Place → Work String}
  (hdone : ∀ q s s', s.Extends s' → Done q s → Done q s')

include hdone

theorem printEntries {entries : List (Place × Bool)}
    (htype : ∀ e ∈ entries, Completes I F (Done e.1) (type e.1)) :
    Completes I F (fun s => ∀ q ∈ entries.map Prod.fst, Done q s)
      (Layout.printEntries type entries) := by
  induction entries with
  | nil => exact pure _ (by simp)
  | cons e rest ih =>
    have hrest := ih fun e he => htype e (List.mem_cons_of_mem _ he)
    refine ((htype e List.mem_cons_self).bind (hdone e.1) fun m => hrest.map _).mono fun s hs => ?_
    rw [List.map_cons, List.forall_mem_cons]
    exact hs

/-- **Layouts are gone through**: when a layout is printed to the end, all its types have been, and no
part of it raises a fault. -/
theorem print {l : Layout} (htype : ∀ q ∈ l.types, Completes I F (Done q) (type q))
    (hlink : ∀ q, Completes I F (fun _ => True) (link q)) (hfault : ∀ e ∈ l.faults, F e) :
    Completes I F (fun s => l.faults = [] ∧ ∀ q ∈ l.types, Done q s) (l.print type link) := by
  induction l with
  | empty | text | sign => exact pure _ fun s => ⟨rfl, by simp [Layout.types]⟩
  | append a b iha ihb =>
    have ha := iha (fun q hq => htype q (List.mem_append_left _ hq))
      fun e he => hfault e (List.mem_append_left _ he)
    have hb := ihb (fun q hq => htype q (List.mem_append_right _ hq))
      fun e he => hfault e (List.mem_append_right _ he)
    have hkept : ∀ s s' : Session, s.Extends s' → (a.faults = [] ∧ ∀ q ∈ a.types, Done q s) →
        a.faults = [] ∧ ∀ q ∈ a.types, Done q s' :=
      fun s s' h hs => ⟨hs.1, fun q hq => hdone q s s' h (hs.2 q hq)⟩
    refine (ha.bind hkept fun x => hb.map _).mono fun s hs => ?_
    obtain ⟨⟨hfaults, htypes⟩, hfaults', htypes'⟩ := hs
    refine ⟨by simp [Layout.faults, hfaults, hfaults'], fun q hq => ?_⟩
    rcases List.mem_append.mp hq with hq | hq
    · exact htypes q hq
    · exact htypes' q hq
  | type p =>
    refine (htype p List.mem_cons_self).mono fun s hs => ⟨rfl, ?_⟩
    simpa [Layout.types] using hs
  | spaced p =>
    refine ((htype p List.mem_cons_self).map _).mono fun s hs => ⟨rfl, ?_⟩
    simpa [Layout.types] using hs
  | link p => exact (hlink p).mono fun s _ => ⟨rfl, by simp [Layout.types]⟩
  | element tag style body ih => exact (ih htype hfault).map _
  | heritage entries =>
    have hentries := printEntries hdone fun e he => htype e.1 (List.mem_map_of_mem he)
    exact (hentries.map _).mono fun s hs => ⟨rfl, hs⟩
  | members body ih => exact (ih htype hfault).map _
  | broken kind name => exact throw (hfault _ List.mem_cons_self)

end

end Completes

end Work

/-! ## The search -/

/-- The fault of a node that lacks its parts, found among all that the given node leads to. -/
def Graph.Blames (g : Graph) (p : Place) (e : Fault) : Prop :=
  ∃ q, ReflTransGen g.Prints p q ∧ (g.node q).LacksParts ∧
    e = .missingChildren (g.node q).kind (g.node q).name

theorem Graph.Blames.of_part {g : Graph} {p q : Place} {e : Fault} (h : g.Blames q e)
    (hq : g.Prints p q) : g.Blames p e :=
  let ⟨r, hr, hlacks, he⟩ := h
  ⟨r, .head hq hr, hlacks, he⟩

/-- What has markup lacks no parts, and whatever it prints has markup or is in progress. -/
structure Session.Covered (g : Graph) (active : List Place) (s : Session) : Prop where
  whole : ∀ q, s.Holds q → ¬ (g.node q).LacksParts
  closed : ∀ q r, s.Holds q → g.Prints q r → s.Holds r ∨ r ∈ active

namespace Session.Covered

variable {g : Graph} {active : List Place} {p : Place} {s s' : Session}

theorem fresh (g : Graph) : ({} : Session).Covered g [] := by
  have hnone : ∀ q, ¬ ({} : Session).Holds q := fun q ⟨m, hm⟩ => by cases hm
  exact ⟨fun q hq => absurd hq (hnone q), fun q r hq => absurd hq (hnone q)⟩

/-- One more node is put in progress. -/
theorem enter (h : s.Covered g active) (p : Place) : s.Covered g (p :: active) :=
  ⟨h.whole, fun q r hq hr => (h.closed q r hq hr).imp_right (List.mem_cons_of_mem _)⟩

/-- The node in progress has been rendered, and all that it prints has been gone through. -/
theorem leave (h : s.Covered g (p :: active)) (hp : ¬ (g.node p).LacksParts)
    (hparts : ∀ q, g.Prints p q → s.Holds q ∨ q ∈ p :: active) (m : String) :
    (Shelf.markup.add p m s).Covered g active := by
  have hnow : ∀ {q}, s.Holds q ∨ q ∈ p :: active → (Shelf.markup.add p m s).Holds q ∨ q ∈ active := by
    rintro q (hq | hq)
    · exact .inl (holds_add_iff.mpr (.inr hq))
    · rcases List.mem_cons.mp hq with rfl | hq
      · exact .inl (s.holds_add q m)
      · exact .inr hq
  refine ⟨fun q hq => ?_, fun q r hq hr => ?_⟩
  · rcases holds_add_iff.mp hq with rfl | hq
    · exact hp
    · exact h.whole q hq
  · rcases holds_add_iff.mp hq with rfl | hq
    · exact hnow (hparts r hr)
    · exact hnow (h.closed q r hq hr)

/-- With nothing in progress, all that a node with markup leads to has markup. -/
theorem holds_of_reaches (h : s.Covered g []) {q : Place} (hp : s.Holds p)
    (hq : ReflTransGen g.Prints p q) : s.Holds q := by
  induction hq with
  | refl => exact hp
  | tail _ hr ih => exact (h.closed _ _ ih hr).resolve_right (by simp)

end Session.Covered

namespace Site

variable {site : Site}

/-- A link whose address can be found is written, and nothing else happens to the tables. -/
theorem link_completes {active : List Place} {F : Fault → Prop} {p : Place}
    (hlink : ∃ m, site.plainLink p = .ok m) :
    Work.Completes (fun s => s.Covered site.graph active) F (fun _ => True) (site.link p) := by
  intro s hs
  obtain ⟨m, hm⟩ := hlink
  rw [← site.link_eq_plain p s] at hm
  have hgrows := (site.link_grows (K := fun _ => False) (J := fun _ => False) p).session s
  rcases hrun : (site.link p).run.run s with ⟨x, s'⟩
  rw [hrun] at hm hgrows
  obtain rfl : x = .ok m := hm
  have hholds : ∀ q, s'.Holds q ↔ s.Holds q := by
    intro q
    rw [Session.Holds, Session.Holds, hgrows.markup.eq_of_false]
  refine .inr ⟨m, s', rfl, ⟨fun q hq => ?_, fun q r hq hr => ?_⟩,
    hgrows.mono (fun _ => False.elim) fun _ => False.elim, trivial⟩
  · exact hs.whole q ((hholds q).mp hq)
  · rw [hholds r]
    exact hs.closed q r ((hholds q).mp hq) hr

/-- **Rendering goes through all parts** of a node, or stops at one that lacks parts itself. -/
theorem renderNode_completes (hlink : ∀ p, ∃ m, site.plainLink p = .ok m) (budget : Nat) :
    ∀ (active : List Place) (p : Place), site.graph.Above budget active p →
      Work.Completes (fun s => s.Covered site.graph active) (site.graph.Blames p)
        (fun s => s.Holds p ∨ p ∈ active) (site.renderNode budget active p) := by
  induction budget with
  | zero =>
    intro active p habove
    obtain ⟨_, h⟩ := habove.exists_succ
    cases h
  | succ budget ih =>
    intro active p habove s hs
    have hgrows := (site.renderNode_grows (J := fun _ => True) (budget + 1) active p).session s
    have hextends : s.Extends ((site.renderNode (budget + 1) active p).run.run s).2 :=
      hgrows.mono (fun _ _ => trivial) fun _ h => h
    rw [renderNode_succ, Work.run_once] at hextends ⊢
    cases hfound : (Shelf.markup.entries s).lookup p with
    | some m => exact .inr ⟨m, s, rfl, hs, .refl s, .inl ⟨m, hfound⟩⟩
    | none =>
      by_cases hp : p ∈ active
      · simp only [if_pos hp]
        exact .inr ⟨_, s, rfl, hs, .refl s, .inr hp⟩
      simp only [hfound, if_neg hp] at hextends ⊢
      have hrule : Work.Completes (fun s => s.Covered site.graph (p :: active)) (site.graph.Blames p)
          (fun s => (site.graph.typeRule p).faults = [] ∧
            ∀ q ∈ (site.graph.typeRule p).types, s.Holds q ∨ q ∈ p :: active)
          ((site.graph.typeRule p).print
            (fun q => do
              let m ← site.renderNode budget (p :: active) q
              return restDots (site.graph.node q) m) fun q => site.link q) := by
        refine Work.Completes.print (fun q s s' h hq => hq.imp_left fun hq => hq.of_extends h)
          (fun q hq => ?_) (fun q => link_completes (hlink q)) fun e he => ?_
        · have hq' := ih (p :: active) q (habove.step hp hq)
          exact (hq'.map _).mono_fault fun e he => he.of_part hq
        · rw [Graph.faults_typeRule] at he
          split at he
          · rename_i hlacks
            exact ⟨p, .refl, hlacks, List.mem_singleton.mp he⟩
          · cases he
      rcases hrule s (hs.enter p) with ⟨e, s', hrun, he⟩ | ⟨m, s', hrun, hs', -, hfaults, hparts⟩
      · rw [hrun]
        exact .inl ⟨e, s', rfl, he⟩
      · rw [hrun] at hextends ⊢
        have hwhole : ¬ (site.graph.node p).LacksParts := by
          intro hlacks
          rw [Graph.faults_typeRule, if_pos hlacks] at hfaults
          cases hfaults
        exact .inr ⟨m, _, rfl, hs'.leave hwhole hparts m, hextends, .inl (s'.holds_add p m)⟩

/-- Links are written when addresses are found: their climbs end, and no source is missing. -/
theorem plainLink_ok (hsource : ∀ q, (site.graph.node q).hasOwnPage = true →
    ¬ (site.graph.node q).LacksSource) (hclimb : ∀ q, site.graph.Resolves q) (p : Place) :
    ∃ m, site.plainLink p = .ok m := by
  rcases site.address_found (hclimb (site.linkTarget p)) with ⟨a, ha⟩ | ⟨q, hq, hlacks, -⟩
  · exact site.plainLink_of_address ha
  · exact absurd hlacks (hsource q hq)

/-- **Rendering fails exactly where it should.** Let the climb to every address end, and let every owner
of a page that is named for a source have one; types may run in cycles. In a fresh session a node cannot
be rendered exactly when, among all nodes that its rule and the rules of its parts print in type
positions, there is a type chosen by a test without exactly four parts, or a member of another type with
less than two. Then the fault names such a node, and in all other cases there is markup. -/
theorem render_fails_iff (site : Site)
    (hsource : ∀ q, (site.graph.node q).hasOwnPage = true → ¬ (site.graph.node q).LacksSource)
    (hclimb : ∀ q, site.graph.Resolves q) (p : Place) :
    ((∃ kind name, ((site.render (some p)).run.run {}).1 = .error (.missingChildren kind name)) ↔
      ∃ q, ReflTransGen site.graph.Prints p q ∧ (site.graph.node q).LacksParts) ∧
    (∀ e, ((site.render (some p)).run.run {}).1 = .error e → ∃ q, ReflTransGen site.graph.Prints p q ∧
      (site.graph.node q).LacksParts ∧
      e = .missingChildren (site.graph.node q).kind (site.graph.node q).name) ∧
    ((∀ q, ReflTransGen site.graph.Prints p q → ¬ (site.graph.node q).LacksParts) →
      ∃ m, ((site.render (some p)).run.run {}).1 = .ok m) := by
  have hrun := (renderNode_completes (plainLink_ok hsource hclimb) _ [] p (.top site.graph p)).map
    (restDots (site.graph.node p))
  rcases hrun {} (.fresh site.graph) with ⟨e, s, hrender, hblames⟩ | ⟨m, s, hrender, hs, -, hp⟩
  · have hanswer : ((site.render (some p)).run.run {}).1 = .error e := congrArg Prod.fst hrender
    obtain ⟨q, hq, hlacks, rfl⟩ := hblames
    rw [hanswer]
    refine ⟨iff_of_true ⟨_, _, rfl⟩ ⟨q, hq, hlacks⟩, fun e he => ?_, fun h => absurd hlacks (h q hq)⟩
    cases he
    exact ⟨q, hq, hlacks, rfl⟩
  · have hanswer : ((site.render (some p)).run.run {}).1 = .ok m := congrArg Prod.fst hrender
    have hwhole : ∀ q, ReflTransGen site.graph.Prints p q → ¬ (site.graph.node q).LacksParts :=
      fun q hq => hs.whole q (hs.holds_of_reaches (hp.resolve_right (by simp)) hq)
    rw [hanswer]
    refine ⟨iff_of_false ?_ ?_, fun e he => ?_, fun _ => ⟨m, rfl⟩⟩
    · rintro ⟨kind, name, h⟩
      cases h
    · rintro ⟨q, hq, hlacks⟩
      exact hwhole q hq hlacks
    · cases he

end Site

/-- A module with two function types that return each other. The second one takes a type that is chosen by
a test, but has no parts. -/
def partlessDocument : Value :=
  .record [("modules", .list [.record [("kind", .int 1), ("id", .int 1), ("name", .text "a.ts"),
    ("children", .list [.record [("kind", .int 14), ("id", .int 2), ("name", .text "Ping"),
      ("type", .record [("kind", .int 37), ("id", .int 3), ("parameters", .list []),
        ("type", .record [("kind", .int 37), ("id", .int 4),
          ("parameters", .list [.record [("kind", .int 17), ("name", .text "n"),
            ("type", .record [("kind", .int 25), ("name", .text "Choice")])]]),
          ("type", .int 3)])])]])]])]

/-- The site of the document. -/
def partlessSite : Site where
  graph :=
    { nodes := #[
        { Node.bare .moduleFile with id := some (.int 1), name := "a.ts", children := some [1] },
        { Node.bare .typeAlias with
          id := some (.int 2), name := "Ping", type := some 2, parent := some 0 },
        { Node.bare .functionType with id := some (.int 3), type := some 3, parameters := some [] },
        { Node.bare .functionType with id := some (.int 4), type := some 2, parameters := some [4] },
        { Node.bare .parameter with name := "n", type := some 5 },
        { Node.bare .conditionalType with name := "Choice" }]
      modules := [0]
      index := [(.int 1, 0), (.int 2, 1), (.int 3, 2), (.int 4, 3)] }
  plan := ⟨[(0, "a.html")], [0], false⟩
  options := {}

theorem partlessSite_owner {q : Place} (h : (partlessSite.graph.node q).hasOwnPage = true) :
    q = 0 := by
  match q with
  | 0 => rfl
  | 1 | 2 | 3 | 4 | 5 => cases h
  | q + 6 =>
    rw [Graph.node_of_size_le (by simp [partlessSite, Graph.size])] at h
    cases h

theorem partlessSite_partless {q : Place} (h : (partlessSite.graph.node q).LacksParts) : q = 5 := by
  match q with
  | 0 | 1 | 2 | 3 | 4 => exact absurd h (by decide)
  | 5 => rfl
  | q + 6 =>
    rw [Graph.node_of_size_le (by simp [partlessSite, Graph.size])] at h
    exact absurd h (by decide)

namespace Site

/-- The two functions print each other, and still the type inside the second one is found. -/
theorem render_fails_partless : Graph.ofValue partlessDocument = .ok partlessSite.graph ∧
    TransGen partlessSite.graph.Prints 2 2 ∧
    ((partlessSite.render (some 2)).run.run {}).1 =
      .error (.missingChildren .conditionalType "Choice") := by
  have hload : Graph.ofValue partlessDocument = .ok partlessSite.graph := by cbv
  have hsource : ∀ q, (partlessSite.graph.node q).hasOwnPage = true →
      ¬ (partlessSite.graph.node q).LacksSource := by
    intro q hq hlacks
    obtain rfl := partlessSite_owner hq
    exact hlacks.notModule rfl
  have hclimb : ∀ q, partlessSite.graph.Resolves q := by
    refine Graph.resolves_of_falling fun x y hxy => ?_
    have hx := hxy.lt_size
    obtain ⟨o, ho, rfl⟩ := hxy
    change x < 6 at hx
    interval_cases x <;> revert o <;> decide
  have hfirst : (partlessSite.graph.typeRule 2).types = [3] := by cbv
  have hsecond : (partlessSite.graph.typeRule 3).types = [5, 2] := by cbv
  have hreturns : partlessSite.graph.Prints 2 3 := by simp [Graph.Prints, hfirst]
  have hback : partlessSite.graph.Prints 3 2 := by simp [Graph.Prints, hsecond]
  have htakes : partlessSite.graph.Prints 3 5 := by simp [Graph.Prints, hsecond]
  have hlacks : (partlessSite.graph.node 5).LacksParts := by decide
  obtain ⟨hfails, hnames, -⟩ := render_fails_iff partlessSite hsource hclimb 2
  obtain ⟨kind, name, hfault⟩ := hfails.mpr ⟨5, .head hreturns (.single htakes), hlacks⟩
  refine ⟨hload, .head hreturns (.single hback), ?_⟩
  -- no other node lacks parts, so the fault names this one
  obtain ⟨q, -, hq, hnamed⟩ := hnames _ hfault
  rw [hfault, hnamed, partlessSite_partless hq]
  rfl

end Site

end SymbolDocs
