import SymbolDocs.Proofs.Calls
import SymbolDocs.Proofs.Loading

/-!
# Printing without a bound

The programs for links, headings and types count down a number that bounds how deep they can go. Here
the same programs are written without it, as recursions that may run for ever: a run that never ends
has no result at all. In a loaded graph they always have one, and it is that of the bounded programs.

* `Unbounded` is work that need not end, and `Work.ending` compares it with work that does;
* `Graph.unboundedFollow`, `Site.unboundedHref`, `Graph.unboundedHeading` and `Site.unboundedNode` are
  the four recursions;
* `Graph.Climbs` is the step of an address from a node to what its owner stands for, which is the one
  step that no guard watches;
* `Site.requests_end` says that whatever a printer is asked for ends, in every session.
-/

namespace SymbolDocs

open Relation

/-! ## Work that need not end -/

/-- Work in a session that may run for ever. Without an end there is neither an answer nor a fault. -/
abbrev Unbounded := ExceptT Fault (StateT Session Option)

namespace Unbounded

variable {α β : Type}

/-- Work that ends. -/
def lift (w : Work α) : Unbounded α :=
  ExceptT.mk fun s => some (w.run.run s)

/-- A recursion that concerns no session. -/
def ofOption (x : Option α) : Unbounded α :=
  ExceptT.mk fun s => x.map fun a => (.ok a, s)

/-- Running one piece of work after another; the second is not reached when the first has no end. -/
theorem run_bind (v : Unbounded α) (f : α → Unbounded β) (s : Session) :
    (v >>= f).run.run s =
      match v.run.run s with
      | none => none
      | some (.ok a, s') => (f a).run.run s'
      | some (.error e, s') => some (.error e, s') := by
  change (ExceptT.bind v f : Unbounded β).run.run s = _
  simp only [ExceptT.bind, ExceptT.run, ExceptT.mk, StateT.run, bind, StateT.bind, Option.bind]
  rcases v s with _ | ⟨_ | a, s'⟩ <;> rfl

/-- Work on a place that is done only when the table has no entry for it. -/
def once (k : Shelf β) (active : List Place) (p : Place) (short : β) (v : Unbounded β) :
    Unbounded β := do
  match (k.entries (← get)).lookup p with
  | some b => return b
  | none =>
    if p ∈ active then return short
    else
      let b ← v
      modify (k.add p b)
      return b

theorem run_once {k : Shelf β} {active : List Place} {p : Place} {short : β} {v : Unbounded β}
    {s : Session} : (once k active p short v).run.run s =
      match (k.entries s).lookup p with
      | some b => some (.ok b, s)
      | none =>
        if p ∈ active then some (.ok short, s)
        else
          match v.run.run s with
          | none => none
          | some (.ok b, s') => some (.ok b, k.add p b s')
          | some (.error e, s') => some (.error e, s') := by
  have hrun : (once k active p short v).run.run s = _ := run_bind get _ s
  rw [hrun]
  change ((match (k.entries s).lookup p with
    | some b => pure b
    | none => if p ∈ active then pure short else do
      let b ← v
      modify (k.add p b)
      pure b : Unbounded β)).run.run s = _
  cases (k.entries s).lookup p with
  | some b => rfl
  | none =>
    dsimp only
    split
    · rfl
    · rw [run_bind]
      rcases v.run.run s with _ | ⟨_ | b, s'⟩ <;> rfl

/-! ### Least solutions

A recursion without a bound is the least solution of its equation. There is one because a program
with calls that end more often ends more often, with the same results. -/

/-- The second piece of work does the same as the first one wherever that ends. -/
def below : Lockstep Unbounded Unbounded where
  Agree v v' := ∀ s, v.run.run s = none ∨ v.run.run s = v'.run.run s
  pure _ _ := .inr rfl
  throw _ _ := .inr rfl
  bind {_ _ v v' f f'} hv hf s := by
    rw [run_bind, run_bind]
    rcases hv s with h | h
    · rw [h]
      exact .inl rfl
    · rw [h]
      rcases v'.run.run s with _ | ⟨_ | a, s'⟩
      · exact .inl rfl
      · exact .inr rfl
      · exact hf a s'

theorem below_refl (v : Unbounded α) : below.Agree v v :=
  fun _ => .inr rfl

theorem below_once {k : Shelf β} {active : List Place} {p : Place} {short : β} {v v' : Unbounded β}
    (h : below.Agree v v') : below.Agree (once k active p short v) (once k active p short v') := by
  intro s
  rw [run_once, run_once]
  rcases h s with h | h
  · rw [h]
    cases (k.entries s).lookup p with
    | some b => exact .inr rfl
    | none =>
      dsimp only
      split
      · exact .inr rfl
      · exact .inl rfl
  · rw [h]
    exact .inr rfl

/-- An order on results in which only the missing result is below others. The orders that recursions are
solved in have its fields by their two constructors, so that `{}` is a proof for each of them. -/
structure Flat {γ : Type} (R : Option γ → Option γ → Prop) : Prop where
  missing : ∀ y, R none y := by exact fun _ => .bot
  same : ∀ x, R x x := by exact fun _ => .refl
  only : ∀ x y, R x y → x = none ∨ x = y := by rintro _ _ (_ | _) <;> simp

theorem Flat.iff {γ : Type} {R : Option γ → Option γ → Prop} (hR : Flat R) {x y : Option γ} :
    R x y ↔ x = none ∨ x = y := by
  refine ⟨hR.only x y, ?_⟩
  rintro (rfl | rfl)
  · exact hR.missing y
  · exact hR.same x

/-- In such an order the first piece of work does the same as the second one wherever it ends. -/
theorem Flat.below {R : Option (Except Fault α × Session) → Option (Except Fault α × Session) → Prop}
    (hR : Flat R) {v v' : Unbounded α} (h : ∀ s, R (v.run.run s) (v'.run.run s)) : below.Agree v v' :=
  fun s => hR.iff.mp (h s)

end Unbounded

namespace Work

variable {α β : Type}

/-- Work without a bound that ends in every session, with the answer and the session of bounded
work. -/
def ending : Lockstep Work Unbounded where
  Agree w v := ∀ s : Session, v.run.run s = some (w.run.run s)
  pure _ _ := rfl
  throw _ _ := rfl
  bind {_ _ w v f g} hw hf s := by
    rw [Unbounded.run_bind, hw s, run_bind]
    rcases w.run.run s with ⟨_ | a, s'⟩
    · rfl
    · exact hf a s'

theorem ending_lift (w : Work α) : ending.Agree w (Unbounded.lift w) :=
  fun _ => rfl

/-- A recursion outside all sessions comes first. -/
theorem ending_ofOption {x : Option α} {a : α} (hx : x = some a) {f : α → Unbounded β} {w : Work β}
    (h : ending.Agree w (f a)) : ending.Agree w (Unbounded.ofOption x >>= f) := by
  intro s
  rw [Unbounded.run_bind, hx]
  exact h s

theorem ending_once {k : Shelf β} {active : List Place} {p : Place} {short : β} {w : Work β}
    {v : Unbounded β} (h : p ∉ active → ending.Agree w v) :
    ending.Agree (once k active p short w) (Unbounded.once k active p short v) := by
  intro s
  rw [Unbounded.run_once, run_once]
  cases (k.entries s).lookup p with
  | some b => rfl
  | none =>
    dsimp only
    split
    · rfl
    · rename_i hp
      rw [h hp s]
      rcases w.run.run s with ⟨_ | b, s'⟩ <;> rfl

end Work

/-! ## The recursions -/

namespace Graph

variable (g : Graph)

/-- Follows wrappers from `p`, having passed `seen`. -/
def unboundedFollow (g : Graph) (seen : List Place) (p : Place) : Option (Place × Bool) :=
  match g.wrapped? p with
  | none => some (p, false)
  | some q => if p ∈ seen then some (p, true) else g |>.unboundedFollow (p :: seen) q
partial_fixpoint

/-- The heading of a declaration; the keys of an index signature are headings themselves. -/
def unboundedHeading (g : Graph) (p : Place) : Option Layout :=
  let n := g.node p
  match n.kind with
  | .moduleFile => some (.text n.name)
  | .indexSignature => do
    let keys ← (n.parameters.getD []).mapM fun k => g |>.unboundedHeading k
    return .text "[" ++ Layout.separated (.text ", ") keys ++ .text "]: " ++ indexValue n
  | _ =>
    some (signatureName n ++ g.typeArguments n.typeParameters ++ g.signatureParameters n.parameters ++
      signatureType n ++ signatureValue n.value)
partial_fixpoint

/-- The heading of a declaration with its badges. -/
def unboundedSignature (p : Place) : Option Layout := do
  let n := g.node p
  let heading ← g.unboundedHeading p
  return if n.kind == .moduleFile || n.kind == .indexSignature then heading
    else nodeChips n ++ .element .span .signature heading

/-- A member of an object type. -/
def unboundedProperty (p : Place) : Option Layout :=
  let n := g.node p
  match n.kind, n.members with
  | .spread, c :: _ => some (.text "..." ++ .type c)
  | _, _ => g.unboundedHeading p

end Graph

/-- Does a node of the kind print its heading in a type position? -/
def Kind.printsHeading : Kind → Bool
  | .classType | .inferType | .parenthesized | .conditionalType | .indexedType | .typeUnion
  | .typeIntersection | .tuple | .array | .reference | .importType | .functionType | .function
  | .method | .constructorType | .mappedType | .objectType | .literal | .typeAlias | .baseType
  | .typeParameter | .keyof | .typeof | .thisType | .readonlyKeyword | .uniqueSymbol
  | .unknownType => false
  | _ => true

/-- The rule of a node in a type position. Only declarations and members print headings. -/
def Graph.unboundedRule (g : Graph) (p : Place) : Option Layout := do
  let n := g.node p
  if n.kind = .objectType then
    let members ← n.members.mapM g.unboundedProperty
    return .members (Layout.separated (.text "; ") members)
  else if n.kind.printsHeading then g.unboundedSignature p
  else return g.typeRule p

namespace Site

variable (site : Site)

/-- Where the wrappers from a node lead; a circle is reported. -/
def unboundedTarget (p : Place) : Unbounded Place := do
  let (q, circular) ← Unbounded.ofOption (site.graph.unboundedFollow [] p)
  if circular then Unbounded.lift (Work.warn (.referenceCycle (site.graph.node q).name))
  return q

/-- The address of a node seen from a page. -/
def unboundedHref (site : Site) (p : Place) (page : Option Place) : Unbounded String := do
  let q ← site.unboundedTarget p
  let n := site.graph.node q
  if n.hasOwnPage then Unbounded.lift (Work.ofExcept (site.plan.pageOf site.graph q))
  else
    let base ←
      match n.parent with
      | none => pure ""
      | some owner =>
        match page with
        | none => site |>.unboundedHref owner none
        | some page =>
          if (site.graph.node owner).name != (site.graph.node page).name then
            site |>.unboundedHref owner none
          else pure ""
    return base ++ anchor n
partial_fixpoint

/-- A node as a link. -/
def unboundedLink (p : Place) (content : Option String := none) (page : Option Place := none) :
    Unbounded String := do
  let label :=
    match content with
    | some c => if c != "" then c else displayName (site.graph.node p)
    | none => displayName (site.graph.node p)
  let q := site.linkTarget p
  if (site.graph.node q).id.isNone then return label
  let address ← site.unboundedHref q page
  if site.options.spa && address.toList.head? != some '#' then
    return "<doc-a href=\"" ++ Markup.escape address ++ "\">" ++ label ++ "</doc-a>"
  else return "<a href=\"" ++ Markup.escape address ++ "\">" ++ label ++ "</a>"

/-- Renders a node while the nodes `active` are in progress. -/
def unboundedNode (site : Site) (active : List Place) (p : Place) : Unbounded String :=
  Unbounded.once .markup active p (bareName (site.graph.node p)) do
    let rule ← Unbounded.ofOption (site.graph.unboundedRule p)
    rule.print
      (fun q => do
        let m ← site |>.unboundedNode (p :: active) q
        return restDots (site.graph.node q) m)
      fun q => site.unboundedLink q
partial_fixpoint monotonicity fun f f' hf active p s => by
  have hcall : ∀ active q, Unbounded.below.Agree (f active q) (f' active q) :=
    fun active q => Unbounded.Flat.below {} (hf active q)
  refine (Unbounded.Flat.iff {}).mpr (Unbounded.below_once ?_ s)
  refine Unbounded.below.bind (Unbounded.below_refl _) fun rule => ?_
  refine Unbounded.below.print (fun q _ => ?_) fun q => Unbounded.below_refl _
  exact Unbounded.below.bind (hcall _ q) fun m => Unbounded.below.pure _

/-- Renders a node in a type position. -/
def unboundedType (p : Place) : Unbounded String := do
  let m ← site.unboundedNode [] p
  return restDots (site.graph.node p) m

/-- Prints a layout. -/
def unboundedPrint (l : Layout) : Unbounded String :=
  l.print site.unboundedType fun q => site.unboundedLink q

/-- Without a bound layouts are printed by these recursions. -/
instance : Printer Unbounded := ⟨unboundedPrint⟩

end Site

theorem mapM_eq_some {α β : Type} {f : α → Option β} {h : α → β} {xs : List α}
    (hf : ∀ x ∈ xs, f x = some (h x)) : xs.mapM f = some (xs.map h) := by
  induction xs with
  | nil => rfl
  | cons x xs ih =>
    rw [List.mapM_cons, hf x List.mem_cons_self, ih fun y hy => hf y (List.mem_cons_of_mem _ hy)]
    rfl

/-! ## Wrappers -/

namespace Graph

variable {g : Graph}

/-- Only a node of the table wraps another one. -/
theorem lt_size_of_wrapped? {p q : Place} (h : g.wrapped? p = some q) : p < g.size := by
  by_contra hge
  rw [wrapped?, node_of_size_le (Nat.le_of_not_lt hge)] at h
  cases h

/-- **Wrappers end**, because a chain stops where it would pass a node again. -/
theorem unboundedFollow_eq (fuel : Nat) {seen : List Place} {p : Place} (hnodup : seen.Nodup)
    (hinside : ∀ a ∈ seen, a < g.size) (hroom : g.size < fuel + seen.length) :
    g.unboundedFollow seen p = some (g.follow fuel seen p) := by
  induction fuel generalizing seen p with
  | zero =>
    have hlen := length_le_size hnodup hinside
    omega
  | succ fuel ih =>
    rw [unboundedFollow, follow]
    cases hq : g.wrapped? p with
    | none => rfl
    | some q =>
      dsimp only
      split
      · rfl
      · rename_i hp
        refine ih (List.nodup_cons.mpr ⟨hp, hnodup⟩) (fun a ha => ?_) ?_
        · rcases List.mem_cons.mp ha with rfl | ha
          · exact lt_size_of_wrapped? hq
          · exact hinside a ha
        · rw [List.length_cons]
          omega

theorem unboundedFollow_nil (g : Graph) (p : Place) : g.unboundedFollow [] p = some (g.target p) :=
  unboundedFollow_eq _ List.nodup_nil (by simp) (by simp)

/-! ## Headings -/

/-- A parameter stands behind the node it belongs to, so there is less room behind it. -/
theorem Sound.room_of_parameter (hg : g.Sound) {p k : Place}
    (hk : k ∈ (g.node p).parameters.getD []) : g.size - k < g.size - p := by
  have hk : k ∈ (g.node p).owned := by simp [Node.owned, hk]
  obtain ⟨hlt, hsize⟩ := hg.owned hk
  exact Nat.sub_lt_sub_left (hlt.trans hsize) hlt

/-- The heading of what is neither a module nor an index signature. -/
theorem unboundedHeading_of_plain {p : Place} (hmodule : (g.node p).kind ≠ .moduleFile)
    (hindex : (g.node p).kind ≠ .indexSignature) :
    g.unboundedHeading p = some (signatureName (g.node p) ++ g.typeArguments (g.node p).typeParameters ++
      g.signatureParameters (g.node p).parameters ++ signatureType (g.node p) ++
      signatureValue (g.node p).value) := by
  rw [unboundedHeading]
  split
  · exact absurd ‹_› hmodule
  · exact absurd ‹_› hindex
  · rfl

theorem headingFrom_of_plain {fuel : Nat} {p : Place} (hmodule : (g.node p).kind ≠ .moduleFile)
    (hindex : (g.node p).kind ≠ .indexSignature) :
    g.headingFrom (fuel + 1) p = signatureName (g.node p) ++
      g.typeArguments (g.node p).typeParameters ++ g.signatureParameters (g.node p).parameters ++
      signatureType (g.node p) ++ signatureValue (g.node p).value := by
  rw [headingFrom]
  split
  · exact absurd ‹_› hmodule
  · exact absurd ‹_› hindex
  · rfl

/-- **Headings end** in a loaded graph: the keys of an index signature stand behind it in the table. -/
theorem Sound.unboundedHeading_eq (hg : g.Sound) (fuel : Nat) {p : Place} (hroom : g.size - p < fuel) :
    g.unboundedHeading p = some (g.headingFrom fuel p) := by
  induction fuel generalizing p with
  | zero => omega
  | succ fuel ih =>
    have hkeys : ((g.node p).parameters.getD []).mapM (fun k => g.unboundedHeading k) =
        some (((g.node p).parameters.getD []).map (g.headingFrom fuel)) := by
      refine mapM_eq_some fun k hk => ih ?_
      have hless := hg.room_of_parameter hk
      omega
    by_cases hmodule : (g.node p).kind = .moduleFile
    · rw [unboundedHeading, headingFrom]
      simp only [hmodule]
    by_cases hindex : (g.node p).kind = .indexSignature
    · rw [unboundedHeading, headingFrom]
      simp only [hindex, hkeys]
      rfl
    · rw [unboundedHeading_of_plain hmodule hindex, headingFrom_of_plain hmodule hindex]

section

variable (hg : g.Sound)

include hg

theorem Sound.unboundedHeading_eq_signatureText (p : Place) :
    g.unboundedHeading p = some (g.signatureText p) :=
  hg.unboundedHeading_eq _ (Nat.lt_succ_of_le (Nat.sub_le _ _))

theorem Sound.unboundedSignature_eq (p : Place) : g.unboundedSignature p = some (g.signature p) := by
  rw [unboundedSignature, hg.unboundedHeading_eq_signatureText, signature]
  rfl

/-- An index signature is its own heading. -/
theorem Sound.indexSignature_eq {p : Place} (hp : (g.node p).kind = .indexSignature) :
    g.indexSignature p = g.signatureText p := by
  have hkeys : ((g.node p).parameters.getD []).map g.signatureText =
      ((g.node p).parameters.getD []).map (g.headingFrom g.size) := by
    refine List.map_congr_left fun k hk => ?_
    have hbound := hg.unboundedHeading_eq g.size (p := k)
      (Nat.lt_of_lt_of_le (hg.room_of_parameter hk) (Nat.sub_le _ _))
    rw [hg.unboundedHeading_eq_signatureText] at hbound
    exact Option.some.inj hbound
  rw [indexSignature, hkeys, signatureText, headingFrom]
  simp only [hp]

theorem Sound.unboundedProperty_eq (p : Place) : g.unboundedProperty p = some (g.property p) := by
  rw [unboundedProperty, property, hg.unboundedHeading_eq_signatureText]
  by_cases hk : (g.node p).kind = .indexSignature
  · simp only [hk, hg.indexSignature_eq hk]
  · split
    · rename_i hspread hmembers
      simp only [hspread, hmembers]
    · rename_i hother
      split
      · exact absurd ‹_› hk
      · exact absurd ‹_› (hother _ _ ‹_›)
      · rfl

/-- **Rules end** in a loaded graph. -/
theorem Sound.unboundedRule_eq (p : Place) : g.unboundedRule p = some (g.typeRule p) := by
  have hmembers : (g.node p).members.mapM g.unboundedProperty =
      some ((g.node p).members.map g.property) := mapM_eq_some fun c _ => hg.unboundedProperty_eq c
  rw [unboundedRule, hmembers, hg.unboundedSignature_eq, typeRule]
  cases hk : (g.node p).kind <;> rfl

end

/-! ## Addresses -/

/-- An address is read from a node, then from what the owner of that node stands for. -/
def Climbs (g : Graph) (x y : Place) : Prop :=
  ∃ o, (g.node x).parent = some o ∧ y = (g.target o).1

/-- Only a node of the table has an owner. -/
theorem Climbs.lt_size {x y : Place} (h : g.Climbs x y) : x < g.size := by
  obtain ⟨o, ho, -⟩ := h
  by_contra hge
  rw [node_of_size_le (Nat.le_of_not_lt hge)] at ho
  cases ho

end Graph

namespace Site

open Work

variable {site : Site}

/-- Where wrappers lead is known before anything is done with it. -/
theorem target_bind_ends {α : Type} {p : Place} {f : Place → Work α} {f' : Place → Unbounded α}
    (h : ending.Agree (f (site.graph.target p).1) (f' (site.graph.target p).1)) :
    ending.Agree (site.target p >>= f) (site.unboundedTarget p >>= f') := by
  rw [unboundedTarget, target, bind_assoc]
  refine ending_ofOption (site.graph.unboundedFollow_nil p) ?_
  rcases hq : site.graph.target p with ⟨q, _ | _⟩
  · rw [hq] at h
    simpa using h
  · rw [hq] at h
    simpa using ending.bind (ending_lift (warn _)) fun _ => h

/-- **Addresses end** when no climb comes back to a node. The nodes passed all lead to where the
climb is now. -/
theorem hrefFrom_ends (hclimb : ∀ x, ¬ TransGen site.graph.Climbs x x) (fuel : Nat) :
    ∀ (p : Place) (page : Option Place) (passed : List Place), passed.Nodup →
      (∀ a ∈ passed, a < site.graph.size) →
      (∀ a ∈ passed, TransGen site.graph.Climbs a (site.graph.target p).1) →
      site.graph.size < fuel + passed.length →
      ending.Agree (site.hrefFrom fuel p page) (site.unboundedHref p page) := by
  induction fuel with
  | zero =>
    intro p page passed hnodup hinside _ hroom
    have hlen := Graph.length_le_size hnodup hinside
    omega
  | succ fuel ih =>
    intro p page passed hnodup hinside hleads hroom
    -- the next node is new, because otherwise it would lead to itself
    have hstep : ∀ owner, (site.graph.node (site.graph.target p).1).parent = some owner →
        ending.Agree (site.hrefFrom fuel owner none) (site.unboundedHref owner none) := by
      intro owner howner
      have hclimbs : site.graph.Climbs (site.graph.target p).1 (site.graph.target owner).1 :=
        ⟨owner, howner, rfl⟩
      refine ih owner none ((site.graph.target p).1 :: passed) ?_ (fun a ha => ?_) (fun a ha => ?_) ?_
      · exact List.nodup_cons.mpr ⟨fun hmem => hclimb _ (hleads _ hmem), hnodup⟩
      · rcases List.mem_cons.mp ha with rfl | ha
        · exact hclimbs.lt_size
        · exact hinside a ha
      · rcases List.mem_cons.mp ha with rfl | ha
        · exact .single hclimbs
        · exact (hleads a ha).tail hclimbs
      · rw [List.length_cons]
        omega
    have hanchor : ∀ (n : Node) {w : Work String} {v : Unbounded String}, ending.Agree w v →
        ending.Agree (do let base ← w; pure (base ++ anchor n))
          (do let base ← v; pure (base ++ anchor n)) :=
      fun n w v h => ending.bind h fun base => ending.pure _
    rw [hrefFrom, unboundedHref]
    refine target_bind_ends ?_
    dsimp only
    split
    · exact ending_lift _
    cases hparent : (site.graph.node (site.graph.target p).1).parent with
    | none => exact hanchor _ (ending.pure _)
    | some owner =>
      cases page with
      | none => exact hanchor _ (hstep owner hparent)
      | some page =>
        dsimp only
        split
        · exact hanchor _ (hstep owner hparent)
        · exact hanchor _ (ending.pure _)

theorem href_ends (hclimb : ∀ x, ¬ TransGen site.graph.Climbs x x) (p : Place) (page : Option Place) :
    ending.Agree (site.href p page) (site.unboundedHref p page) :=
  hrefFrom_ends hclimb _ p page [] List.nodup_nil (by simp) (by simp) (by simp)

theorem link_ends (hclimb : ∀ x, ¬ TransGen site.graph.Climbs x x) (p : Place)
    (content : Option String) (page : Option Place) :
    ending.Agree (site.link p content page) (site.unboundedLink p content page) := by
  unfold link unboundedLink
  dsimp only
  split
  · exact ending.pure _
  refine ending.bind (href_ends hclimb _ page) fun address => ?_
  split
  · exact ending.pure _
  · exact ending.pure _

/-! ## Types -/

/-- **Rendering ends**: every node that is put in progress is a new one of the table. -/
theorem renderNode_ends (hg : site.graph.Sound) (hclimb : ∀ x, ¬ TransGen site.graph.Climbs x x)
    (budget : Nat) : ∀ (active : List Place) (p : Place), site.graph.Above budget active p →
      ending.Agree (site.renderNode budget active p) (site.unboundedNode active p) := by
  induction budget with
  | zero =>
    intro active p habove
    obtain ⟨_, h⟩ := habove.exists_succ
    cases h
  | succ budget ih =>
    intro active p habove
    rw [renderNode_succ, unboundedNode]
    refine ending_once fun hnew => ?_
    refine ending_ofOption (hg.unboundedRule_eq p) ?_
    refine ending.print (fun q hq => ?_) fun q => link_ends hclimb q none none
    exact ending.bind (ih (p :: active) q (habove.step hnew hq)) fun m => ending.pure _

theorem renderType_ends (hg : site.graph.Sound) (hclimb : ∀ x, ¬ TransGen site.graph.Climbs x x)
    (p : Place) : ending.Agree (site.renderType p) (site.unboundedType p) :=
  ending.bind (renderNode_ends hg hclimb _ [] p (.top site.graph p)) fun _ => ending.pure _

theorem print_ends (hg : site.graph.Sound) (hclimb : ∀ x, ¬ TransGen site.graph.Climbs x x)
    (l : Layout) : ending.Agree (site.print l) (site.unboundedPrint l) :=
  ending.print (fun q _ => renderType_ends hg hclimb q) fun q => link_ends hclimb q none none

end Site

/-! ## Requests -/

/-- What a printer can be asked for. -/
inductive Request where
  /-- The markup of a type position. -/
  | render (p : Option Place)
  /-- The heading of a declaration with its badges. -/
  | signature (p : Place)
  /-- The plain heading of a declaration. -/
  | signatureText (p : Place)
  /-- A parameter. -/
  | parameter (p : Place)
  /-- A type parameter with its bound, or a type argument. -/
  | typeArgument (p : Place)
  /-- A node as a link, with a label of its own or a given one. -/
  | link (p : Place) (content : Option String) (page : Option Place)
  /-- The address of a node. -/
  | href (p : Place) (page : Option Place)

namespace Site

open Work

/-- Serves a request with the bounded programs. -/
def serve (site : Site) : Request → Work String
  | .render p => site.render p
  | .signature p => site.print (site.graph.signature p)
  | .signatureText p => site.print (site.graph.signatureText p)
  | .parameter p => site.print (site.graph.parameter p)
  | .typeArgument p => site.print (site.graph.typeArgument p)
  | .link p content page => site.link p content page
  | .href p page => site.href p page

/-- Serves a request without a bound. -/
def unboundedServe (site : Site) : Request → Unbounded String
  | .render p => site.unboundedPrint (Layout.optional p)
  | .signature p => do site.unboundedPrint (← Unbounded.ofOption (site.graph.unboundedSignature p))
  | .signatureText p => do site.unboundedPrint (← Unbounded.ofOption (site.graph.unboundedHeading p))
  | .parameter p => site.unboundedPrint (site.graph.parameter p)
  | .typeArgument p => site.unboundedPrint (site.graph.typeArgument p)
  | .link p content page => site.unboundedLink p content page
  | .href p page => site.unboundedHref p page

/-- **Printing ends.** Let a document be loaded, whatever cycles its types run in, and let no climb
from a node to what its owner stands for come back to a node. Then every request for every node ends
without a bound, in every session that other work can have left behind, and it has the result of the
bounded programs. -/
theorem requests_end {site : Site} {doc : Value} (hload : Graph.ofValue doc = .ok site.graph)
    (hclimb : ∀ x, ¬ TransGen site.graph.Climbs x x) (r : Request) (s : Session) :
    (site.unboundedServe r).run.run s = some ((site.serve r).run.run s) := by
  have hg := Graph.sound_of_load hload
  have hprint : ∀ l, ending.Agree (site.print l) (site.unboundedPrint l) := print_ends hg hclimb
  cases r with
  | render p =>
    rw [serve, render_eq_print]
    exact hprint _ s
  | signature p => exact ending_ofOption (hg.unboundedSignature_eq p) (hprint _) s
  | signatureText p => exact ending_ofOption (hg.unboundedHeading_eq_signatureText p) (hprint _) s
  | parameter p => exact hprint _ s
  | typeArgument p => exact hprint _ s
  | link p content page => exact link_ends hclimb p content page s
  | href p page => exact href_ends hclimb p page s

/-- Climbs that lead to the front of the table come to an end. -/
theorem not_transGen_climbs {g : Graph} (h : ∀ x y, g.Climbs x y → y < x) (x : Place) :
    ¬ TransGen g.Climbs x x := by
  intro hx
  have hless : ∀ {y}, TransGen g.Climbs x y → y < x := by
    intro y hy
    induction hy with
    | single hstep => exact h _ _ hstep
    | tail _ hstep ih => exact (h _ _ hstep).trans ih
  exact Nat.lt_irrefl x (hless hx)

/-- In the document with two function types that return each other the heading of the named type
ends: the first function is cut short inside the second one. -/
theorem requests_end_ping : Graph.ofValue pingDocument = .ok pingSite.graph ∧
    (∀ x, ¬ TransGen pingSite.graph.Climbs x x) ∧
    ((pingSite.unboundedServe (.signatureText 1)).run.run {}).map Prod.fst =
      some (.ok "Ping = () =&gt; (n: number[]) =&gt; ?") := by
  have hclimb : ∀ x, ¬ TransGen pingSite.graph.Climbs x x := by
    refine not_transGen_climbs fun x y hxy => ?_
    have hx := hxy.lt_size
    obtain ⟨o, ho, rfl⟩ := hxy
    change x < 7 at hx
    interval_cases x <;> revert o <;> decide
  have hserved : ((pingSite.serve (.signatureText 1)).run.run {}).1 =
      .ok "Ping = () =&gt; (n: number[]) =&gt; ?" := by
    cbv
  refine ⟨pingDocument_loads, hclimb, ?_⟩
  rw [requests_end pingDocument_loads hclimb, Option.map_some, hserved]

end Site

end SymbolDocs
