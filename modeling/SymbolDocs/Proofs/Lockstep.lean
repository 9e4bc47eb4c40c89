import SymbolDocs.Proofs.Encoding

/-!
# Programs in step

How a layout is printed, and how a record is put together from its parts, is written once for any
effects: what it means to print a type, to enter a part or to give a text is left open. Two readings
of such a program, with different effects or in different sessions, take the same turns as long as
the parts give the same answers.

* `Lockstep` is a relation between two kinds of work that respects answers, faults, and doing one
  thing after another;
* `Lockstep.print` says that a layout is printed in step when its types and links are;
* `Lockstep.recordWith` and `Lockstep.positionWith` say the same of records and type positions;
* `Lockstep.link_self` is for work that is compared with itself: a link only gives warnings.

What a run adds to the tables, that it follows a plain recursion, that two runs agree, that guards
are released: each of these is such a relation, so each is proved for the tables only.
-/

namespace SymbolDocs

open Relation

/-- A way of comparing work of two kinds: work that agrees gives the same answer or the same fault,
and whatever else the relation says is kept when agreeing work is put together. -/
structure Lockstep (μ ν : Type → Type) [Monad μ] [Monad ν] [MonadExceptOf Fault μ]
    [MonadExceptOf Fault ν] where
  /-- The two pieces of work go in step. -/
  Agree : {α : Type} → μ α → ν α → Prop
  pure : ∀ {α : Type} (a : α), Agree (pure a : μ α) (pure a)
  throw : ∀ {α : Type} (e : Fault), Agree (throw e : μ α) (throw e)
  bind : ∀ {α β : Type} {w : μ α} {v : ν α} {f : α → μ β} {g : α → ν β}, Agree w v →
    (∀ a, Agree (f a) (g a)) → Agree (w >>= f) (v >>= g)

/-- Work that agrees with itself. -/
abbrev Lockstep.Self {μ : Type → Type} [Monad μ] [MonadExceptOf Fault μ] (L : Lockstep μ μ) {α : Type}
    (w : μ α) : Prop :=
  L.Agree w w

namespace Graph

/-- The texts of all types of a layout are needed for a task. -/
def Spells (g : Graph) (t : Task) (l : Layout) : Prop :=
  ∀ q ∈ l.types, ReflTransGen g.Needs t (.text q)

theorem Spells.single {g : Graph} {t : Task} {q : Place} (h : ReflTransGen g.Needs t (.text q)) :
    g.Spells t (.type q) := by
  intro r hr
  obtain rfl := List.mem_singleton.mp hr
  exact h

/-- The text of a member of a heritage clause is part of the text of the clause. -/
theorem Prints.heritage {g : Graph} {p c : Place} (hp : (g.node p).kind = .classType)
    (hc : c ∈ (g.node p).members) : g.Prints p c := by
  simpa [Prints, typeRule, hp, classType, Layout.types] using hc

end Graph

namespace Lockstep

variable {μ ν : Type → Type} [Monad μ] [Monad ν] [MonadExceptOf Fault μ] [MonadExceptOf Fault ν]
  (L : Lockstep μ ν)

/-! ## Layouts -/

section

variable {type link : Place → μ String} {type' link' : Place → ν String}

theorem printEntries {entries : List (Place × Bool)}
    (htype : ∀ e ∈ entries, L.Agree (type e.1) (type' e.1)) :
    L.Agree (Layout.printEntries type entries) (Layout.printEntries type' entries) := by
  induction entries with
  | nil => exact L.pure _
  | cons e rest ih =>
    have hrest := ih fun e he => htype e (List.mem_cons_of_mem _ he)
    exact L.bind (htype e List.mem_cons_self) fun m => L.bind hrest fun ms => L.pure _

/-- **Layouts are printed in step** when their types and links are. -/
theorem print {l : Layout} (htype : ∀ q ∈ l.types, L.Agree (type q) (type' q))
    (hlink : ∀ q, L.Agree (link q) (link' q)) : L.Agree (l.print type link) (l.print type' link') := by
  induction l with
  | empty => exact L.pure _
  | text s => exact L.pure _
  | sign s => exact L.pure _
  | append a b iha ihb =>
    have ha := iha fun q hq => htype q (List.mem_append_left _ hq)
    have hb := ihb fun q hq => htype q (List.mem_append_right _ hq)
    exact L.bind ha fun x => L.bind hb fun y => L.pure _
  | type p => exact htype p List.mem_cons_self
  | spaced p => exact L.bind (htype p List.mem_cons_self) fun m => L.pure _
  | link p => exact hlink p
  | element tag style body ih => exact L.bind (ih htype) fun m => L.pure _
  | heritage entries =>
    have hentries := L.printEntries fun e he => htype e.1 (List.mem_map_of_mem he)
    exact L.bind hentries fun ms => L.pure _
  | members body ih => exact L.bind (ih htype) fun m => L.pure _
  | broken kind name => exact L.throw _

end

/-! ## Lists of places -/

section

variable {α : Type} {f : Place → μ α} {f' : Place → ν α}

theorem eachPlace {ps : List Place} (h : ∀ p ∈ ps, L.Agree (f p) (f' p)) :
    L.Agree (SymbolDocs.eachPlace f ps) (SymbolDocs.eachPlace f' ps) := by
  induction ps with
  | nil => exact L.pure _
  | cons p rest ih =>
    have hrest := ih fun q hq => h q (List.mem_cons_of_mem _ hq)
    exact L.bind (h p List.mem_cons_self) fun a => L.bind hrest fun more => L.pure _

theorem eachOf {ps : Option (List Place)} (h : ∀ p ∈ ps.getD [], L.Agree (f p) (f' p)) :
    L.Agree (SymbolDocs.eachOf f ps) (SymbolDocs.eachOf f' ps) := by
  cases ps with
  | none => exact L.pure _
  | some ps => exact L.bind (L.eachPlace h) fun as => L.pure _

theorem eachIfAny {ps : List Place} (h : ∀ p ∈ ps, L.Agree (f p) (f' p)) :
    L.Agree (SymbolDocs.eachIfAny f ps) (SymbolDocs.eachIfAny f' ps) := by
  unfold SymbolDocs.eachIfAny
  split
  · exact L.pure _
  · exact L.bind (L.eachPlace h) fun as => L.pure _

theorem onPlace {p : Option Place} (h : ∀ q, p = some q → L.Agree (f q) (f' q)) :
    L.Agree (SymbolDocs.onPlace f p) (SymbolDocs.onPlace f' p) := by
  cases p with
  | none => exact L.pure _
  | some q => exact L.bind (h q rfl) fun a => L.pure _

end

/-! ## Records and type positions -/

section

variable {site : Site} {summarize : Place → μ Record} {summarize' : Place → ν Record}
  {position : Place → μ (TypeValue Record)} {position' : Place → ν (TypeValue Record)}
  {enter : Place → μ Record} {enter' : Place → ν Record} {p : Place}

theorem argumentRecord (h : L.Agree (position p) (position' p)) :
    L.Agree (Site.argumentRecord position p) (Site.argumentRecord position' p) :=
  L.bind h fun _ => L.pure _

theorem resolvedPosition
    (h : ∀ q, (site.graph.node p).resolvedType = some q → L.Agree (position q) (position' q)) :
    L.Agree (site.resolvedPosition position p) (site.resolvedPosition position' p) := by
  unfold Site.resolvedPosition
  cases hq : (site.graph.node p).resolvedType with
  | none => exact L.pure _
  | some q =>
    have hposition := L.bind (h q hq) fun v => L.pure (some v)
    dsimp only
    split
    · split
      · exact L.pure _
      · exact hposition
    · exact hposition

variable [Printer μ] [Printer ν]

theorem text (h : L.Agree (Printer.printLayout site (.type p) : μ String)
    (Printer.printLayout site (.type p))) : L.Agree (site.text p : μ String) (site.text p) :=
  L.bind h fun _ => L.pure _

theorem typeParameterRecord (hP : L.Agree (position p) (position' p))
    (htext : L.Agree (Printer.printLayout site (site.graph.typeArgument p) : μ String)
      (Printer.printLayout site (site.graph.typeArgument p))) :
    L.Agree (site.typeParameterRecord position p) (site.typeParameterRecord position' p) := by
  unfold Site.typeParameterRecord
  dsimp only
  split
  · exact L.argumentRecord hP
  · exact L.bind htext fun m => L.pure _

/-- **Records are made in step** when the records, type positions and type parameters in them are. -/
theorem recordWith_of_parts
    (hS : ∀ c ∈ (site.graph.node p).parts, L.Agree (summarize c) (summarize' c))
    (hP : ∀ t ∈ (site.graph.node p).typeParts, L.Agree (position t) (position' t))
    (hA : ∀ a ∈ (site.graph.node p).typeParameters.getD [],
      L.Agree (site.typeParameterRecord position a) (site.typeParameterRecord position' a)) :
    L.Agree (site.recordWith summarize position p) (site.recordWith summarize' position' p) := by
  have hchildren := L.eachIfAny fun c hc => hS c (List.mem_append_left _ hc)
  have hparameters := L.eachOf fun c hc => hS c (List.mem_append_right _ hc)
  have htype : L.Agree (SymbolDocs.onPlace position (site.graph.node p).type)
      (SymbolDocs.onPlace position' (site.graph.node p).type) :=
    L.onPlace fun t ht => hP t (List.mem_append_left _ (List.mem_append_left _ (by simp [ht])))
  have hresolved : L.Agree (site.resolvedPosition position p) (site.resolvedPosition position' p) :=
    L.resolvedPosition fun q hq =>
      hP q (List.mem_append_left _ (List.mem_append_right _ (by simp [hq])))
  refine L.bind hchildren fun children => ?_
  refine L.bind hparameters fun parameters => ?_
  refine L.bind (L.eachIfAny hA) fun typeParameters => ?_
  refine L.bind htype fun type => ?_
  exact L.bind hresolved fun resolved => L.pure _

/-- The same when the texts that type parameters are made of are printed in step. -/
theorem recordWith (hS : ∀ c ∈ (site.graph.node p).parts, L.Agree (summarize c) (summarize' c))
    (hP : ∀ t ∈ (site.graph.node p).typeParts, L.Agree (position t) (position' t))
    (htext : ∀ l, site.graph.Spells (.body p) l →
      L.Agree (Printer.printLayout site l : μ String) (Printer.printLayout site l)) :
    L.Agree (site.recordWith summarize position p) (site.recordWith summarize' position' p) :=
  L.recordWith_of_parts hS hP fun a ha =>
    L.typeParameterRecord (hP a (List.mem_append_right _ ha))
      (htext _ fun _ hq => .single (.bound ha hq))

theorem heritageTarget (htext : L.Agree (site.text p : μ String) (site.text p)) :
    L.Agree (site.heritageTarget p : μ (TypeValue Record)) (site.heritageTarget p) := by
  unfold Site.heritageTarget
  split
  · exact L.pure _
  · exact L.bind htext fun s => L.pure _

theorem heritageEntry (htext : L.Agree (site.text p : μ String) (site.text p))
    (hP : ∀ a ∈ (site.graph.node p).arguments, L.Agree (position a) (position' a)) :
    L.Agree (site.heritageEntry position p) (site.heritageEntry position' p) := by
  have harguments := L.eachIfAny fun a ha => L.argumentRecord (hP a ha)
  refine L.bind (L.heritageTarget htext) fun v => ?_
  exact L.bind harguments fun arguments => L.pure _

theorem heritageRecord
    (htext : ∀ c ∈ (site.graph.node p).members, L.Agree (site.text c : μ String) (site.text c))
    (hP : ∀ c ∈ (site.graph.node p).members, ∀ a ∈ (site.graph.node c).arguments,
      L.Agree (position a) (position' a)) :
    L.Agree (site.heritageRecord position p) (site.heritageRecord position' p) := by
  have hentries : ∀ c ∈ site.heritageEntries p,
      L.Agree (site.heritageEntry position c) (site.heritageEntry position' c) := by
    intro c hc
    have hc := List.mem_of_mem_filter hc
    exact L.heritageEntry (htext c hc) (hP c hc)
  exact L.bind (L.eachPlace hentries) fun children => L.pure _

/-- The two sides may have different nodes in progress, as long as they treat this one alike. -/
theorem flattenNode {active active' : List Place}
    (hactive : (site.graph.node p).isStructural = true → (p ∈ active ↔ p ∈ active'))
    (htext : ((site.graph.node p).isStructural = true → p ∈ active) →
      L.Agree (site.text p : μ String) (site.text p))
    (hclause : (site.graph.node p).kind = .classType →
      L.Agree (site.heritageRecord position p) (site.heritageRecord position' p))
    (hB : (site.graph.node p).isStructural = true → p ∉ active → L.Agree (enter p) (enter' p)) :
    L.Agree (site.flattenNode active position enter p)
      (site.flattenNode active' position' enter' p) := by
  have htext := fun h => L.bind (htext h) fun s => L.pure (TypeValue.inline s : TypeValue Record)
  unfold Site.flattenNode
  dsimp only
  split
  · rename_i hk
    exact L.bind (hclause (by simpa using hk)) fun r => L.pure _
  split
  · exact L.pure _
  split
  · rename_i hs
    refine htext fun hs' => absurd hs ?_
    simpa [Node.isStructural] using hs'
  rename_i hs
  have hs : (site.graph.node p).isStructural = true := by simpa [Node.isStructural] using hs
  by_cases hp : p ∈ active
  · rw [if_pos hp, if_pos ((hactive hs).mp hp)]
    split
    · exact L.pure _
    · split
      · exact L.pure _
      · exact htext fun _ => hp
  · rw [if_neg hp, if_neg fun h => hp ((hactive hs).mpr h)]
    exact L.bind (hB hs hp) fun r => L.pure _

theorem flattenWith_of_texts {active active' : List Place}
    (hid : (site.graph.node ((site.graph.node p).mention?.getD p)).exportedId? = none)
    (hactive : ∀ q, site.graph.Carries p q → (q ∈ active ↔ q ∈ active'))
    (htext : ∀ q, site.graph.Spells (.position p) (.type q) →
      L.Agree (site.text q : μ String) (site.text q))
    (hcut : ∀ q, site.graph.Carries p q → q ∈ active →
      L.Agree (site.text q : μ String) (site.text q))
    (hP : ∀ a, site.graph.Needs (.position p) (.position a) → L.Agree (position a) (position' a))
    (hB : ∀ q, site.graph.Carries p q → q ∉ active → L.Agree (enter q) (enter' q)) :
    L.Agree (site.flattenWith active position enter p)
      (site.flattenWith active' position' enter' p) := by
  have hspelled : ∀ q, ReflTransGen site.graph.Needs (.position p) (.text q) →
      L.Agree (site.text q : μ String) (site.text q) := fun q hq => htext q (.single hq)
  have hown : L.Agree (site.text p : μ String) (site.text p) := hspelled p (.single (.text p))
  cases ht : (site.graph.node p).mention? with
  | none =>
    rw [ht] at hid
    rw [Site.flattenWith_of_none ht, Site.flattenWith_of_none ht]
    refine L.flattenNode (fun hs => hactive p ⟨hs, hid, .inl ⟨ht, rfl⟩⟩) (fun _ => hown) (fun hk => ?_)
      fun hs hp => hB p ⟨hs, hid, .inl ⟨ht, rfl⟩⟩ hp
    refine L.heritageRecord (fun c hc => hspelled c ?_) fun c hc a ha => hP a (.heritage hk hc ha)
    exact (ReflTransGen.single (.text p)).tail (.printed (.heritage hk hc))
  | some t =>
    rw [ht] at hid
    rw [Site.flattenWith_of_some ht, Site.flattenWith_of_some ht]
    split
    · exact L.bind hown fun s => L.pure _
    · rename_i hcond
      have hargs : (site.graph.node p).arguments = [] := by
        by_contra h
        exact hcond (.inl h)
      have hs : (site.graph.node t).isStructural = true := by
        by_contra h
        exact hcond (.inr (by simpa using h))
      have hcarries : site.graph.Carries p t := ⟨hs, hid, .inr ⟨ht, hargs⟩⟩
      refine L.flattenNode (fun _ => hactive t hcarries)
        (fun h => hcut t hcarries (h hs)) (fun hk => ?_) fun _ => hB t hcarries
      exact absurd hk (Site.isStructural_kind hs).1

/-- **Type positions are encoded in step** when the parts and the texts they need are. -/
theorem positionWith_of_texts {active active' : List Place}
    (hactive : ∀ q, site.graph.Carries p q → (q ∈ active ↔ q ∈ active'))
    (htext : ∀ q, site.graph.Spells (.position p) (.type q) →
      L.Agree (site.text q : μ String) (site.text q))
    (hcut : ∀ q, site.graph.Carries p q → q ∈ active →
      L.Agree (site.text q : μ String) (site.text q))
    (hP : ∀ a, site.graph.Needs (.position p) (.position a) → L.Agree (position a) (position' a))
    (hB : ∀ q, site.graph.Carries p q → q ∉ active → L.Agree (enter q) (enter' q)) :
    L.Agree (site.positionWith active position enter p)
      (site.positionWith active' position' enter' p) := by
  cases hid : (site.graph.node ((site.graph.node p).mention?.getD p)).exportedId? with
  | some id =>
    rw [Site.positionWith_of_some hid, Site.positionWith_of_some hid]
    split
    · have harguments := L.eachPlace fun a ha => L.argumentRecord (hP a (.argument ha))
      exact L.bind harguments fun arguments => L.pure _
    · exact L.pure _
  | none =>
    rw [Site.positionWith_of_none hid, Site.positionWith_of_none hid]
    exact L.flattenWith_of_texts hid hactive htext hcut hP hB

/-- The same when the texts are printed in step. -/
theorem positionWith {active active' : List Place}
    (hactive : ∀ q, site.graph.Carries p q → (q ∈ active ↔ q ∈ active'))
    (htext : ∀ l, site.graph.Spells (.position p) l →
      L.Agree (Printer.printLayout site l : μ String) (Printer.printLayout site l))
    (hcut : ∀ q, site.graph.Carries p q → q ∈ active →
      L.Agree (Printer.printLayout site (.type q) : μ String) (Printer.printLayout site (.type q)))
    (hP : ∀ a, site.graph.Needs (.position p) (.position a) → L.Agree (position a) (position' a))
    (hB : ∀ q, site.graph.Carries p q → q ∉ active → L.Agree (enter q) (enter' q)) :
    L.Agree (site.positionWith active position enter p)
      (site.positionWith active' position' enter' p) :=
  L.positionWith_of_texts hactive (fun _ hq => L.text (htext _ hq))
    (fun q hq hmem => L.text (hcut q hq hmem)) hP hB

end

/-! ## Work compared with itself -/

section

variable (L : Lockstep Work Work) {site : Site} (hwarn : ∀ w, L.Self (Work.warn w))

include hwarn

theorem target_self (p : Place) : L.Self (site.target p) := by
  unfold Site.target
  dsimp only
  split
  · exact L.bind (hwarn _) fun _ => L.pure _
  · exact L.pure _

theorem hrefFrom_self (fuel : Nat) (p : Place) (page : Option Place) :
    L.Self (site.hrefFrom fuel p page) := by
  induction fuel generalizing p page with
  | zero => exact L.throw _
  | succ fuel ih =>
    refine L.bind (L.target_self hwarn p) fun q => ?_
    have hanchor : ∀ w : Work String, L.Self w →
        L.Self (do let base ← w; Pure.pure (base ++ anchor (site.graph.node q))) :=
      fun w hw => L.bind hw fun base => L.pure _
    dsimp only
    split
    · cases site.plan.pageOf site.graph q with
      | ok name => exact L.pure _
      | error e => exact L.throw _
    split
    · exact hanchor _ (L.pure _)
    split
    · exact hanchor _ (ih _ _)
    split
    · exact hanchor _ (ih _ _)
    · exact hanchor _ (L.pure _)

/-- The only thing that a link does in a session is to give warnings. -/
theorem link_self (p : Place) : L.Self (site.link p) := by
  unfold Site.link
  dsimp only
  split
  · exact L.pure _
  refine L.bind (L.hrefFrom_self hwarn _ _ _) fun address => ?_
  split
  · exact L.pure _
  · exact L.pure _

end

end Lockstep

end SymbolDocs
