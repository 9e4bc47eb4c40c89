import SymbolDocs.Proofs.Unbounded

/-!
# Chains of wrappers

A wrapper leads to the node that it stands for, which may be a wrapper again. The chain from a node is
a tail, and the tail ends at a node that stands for itself or runs into a circle. Followed with the
nodes passed in mind, a chain is left at the first node met twice, and that is the one at which the
tail enters the circle: the nodes of the tail are not met again, and those of the circle are met in
turn.

* `Graph.Wraps` is the step of a chain, `Graph.Circular` says that a node lies on a circle of wrappers;
* `Graph.StandsFor` leads from a node to the first node of its chain that is final;
* `Graph.exists_standsFor` says that there is one, `Graph.StandsFor.target_eq` that the chain is left
  there;
* `Site.target_final`: following wrappers ends, at a final node, and a circle is reported exactly when
  that node lies on one.
-/

namespace SymbolDocs

open Relation

namespace Graph

variable {g : Graph} {p q : Place}

/-! ## Steps -/

/-- A wrapper leads to what it stands for. -/
def Wraps (g : Graph) (p q : Place) : Prop :=
  g.wrapped? p = some q

theorem Wraps.eq {q' : Place} (h : g.Wraps p q) (h' : g.Wraps p q') : q = q' :=
  Option.some.inj (h.symm.trans h')

/-- The node lies on a circle of wrappers. -/
def Circular (g : Graph) (p : Place) : Prop :=
  TransGen g.Wraps p p

theorem Circular.exists_wraps (h : g.Circular p) : ∃ q, g.Wraps p q ∧ ReflTransGen g.Wraps q p :=
  TransGen.head'_iff.mp h

/-- The chain from a node on a circle stays on it. -/
theorem Circular.next (h : g.Circular p) (hq : g.Wraps p q) : g.Circular q := by
  obtain ⟨q', hq', hback⟩ := h.exists_wraps
  obtain rfl := hq.eq hq'
  exact TransGen.tail' hback hq

/-- A chain goes no further from the node, or comes back to it. -/
def Final (g : Graph) (p : Place) : Prop :=
  g.wrapped? p = none ∨ g.Circular p

theorem wrapped?_eq_none_iff :
    g.wrapped? p = none ↔ (g.node p).kind.isWrapper = false ∨ (g.node p).type = none := by
  by_cases h : (g.node p).kind.isWrapper = true <;> simp [wrapped?, h]

/-! ## Around a circle -/

/-- One step along a chain; where there is none, nothing moves. -/
def unwrap (g : Graph) (p : Place) : Place :=
  (g.wrapped? p).getD p

theorem Wraps.unwrap_eq (h : g.Wraps p q) : g.unwrap p = q := by
  rw [unwrap, h, Option.getD_some]

theorem exists_iterate_unwrap (h : ReflTransGen g.Wraps p q) : ∃ n, g.unwrap^[n] p = q := by
  induction h using ReflTransGen.head_induction_on with
  | refl => exact ⟨0, rfl⟩
  | @head a c hstep _ ih =>
    obtain ⟨n, hn⟩ := ih
    exact ⟨n + 1, by rw [Function.iterate_succ_apply, hstep.unwrap_eq, hn]⟩

theorem Circular.mem_periodicPts (h : g.Circular p) : p ∈ Function.periodicPts g.unwrap := by
  obtain ⟨q, hq, hback⟩ := h.exists_wraps
  obtain ⟨n, hn⟩ := exists_iterate_unwrap hback
  refine Function.mk_mem_periodicPts n.succ_pos ?_
  rw [Function.IsPeriodicPt, Function.IsFixedPt, Function.iterate_succ_apply, hq.unwrap_eq, hn]

theorem Circular.wraps_unwrap (h : g.Circular p) : g.Wraps p (g.unwrap p) := by
  obtain ⟨q, hq, -⟩ := h.exists_wraps
  rwa [hq.unwrap_eq]

theorem Circular.iterate (h : g.Circular p) (n : Nat) : g.Circular (g.unwrap^[n] p) := by
  induction n with
  | zero => exact h
  | succ n ih =>
    rw [Function.iterate_succ_apply']
    exact ih.next ih.wraps_unwrap

/-- The first nodes of a chain, the last one first. -/
def firstNodes (g : Graph) (p : Place) (n : Nat) : List Place :=
  ((List.range n).map fun i => g.unwrap^[i] p).reverse

theorem firstNodes_succ (n : Nat) : g.firstNodes p (n + 1) = g.unwrap^[n] p :: g.firstNodes p n := by
  simp [firstNodes, List.range_succ]

theorem mem_firstNodes {x : Place} {n : Nat} : x ∈ g.firstNodes p n ↔ ∃ i < n, g.unwrap^[i] p = x := by
  simp [firstNodes, eq_comm]

/-- Once around: from any node of a circle on, when the nodes up to it have been passed and before them
none of a circle, the first node that is met again is the one where the circle was entered. -/
theorem unboundedFollow_around (hp : g.Circular p) {tail : List Place}
    (htail : ∀ a ∈ tail, ¬ g.Circular a) {n : Nat} (hn : n ≤ Function.minimalPeriod g.unwrap p) :
    g.unboundedFollow (g.firstNodes p n ++ tail) (g.unwrap^[n] p) = some (p, true) := by
  induction hn using Nat.decreasingInduction with
  | self =>
    have hpositive := Function.minimalPeriod_pos_of_mem_periodicPts hp.mem_periodicPts
    have hmem : p ∈ g.firstNodes p (Function.minimalPeriod g.unwrap p) :=
      mem_firstNodes.mpr ⟨0, hpositive, rfl⟩
    rw [Function.iterate_minimalPeriod, unboundedFollow, hp.wraps_unwrap]
    exact if_pos (List.mem_append_left _ hmem)
  | of_succ n hn ih =>
    have hnew : g.unwrap^[n] p ∉ g.firstNodes p n ++ tail := by
      intro hmem
      rcases List.mem_append.mp hmem with hmem | hmem
      · obtain ⟨i, hi, heq⟩ := mem_firstNodes.mp hmem
        have hin := Function.iterate_injOn_Iio_minimalPeriod (hi.trans hn) hn heq
        exact hi.ne hin
      · exact htail _ hmem (hp.iterate n)
    rw [firstNodes_succ, List.cons_append, Function.iterate_succ_apply'] at ih
    rw [unboundedFollow, (hp.iterate n).wraps_unwrap]
    exact (if_neg hnew).trans ih

/-! ## From a node to its final node -/

/-- The first final node of the chain from a node. -/
structure StandsFor (g : Graph) (p q : Place) : Prop where
  chain : ReflTransGen (fun a b => ¬ g.Final a ∧ g.Wraps a b) p q
  final : g.Final q

/-- A node that is final stands for itself. -/
theorem Final.standsFor (h : g.Final p) : g.StandsFor p p :=
  ⟨.refl, h⟩

/-- What following wrappers ends with is final: a node that is met again is led to by itself. -/
theorem final_of_unboundedFollow {seen : List Place} {r : Place × Bool}
    (h : g.unboundedFollow seen p = some r) (hseen : ∀ a ∈ seen, TransGen g.Wraps a p) :
    ReflTransGen g.Wraps p r.1 ∧ g.Final r.1 := by
  refine unboundedFollow.partial_correctness g (fun seen p r => (∀ a ∈ seen, TransGen g.Wraps a p) →
    ReflTransGen g.Wraps p r.1 ∧ g.Final r.1) ?_ seen p r h hseen
  intro follow ih seen p r h hseen
  cases hq : g.wrapped? p with
  | none =>
    rw [hq] at h
    cases h
    exact ⟨.refl, .inl hq⟩
  | some q =>
    rw [hq] at h
    dsimp only at h
    split at h
    · rename_i hp
      cases h
      exact ⟨.refl, .inr (hseen p hp)⟩
    · have hstep : ∀ a ∈ p :: seen, TransGen g.Wraps a q := by
        intro a ha
        rcases List.mem_cons.mp ha with rfl | ha
        · exact .single hq
        · exact (hseen a ha).tail hq
      obtain ⟨hreaches, hfinal⟩ := ih _ _ _ h hstep
      exact ⟨hreaches.head hq, hfinal⟩

theorem exists_standsFor_of_reaches (h : ReflTransGen g.Wraps p q) (hq : g.Final q) :
    ∃ x, g.StandsFor p x := by
  induction h using ReflTransGen.head_induction_on with
  | refl => exact ⟨q, hq.standsFor⟩
  | @head a c hstep _ ih =>
    by_cases ha : g.Final a
    · exact ⟨a, ha.standsFor⟩
    · obtain ⟨x, hx⟩ := ih
      exact ⟨x, .head ⟨ha, hstep⟩ hx.chain, hx.final⟩

/-- Every chain has a final node, since following it ends. -/
theorem exists_standsFor (g : Graph) (p : Place) : ∃ q, g.StandsFor p q := by
  obtain ⟨hreaches, hfinal⟩ := final_of_unboundedFollow (g.unboundedFollow_nil p) (by simp)
  exact exists_standsFor_of_reaches hreaches hfinal

/-- **The chain is left at its first final node.** No node of the tail is met again, and from where the
circle is entered it is gone around once. -/
theorem StandsFor.unboundedFollow_eq (h : g.StandsFor p q) {c : Bool}
    (hc : c = true ↔ g.Circular q) {seen : List Place}
    (hseen : ∀ a ∈ seen, TransGen g.Wraps a p ∧ ¬ g.Circular a) :
    g.unboundedFollow seen p = some (q, c) := by
  obtain ⟨hchain, hfinal⟩ := h
  induction hchain using ReflTransGen.head_induction_on generalizing seen with
  | refl =>
    rcases hfinal with hnone | hq
    · have hplain : c = false := by
        rw [Bool.eq_false_iff, ne_eq, hc]
        intro hq
        obtain ⟨x, hx, -⟩ := hq.exists_wraps
        cases hnone.symm.trans hx
      rw [unboundedFollow, hnone, hplain]
    · rw [hc.mpr hq]
      exact unboundedFollow_around hq (fun a ha => (hseen a ha).2) (Nat.zero_le _)
  | @head a b hstep _ ih =>
    obtain ⟨ha, hab⟩ := hstep
    have hplain : ¬ g.Circular a := fun h => ha (.inr h)
    have hnew : a ∉ seen := fun hmem => hplain (hseen a hmem).1
    rw [unboundedFollow, hab]
    refine (if_neg hnew).trans (ih fun x hx => ?_)
    rcases List.mem_cons.mp hx with rfl | hx
    · exact ⟨.single hab, hplain⟩
    · exact ⟨(hseen x hx).1.tail hab, (hseen x hx).2⟩

/-- What a node stands for, and whether there is a circle to report. -/
theorem StandsFor.target_eq (h : g.StandsFor p q) {c : Bool}
    (hc : c = true ↔ g.Circular q) : g.target p = (q, c) := by
  have hends : g.unboundedFollow [] p = some (q, c) := h.unboundedFollow_eq hc (by simp)
  exact Option.some.inj ((g.unboundedFollow_nil p).symm.trans hends)

end Graph

namespace Site

open Work

variable {site : Site} {p q : Place}

theorem target_ends (site : Site) (p : Place) : ending.Agree (site.target p) (site.unboundedTarget p) := by
  have h : ending.Agree (site.target p >>= pure) (site.unboundedTarget p >>= pure) :=
    target_bind_ends (ending.pure _)
  simpa using h

/-- A circle is reported by the name of the node at which it was entered; otherwise nothing is. -/
theorem target_run (h : site.graph.StandsFor p q) (s : Session) :
    ∃ s', (site.target p).run.run s = (.ok q, s') ∧
      (site.graph.Circular q →
        s' = { s with warnings := s.warnings ++ [.referenceCycle (site.graph.node q).name] }) ∧
      (¬ site.graph.Circular q → s' = s) := by
  by_cases hq : site.graph.Circular q
  · refine ⟨_, ?_, fun _ => rfl, fun hplain => absurd hq hplain⟩
    rw [target, h.target_eq (c := true) (by simp [hq])]
    rfl
  · refine ⟨s, ?_, fun hcircular => absurd hcircular hq, fun _ => rfl⟩
    rw [target, h.target_eq (c := false) (by simp [hq])]
    rfl

/-- **Wrappers are followed to an end.** In any graph and any session, following the wrappers from a node
ends without a bound, at the first node of the chain that is no wrapper, a wrapper without a type, or on
a circle. That node stands for itself, and the circle is reported in the last case and only then. -/
theorem target_final (site : Site) (p : Place) : ∃ q, site.graph.StandsFor p q ∧
    ((site.graph.node q).kind.isWrapper = false ∨ (site.graph.node q).type = none ∨
      site.graph.Circular q) ∧
    (∀ s, ∃ s', (site.unboundedTarget p).run.run s = some (.ok q, s') ∧
      (site.target p).run.run s = (.ok q, s') ∧
      (site.graph.Circular q →
        s' = { s with warnings := s.warnings ++ [.referenceCycle (site.graph.node q).name] }) ∧
      (¬ site.graph.Circular q → s' = s)) ∧
    ∀ s, ∃ s', (site.target q).run.run s = (.ok q, s') := by
  obtain ⟨q, hq⟩ := site.graph.exists_standsFor p
  refine ⟨q, hq, ?_, fun s => ?_, fun s => ?_⟩
  · rcases hq.final with hnone | hcircular
    · rcases Graph.wrapped?_eq_none_iff.mp hnone with h | h
      · exact .inl h
      · exact .inr (.inl h)
    · exact .inr (.inr hcircular)
  · obtain ⟨s', hs', hreported⟩ := target_run hq s
    exact ⟨s', (target_ends site p s).trans (congrArg some hs'), hs', hreported⟩
  · obtain ⟨s', hs', -⟩ := target_run hq.final.standsFor s
    exact ⟨s', hs'⟩

/-- A re-export names a reference that runs in a circle with another one, which it is no part of. -/
example :
    let wrapper (kind : Kind) (p : Place) : Node := { Node.bare kind with type := some p }
    let g : Graph := ⟨#[wrapper .reExport 1, wrapper .reference 2, wrapper .importType 1], [], []⟩
    g.target 0 = (1, true) ∧ g.target 1 = (1, true) := by
  decide

end Site

end SymbolDocs
