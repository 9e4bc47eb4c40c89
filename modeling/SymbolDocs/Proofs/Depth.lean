import SymbolDocs.Proofs.Direct
import SymbolDocs.Proofs.Loading

/-!
# How deep summarising goes

Summarising puts nodes in progress, each of them once, and between two such steps it enters type
arguments. In a loaded graph a type argument stands behind its owner, so there are fewer steps of that
kind than nodes.

* `Graph.Open` says of a task with nodes in progress that there is fuel for whatever can follow;
* `Graph.Open.argument` and `Graph.Open.enter` say that the steps of summarising keep it so;
* `Graph.Open.top` says that there is enough to begin with.
-/

namespace SymbolDocs.Graph

open Relation

variable {g : Graph}

/-- How many type arguments can be entered one inside the other from a task, with no node put in
progress. -/
def span (g : Graph) : Task → Nat
  | .position p => g.size - p
  | _ => 0

theorem span_le (g : Graph) (t : Task) : g.span t ≤ g.size := by
  cases t with
  | position p => exact Nat.sub_le _ _
  | record | body | text => exact Nat.zero_le _

/-- The nodes `active` are in progress, the making of their records has led to the task, and there is
fuel for what can follow. -/
structure Open (g : Graph) (fuel : Nat) (active : List Place) (t : Task) : Prop where
  nodup : active.Nodup
  inside : ∀ a ∈ active, a < g.size
  below : g.Below active t
  room : (g.size - active.length) * (g.size + 2) + g.span t < fuel

/-- There is nothing to do for a record of a place outside the table. -/
theorem lt_size_of_needs_body {q : Place} {t : Task} (h : g.Needs (.body q) t) : q < g.size := by
  by_contra hge
  have hnode : g.node q = Node.bare .unknown := node_of_size_le (Nat.le_of_not_lt hge)
  cases h with
  | part h =>
    rw [hnode] at h
    cases h
  | typePart h =>
    rw [hnode] at h
    cases h
  | bound ha =>
    rw [hnode] at ha
    cases ha

/-- A type argument that is entered stands behind the node it belongs to. -/
theorem Sound.lt_of_needs_position (hg : g.Sound) {p a : Place}
    (h : g.Needs (.position p) (.position a)) : p < a ∧ a < g.size := by
  cases h with
  | argument ha => exact hg.owned (List.mem_append_right _ ha)
  | heritage _ hc ha =>
    have hc := hg.owned (Node.mem_owned_of_mem_parts (List.mem_append_left _ hc))
    have ha := hg.owned (List.mem_append_right _ ha)
    exact ⟨hc.1.trans ha.1, ha.2⟩

namespace Open

variable {fuel : Nat} {active : List Place} {t t' : Task}

theorem top (g : Graph) (t : Task) : g.Open (Site.summaryDepth g) [] t := by
  refine ⟨List.nodup_nil, by simp, by simp [Below], ?_⟩
  have hspan := g.span_le t
  simp only [List.length_nil, Nat.sub_zero, Site.summaryDepth]
  nlinarith

theorem exists_succ (h : g.Open fuel active t) : ∃ n, fuel = n + 1 :=
  ⟨fuel - 1, by have := h.room; omega⟩

/-- A type argument is entered. -/
theorem argument (hg : g.Sound) {p a : Place} (h : g.Open (fuel + 1) active (.position p))
    (ha : g.Needs (.position p) (.position a)) : g.Open fuel active (.position a) := by
  refine ⟨h.nodup, h.inside, fun b hb => (h.below b hb).tail ha, ?_⟩
  obtain ⟨hlt, hsize⟩ := hg.lt_of_needs_position ha
  have hspan : g.size - a < g.size - p := Nat.sub_lt_sub_left (hlt.trans hsize) hlt
  have hroom := h.room
  simp only [span] at hroom ⊢
  omega

/-- A node is put in progress. -/
theorem enter {q : Place} (h : g.Open (fuel + 1) active t) (hq : g.Needs t (.body q))
    (hnew : q ∉ active) (ht' : g.Needs (.body q) t') : g.Open fuel (q :: active) t' := by
  have hnodup : (q :: active).Nodup := List.nodup_cons.mpr ⟨hnew, h.nodup⟩
  have hinside : ∀ a ∈ q :: active, a < g.size := by
    intro a ha
    rcases List.mem_cons.mp ha with rfl | ha
    · exact lt_size_of_needs_body ht'
    · exact h.inside a ha
  refine ⟨hnodup, hinside, fun a ha => ?_, ?_⟩
  · rcases List.mem_cons.mp ha with rfl | ha
    · exact .single ht'
    · exact ((h.below a ha).tail hq).tail ht'
  · -- one more node is in progress, which leaves more fuel than there are type arguments
    have hlen := length_le_size hnodup hinside
    rw [List.length_cons] at hlen ⊢
    obtain ⟨n, hn⟩ : ∃ n, g.size - active.length = n + 1 := ⟨g.size - active.length - 1, by omega⟩
    have hless : g.size - (active.length + 1) = n := by omega
    have hroom := h.room
    have hspan := g.span_le t'
    rw [hn, Nat.succ_mul] at hroom
    rw [hless]
    omega

end Open

end SymbolDocs.Graph
