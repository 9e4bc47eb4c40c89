import Mathlib

/-!
# Searches that pass over what was seen

A search starts from some roots and goes from each thing it finds to the next ones. It passes over
what was seen before, and in the middle of it there are things that are still to be looked at. What
such a search has found is said without its order, so that a recursion and a list of work to do can be
described in the same way.

* `Explores` relates roots, what was seen before, what is still pending, and what has been found;
* `Explores.trans` looks at what is pending, `Explores.both` puts two searches one after the other;
* `Explores.mem_iff`: a search that leaves nothing pending has found what can be reached, each once.
-/

namespace SymbolDocs

open Relation

/-- The search from the roots, where some things were seen before, has found a list of things and has
left others pending. -/
structure Explores {α : Type} (next : α → α → Prop) (root seen pending : Set α) (found : List α) :
    Prop where
  nodup : found.Nodup
  fresh : ∀ a ∈ found, a ∉ seen
  covers : ∀ a ∈ root, a ∈ seen ∨ a ∈ found ∨ a ∈ pending
  closed : ∀ a ∈ found, ∀ b, next a b → b ∈ seen ∨ b ∈ found ∨ b ∈ pending
  linked : ∀ a ∈ found, ∃ r ∈ root, ReflTransGen next r a
  pending_linked : ∀ a ∈ pending, ∃ r ∈ root, ReflTransGen next r a

namespace Explores

variable {α : Type} {next : α → α → Prop} {root root' seen pending pending' : Set α}
  {xs ys : List α}

/-- Where every root was seen before there is nothing to find. -/
theorem skip (h : root ⊆ seen) : Explores next root seen ∅ [] where
  nodup := List.nodup_nil
  fresh := by simp
  covers a ha := .inl (h ha)
  closed := by simp
  linked := by simp
  pending_linked := by simp

/-- A root that is new is found, and what comes next is pending. -/
theorem visit {a : α} (ha : a ∉ seen) : Explores next {a} seen {b | next a b} [a] where
  nodup := List.nodup_singleton a
  fresh b hb := by
    obtain rfl := List.mem_singleton.mp hb
    exact ha
  covers b hb := .inr (.inl (List.mem_singleton.mpr hb))
  closed b hb c hc := by
    obtain rfl := List.mem_singleton.mp hb
    exact .inr (.inr hc)
  linked b hb := ⟨b, List.mem_singleton.mp hb, .refl⟩
  pending_linked b hb := ⟨a, rfl, .single hb⟩

/-- More roots may be left pending. -/
theorem aside (h : Explores next root seen pending xs) (others : Set α) :
    Explores next (root ∪ others) seen (pending ∪ others) xs where
  nodup := h.nodup
  fresh := h.fresh
  covers a ha := by
    rcases ha with ha | ha
    · exact (h.covers a ha).imp_right (Or.imp_right .inl)
    · exact .inr (.inr (.inr ha))
  closed a ha b hb := (h.closed a ha b hb).imp_right (Or.imp_right .inl)
  linked a ha := by
    obtain ⟨r, hr, hra⟩ := h.linked a ha
    exact ⟨r, .inl hr, hra⟩
  pending_linked a ha := by
    rcases ha with ha | ha
    · obtain ⟨r, hr, hra⟩ := h.pending_linked a ha
      exact ⟨r, .inl hr, hra⟩
    · exact ⟨a, .inr ha, .refl⟩

/-- What was left pending is looked at. -/
theorem trans (h : Explores next root seen pending xs)
    (h' : Explores next pending (seen ∪ {a | a ∈ xs}) pending' ys) :
    Explores next root seen pending' (xs ++ ys) := by
  have hfound : ∀ a, a ∈ seen ∨ a ∈ xs ∨ a ∈ pending → a ∈ seen ∨ a ∈ xs ++ ys ∨ a ∈ pending' := by
    intro a ha
    rcases ha with ha | ha | ha
    · exact .inl ha
    · exact .inr (.inl (List.mem_append_left ys ha))
    · rcases h'.covers a ha with (ha | ha) | ha | ha
      · exact .inl ha
      · exact .inr (.inl (List.mem_append_left ys ha))
      · exact .inr (.inl (List.mem_append_right xs ha))
      · exact .inr (.inr ha)
  have hlinked : ∀ a, (∃ r ∈ pending, ReflTransGen next r a) → ∃ r ∈ root, ReflTransGen next r a := by
    rintro a ⟨r, hr, hra⟩
    obtain ⟨t, ht, htr⟩ := h.pending_linked r hr
    exact ⟨t, ht, htr.trans hra⟩
  constructor
  case nodup =>
    refine List.nodup_append.mpr ⟨h.nodup, h'.nodup, fun a ha b hb hab => ?_⟩
    exact h'.fresh b hb (.inr (hab ▸ ha))
  case fresh =>
    intro a ha
    rcases List.mem_append.mp ha with ha | ha
    · exact h.fresh a ha
    · exact fun hseen => h'.fresh a ha (.inl hseen)
  case covers => exact fun a ha => hfound a (h.covers a ha)
  case closed =>
    intro a ha b hb
    rcases List.mem_append.mp ha with ha | ha
    · exact hfound b (h.closed a ha b hb)
    · rcases h'.closed a ha b hb with (hb | hb) | hb | hb
      · exact .inl hb
      · exact .inr (.inl (List.mem_append_left ys hb))
      · exact .inr (.inl (List.mem_append_right xs hb))
      · exact .inr (.inr hb)
  case linked =>
    intro a ha
    rcases List.mem_append.mp ha with ha | ha
    · exact h.linked a ha
    · exact hlinked a (h'.linked a ha)
  case pending_linked => exact fun a ha => hlinked a (h'.pending_linked a ha)

/-- Two searches one after the other; the second has seen what the first one found. -/
theorem both (h : Explores next root seen pending xs)
    (h' : Explores next root' (seen ∪ {a | a ∈ xs}) pending' ys) :
    Explores next (root ∪ root') seen (pending ∪ pending') (xs ++ ys) := by
  have hrest := h'.aside pending
  rw [Set.union_comm root', Set.union_comm pending'] at hrest
  exact (h.aside root').trans hrest

/-- **Searching**: from scratch and to the end, what can be reached is found, and nothing else. -/
theorem mem_iff (h : Explores next root ∅ ∅ xs) {a : α} :
    a ∈ xs ↔ ∃ r ∈ root, ReflTransGen next r a := by
  constructor
  · exact h.linked a
  · rintro ⟨r, hr, hra⟩
    induction hra with
    | refl => simpa using h.covers r hr
    | tail _ hstep ih => simpa using h.closed _ ih _ hstep

end Explores

end SymbolDocs
