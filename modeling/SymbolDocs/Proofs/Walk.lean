import Mathlib
import SymbolDocs.Graph.Reach
import SymbolDocs.Proofs.Nesting

/-!
# What a walk visits

A walk from a stack of places visits exactly the open places that are linked to the stack. In a loaded
graph the walk over members visits the tree below its root, and it does so in document order.

* `mem_reach_of_links` and `exists_root_of_mem_reach` are the two halves for any links;
* `Graph.Under` says that a node is found below another through members;
* `Graph.mem_membersFrom` identifies what the walk over members visits;
* `Graph.Forest.walk_sorted`: the walks from all roots, put together, are in document order.
-/

namespace SymbolDocs

section Reach

variable {links : Place → List Place}

/-- Whatever is visited is linked to the stack. -/
theorem exists_root_of_mem_reach {unvisited stack : List Place} {p : Place}
    (h : p ∈ reach links unvisited stack) :
    ∃ r ∈ stack, Relation.ReflTransGen (fun a b => b ∈ links a) r p := by
  fun_induction reach links unvisited stack with
  | case1 => simp at h
  | case2 unvisited q rest hq ih =>
    rcases List.mem_cons.mp h with rfl | h
    · exact ⟨p, List.mem_cons_self, .refl⟩
    · obtain ⟨r, hr, hrp⟩ := ih h
      rcases List.mem_append.mp hr with hr | hr
      · exact ⟨q, List.mem_cons_self, .head hr hrp⟩
      · exact ⟨r, List.mem_cons_of_mem _ hr, hrp⟩
  | case3 unvisited q rest hq ih =>
    obtain ⟨r, hr, hrp⟩ := ih h
    exact ⟨r, List.mem_cons_of_mem _ hr, hrp⟩

theorem mem_reach_of_mem_stack {unvisited stack : List Place} {p : Place} (hp : p ∈ unvisited)
    (h : p ∈ stack) : p ∈ reach links unvisited stack := by
  fun_induction reach links unvisited stack with
  | case1 => simp at h
  | case2 unvisited q rest hq ih =>
    by_cases hpq : p = q
    · subst hpq
      exact List.mem_cons_self
    · have hrest : p ∈ rest := (List.mem_cons.mp h).resolve_left hpq
      exact List.mem_cons_of_mem _
        (ih ((List.mem_erase_of_ne hpq).mpr hp) (List.mem_append_right _ hrest))
  | case3 unvisited q rest hq ih =>
    rcases List.mem_cons.mp h with rfl | h
    · exact absurd hp hq
    · exact ih hp h

/-- The walk goes on from everything it visits. -/
theorem mem_reach_of_links {unvisited stack : List Place} {p c : Place}
    (hp : p ∈ reach links unvisited stack) (hc : c ∈ links p) (hopen : c ∈ unvisited) :
    c ∈ reach links unvisited stack := by
  fun_induction reach links unvisited stack with
  | case1 => simp at hp
  | case2 unvisited q rest hq ih =>
    by_cases hcq : c = q
    · subst hcq
      exact List.mem_cons_self
    · have hopen' : c ∈ unvisited.erase q := (List.mem_erase_of_ne hcq).mpr hopen
      refine List.mem_cons_of_mem _ ?_
      rcases List.mem_cons.mp hp with rfl | hp
      · exact mem_reach_of_mem_stack hopen' (List.mem_append_left _ hc)
      · exact ih hp hopen'
  | case3 unvisited q rest hq ih => exact ih hp hopen

/-- Everything linked to an entry of the stack stands before the entries under it. -/
def StackOrdered (links : Place → List Place) (stack : List Place) : Prop :=
  stack.Pairwise fun a b => ∀ d, Relation.ReflTransGen (fun a b => b ∈ links a) a d → d < b

/-- A walk down an ordered stack is in order when links lead to places behind, themselves ordered. -/
theorem reach_sorted {unvisited stack : List Place} (hlinks : ∀ p, StackOrdered links (links p))
    (hlt : ∀ {p c}, c ∈ links p → p < c) (h : StackOrdered links stack) :
    (reach links unvisited stack).Pairwise (· < ·) := by
  have hle : ∀ {r d}, Relation.ReflTransGen (fun a b => b ∈ links a) r d → r ≤ d := by
    intro r d hrd
    induction hrd with
    | refl => exact Nat.le_refl _
    | tail _ hc ih => exact Nat.le_of_lt (Nat.lt_of_le_of_lt ih (hlt hc))
  fun_induction reach links unvisited stack with
  | case1 => exact .nil
  | case2 unvisited q rest hq ih =>
    obtain ⟨hhead, hrest⟩ := List.pairwise_cons.mp h
    have hstack : StackOrdered links (links q ++ rest) :=
      List.pairwise_append.mpr
        ⟨hlinks q, hrest, fun a ha b hb d had => hhead b hb d (.head ha had)⟩
    refine List.pairwise_cons.mpr ⟨fun d hd => ?_, ih hstack⟩
    obtain ⟨r, hr, hrd⟩ := exists_root_of_mem_reach hd
    rcases List.mem_append.mp hr with hr | hr
    · exact Nat.lt_of_lt_of_le (hlt hr) (hle hrd)
    · exact Nat.lt_of_lt_of_le (hhead r hr q .refl) (hle hrd)
  | case3 unvisited q rest hq ih => exact ih (List.pairwise_cons.mp h).2

end Reach

namespace Graph

/-- A node is the other one or found below it, through members. -/
def Under (g : Graph) : Place → Place → Prop :=
  Relation.ReflTransGen fun o c => c ∈ (g.node o).members

theorem Sound.lt_of_mem_members {g : Graph} (hs : g.Sound) {o c : Place}
    (h : c ∈ (g.node o).members) : o < c ∧ c < g.size :=
  hs.owned (mem_owned_of_mem_members h)

theorem Under.le {g : Graph} (hs : g.Sound) {m p : Place} (h : g.Under m p) : m ≤ p := by
  induction h with
  | refl => exact Nat.le_refl _
  | tail _ hc ih => exact Nat.le_of_lt (Nat.lt_of_le_of_lt ih (hs.lt_of_mem_members hc).1)

/-- The walk over members visits the nodes below its root. -/
theorem mem_membersFrom {g : Graph} (hs : g.Sound) {m p : Place} (hm : m < g.size) :
    p ∈ g.membersFrom m ↔ g.Under m p := by
  have hplaces : ∀ {q}, q < g.size → q ∈ g.places := fun hq => List.mem_range.mpr hq
  constructor
  · intro h
    obtain ⟨r, hr, hrp⟩ := exists_root_of_mem_reach h
    obtain rfl := List.mem_singleton.mp hr
    exact hrp
  · intro h
    induction h with
    | refl => exact mem_reach_of_mem_stack (hplaces hm) List.mem_cons_self
    | tail _ hc ih => exact mem_reach_of_links ih hc (hplaces (hs.lt_of_mem_members hc).2)

/-- What is below a node before a cut stands before it too. -/
theorem Cut.lt_of_under {g : Graph} {c m p : Place} (hcut : g.Cut c) (h : g.Under m p) (hm : m < c) :
    p < c := by
  induction h with
  | refl => exact hm
  | tail _ hd ih => exact hcut _ ih _ (mem_owned_of_mem_members hd)

/-- What is below one member stands before the next one. -/
theorem Nested.lt_of_under {g : Graph} (hs : g.Sound) (hn : g.Nested) {o a c d : Place}
    (ha : a ∈ (g.node o).members) (hc : c ∈ (g.node o).members) (hac : a < c) (h : g.Under a d) :
    d < c := by
  induction h with
  | refl => exact hac
  | tail hd hmem ih =>
    have hoa := (hs.lt_of_mem_members ha).1
    exact hn.between (mem_owned_of_mem_members hc) (Nat.lt_of_lt_of_le hoa (Under.le hs hd)) ih
      (mem_owned_of_mem_members hmem)

theorem Nested.membersFrom_sorted {g : Graph} (hs : g.Sound) (hn : g.Nested) (m : Place) :
    (g.membersFrom m).Pairwise (· < ·) := by
  refine reach_sorted (fun o => ?_) (fun hc => (hs.lt_of_mem_members hc).1)
    (List.pairwise_singleton _ _)
  exact (hn.members o).imp_of_mem fun ha hc hac d had => hn.lt_of_under hs ha hc hac had

/-- The walks from the roots, one after the other. -/
def walk (g : Graph) (roots : List Place) : List Place :=
  roots.flatMap g.membersFrom

theorem Forest.mem_walk {g : Graph} (hs : g.Sound) {roots : List Place} (hr : g.Forest roots)
    {p : Place} : p ∈ g.walk roots ↔ ∃ m ∈ roots, g.Under m p := by
  rw [walk, List.mem_flatMap]
  refine exists_congr fun m => and_congr_right fun hm => ?_
  exact mem_membersFrom hs (hr.lt m hm)

/-- The walk is in document order, so it visits no node twice. -/
theorem Forest.walk_sorted {g : Graph} (hs : g.Sound) {roots : List Place} (hr : g.Forest roots) :
    (g.walk roots).Pairwise (· < ·) := by
  rw [walk, List.pairwise_flatMap]
  refine ⟨fun m _ => hr.nested.membersFrom_sorted hs m, ?_⟩
  refine hr.sorted.imp_of_mem fun {m m'} hm hm' hlt p hp q hq => ?_
  have hp' := (hr.cut m' hm').lt_of_under ((mem_membersFrom hs (hr.lt m hm)).mp hp) hlt
  exact Nat.lt_of_lt_of_le hp' (Under.le hs ((mem_membersFrom hs (hr.lt m' hm')).mp hq))

end Graph

end SymbolDocs
