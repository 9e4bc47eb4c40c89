import Mathlib
import SymbolDocs.Proofs.Walk
import SymbolDocs.Proofs.Work
import SymbolDocs.Members.Group

/-!
# What the groups of a node hold

The groups of a node put its members in order by kind, but what they hold between them is simple: the
entries of the indexes are those of the listed members, and the cards are one for each member that is
shown on a card. Below a module every listed member knows the owner it is listed with, and no member
is shown twice.

* `Graph.listed` and `Graph.carded` are the members with an entry and those with a card;
* `MemberPrinter.Shows` says that groups hold entries and cards of given members;
* `MemberPrinter.groups_shows` is the result for the groups of a node;
* `Graph.Forest.parent_of_listed` and `Graph.Nested.nodup_carded` are about the members themselves.
-/

namespace SymbolDocs

/-- In some session the work gives the answer. -/
def Work.Gives {α : Type} (w : Work α) (a : α) : Prop :=
  ∃ s s', w.run.run s = (.ok a, s')

/-- Is a member that is grouped shown on a card of its owner's page? -/
def Node.onCard (n : Node) : Bool :=
  !(n.hasOwnPage || n.kind == .reExport)

namespace Graph

/-- The members of an enumeration that are shown. -/
def enumMembers (g : Graph) (owner : Place) : List Place :=
  (g.node owner).members.filter fun p => !(g.node p).has .internal

/-- The members in the indexes of a node's groups, each after its owner; of members of one kind and
one name only the first has an entry. -/
def listed (g : Graph) (owner : Place) : List (Place × Place) :=
  if (g.node owner).kind == .enumDecl then
    (g.sortMembers (g.enumMembers owner)).map fun p => (owner, p)
  else g.shownMembers owner

/-- The members with a card in the groups of a node. -/
def carded (g : Graph) (owner : Place) : List Place :=
  if (g.node owner).kind == .enumDecl then g.sortByValue (g.enumMembers owner)
  else ((g.shownMembers owner).map Prod.snd).filter fun p => (g.node p).onCard

end Graph

/-! ## Groups -/

namespace Group

theorem kind_ofKind (kind : Kind) (groups : List Group) : (ofKind kind groups).kind = kind := by
  rw [ofKind]
  cases h : groups.find? fun group => group.kind == kind with
  | none => rfl
  | some group => simpa using List.find?_some h

theorem mem_index_ofKind {kind : Kind} {groups : List Group} {e : String}
    (h : e ∈ (ofKind kind groups).index) : e ∈ groups.flatMap index := by
  rw [ofKind] at h
  cases hfind : groups.find? fun group => group.kind == kind with
  | none =>
    rw [hfind] at h
    cases h
  | some group =>
    rw [hfind] at h
    exact List.mem_flatMap.mpr ⟨group, List.mem_of_find?_eq_some hfind, h⟩

theorem mem_index_put {group : Group} {groups : List Group} {e : String}
    (h : e ∈ (group.put groups).flatMap index) : e ∈ group.index ∨ e ∈ groups.flatMap index := by
  induction groups with
  | nil => exact .inl (by simpa [put] using h)
  | cons first rest ih =>
    rw [put] at h
    split at h
    · rw [List.flatMap_cons] at h ⊢
      exact (List.mem_append.mp h).imp_right fun h => List.mem_append_right _ h
    · rw [List.flatMap_cons] at h ⊢
      rcases List.mem_append.mp h with h | h
      · exact .inr (List.mem_append_left _ h)
      · exact (ih h).imp_right fun h => List.mem_append_right _ h

/-- Setting a group that has got more cards adds these cards. -/
theorem body_put {group : Group} {groups : List Group} {cards : List String}
    (h : group.body = (ofKind group.kind groups).body ++ cards) :
    ((group.put groups).flatMap body).Perm (groups.flatMap body ++ cards) := by
  induction groups with
  | nil =>
    have hbody : group.body = cards := by simpa [ofKind] using h
    simp [put, hbody]
  | cons first rest ih =>
    rw [put]
    split
    · rename_i hkind
      have hfirst : ofKind group.kind (first :: rest) = first := by simp [ofKind, hkind]
      rw [hfirst] at h
      rw [List.flatMap_cons, List.flatMap_cons, h, List.append_assoc, List.append_assoc]
      exact List.perm_append_comm.append_left _
    · rename_i hkind
      have hrest : ofKind group.kind (first :: rest) = ofKind group.kind rest := by
        simp [ofKind, hkind]
      rw [hrest] at h
      rw [List.flatMap_cons, List.flatMap_cons, List.append_assoc]
      exact (ih h).append_left _

end Group

namespace MemberPrinter

/-- The groups hold entries of the listed members, and the cards of the carded ones. -/
structure Shows (mp : MemberPrinter) (listed : List (Place × Place)) (carded : List Place)
    (groups : List Group) : Prop where
  index : ∀ e ∈ groups.flatMap Group.index, ∃ m ∈ listed, (mp.entry m.2 (some m.1)).Gives e
  body : ∃ cards, List.Forall₂ (fun c card => (mp.card c).Gives card) carded cards ∧
    (groups.flatMap Group.body).Perm cards

variable {mp : MemberPrinter} {g : Graph} {listed : List (Place × Place)} {carded : List Place}
  {groups groups' : List Group} {s s' : Session}

theorem shows_nil (mp : MemberPrinter) : mp.Shows [] [] [] :=
  ⟨by simp, [], .nil, .nil⟩

theorem Shows.perm (h : mp.Shows listed carded groups) (hperm : groups'.Perm groups) :
    mp.Shows listed carded groups' := by
  obtain ⟨cards, hcards, hbody⟩ := h.body
  refine ⟨fun e he => h.index e ?_, cards, hcards, (hperm.flatMap_right _).trans hbody⟩
  exact (hperm.flatMap_right _).mem_iff.mp he

/-- The group of a member with an entry for it, unless its name has one. -/
def listIn (mp : MemberPrinter) (n : Node) (owner p : Place) (group : Group) : Work Group :=
  if group.names.contains n.name then pure group
  else do
    let entry ← mp.entry p (some owner)
    pure { group with index := group.index ++ [entry], names := group.names ++ [n.name] }

/-- The group of a member with a card for it, if it is shown on one. -/
def cardIn (mp : MemberPrinter) (n : Node) (p : Place) (group : Group) : Work Group :=
  if n.onCard then do
    let card ← mp.card p
    pure { group with body := group.body ++ [card] }
  else pure group

theorem addMember_eq (mp : MemberPrinter) (g : Graph) (groups : List Group) (owner p : Place) :
    mp.addMember g false groups owner p = (do
      let group ← mp.listIn (g.node p) owner p (Group.ofKind (g.node p).kind.grouped groups)
      let group ← mp.cardIn (g.node p) p group
      return group.put groups) := by
  unfold addMember listIn cardIn Node.onCard
  cases hlisted : (Group.ofKind (g.node p).kind.grouped groups).names.contains (g.node p).name <;>
    cases hcard : (g.node p).hasOwnPage || (g.node p).kind == .reExport <;>
    simp only [hlisted, hcard, Bool.false_or, Bool.not_true, Bool.not_false, Bool.false_eq_true,
      if_true, if_false, pure_bind, bind_assoc]

/-- An entry, if any, is that of the member. -/
theorem listIn_gives {n : Node} {owner p : Place} {group group' : Group}
    (hrun : (mp.listIn n owner p group).run.run s = (.ok group', s')) :
    group'.kind = group.kind ∧ group'.body = group.body ∧
      ∀ e ∈ group'.index, e ∈ group.index ∨ (mp.entry p (some owner)).Gives e := by
  unfold listIn at hrun
  split at hrun
  · cases hrun
    exact ⟨rfl, rfl, fun e he => .inl he⟩
  · obtain ⟨entry, s₁, hgives, hrun⟩ := Work.bind_ok hrun
    cases hrun
    refine ⟨rfl, rfl, fun e he => ?_⟩
    rcases List.mem_append.mp he with he | he
    · exact .inl he
    · rw [List.mem_singleton.mp he]
      exact .inr ⟨_, _, hgives⟩

/-- A card, if any, is that of the member. -/
theorem cardIn_gives {p : Place} {group group' : Group}
    (hrun : (mp.cardIn (g.node p) p group).run.run s = (.ok group', s')) :
    group'.kind = group.kind ∧ group'.index = group.index ∧
      ∃ new, group'.body = group.body ++ new ∧
        List.Forall₂ (fun c card => (mp.card c).Gives card)
          ([p].filter fun p => (g.node p).onCard) new := by
  unfold cardIn at hrun
  split at hrun
  · rename_i hon
    obtain ⟨card, s₁, hgives, hrun⟩ := Work.bind_ok hrun
    cases hrun
    exact ⟨rfl, rfl, [card], rfl, by simpa [hon] using ⟨_, _, hgives⟩⟩
  · rename_i hoff
    cases hrun
    exact ⟨rfl, rfl, [], by simp, by simp [hoff]⟩

/-- One more member. -/
theorem addMember_shows {owner p : Place}
    (hrun : (mp.addMember g false groups owner p).run.run s = (.ok groups', s'))
    (h : mp.Shows listed carded groups) :
    mp.Shows (listed ++ [(owner, p)]) (carded ++ [p].filter fun p => (g.node p).onCard) groups' := by
  obtain ⟨cards, hcards, hbody⟩ := h.body
  have hold : ∀ e ∈ groups.flatMap Group.index,
      ∃ m ∈ listed ++ [(owner, p)], (mp.entry m.2 (some m.1)).Gives e := by
    intro e he
    obtain ⟨m, hm, hgives⟩ := h.index e he
    exact ⟨m, List.mem_append_left _ hm, hgives⟩
  rw [addMember_eq] at hrun
  obtain ⟨group₁, s₁, hentry, hrun⟩ := Work.bind_ok hrun
  obtain ⟨group₂, s₂, hcard, hrun⟩ := Work.bind_ok hrun
  cases hrun
  obtain ⟨hkind₁, hbody₁, hindex₁⟩ := listIn_gives hentry
  obtain ⟨hkind₂, hindex₂, new, hbody₂, hnew⟩ := cardIn_gives hcard
  refine ⟨fun e he => ?_, cards ++ new, List.rel_append hcards hnew, ?_⟩
  · rcases Group.mem_index_put he with he | he
    · rcases hindex₁ e (hindex₂ ▸ he) with he | hgives
      · exact hold e (Group.mem_index_ofKind he)
      · exact ⟨(owner, p), by simp, hgives⟩
    · exact hold e he
  · refine (Group.body_put ?_).trans (hbody.append_right new)
    rw [hbody₂, hbody₁, hkind₂, hkind₁, Group.kind_ofKind]

theorem addMembers_shows (members : List (Place × Place))
    (hrun : (mp.addMembers g false groups members).run.run s = (.ok groups', s'))
    (h : mp.Shows listed carded groups) :
    mp.Shows (listed ++ members)
      (carded ++ (members.map Prod.snd).filter fun p => (g.node p).onCard) groups' := by
  induction members generalizing groups listed carded s with
  | nil =>
    cases hrun
    simpa using h
  | cons m rest ih =>
    obtain ⟨owner, p⟩ := m
    rw [addMembers] at hrun
    obtain ⟨groups₁, s₁, hfirst, hrun⟩ := Work.bind_ok hrun
    have hrest := ih hrun (addMember_shows hfirst h)
    rw [List.append_assoc, List.append_assoc, ← List.filter_append] at hrest
    exact hrest

theorem printEach_gives {print : Place → Work String} (ps : List Place) {out : List String}
    (hrun : (printEach print ps).run.run s = (.ok out, s')) :
    List.Forall₂ (fun p m => (print p).Gives m) ps out := by
  induction ps generalizing out s with
  | nil =>
    cases hrun
    exact .nil
  | cons p rest ih =>
    rw [printEach] at hrun
    obtain ⟨m, s₁, hfirst, hrun⟩ := Work.bind_ok hrun
    obtain ⟨ms, s₂, hrest, hrun⟩ := Work.bind_ok hrun
    cases hrun
    exact .cons ⟨_, _, hfirst⟩ (ih hrest)

theorem enumGroups_shows {owner : Place} (hkind : ((g.node owner).kind == .enumDecl) = true)
    (hrun : (mp.enumGroups g false owner).run.run s = (.ok groups, s')) :
    mp.Shows (g.listed owner) (g.carded owner) groups := by
  rw [Graph.listed, Graph.carded, if_pos hkind, if_pos hkind]
  rw [enumGroups] at hrun
  dsimp only at hrun
  split at hrun
  · rename_i hempty
    cases hrun
    have hnone : g.enumMembers owner = [] := List.isEmpty_iff.mp hempty
    simpa [hnone, Graph.sortMembers, Graph.sortByValue] using mp.shows_nil
  · obtain ⟨index, s₁, hindex, hrun⟩ := Work.bind_ok hrun
    obtain ⟨body, s₂, hbody, hrun⟩ := Work.bind_ok hrun
    cases hrun
    refine ⟨fun e he => ?_, body, printEach_gives _ hbody, by simp⟩
    have he' : e ∈ index := by simpa using he
    obtain ⟨p, hp, hgives⟩ := exists_of_mem_forall₂ (printEach_gives _ hindex) he'
    exact ⟨(owner, p), List.mem_map_of_mem hp, hgives⟩

/-- **Groups**: what the groups of a node hold. -/
theorem groups_shows {owner : Place}
    (hrun : (mp.groups g owner).run.run s = (.ok groups, s')) :
    mp.Shows (g.listed owner) (g.carded owner) groups := by
  rw [MemberPrinter.groups] at hrun
  split at hrun
  · rename_i hempty
    cases hrun
    have hmembers : (g.node owner).members = [] := by simpa using hempty
    have hlisted : g.listed owner = [] := by
      simp [Graph.listed, Graph.enumMembers, Graph.shownMembers, Graph.sortMembers, hmembers]
    have hcarded : g.carded owner = [] := by
      simp [Graph.carded, Graph.enumMembers, Graph.shownMembers, Graph.sortMembers,
        Graph.sortByValue, hmembers]
    rw [hlisted, hcarded]
    exact mp.shows_nil
  · split at hrun
    · rename_i hkind
      exact enumGroups_shows hkind hrun
    · rename_i hkind
      obtain ⟨unsorted, s₁, hadd, hrun⟩ := Work.bind_ok hrun
      cases hrun
      rw [Graph.listed, Graph.carded, if_neg hkind, if_neg hkind]
      exact (addMembers_shows _ hadd mp.shows_nil).perm (List.mergeSort_perm _ _)

end MemberPrinter

/-! ## Members -/

namespace Graph

/-- Below a root every node is known to what it owns. -/
theorem Forest.ownerKnown {g : Graph} {roots : List Place} (hr : g.Forest roots) {m p : Place}
    (hm : m ∈ roots) (h : g.Under m p) : g.OwnerKnown p := by
  induction h with
  | refl => exact hr.known m hm
  | tail _ hc ih =>
    refine hr.nested.known ?_
    rw [ih _ (mem_owned_of_mem_members hc)]
    simp

theorem mem_enumMembers {g : Graph} {owner p : Place} (h : p ∈ g.enumMembers owner) :
    p ∈ (g.node owner).members :=
  List.mem_of_mem_filter h

/-- A member stands for its elements, or for itself. -/
theorem mem_expandMember {g : Graph} {owner c o p : Place} (h : (o, p) ∈ g.expandMember owner c) :
    o = c ∧ p ∈ (g.node c).members ∨ o = owner ∧ p = c := by
  rw [expandMember] at h
  split at h
  · obtain ⟨e, he, heq⟩ := List.mem_map.mp h
    cases heq
    exact .inl ⟨rfl, he⟩
  · cases List.mem_singleton.mp h
    exact .inr ⟨rfl, rfl⟩

/-- A member that is shown is a member of the node, or an element of one. -/
theorem mem_of_mem_shownMembers {g : Graph} {owner o p : Place} (h : (o, p) ∈ g.shownMembers owner) :
    p ∈ (g.node o).members ∧ (o = owner ∨ o ∈ (g.node owner).members) := by
  obtain ⟨c, hc, hp⟩ := List.mem_flatMap.mp h
  have hmember : c ∈ (g.node owner).members :=
    (List.mergeSort_perm _ _).mem_iff.mp (List.mem_of_mem_filter hc)
  rcases mem_expandMember hp with ⟨rfl, he⟩ | ⟨rfl, rfl⟩
  · exact ⟨he, .inr hmember⟩
  · exact ⟨hmember, .inl rfl⟩

theorem mem_of_mem_listed {g : Graph} {owner o p : Place} (h : (o, p) ∈ g.listed owner) :
    p ∈ (g.node o).members ∧ (o = owner ∨ o ∈ (g.node owner).members) := by
  rw [listed] at h
  split at h
  · obtain ⟨c, hc, heq⟩ := List.mem_map.mp h
    cases heq
    exact ⟨mem_enumMembers ((List.mergeSort_perm _ _).mem_iff.mp hc), .inl rfl⟩
  · exact mem_of_mem_shownMembers h

/-- A listed member knows the owner it is listed with. -/
theorem Forest.parent_of_listed {g : Graph} {roots : List Place} (hr : g.Forest roots) {m owner : Place}
    (hm : m ∈ roots) (howner : g.Under m owner) {o p : Place} (h : (o, p) ∈ g.listed owner) :
    (g.node p).parent = some o := by
  obtain ⟨hp, ho⟩ := mem_of_mem_listed h
  have hunder : g.Under m o := by
    rcases ho with rfl | ho
    · exact howner
    · exact howner.tail ho
  exact hr.ownerKnown hm hunder p (mem_owned_of_mem_members hp)

/-- A listed member that can be on a card is on one. -/
theorem mem_carded_of_listed {g : Graph} {owner o p : Place} (h : (o, p) ∈ g.listed owner)
    (hcard : (g.node p).onCard = true) : p ∈ g.carded owner := by
  rw [listed] at h
  rw [carded]
  split at h
  · rename_i hkind
    obtain ⟨c, hc, heq⟩ := List.mem_map.mp h
    cases heq
    rw [if_pos hkind]
    exact (List.mergeSort_perm _ _).mem_iff.mpr ((List.mergeSort_perm _ _).mem_iff.mp hc)
  · rename_i hkind
    rw [if_neg hkind]
    exact List.mem_filter.mpr ⟨List.mem_map.mpr ⟨_, h, rfl⟩, hcard⟩

theorem Nested.nodup_expandMember {g : Graph} (hn : g.Nested) (owner c : Place) :
    ((g.expandMember owner c).map Prod.snd).Nodup := by
  rw [expandMember]
  split
  · have hnodup : (g.node c).members.Nodup := (hn.members c).imp Nat.ne_of_lt
    simpa [Function.comp_def] using hnodup
  · exact List.nodup_singleton _

/-- Two members of a node stand for different nodes: a node has one owner, and no node owns itself. -/
theorem Sound.disjoint_expandMember {g : Graph} (hs : g.Sound) {owner a b : Place}
    (ha : a ∈ (g.node owner).members) (hb : b ∈ (g.node owner).members) (hab : a ≠ b) :
    List.Disjoint ((g.expandMember owner a).map Prod.snd) ((g.expandMember owner b).map Prod.snd) := by
  have hnot : ∀ {c d}, c ∈ (g.node owner).members → d ∈ (g.node owner).members →
      d ∉ (g.node c).members := by
    intro c d hc hd hmem
    have heq := hs.owner (mem_owned_of_mem_members hmem) (mem_owned_of_mem_members hd)
    exact Nat.ne_of_gt (hs.lt_of_mem_members hc).1 heq
  intro x hxa hxb
  obtain ⟨⟨o, _⟩, hoa, rfl⟩ := List.mem_map.mp hxa
  obtain ⟨⟨o', _⟩, hob, rfl⟩ := List.mem_map.mp hxb
  rcases mem_expandMember hoa with ⟨-, hx⟩ | ⟨-, rfl⟩ <;>
    rcases mem_expandMember hob with ⟨-, hx'⟩ | ⟨-, rfl⟩
  · exact hab (hs.owner (mem_owned_of_mem_members hx) (mem_owned_of_mem_members hx'))
  · exact hnot ha hb hx
  · exact hnot hb ha hx'
  · exact hab rfl

/-- Neither a member nor an element is shown twice. -/
theorem Nested.nodup_shownMembers {g : Graph} (hs : g.Sound) (hn : g.Nested) (owner : Place) :
    ((g.shownMembers owner).map Prod.snd).Nodup := by
  have hsorted : (g.sortMembers (g.node owner).members).Nodup :=
    (List.mergeSort_perm _ _).nodup_iff.mpr ((hn.members owner).imp Nat.ne_of_lt)
  rw [shownMembers, List.map_flatMap, List.nodup_flatMap]
  refine ⟨fun c _ => hn.nodup_expandMember owner c, ?_⟩
  refine (hsorted.filter _).imp_of_mem fun {a b} ha hb hab => ?_
  exact hs.disjoint_expandMember ((List.mergeSort_perm _ _).mem_iff.mp (List.mem_of_mem_filter ha))
    ((List.mergeSort_perm _ _).mem_iff.mp (List.mem_of_mem_filter hb)) hab

theorem Nested.nodup_carded {g : Graph} (hs : g.Sound) (hn : g.Nested) (owner : Place) :
    (g.carded owner).Nodup := by
  rw [carded]
  split
  · exact (List.mergeSort_perm _ _).nodup_iff.mpr (((hn.members owner).imp Nat.ne_of_lt).filter _)
  · exact (hn.nodup_shownMembers hs owner).filter _

end Graph

end SymbolDocs
