import Mathlib
import SymbolDocs.Proofs.Loading

/-!
# The order of a loaded graph

The builder gives places in the order in which nodes stand in the document, so the nodes below a node
stand together behind it, and those below one member stand before the next member. Below a module
every node also knows the node that owns it.

* `Graph.Nested` says how owned nodes stand in the table;
* `Graph.Forest` says the same of the modules, from which the walks over members start;
* `Builder.buildNode_nested` and its companions follow the walk through the document;
* `Graph.forest_of_load` is the result for a whole document.
-/

namespace SymbolDocs

namespace Graph

/-- What a node owns knows that it does. -/
def OwnerKnown (g : Graph) (o : Place) : Prop :=
  ∀ c ∈ (g.node o).owned, (g.node c).parent = some o

/-- Nothing before the place owns the place or anything behind it. -/
def Cut (g : Graph) (c : Place) : Prop :=
  ∀ q < c, ∀ d ∈ (g.node q).owned, d < c

/-- Owned nodes stand in document order, and below a node that knows its owner all do. -/
structure Nested (g : Graph) : Prop where
  members : ∀ o, (g.node o).members.Pairwise (· < ·)
  between : ∀ {o c q d}, c ∈ (g.node o).owned → o < q → q < c → d ∈ (g.node q).owned → d < c
  known : ∀ {o}, (g.node o).parent ≠ none → g.OwnerKnown o

/-- The listed nodes are the roots of trees that stand one behind the other. -/
structure Forest (g : Graph) (roots : List Place) : Prop where
  nested : g.Nested
  sorted : roots.Pairwise (· < ·)
  lt : ∀ m ∈ roots, m < g.size
  cut : ∀ m ∈ roots, g.Cut m
  known : ∀ m ∈ roots, g.OwnerKnown m

theorem Cut.of_kept {g g' : Graph} {c : Place} (h : g.Cut c)
    (hkept : ∀ q < c, g'.node q = g.node q) : g'.Cut c := by
  intro q hq d hd
  rw [hkept q hq] at hd
  exact h q hq d hd

/-- Members are owned. -/
theorem mem_owned_of_mem_members {n : Node} {c : Place} (h : c ∈ n.members) : c ∈ n.owned := by
  simp only [Node.owned, List.mem_append]
  exact .inl (.inl h)

end Graph

namespace Builder

theorem Sound.cut {b : Builder} (hb : b.Sound) : b.graph.Cut b.graph.size :=
  fun _ _ _ hd => (hb.owned hd).2

theorem OwnerKnown.grows {b b' : Builder} (hb : b.Sound) (hgrows : Grows b.graph.size b b') {o : Place}
    (ho : o < b.graph.size) (h : b.graph.OwnerKnown o) : b'.graph.OwnerKnown o := by
  intro c hc
  rw [hgrows.kept o ho] at hc
  rw [hgrows.kept c (hb.owned hc).2]
  exact h c hc

/-! ## Steps that leave owners alone -/

/-- The nodes own what they owned, and know the owners they knew. -/
structure SameTree (b b' : Builder) : Prop where
  size : b'.graph.size = b.graph.size
  owned : ∀ q, (b'.graph.node q).owned = (b.graph.node q).owned
  members : ∀ q, (b'.graph.node q).members = (b.graph.node q).members
  parent : ∀ q, (b'.graph.node q).parent = (b.graph.node q).parent

theorem SameTree.refl (b : Builder) : SameTree b b :=
  ⟨rfl, fun _ => rfl, fun _ => rfl, fun _ => rfl⟩

theorem SameTree.trans {b b' b'' : Builder} (h : SameTree b b') (h' : SameTree b' b'') :
    SameTree b b'' :=
  ⟨h'.size.trans h.size, fun q => (h'.owned q).trans (h.owned q),
    fun q => (h'.members q).trans (h.members q), fun q => (h'.parent q).trans (h.parent q)⟩

theorem SameTree.known {b b' : Builder} (h : SameTree b b') {o : Place}
    (ho : b.graph.OwnerKnown o) : b'.graph.OwnerKnown o := by
  intro c hc
  rw [h.owned] at hc
  rw [h.parent]
  exact ho c hc

theorem SameTree.nested {b b' : Builder} (h : SameTree b b') (hn : b.graph.Nested) :
    b'.graph.Nested where
  members o := by
    rw [h.members]
    exact hn.members o
  between hc hoq hqc hd := by
    rw [h.owned] at hc hd
    exact hn.between hc hoq hqc hd
  known ho := by
    rw [h.parent] at ho
    exact h.known (hn.known ho)

theorem SameTree.forest {b b' : Builder} (h : SameTree b b') {ms : List Place}
    (hr : b.graph.Forest ms) : b'.graph.Forest ms where
  nested := h.nested hr.nested
  sorted := hr.sorted
  lt m hm := by
    rw [h.size]
    exact hr.lt m hm
  cut m hm q hq d hd := by
    rw [h.owned] at hd
    exact hr.cut m hm q hq d hd
  known m hm := h.known (hr.known m hm)

/-- A changed table holds nodes as they were and the changed one. -/
theorem node_changed_or (b : Builder) (p : Place) (f : Node → Node) (q : Place) :
    (b.changed p f).graph.node q = b.graph.node q ∨
      (b.changed p f).graph.node q = f (b.graph.node q) := by
  simp only [Graph.node, graph, changed, Array.getD_eq_getD_getElem?, Array.getElem?_modify]
  by_cases h : p = q
  · cases hq : b.nodes[q]? with
    | none => simp [h]
    | some n => simp [h]
  · simp [h]

theorem sameTree_changed (b : Builder) (p : Place) (f : Node → Node)
    (howned : ∀ n, (f n).owned = n.owned) (hmembers : ∀ n, (f n).members = n.members)
    (hparent : ∀ n, (f n).parent = n.parent) : SameTree b (b.changed p f) where
  size := b.size_changed p f
  owned q := by
    rcases b.node_changed_or p f q with h | h
    · rw [h]
    · rw [h, howned]
  members q := by
    rcases b.node_changed_or p f q with h | h
    · rw [h]
    · rw [h, hmembers]
  parent q := by
    rcases b.node_changed_or p f q with h | h
    · rw [h]
    · rw [h, hparent]

theorem sameTree_filled (b : Builder) (p : Place) (slot : LinkSlot) (t : Place) :
    SameTree b (b.changed p fun n => n.fill slot t) :=
  b.sameTree_changed p _ (fun n => owned_fill n slot t) (fun n => by cases slot <;> rfl)
    fun n => by cases slot <;> rfl

theorem register_sameTree {b b' : Builder} {p : Place} {id : Option Scalar}
    (h : (register p id).run b = .ok ((), b')) : SameTree b b' := by
  cases id with
  | none =>
    cases h
    exact .refl b
  | some id =>
    rw [register] at h
    obtain ⟨b₁, _, hget, h⟩ := bind_ok h
    cases hget
    dsimp only at h
    split at h
    · obtain ⟨_, _, hthrow, -⟩ := bind_ok h
      cases hthrow
    · cases h
      have hindex : SameTree b { b with index := b.index ++ [(id, p)] } :=
        ⟨rfl, fun _ => rfl, fun _ => rfl, fun _ => rfl⟩
      exact hindex.trans (sameTree_changed _ p (fun n => { n with id := some id }) (fun _ => rfl)
        (fun _ => rfl) fun _ => rfl)

/-! ## Steps of the walk -/

/-- The attributes of a node say who owns it. -/
theorem attributes_parent {raw : Value} {owner : Option Place} {n : Node}
    (h : Node.attributes raw owner = .ok n) : n.parent = owner := by
  simp only [Node.attributes, bind, Except.bind, pure, Except.pure] at h
  repeat' split at h
  all_goals cases h
  all_goals rfl

theorem Nested.added {b : Builder} (hb : b.Sound) (hn : b.graph.Nested) {n : Node}
    (howned : n.owned = []) : (b.added n).graph.Nested where
  members o := by
    rw [node_added]
    split
    · have hnone : n.members = [] :=
        List.eq_nil_iff_forall_not_mem.mpr fun c hc => by
          simpa [howned] using Graph.mem_owned_of_mem_members hc
      rw [hnone]
      exact .nil
    · exact hn.members o
  between {o c q d} hc hoq hqc hd := by
    rw [node_added] at hc hd
    split at hc
    · simp [howned] at hc
    split at hd
    · simp [howned] at hd
    · exact hn.between hc hoq hqc hd
  known {o} ho c hc := by
    rw [node_added] at ho hc
    split at hc
    · simp [howned] at hc
    · rename_i hne
      rw [if_neg hne] at ho
      rw [node_added, if_neg (Nat.ne_of_lt (hb.owned hc).2)]
      exact hn.known ho c hc

theorem members_own (n : Node) (list : OwnedList) (ps : List Place) :
    (n.own list ps).members = n.members ∨ (n.own list ps).members = ps := by
  cases list
  · exact .inr rfl
  · exact .inl rfl
  · exact .inl rfl

theorem parent_own (b : Builder) (p : Place) (list : OwnedList) (ps : List Place) (q : Place) :
    ((b.changed p fun n => n.own list ps).graph.node q).parent = (b.graph.node q).parent := by
  rcases b.node_changed_or p (fun n => n.own list ps) q with h | h
  · rw [h]
  · rw [h]
    cases list <;> rfl

/-- A list of owned nodes is set, each of them with everything before it closed. -/
theorem Nested.own {b : Builder} (hn : b.graph.Nested) {p : Place} (hp : p < b.graph.size)
    (hcut : b.graph.Cut p) {ps : List Place} (hsorted : ps.Pairwise (· < ·))
    (hcuts : ∀ c ∈ ps, b.graph.Cut c)
    (hknown : (b.graph.node p).parent ≠ none → ∀ c ∈ ps, (b.graph.node c).parent = some p)
    (list : OwnedList) : (b.changed p fun n => n.own list ps).graph.Nested where
  members o := by
    rw [b.node_changed _ hp]
    split
    · rcases members_own (b.graph.node p) list ps with h | h
      · rw [h]
        exact hn.members p
      · rw [h]
        exact hsorted
    · exact hn.members o
  between {o c q d} hc hoq hqc hd := by
    rw [b.node_changed _ hp] at hc hd
    by_cases hqp : q = p
    · -- the node itself lies between an owner before it and a node behind it: there is no such owner
      subst hqp
      rw [if_neg (Nat.ne_of_lt hoq)] at hc
      exact absurd (hcut o hoq c hc) (Nat.lt_asymm hqc)
    · rw [if_neg hqp] at hd
      split at hc
      · rename_i hop
        subst hop
        rcases mem_owned_own hc with hold | hnew
        · exact hn.between hold hoq hqc hd
        · exact hcuts c hnew q hqc d hd
      · exact hn.between hc hoq hqc hd
  known {o} ho c hc := by
    rw [parent_own] at ho ⊢
    rw [b.node_changed _ hp] at hc
    split at hc
    · rename_i hop
      subst hop
      rcases mem_owned_own hc with hold | hnew
      · exact hn.known ho c hold
      · exact hknown ho c hnew
    · exact hn.known ho c hc

/-- The builder goes on at a node, which keeps its owner; `inTree` says that what it owns knows it. -/
structure Tended (inTree : Bool) (p : Place) (b b' : Builder) : Prop where
  nested : b'.graph.Nested
  parent : (b'.graph.node p).parent = (b.graph.node p).parent
  known : inTree = true → b.graph.OwnerKnown p → b'.graph.OwnerKnown p

theorem Tended.trans {inTree : Bool} {p : Place} {b b' b'' : Builder} (h : Tended inTree p b b')
    (h' : Tended inTree p b' b'') : Tended inTree p b b'' :=
  ⟨h'.nested, h'.parent.trans h.parent, fun hin hk => h'.known hin (h.known hin hk)⟩

theorem SameTree.tended {b b' : Builder} (h : SameTree b b') (hn : b.graph.Nested) (inTree : Bool)
    (p : Place) : Tended inTree p b b' :=
  ⟨h.nested hn, h.parent p, fun _ hk => h.known hk⟩

/-- A node built for an owner: what stands before it is closed, and it knows its owner. -/
structure Settled (inTree : Bool) (owner : Option Place) (b : Builder) (c : Place) : Prop where
  cut : b.graph.Cut c
  parent : (b.graph.node c).parent = owner
  known : inTree = true → b.graph.OwnerKnown c

theorem Settled.grows {inTree : Bool} {owner : Option Place} {b b' : Builder} {c : Place}
    (h : b.Settled inTree owner c) (hb : b.Sound) (hgrows : Grows b.graph.size b b')
    (hc : c < b.graph.size) : b'.Settled inTree owner c where
  cut := h.cut.of_kept fun q hq => hgrows.kept q (Nat.lt_trans hq hc)
  parent := by
    rw [hgrows.kept c hc]
    exact h.parent
  known hin := OwnerKnown.grows hb hgrows hc (h.known hin)

/-- A list of owned nodes is set after they are built. -/
theorem BuiltAll.tended {inTree : Bool} {b b' : Builder} {p : Place} {ps : List Place}
    (h : b.BuiltAll ps b') (hb : b.Sound) (hp : p < b.graph.size) (hcut : b.graph.Cut p)
    (hin : (b.graph.node p).parent ≠ none → inTree = true) (hn : b'.graph.Nested)
    (hsorted : ps.Pairwise (· < ·))
    (hsettled : ∀ c ∈ ps, b'.Settled inTree (if inTree then some p else none) c) (list : OwnedList) :
    Tended inTree p b (b'.changed p fun n => n.own list ps) := by
  have hp' := Nat.lt_of_lt_of_le hp h.grows.size
  have hcut' : b'.graph.Cut p := hcut.of_kept fun q hq => h.grows.kept q (Nat.lt_trans hq hp)
  have hparent : inTree = true → ∀ c ∈ ps, (b'.graph.node c).parent = some p := by
    intro hin c hc
    rw [(hsettled c hc).parent, if_pos hin]
  refine ⟨Nested.own hn hp' hcut' hsorted (fun c hc => (hsettled c hc).cut) (fun hne => ?_) list, ?_, ?_⟩
  · rw [h.grows.kept p hp] at hne
    exact hparent (hin hne)
  · rw [parent_own, h.grows.kept p hp]
  · intro hin hk c hc
    rw [b'.node_changed _ hp', if_pos rfl] at hc
    rw [parent_own]
    rcases mem_owned_own hc with hold | hnew
    · exact OwnerKnown.grows hb h.grows hp hk c hold
    · exact hparent hin c hnew

mutual

theorem buildNode_nested (raw : Value) {inTree : Bool} {owner : Option Place} {b b' : Builder}
    {p : Place} (h : (buildNode inTree owner raw).run b = .ok (p, b')) (hb : b.Sound)
    (hn : b.graph.Nested) (hin : owner ≠ none → inTree = true) :
    b'.graph.Nested ∧ b'.Settled inTree owner p := by
  match raw with
  | .scalar s =>
    rw [buildNode] at h
    · cases h
    · simp
  | .list items =>
    rw [buildNode] at h
    · cases h
    · simp
  | .map fields =>
    have hbuilt := buildNode_sound _ h hb
    obtain ⟨rfl, n, id, b₂, b₃, b₄, b₅, b₆, b₇, hattributes, hregister, hchildren, hparameters,
      htypeParameters, htype, hresolved, hgraph⟩ := buildNode_ok h
    obtain ⟨hnone, howned⟩ := attributes_ok hattributes
    have hnew : (b.added n).graph.node b.graph.size = n := by rw [node_added, if_pos rfl]
    have a₁ : At b.graph.size b (b.added n) :=
      ⟨hb.added hnone howned, b.grows_added n, by rw [size_added]; exact Nat.lt_succ_self _⟩
    have hnone' : ((b.added n).graph.node b.graph.size).id = none := by rw [hnew, hnone]
    have a₂ := a₁.trans (register_sound hregister a₁.sound a₁.lt hnone')
    have a₃ := a₂.trans (buildOwned_sound fields hchildren a₂.sound a₂.lt)
    have a₄ := a₃.trans (buildOwned_sound fields hparameters a₃.sound a₃.lt)
    have a₅ := a₄.trans (buildOwned_sound fields htypeParameters a₄.sound a₄.lt)
    have a₆ := a₅.trans (buildLinked_sound fields htype a₅.sound a₅.lt)
    -- nothing before the new node changes, and its owner stays what the attributes said
    have hcut : ∀ {b'}, At b.graph.size b b' → b'.graph.Cut b.graph.size :=
      fun a => hb.cut.of_kept a.grows.kept
    have hparent : ∀ {b'}, Tended inTree b.graph.size (b.added n) b' →
        (b'.graph.node b.graph.size).parent ≠ none → inTree = true := by
      intro b' t hne
      rw [t.parent, hnew, attributes_parent hattributes] at hne
      exact hin hne
    have t₂ : Tended inTree b.graph.size (b.added n) b₂ :=
      (register_sameTree hregister).tended (Nested.added hb hn howned) inTree _
    have t₃ := t₂.trans (buildOwned_nested fields hchildren a₂.sound a₂.lt t₂.nested (hcut a₂)
      (hparent t₂))
    have t₄ := t₃.trans (buildOwned_nested fields hparameters a₃.sound a₃.lt t₃.nested (hcut a₃)
      (hparent t₃))
    have t₅ := t₄.trans (buildOwned_nested fields htypeParameters a₄.sound a₄.lt t₄.nested (hcut a₄)
      (hparent t₄))
    have t₆ := t₅.trans (buildLinked_nested fields htype a₅.sound a₅.lt t₅.nested inTree)
    have t₇ := t₆.trans (buildLinked_nested fields hresolved a₆.sound a₆.lt t₆.nested inTree)
    refine ⟨hgraph ▸ t₇.nested, hb.cut.of_kept hbuilt.grows.kept, ?_, fun hin => ?_⟩
    · rw [hgraph, t₇.parent, hnew]
      exact attributes_parent hattributes
    · rw [hgraph]
      refine t₇.known hin fun c hc => ?_
      simp [hnew, howned] at hc
termination_by (sizeOf raw, 0)
decreasing_by all_goals simp_wf; omega

theorem buildOwned_nested (fields : Fields) {inTree : Bool} {p : Place} {list : OwnedList}
    {b b' : Builder} (h : (buildOwned inTree p list fields).run b = .ok ((), b')) (hb : b.Sound)
    (hp : p < b.graph.size) (hn : b.graph.Nested) (hcut : b.graph.Cut p)
    (hin : (b.graph.node p).parent ≠ none → inTree = true) : Tended inTree p b b' := by
  have hnotNodes : ∀ v, (do let ps ← notNodes v; change p fun n => n.own list ps).run b = .ok ((), b') →
      Tended inTree p b b' := by
    intro v h
    obtain ⟨ps, b₁, hps, hchange⟩ := bind_ok h
    obtain ⟨rfl, rfl⟩ := notNodes_ok hps
    cases hchange
    exact BuiltAll.tended ⟨hb, .refl _ _, by simp⟩ hb hp hcut hin hn .nil (by simp) list
  rw [buildOwned] at h
  split at h
  · cases h
    exact (SameTree.refl b).tended hn inTree p
  · split at h
    · cases h
      exact (SameTree.refl b).tended hn inTree p
    · exact hnotNodes _ h
  · rename_i items _ _
    obtain ⟨ps, b₁, hps, h⟩ := bind_ok h
    cases h
    have howner : (if inTree then some p else none) ≠ none → inTree = true := by
      cases inTree <;> simp
    obtain ⟨hn₁, hsorted, hsettled⟩ := buildNodes_nested items hps hb hn howner
    exact (buildNodes_sound items hps hb).tended hb hp hcut hin hn₁ hsorted hsettled list
  · exact hnotNodes _ h
termination_by (sizeOf fields, 1)
decreasing_by
  have := ‹sizeOf (Value.list _) < sizeOf fields›
  simp at this ⊢
  omega

theorem buildNodes_nested (raws : List Value) {inTree : Bool} {owner : Option Place} {b b' : Builder}
    {ps : List Place} (h : (buildNodes inTree owner raws).run b = .ok (ps, b')) (hb : b.Sound)
    (hn : b.graph.Nested) (hin : owner ≠ none → inTree = true) :
    b'.graph.Nested ∧ ps.Pairwise (· < ·) ∧ ∀ c ∈ ps, b'.Settled inTree owner c := by
  match raws with
  | [] =>
    rw [buildNodes] at h
    cases h
    exact ⟨hn, .nil, by simp⟩
  | raw :: rest =>
    rw [buildNodes] at h
    obtain ⟨p, b₁, hfirst, h⟩ := bind_ok h
    obtain ⟨ps, b₂, hrest, h⟩ := bind_ok h
    cases h
    have hbuilt := buildNode_sound raw hfirst hb
    have hall := buildNodes_sound rest hrest hbuilt.sound
    obtain ⟨hn₁, hp⟩ := buildNode_nested raw hfirst hb hn hin
    obtain ⟨hn₂, hsorted, hps⟩ := buildNodes_nested rest hrest hbuilt.sound hn₁ hin
    refine ⟨hn₂, List.pairwise_cons.mpr ⟨fun c hc => ?_, hsorted⟩, fun c hc => ?_⟩
    · exact Nat.lt_of_lt_of_le hbuilt.lt (hall.places c hc).1
    · rcases List.mem_cons.mp hc with rfl | hc
      · exact hp.grows hbuilt.sound hall.grows hbuilt.lt
      · exact hps c hc
termination_by (sizeOf raws, 1)
decreasing_by all_goals simp_wf; omega

theorem buildLinked_nested (fields : Fields) {p : Place} {slot : LinkSlot} {b b' : Builder}
    (h : (buildLinked p slot fields).run b = .ok ((), b')) (hb : b.Sound) (hp : p < b.graph.size)
    (hn : b.graph.Nested) (inTree : Bool) : Tended inTree p b b' := by
  rw [buildLinked] at h
  split at h
  · cases h
    exact (SameTree.refl b).tended hn inTree p
  · split at h
    · cases h
      exact (SameTree.refl b).tended hn inTree p
    · cases h
      exact ⟨hn, rfl, fun _ hk => hk⟩
    · cases h
      exact ⟨hn, rfl, fun _ hk => hk⟩
    · cases h
  · cases h
  · rename_i inner _ _
    obtain ⟨t, b₁, ht, h⟩ := bind_ok h
    cases h
    have hgrows := (buildNode_sound (.map inner) ht hb).grows
    have hn₁ := (buildNode_nested (.map inner) ht hb hn (by simp)).1
    have hbuild : Tended inTree p b b₁ :=
      ⟨hn₁, by rw [hgrows.kept p hp], fun _ hk => OwnerKnown.grows hb hgrows hp hk⟩
    exact hbuild.trans ((b₁.sameTree_filled p slot t).tended hn₁ inTree p)
termination_by (sizeOf fields, 1)
decreasing_by
  exact Prod.Lex.left _ _ ‹_ < sizeOf fields›

end

/-! ## Behind the modules -/

/-- Nodes that are built later leave the roots alone. -/
theorem Forest.grows {b b' : Builder} {ms : List Place} (h : b.graph.Forest ms) (hb : b.Sound)
    (hgrows : Grows b.graph.size b b') (hn : b'.graph.Nested) : b'.graph.Forest ms where
  nested := hn
  sorted := h.sorted
  lt m hm := Nat.lt_of_lt_of_le (h.lt m hm) hgrows.size
  cut m hm := (h.cut m hm).of_kept fun q hq => hgrows.kept q (Nat.lt_trans hq (h.lt m hm))
  known m hm := OwnerKnown.grows hb hgrows (h.lt m hm) (h.known m hm)

theorem extensionItems_forest (values : List Value) {b b' : Builder} {es : List Extension}
    {ms : List Place} (h : (extensionItems values).run b = .ok (es, b')) (hb : b.Sound)
    (hr : b.graph.Forest ms) : b'.graph.Forest ms := by
  induction values generalizing b es with
  | nil =>
    cases h
    exact hr
  | cons v rest ih =>
    rw [extensionItems.eq_def] at h
    split at h
    · contradiction
    · rename_i heq
      obtain ⟨_, _, hrest, h⟩ := bind_ok h
      cases h
      cases heq
      exact ih hrest hb hr
    · rename_i heq
      obtain ⟨_, _, hrest, h⟩ := bind_ok h
      cases h
      cases heq
      exact ih hrest hb hr
    · rename_i heq
      obtain ⟨p, b₁, hbuild, h⟩ := bind_ok h
      obtain ⟨_, _, hrest, h⟩ := bind_ok h
      cases h
      cases heq
      have hbuilt := buildNode_sound v hbuild hb
      have hn := (buildNode_nested v hbuild hb hr.nested (by simp)).1
      exact ih hrest hbuilt.sound (Forest.grows hr hb hbuilt.grows hn)

theorem readExtensions_forest (fuel : Nat) {b b' : Builder} {es : List (Place × List Extension)}
    {ms : List Place} (h : (readExtensions fuel).run b = .ok (es, b')) (hb : b.Sound)
    (hr : b.graph.Forest ms) : b'.graph.Forest ms := by
  induction fuel generalizing b es with
  | zero =>
    cases h
    exact hr
  | succ fuel ih =>
    rw [readExtensions] at h
    obtain ⟨b₀, _, hget, h⟩ := bind_ok h
    cases hget
    split at h
    · cases h
      exact hr
    · rename_i p items rest _
      obtain ⟨_, b₁, hset, h⟩ := bind_ok h
      cases hset
      obtain ⟨values, b₂, hvalues, h⟩ := bind_ok h
      obtain ⟨-, hb₂⟩ := lift_ok hvalues
      rw [hb₂] at h
      obtain ⟨read, b₃, hread, h⟩ := bind_ok h
      obtain ⟨more, b₄, hmore, h⟩ := bind_ok h
      cases h
      have hb₁ : Sound { b with extensions := rest } := hb
      exact ih hmore (extensionItems_sound values hread hb₁) (extensionItems_forest values hread hb₁ hr)

theorem fillPending_sameTree (pending : List (Place × LinkSlot × Scalar)) {b b' : Builder}
    (h : (fillPending pending).run b = .ok ((), b')) : SameTree b b' := by
  induction pending generalizing b with
  | nil =>
    cases h
    exact .refl _
  | cons e rest ih =>
    obtain ⟨p, slot, id⟩ := e
    rw [fillPending] at h
    obtain ⟨t, b₁, ht, h⟩ := bind_ok h
    rw [lookup_ok ht] at h
    obtain ⟨_, b₂, hchange, h⟩ := bind_ok h
    cases hchange
    exact (sameTree_filled _ p slot t).trans (ih h)

theorem fillExtensions_sameTree (es : List (Place × List Extension)) {b b' : Builder}
    (h : (fillExtensions es).run b = .ok ((), b')) : SameTree b b' := by
  induction es generalizing b with
  | nil =>
    cases h
    exact .refl _
  | cons e rest ih =>
    obtain ⟨p, items⟩ := e
    rw [fillExtensions] at h
    obtain ⟨ps, b₁, hps, h⟩ := bind_ok h
    rw [extensionPlaces_ok items hps] at h
    obtain ⟨_, b₂, hchange, h⟩ := bind_ok h
    cases hchange
    exact (sameTree_changed b p (fun n => { n with extendedBy := some ps }) (fun _ => rfl)
      (fun _ => rfl) fun _ => rfl).trans (ih h)

end Builder

/-- **Loading**: the modules of a document are the roots of trees that stand in document order. -/
theorem Graph.forest_of_load {doc : Value} {g : Graph} (h : Graph.ofValue doc = .ok g) :
    g.Forest g.modules := by
  have hstart : (⟨#[], [], [], []⟩ : Builder).graph.Nested := by
    refine ⟨fun o => ?_, fun {o c q d} hc => ?_, fun {o} ho => ?_⟩
    · rw [Builder.node_start]
      exact .nil
    · rw [Builder.node_start] at hc
      cases hc
    · rw [Builder.node_start] at ho
      exact absurd rfl ho
  unfold Graph.ofValue at h
  split at h
  · split at h
    · rename_i places b hrun
      cases h
      rw [Graph.assemble] at hrun
      obtain ⟨_, b₁, hnodes, hrun⟩ := Builder.bind_ok hrun
      obtain ⟨extensions, b₂, hread, hrun⟩ := Builder.bind_ok hrun
      obtain ⟨_, b₃, hget, hrun⟩ := Builder.bind_ok hrun
      cases hget
      obtain ⟨_, b₄, hpending, hrun⟩ := Builder.bind_ok hrun
      obtain ⟨_, b₅, hextensions, hrun⟩ := Builder.bind_ok hrun
      cases hrun
      have hbuilt := Builder.buildNodes_sound _ hnodes Builder.sound_start
      obtain ⟨hn, hsorted, hsettled⟩ :=
        Builder.buildNodes_nested _ hnodes Builder.sound_start hstart (by simp)
      have h₁ : b₁.graph.Forest places :=
        ⟨hn, hsorted, fun m hm => (hbuilt.places m hm).2.1, fun m hm => (hsettled m hm).cut,
          fun m hm => (hsettled m hm).known rfl⟩
      have h₂ := Builder.readExtensions_forest _ hread hbuilt.sound h₁
      have hfill := (Builder.fillPending_sameTree _ hpending).trans
        (Builder.fillExtensions_sameTree _ hextensions)
      have h₃ := hfill.forest h₂
      exact ⟨⟨h₃.nested.members, h₃.nested.between, h₃.nested.known⟩, h₃.sorted, h₃.lt, h₃.cut,
        h₃.known⟩
    · cases h
  · cases h

end SymbolDocs
