import Mathlib
import SymbolDocs.Graph.Load

/-!
# What loading guarantees

A graph that was read from a document has one id for each node and one node for each id, and every
node in it is owned by at most one other, which stands before it in the table.

* `Graph.Sound` says so;
* `Builder.Grows` says that a step of the builder leaves the nodes before a place alone;
* `Builder.buildNode_sound` and its companions follow the walk through the document;
* `Graph.sound_of_load` is the result for a whole document.

What the builder makes stands behind all nodes made before. A new node therefore has no owner until
the list it belongs to is set, and then it gets the only one it ever has.
-/

namespace SymbolDocs

/-- Ids and owners are as loading leaves them. -/
structure Graph.Sound (g : Graph) : Prop where
  indexed : ∀ {p id}, (g.node p).id = some id → (id, p) ∈ g.index
  index : ∀ {id p}, (id, p) ∈ g.index → (g.node p).id = some id
  distinct : ∀ {a b p q}, (a, p) ∈ g.index → (b, q) ∈ g.index → a.same b = true → p = q
  owned : ∀ {o c}, c ∈ (g.node o).owned → o < c ∧ c < g.size
  owner : ∀ {o o' c}, c ∈ (g.node o).owned → c ∈ (g.node o').owned → o = o'

namespace Graph

/-- Two nodes with the same id are one node. -/
theorem Sound.eq_of_same {g : Graph} (h : g.Sound) {p q : Place} {a b : Scalar}
    (hp : (g.node p).id = some a) (hq : (g.node q).id = some b) (hab : a.same b = true) : p = q :=
  h.distinct (h.indexed hp) (h.indexed hq) hab

/-- Outside the table there is an empty node. -/
theorem node_of_size_le {g : Graph} {p : Place} (h : g.size ≤ p) : g.node p = Node.bare .unknown := by
  rw [node, Array.getD_eq_getD_getElem?, Array.getElem?_eq_none h]
  rfl

/-- An id that is not found is the same as none in the index. -/
theorem not_same_of_lookup? {id : Scalar} {index : List (Scalar × Place)}
    (h : lookup? id index = none) : ∀ e ∈ index, e.1.same id = false := by
  induction index with
  | nil => simp
  | cons e rest ih =>
    obtain ⟨k, p⟩ := e
    rw [lookup?] at h
    split at h
    · cases h
    · rename_i hk
      intro e he
      rcases List.mem_cons.mp he with rfl | he
      · simpa using hk
      · exact ih h e he

/-- An id that is found is the same as one in the index. -/
theorem exists_of_lookup? {id : Scalar} {index : List (Scalar × Place)} {p : Place}
    (h : lookup? id index = some p) : ∃ k, (k, p) ∈ index ∧ k.same id = true := by
  induction index with
  | nil => cases h
  | cons e rest ih =>
    obtain ⟨k, q⟩ := e
    rw [lookup?] at h
    split at h
    · rename_i hk
      cases h
      exact ⟨k, List.mem_cons_self, hk⟩
    · obtain ⟨k', hmem, hk'⟩ := ih h
      exact ⟨k', List.mem_cons_of_mem _ hmem, hk'⟩

/-- Where ids are distinct, an id is found where it is. -/
theorem lookup?_eq_some_iff {id : Scalar} {index : List (Scalar × Place)} {p : Place}
    (h : ∀ {a b p q}, (a, p) ∈ index → (b, q) ∈ index → a.same b = true → p = q) :
    lookup? id index = some p ↔ ∃ k, (k, p) ∈ index ∧ k.same id = true := by
  refine ⟨exists_of_lookup?, ?_⟩
  rintro ⟨k, hk, hsame⟩
  cases hfind : lookup? id index with
  | none =>
    have hnot := not_same_of_lookup? hfind _ hk
    rw [hsame] at hnot
    cases hnot
  | some q =>
    obtain ⟨k', hk', hsame'⟩ := exists_of_lookup? hfind
    rw [h hk' hk (Scalar.same_trans hsame' (Scalar.same_symm hsame))]

end Graph

namespace Builder

/-- What has been built, as a graph. -/
def graph (b : Builder) : Graph := ⟨b.nodes, [], b.index⟩

/-- What has been built is as loading leaves it. -/
def Sound (b : Builder) : Prop := b.graph.Sound

/-- The table got no shorter, and its first `n` nodes are as they were. -/
structure Grows (n : Nat) (b b' : Builder) : Prop where
  size : b.graph.size ≤ b'.graph.size
  kept : ∀ q < n, b'.graph.node q = b.graph.node q

/-- No node owns the place. -/
def Unowned (b : Builder) (c : Place) : Prop :=
  ∀ o, c ∉ (b.graph.node o).owned

theorem Grows.refl (n : Nat) (b : Builder) : Grows n b b :=
  ⟨Nat.le_refl _, fun _ _ => rfl⟩

theorem Grows.trans {n : Nat} {b b' b'' : Builder} (h : Grows n b b') (h' : Grows n b' b'') :
    Grows n b b'' :=
  ⟨Nat.le_trans h.size h'.size, fun q hq => (h'.kept q hq).trans (h.kept q hq)⟩

theorem Grows.mono {m n : Nat} {b b' : Builder} (hmn : m ≤ n) (h : Grows n b b') : Grows m b b' :=
  ⟨h.size, fun q hq => h.kept q (Nat.lt_of_lt_of_le hq hmn)⟩

/-- Owners stand before what they own, so a place among the nodes that are kept gets no new owner. -/
theorem Unowned.grows {n : Nat} {b b' : Builder} {c : Place} (h : b.Unowned c) (hgrows : Grows n b b')
    (hc : c < n) (hb' : b'.Sound) : b'.Unowned c := by
  intro o ho
  have hlt := (hb'.owned ho).1
  rw [hgrows.kept o (Nat.lt_trans hlt hc)] at ho
  exact h o ho

/-- Nor has a place behind all nodes an owner. -/
theorem Grows.unowned {b b' : Builder} (hgrows : Grows b.graph.size b b') (hb : b.Sound)
    (hb' : b'.Sound) : b'.Unowned b.graph.size := by
  intro o ho
  have hlt := (hb'.owned ho).1
  rw [hgrows.kept o hlt] at ho
  exact absurd (hb.owned ho).2 (Nat.lt_irrefl _)

/-! ## Single steps -/

/-- A builder with a node changed. -/
def changed (b : Builder) (p : Place) (f : Node → Node) : Builder :=
  { b with nodes := b.nodes.modify p f }

/-- A builder with a node added. -/
def added (b : Builder) (n : Node) : Builder :=
  { b with nodes := b.nodes.push n }

theorem size_changed (b : Builder) (p : Place) (f : Node → Node) :
    (b.changed p f).graph.size = b.graph.size :=
  Array.size_modify

theorem node_changed (b : Builder) {p : Place} (f : Node → Node) (hp : p < b.graph.size) (q : Place) :
    (b.changed p f).graph.node q = if q = p then f (b.graph.node p) else b.graph.node q := by
  simp only [Graph.node, graph, changed, Array.getD_eq_getD_getElem?, Array.getElem?_modify]
  by_cases h : q = p
  · subst h
    have hq : q < b.nodes.size := hp
    simp [hq]
  · simp [h, Ne.symm h]

theorem size_added (b : Builder) (n : Node) : (b.added n).graph.size = b.graph.size + 1 :=
  Array.size_push n

theorem node_added (b : Builder) (n : Node) (q : Place) :
    (b.added n).graph.node q = if q = b.graph.size then n else b.graph.node q := by
  simp only [Graph.node, graph, added, Array.getD_eq_getD_getElem?, Array.getElem?_push, Graph.size]
  split <;> rfl

theorem grows_changed (b : Builder) {p : Place} (f : Node → Node) (hp : p < b.graph.size) :
    Grows p b (b.changed p f) := by
  refine ⟨Nat.le_of_eq (b.size_changed p f).symm, fun q hq => ?_⟩
  rw [b.node_changed f hp, if_neg (Nat.ne_of_lt hq)]

theorem grows_added (b : Builder) (n : Node) : Grows b.graph.size b (b.added n) := by
  refine ⟨by rw [size_added]; omega, fun q hq => ?_⟩
  rw [b.node_added n, if_neg (Nat.ne_of_lt hq)]

/-- A node that owns nothing and has no id. -/
theorem Sound.added {b : Builder} (hb : b.Sound) {n : Node} (hid : n.id = none) (howned : n.owned = []) :
    (b.added n).Sound where
  indexed {p id} hp := by
    rw [node_added] at hp
    split at hp
    · rw [hid] at hp
      cases hp
    · exact hb.indexed hp
  index {id p} hp := by
    have hold := hb.index hp
    rw [node_added, if_neg]
    · exact hold
    · rintro rfl
      rw [Graph.node_of_size_le (Nat.le_refl _)] at hold
      cases hold
  distinct := hb.distinct
  owned {o c} hc := by
    rw [node_added] at hc
    split at hc
    · rw [howned] at hc
      cases hc
    · rw [size_added]
      exact ⟨(hb.owned hc).1, Nat.lt_succ_of_lt (hb.owned hc).2⟩
  owner {o o' c} hc hc' := by
    rw [node_added] at hc hc'
    split at hc
    · rw [howned] at hc
      cases hc
    split at hc'
    · rw [howned] at hc'
      cases hc'
    · exact hb.owner hc hc'

/-- A change that leaves the id and adds to what is owned only places behind the node that nobody
owns yet. -/
theorem Sound.changed {b : Builder} (hb : b.Sound) {p : Place} (hp : p < b.graph.size) {f : Node → Node}
    (hid : (f (b.graph.node p)).id = (b.graph.node p).id)
    (howned : ∀ c ∈ (f (b.graph.node p)).owned, c ∈ (b.graph.node p).owned ∨
      p < c ∧ c < b.graph.size ∧ b.Unowned c) : (b.changed p f).Sound where
  indexed {q id} hq := by
    rw [b.node_changed f hp] at hq
    split at hq
    · rename_i h
      subst h
      exact hb.indexed (hid ▸ hq)
    · exact hb.indexed hq
  index {id q} hq := by
    rw [b.node_changed f hp]
    split
    · rename_i h
      subst h
      rw [hid]
      exact hb.index hq
    · exact hb.index hq
  distinct := hb.distinct
  owned {o c} hc := by
    rw [b.size_changed]
    rw [b.node_changed f hp] at hc
    split at hc
    · rename_i h
      subst h
      rcases howned c hc with h | ⟨h, h', -⟩
      · exact hb.owned h
      · exact ⟨h, h'⟩
    · exact hb.owned hc
  owner {o o' c} hc hc' := by
    rw [b.node_changed f hp] at hc hc'
    split at hc <;> split at hc' <;> rename_i h h'
    · rw [h, h']
    · rcases howned c hc with hc | ⟨-, -, hc⟩
      · rw [h]
        exact hb.owner hc hc'
      · exact absurd hc' (hc o')
    · rcases howned c hc' with hc' | ⟨-, -, hc'⟩
      · rw [h']
        exact hb.owner hc hc'
      · exact absurd hc (hc' o)
    · exact hb.owner hc hc'

/-- A builder in which a node has got its id. -/
def registered (b : Builder) (p : Place) (id : Scalar) : Builder :=
  { b with index := b.index ++ [(id, p)] }.changed p fun n => { n with id := some id }

theorem node_registered (b : Builder) {p : Place} (id : Scalar) (hp : p < b.graph.size) (q : Place) :
    (b.registered p id).graph.node q =
      if q = p then { b.graph.node p with id := some id } else b.graph.node q :=
  node_changed { b with index := b.index ++ [(id, p)] } _ hp q

theorem owned_registered (b : Builder) {p : Place} (id : Scalar) (hp : p < b.graph.size) (q : Place) :
    ((b.registered p id).graph.node q).owned = (b.graph.node q).owned := by
  rw [b.node_registered id hp]
  split
  · rename_i h
    rw [h]
    rfl
  · rfl

theorem grows_registered (b : Builder) {p : Place} (id : Scalar) (hp : p < b.graph.size) :
    Grows p b (b.registered p id) := by
  refine ⟨Nat.le_of_eq (size_changed _ _ _).symm, fun q hq => ?_⟩
  rw [b.node_registered id hp, if_neg (Nat.ne_of_lt hq)]

theorem mem_index_registered {b : Builder} {p q : Place} {a id : Scalar} :
    (a, q) ∈ (b.registered p id).graph.index ↔ (a, q) ∈ b.index ∨ a = id ∧ q = p := by
  simp [registered, changed, graph]

/-- An id that is new is given to a node that has none. -/
theorem Sound.registered {b : Builder} (hb : b.Sound) {p : Place} (hp : p < b.graph.size) {id : Scalar}
    (hnone : (b.graph.node p).id = none) (hnew : Graph.lookup? id b.index = none) :
    (b.registered p id).Sound where
  indexed {q a} hq := by
    rw [mem_index_registered]
    rw [b.node_registered id hp] at hq
    split at hq
    · rename_i h
      cases hq
      exact .inr ⟨rfl, h⟩
    · exact .inl (hb.indexed hq)
  index {a q} hq := by
    rw [b.node_registered id hp]
    rcases mem_index_registered.mp hq with hold | ⟨rfl, rfl⟩
    · have hne : q ≠ p := by
        rintro rfl
        rw [hb.index hold] at hnone
        cases hnone
      rw [if_neg hne]
      exact hb.index hold
    · rw [if_pos rfl]
  distinct {a a' q q'} hq hq' hsame := by
    have hfresh := Graph.not_same_of_lookup? hnew
    rcases mem_index_registered.mp hq with hold | ⟨rfl, rfl⟩ <;>
      rcases mem_index_registered.mp hq' with hold' | ⟨rfl, rfl⟩
    · exact hb.distinct hold hold' hsame
    · exact absurd hsame (by simpa using hfresh _ hold)
    · exact absurd (Scalar.same_symm hsame) (by simpa using hfresh _ hold')
    · rfl
  owned {o c} hc := by
    rw [b.owned_registered id hp] at hc
    have hsize : (b.registered p id).graph.size = b.graph.size := size_changed _ _ _
    rw [hsize]
    exact hb.owned hc
  owner {o o' c} hc hc' := by
    rw [b.owned_registered id hp] at hc hc'
    exact hb.owner hc hc'

/-! ## The walk -/

/-- A piece of building that succeeds, taken apart. -/
theorem bind_ok {α β : Type} {w : Building α} {f : α → Building β} {b b' : Builder} {y : β}
    (h : (w >>= f).run b = .ok (y, b')) :
    ∃ x b₁, w.run b = .ok (x, b₁) ∧ (f x).run b₁ = .ok (y, b') := by
  rw [StateT.run_bind] at h
  rcases hw : w.run b with _ | ⟨x, b₁⟩
  · rw [hw] at h
    cases h
  · rw [hw] at h
    exact ⟨x, b₁, rfl, h⟩

/-- An answer that concerns no builder. -/
theorem lift_ok {α : Type} {x : Except Fault α} {b b' : Builder} {y : α}
    (h : (liftM x : Building α).run b = .ok (y, b')) : x = .ok y ∧ b' = b := by
  cases x with
  | error e => cases h
  | ok a =>
    cases h
    exact ⟨rfl, rfl⟩

/-- What a node owns after one of its lists is set. -/
theorem mem_owned_own {n : Node} {list : OwnedList} {ps : List Place} {c : Place}
    (h : c ∈ (n.own list ps).owned) : c ∈ n.owned ∨ c ∈ ps := by
  cases list <;> simp only [Node.own, Node.owned, List.mem_append, Option.getD_some] at h ⊢ <;> grind

theorem id_own (n : Node) (list : OwnedList) (ps : List Place) : (n.own list ps).id = n.id := by
  cases list <;> rfl

theorem owned_fill (n : Node) (slot : LinkSlot) (p : Place) : (n.fill slot p).owned = n.owned := by
  cases slot <;> rfl

theorem id_fill (n : Node) (slot : LinkSlot) (p : Place) : (n.fill slot p).id = n.id := by
  cases slot <;> rfl

/-- A change that leaves the id and what is owned, at any place. -/
theorem Sound.changed_of_eq {b : Builder} (hb : b.Sound) (p : Place) {f : Node → Node}
    (hid : ∀ n, (f n).id = n.id) (howned : ∀ n, (f n).owned = n.owned) : (b.changed p f).Sound := by
  by_cases hp : p < b.graph.size
  · exact hb.changed hp (hid _) fun c hc => .inl (howned _ ▸ hc)
  · have hsame : b.changed p f = b := by
      rw [Builder.changed]
      congr
      refine Array.ext_getElem? fun i => ?_
      rw [Array.getElem?_modify]
      split
      · rename_i h
        subst h
        have hnone : b.nodes[p]? = none := Array.getElem?_eq_none (Nat.le_of_not_lt hp)
        rw [hnone]
        rfl
      · rfl
    rw [hsame]
    exact hb

/-- A slot filled. -/
theorem Sound.filled {b : Builder} (hb : b.Sound) (p : Place) (slot : LinkSlot) (t : Place) :
    (b.changed p fun n => n.fill slot t).Sound :=
  hb.changed_of_eq p (fun n => id_fill n slot t) fun n => owned_fill n slot t

/-- The attributes of a node involve neither its id nor what it owns. -/
theorem attributes_ok {raw : Value} {owner : Option Place} {n : Node}
    (h : Node.attributes raw owner = .ok n) : n.id = none ∧ n.owned = [] := by
  simp only [Node.attributes, bind, Except.bind, pure, Except.pure] at h
  repeat' split at h
  all_goals cases h
  all_goals exact ⟨rfl, rfl⟩

/-- The builder goes on at a node: nothing before it changes. -/
structure At (p : Place) (b b' : Builder) : Prop where
  sound : b'.Sound
  grows : Grows p b b'
  lt : p < b'.graph.size

theorem At.refl {p : Place} {b : Builder} (hb : b.Sound) (hp : p < b.graph.size) : At p b b :=
  ⟨hb, .refl _ _, hp⟩

theorem At.trans {p : Place} {b b' b'' : Builder} (h : At p b b') (h' : At p b' b'') : At p b b'' :=
  ⟨h'.sound, h.grows.trans h'.grows, h'.lt⟩

/-- A change of the node itself, after steps behind it. -/
theorem At.changed {p : Place} {b b' : Builder} (h : At p b b') {f : Node → Node}
    (hs : (b'.changed p f).Sound) : At p b (b'.changed p f) :=
  ⟨hs, h.grows.trans (b'.grows_changed f h.lt), Nat.lt_of_lt_of_le h.lt (b'.grows_changed f h.lt).size⟩

/-- A new node gets its id, if it has one. -/
theorem register_sound {b b' : Builder} {p : Place} {id : Option Scalar}
    (h : (register p id).run b = .ok ((), b')) (hb : b.Sound) (hp : p < b.graph.size)
    (hnone : (b.graph.node p).id = none) : At p b b' := by
  cases id with
  | none =>
    cases h
    exact .refl hb hp
  | some id =>
    rw [register] at h
    obtain ⟨b₁, _, hget, h⟩ := bind_ok h
    cases hget
    dsimp only at h
    split at h
    · obtain ⟨_, _, hthrow, -⟩ := bind_ok h
      cases hthrow
    · rename_i hnew
      cases h
      have hgrows := b.grows_registered id hp
      exact ⟨hb.registered hp hnone (by simpa using hnew), hgrows, Nat.lt_of_lt_of_le hp hgrows.size⟩

/-- Text and empty mappings hold no nodes. -/
theorem notNodes_ok {v : Value} {b b' : Builder} {ps : List Place}
    (h : (notNodes v).run b = .ok (ps, b')) : ps = [] ∧ b' = b := by
  unfold notNodes at h
  split at h
  · split at h
    · cases h
      exact ⟨rfl, rfl⟩
    · cases h
  · cases h
    exact ⟨rfl, rfl⟩
  · cases h
  · cases h

/-- A node that is built stands behind all others. -/
structure Built (b : Builder) (p : Place) (b' : Builder) : Prop where
  sound : b'.Sound
  grows : Grows b.graph.size b b'
  place : p = b.graph.size
  lt : p < b'.graph.size

/-- So are nodes that are built one after the other, and they have no owner. -/
structure BuiltAll (b : Builder) (ps : List Place) (b' : Builder) : Prop where
  sound : b'.Sound
  grows : Grows b.graph.size b b'
  places : ∀ c ∈ ps, b.graph.size ≤ c ∧ c < b'.graph.size ∧ b'.Unowned c

/-- The first of several nodes. -/
theorem Built.cons {b b₁ b₂ : Builder} {p : Place} {ps : List Place} (hb : b.Sound)
    (h : b.Built p b₁) (hrest : b₁.BuiltAll ps b₂) : b.BuiltAll (p :: ps) b₂ := by
  obtain ⟨hb₁, hgrows, rfl, hlt⟩ := h
  have hle := hgrows.size
  refine ⟨hrest.sound, hgrows.trans (hrest.grows.mono hle), fun c hc => ?_⟩
  rcases List.mem_cons.mp hc with rfl | hc
  · exact ⟨Nat.le_refl _, Nat.lt_of_lt_of_le hlt hrest.grows.size,
      (hgrows.unowned hb hb₁).grows hrest.grows hlt hrest.sound⟩
  · obtain ⟨h₁, h₂, h₃⟩ := hrest.places c hc
    exact ⟨Nat.le_trans hle h₁, h₂, h₃⟩

/-- A list of owned nodes is set after they are built. -/
theorem BuiltAll.own {b b' : Builder} {p : Place} {ps : List Place} (h : b.BuiltAll ps b')
    (hp : p < b.graph.size) (list : OwnedList) : At p b (b'.changed p fun n => n.own list ps) := by
  have hp' := Nat.lt_of_lt_of_le hp h.grows.size
  refine At.changed ⟨h.sound, h.grows.mono (Nat.le_of_lt hp), hp'⟩
    (h.sound.changed hp' (id_own _ _ _) fun c hc => ?_)
  refine (mem_owned_own hc).imp_right fun hc => ?_
  obtain ⟨hle, hlt, hun⟩ := h.places c hc
  exact ⟨Nat.lt_of_lt_of_le hp hle, hlt, hun⟩

/-- **The steps in which a node is built.** The list of extending declarations is only noted. -/
theorem buildNode_ok {fields : Fields} {inTree : Bool} {owner : Option Place} {b b' : Builder} {p : Place}
    (h : (buildNode inTree owner (.map fields)).run b = .ok (p, b')) :
    p = b.graph.size ∧ ∃ n id b₂ b₃ b₄ b₅ b₆ b₇, Node.attributes (.map fields) owner = .ok n ∧
      (register p id).run (b.added n) = .ok ((), b₂) ∧
      (buildOwned inTree p .children fields).run b₂ = .ok ((), b₃) ∧
      (buildOwned inTree p .parameters fields).run b₃ = .ok ((), b₄) ∧
      (buildOwned inTree p .typeParameters fields).run b₄ = .ok ((), b₅) ∧
      (buildLinked p .type fields).run b₅ = .ok ((), b₆) ∧
      (buildLinked p .resolvedType fields).run b₆ = .ok ((), b₇) ∧ b'.graph = b₇.graph := by
  rw [buildNode] at h
  obtain ⟨n, b₀, hn, hrun⟩ := bind_ok h
  obtain ⟨hattributes, hb₀⟩ := lift_ok hn
  obtain ⟨id, b₀', hid, hrun⟩ := bind_ok hrun
  obtain ⟨-, hb₀'⟩ := lift_ok hid
  rw [hb₀', hb₀] at hrun
  obtain ⟨p', b₁, hadd, hrun⟩ := bind_ok hrun
  cases hadd
  obtain ⟨_, b₂, hregister, hrun⟩ := bind_ok hrun
  obtain ⟨_, b₃, hchildren, hrun⟩ := bind_ok hrun
  obtain ⟨_, b₄, hparameters, hrun⟩ := bind_ok hrun
  obtain ⟨_, b₅, htypeParameters, hrun⟩ := bind_ok hrun
  obtain ⟨_, b₆, htype, hrun⟩ := bind_ok hrun
  obtain ⟨_, b₇, hresolved, hrun⟩ := bind_ok hrun
  have hend : p = b.graph.size ∧ b'.graph = b₇.graph := by
    dsimp only at hrun
    split at hrun
    · split at hrun
      · cases hrun
        exact ⟨rfl, rfl⟩
      · obtain ⟨_, b₈, hextend, hrun⟩ := bind_ok hrun
        cases hextend
        cases hrun
        exact ⟨rfl, rfl⟩
    · cases hrun
      exact ⟨rfl, rfl⟩
  obtain ⟨rfl, hgraph⟩ := hend
  exact ⟨rfl, n, id, b₂, b₃, b₄, b₅, b₆, b₇, hattributes, hregister, hchildren, hparameters,
    htypeParameters, htype, hresolved, hgraph⟩

mutual

theorem buildNode_sound (raw : Value) {inTree : Bool} {owner : Option Place} {b b' : Builder}
    {p : Place} (h : (buildNode inTree owner raw).run b = .ok (p, b')) (hb : b.Sound) :
    b.Built p b' := by
  match raw with
  | .scalar s =>
    rw [buildNode] at h
    · cases h
    · simp
  | .list items =>
    rw [buildNode] at h
    · cases h
    · simp
  | .map fields =>
    obtain ⟨rfl, n, id, b₂, b₃, b₄, b₅, b₆, b₇, hattributes, hregister, hchildren, hparameters,
      htypeParameters, htype, hresolved, hgraph⟩ := buildNode_ok h
    obtain ⟨hnone, howned⟩ := attributes_ok hattributes
    have h₁ : At b.graph.size b (b.added n) :=
      ⟨hb.added hnone howned, b.grows_added n, by rw [size_added]; exact Nat.lt_succ_self _⟩
    have h₂ := h₁.trans (register_sound hregister h₁.sound h₁.lt (by
      rw [node_added, if_pos rfl, hnone]))
    have h₃ := h₂.trans (buildOwned_sound fields hchildren h₂.sound h₂.lt)
    have h₄ := h₃.trans (buildOwned_sound fields hparameters h₃.sound h₃.lt)
    have h₅ := h₄.trans (buildOwned_sound fields htypeParameters h₄.sound h₄.lt)
    have h₆ := h₅.trans (buildLinked_sound fields htype h₅.sound h₅.lt)
    have h₇ := h₆.trans (buildLinked_sound fields hresolved h₆.sound h₆.lt)
    refine ⟨?_, ⟨?_, fun q hq => ?_⟩, rfl, ?_⟩
    · rw [Builder.Sound, hgraph]
      exact h₇.sound
    · rw [hgraph]
      exact h₇.grows.size
    · rw [hgraph]
      exact h₇.grows.kept q hq
    · rw [hgraph]
      exact h₇.lt
termination_by (sizeOf raw, 0)
decreasing_by all_goals simp_wf; omega

theorem buildOwned_sound (fields : Fields) {inTree : Bool} {p : Place} {list : OwnedList}
    {b b' : Builder} (h : (buildOwned inTree p list fields).run b = .ok ((), b')) (hb : b.Sound)
    (hp : p < b.graph.size) : At p b b' := by
  -- a list given as something else holds no nodes
  have hnotNodes : ∀ v, (do let ps ← notNodes v; change p fun n => n.own list ps).run b = .ok ((), b') →
      At p b b' := by
    intro v h
    obtain ⟨ps, b₁, hps, hchange⟩ := bind_ok h
    obtain ⟨rfl, rfl⟩ := notNodes_ok hps
    cases hchange
    exact BuiltAll.own ⟨hb, .refl _ _, by simp⟩ hp list
  rw [buildOwned] at h
  split at h
  · cases h
    exact .refl hb hp
  · split at h
    · cases h
      exact .refl hb hp
    · exact hnotNodes _ h
  · rename_i items _ _
    obtain ⟨ps, b₁, hps, h⟩ := bind_ok h
    cases h
    exact (buildNodes_sound items hps hb).own hp list
  · exact hnotNodes _ h
termination_by (sizeOf fields, 1)
decreasing_by
  have := ‹sizeOf (Value.list _) < sizeOf fields›
  simp at this ⊢
  omega

theorem buildNodes_sound (raws : List Value) {inTree : Bool} {owner : Option Place} {b b' : Builder}
    {ps : List Place} (h : (buildNodes inTree owner raws).run b = .ok (ps, b')) (hb : b.Sound) :
    b.BuiltAll ps b' := by
  match raws with
  | [] =>
    rw [buildNodes] at h
    cases h
    exact ⟨hb, .refl _ _, by simp⟩
  | raw :: rest =>
    rw [buildNodes] at h
    obtain ⟨p, b₁, hfirst, h⟩ := bind_ok h
    obtain ⟨ps, b₂, hrest, h⟩ := bind_ok h
    cases h
    have hbuilt := buildNode_sound raw hfirst hb
    exact hbuilt.cons hb (buildNodes_sound rest hrest hbuilt.sound)
termination_by (sizeOf raws, 1)
decreasing_by all_goals simp_wf; omega

theorem buildLinked_sound (fields : Fields) {p : Place} {slot : LinkSlot} {b b' : Builder}
    (h : (buildLinked p slot fields).run b = .ok ((), b')) (hb : b.Sound) (hp : p < b.graph.size) :
    At p b b' := by
  rw [buildLinked] at h
  split at h
  · cases h
    exact .refl hb hp
  · split at h
    · cases h
      exact .refl hb hp
    · cases h
      exact ⟨hb, ⟨Nat.le_refl _, fun _ _ => rfl⟩, hp⟩
    · cases h
      exact ⟨hb, ⟨Nat.le_refl _, fun _ _ => rfl⟩, hp⟩
    · cases h
  · cases h
  · rename_i inner _ _
    obtain ⟨t, b₁, ht, h⟩ := bind_ok h
    cases h
    obtain ⟨hb₁, hgrows, -, -⟩ := buildNode_sound (.map inner) ht hb
    have hp₁ := Nat.lt_of_lt_of_le hp hgrows.size
    exact At.changed ⟨hb₁, hgrows.mono (Nat.le_of_lt hp), hp₁⟩ (hb₁.filled p slot t)
termination_by (sizeOf fields, 1)
decreasing_by
  exact Prod.Lex.left _ _ ‹_ < sizeOf fields›

end

theorem extensionItems_sound (values : List Value) {b b' : Builder} {es : List Extension}
    (h : (extensionItems values).run b = .ok (es, b')) (hb : b.Sound) : b'.Sound := by
  induction values generalizing b es with
  | nil =>
    cases h
    exact hb
  | cons v rest ih =>
    rw [extensionItems.eq_def] at h
    split at h
    · contradiction
    · rename_i heq
      obtain ⟨_, _, hrest, h⟩ := bind_ok h
      cases h
      cases heq
      exact ih hrest hb
    · rename_i heq
      obtain ⟨_, _, hrest, h⟩ := bind_ok h
      cases h
      cases heq
      exact ih hrest hb
    · rename_i heq
      obtain ⟨p, b₁, hbuild, h⟩ := bind_ok h
      obtain ⟨_, _, hrest, h⟩ := bind_ok h
      cases h
      cases heq
      exact ih hrest (buildNode_sound v hbuild hb).sound

theorem readExtensions_sound (fuel : Nat) {b b' : Builder} {es : List (Place × List Extension)}
    (h : (readExtensions fuel).run b = .ok (es, b')) (hb : b.Sound) : b'.Sound := by
  induction fuel generalizing b es with
  | zero =>
    cases h
    exact hb
  | succ fuel ih =>
    rw [readExtensions] at h
    obtain ⟨b₀, _, hget, h⟩ := bind_ok h
    cases hget
    split at h
    · cases h
      exact hb
    · rename_i p items rest _
      obtain ⟨_, b₁, hset, h⟩ := bind_ok h
      cases hset
      obtain ⟨values, b₂, hvalues, h⟩ := bind_ok h
      obtain ⟨-, hb₂⟩ := lift_ok hvalues
      rw [hb₂] at h
      obtain ⟨read, b₃, hread, h⟩ := bind_ok h
      obtain ⟨more, b₄, hmore, h⟩ := bind_ok h
      cases h
      exact ih hmore (extensionItems_sound values (b := { b with extensions := rest }) hread hb)

theorem lookup_ok {id : Scalar} {owner p : Place} {b b' : Builder}
    (h : (lookup id owner).run b = .ok (p, b')) : b' = b := by
  rw [lookup] at h
  obtain ⟨b₀, _, hget, h⟩ := bind_ok h
  cases hget
  split at h
  · cases h
    rfl
  · cases h

theorem fillPending_sound (pending : List (Place × LinkSlot × Scalar)) {b b' : Builder}
    (h : (fillPending pending).run b = .ok ((), b')) (hb : b.Sound) : b'.Sound := by
  induction pending generalizing b with
  | nil =>
    cases h
    exact hb
  | cons e rest ih =>
    obtain ⟨p, slot, id⟩ := e
    rw [fillPending] at h
    obtain ⟨t, b₁, ht, h⟩ := bind_ok h
    rw [lookup_ok ht] at h
    obtain ⟨_, b₂, hchange, h⟩ := bind_ok h
    cases hchange
    exact ih h (hb.filled p slot t)

theorem extensionPlaces_ok {owner : Place} (es : List Extension) {ps : List Place} {b b' : Builder}
    (h : (extensionPlaces owner es).run b = .ok (ps, b')) : b' = b := by
  induction es generalizing b ps with
  | nil =>
    cases h
    rfl
  | cons e rest ih =>
    cases e with
    | inl id =>
      rw [extensionPlaces] at h
      obtain ⟨p, b₁, hp, h⟩ := bind_ok h
      rw [lookup_ok hp] at h
      obtain ⟨_, _, hrest, h⟩ := bind_ok h
      cases h
      exact ih hrest
    | inr p =>
      rw [extensionPlaces] at h
      obtain ⟨_, _, hrest, h⟩ := bind_ok h
      cases h
      exact ih hrest

theorem fillExtensions_sound (es : List (Place × List Extension)) {b b' : Builder}
    (h : (fillExtensions es).run b = .ok ((), b')) (hb : b.Sound) : b'.Sound := by
  induction es generalizing b with
  | nil =>
    cases h
    exact hb
  | cons e rest ih =>
    obtain ⟨p, items⟩ := e
    rw [fillExtensions] at h
    obtain ⟨ps, b₁, hps, h⟩ := bind_ok h
    rw [extensionPlaces_ok items hps] at h
    obtain ⟨_, b₂, hchange, h⟩ := bind_ok h
    cases hchange
    exact ih h (hb.changed_of_eq p (fun _ => rfl) fun _ => rfl)

/-- Before the first node nothing is built. -/
theorem node_start (p : Place) : (⟨#[], [], [], []⟩ : Builder).graph.node p = Node.bare .unknown :=
  Graph.node_of_size_le (Nat.zero_le p)

theorem sound_start : (⟨#[], [], [], []⟩ : Builder).Sound := by
  refine ⟨fun {p id} hp => ?_, fun hp => (List.not_mem_nil hp).elim,
    fun hp => (List.not_mem_nil hp).elim, fun {o c} hc => ?_, fun {o o' c} hc => ?_⟩
  · rw [node_start] at hp
    cases hp
  · rw [node_start] at hc
    cases hc
  · rw [node_start] at hc
    cases hc

end Builder

/-- **Loading**: in the graph of a document ids are distinct and every node has at most one owner. -/
theorem Graph.sound_of_load {doc : Value} {g : Graph} (h : Graph.ofValue doc = .ok g) : g.Sound := by
  unfold Graph.ofValue at h
  split at h
  · split at h
    · rename_i places b hrun
      cases h
      rw [Graph.assemble] at hrun
      obtain ⟨_, b₁, hnodes, hrun⟩ := Builder.bind_ok hrun
      obtain ⟨extensions, b₂, hread, hrun⟩ := Builder.bind_ok hrun
      obtain ⟨_, b₃, hget, hrun⟩ := Builder.bind_ok hrun
      cases hget
      obtain ⟨_, b₄, hpending, hrun⟩ := Builder.bind_ok hrun
      obtain ⟨_, b₅, hextensions, hrun⟩ := Builder.bind_ok hrun
      cases hrun
      have h₁ := (Builder.buildNodes_sound _ hnodes Builder.sound_start).sound
      have h₂ := Builder.readExtensions_sound _ hread h₁
      have h₃ := Builder.fillExtensions_sound _ hextensions (Builder.fillPending_sound _ hpending h₂)
      exact ⟨h₃.indexed, h₃.index, h₃.distinct, h₃.owned, h₃.owner⟩
    · cases h
  · cases h

end SymbolDocs
