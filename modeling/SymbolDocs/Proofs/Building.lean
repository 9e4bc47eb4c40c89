import SymbolDocs.Proofs.Described
import SymbolDocs.Proofs.Loading

/-!
# What the builder has met

The builder gives the nodes of a document places in the order in which it meets them. A log of what it
has met, one line for each place, says for each node of the table which trail of the document it comes
from. With the log in hand every step can be described: what it adds to the log, that the links of the
new nodes lead where their trails lead, and what is noted for later.

* `Trail.Under` and `Trail.Inside` compare trails;
* `Builder.Meets` says how a piece of building ends, with an answer or with a fault;
* `Builder.Kept` is what holds of log and builder all the time;
* `Builder.Larger` and `Builder.Grown` are what a step adds, `Builder.Touched` a change of one node.
-/

namespace SymbolDocs

/-! ## Trails below a trail -/

namespace Trail

/-- The number of steps of a trail. -/
def length : Trail → Nat
  | .module _ => 0
  | .step owner _ => owner.length + 1

/-- The second trail goes on from the first one, or is the same. -/
inductive Under (t : Trail) : Trail → Prop
  | refl : Under t t
  | step {x : Trail} (h : Under t x) (s : Step) : Under t (.step x s)

/-- The second trail goes on from the first one without entering extending declarations. -/
inductive Inside (t : Trail) : Trail → Prop
  | refl : Inside t t
  | step {x : Trail} (h : Inside t x) {s : Step} (hs : ∀ i, s ≠ .extension i) : Inside t (.step x s)

variable {t t' x y : Trail} {s s' : Step}

theorem Inside.under (h : t.Inside x) : t.Under x := by
  induction h with
  | refl => exact .refl
  | step _ _ ih => exact ih.step _

theorem Under.trans (h : t.Under x) (h' : x.Under y) : t.Under y := by
  induction h' with
  | refl => exact h
  | step _ s ih => exact ih.step s

theorem Inside.trans (h : t.Inside x) (h' : x.Inside y) : t.Inside y := by
  induction h' with
  | refl => exact h
  | step _ hs ih => exact ih.step hs

theorem Under.of_step (h : (t.step s).Under x) : t.Under x :=
  (Under.refl.step s).trans h

theorem Under.length_le (h : t.Under x) : t.length ≤ x.length := by
  induction h with
  | refl => exact Nat.le_refl _
  | step _ s ih => exact Nat.le_succ_of_le ih

theorem not_step_under (t : Trail) (s : Step) : ¬ (t.step s).Under t := by
  intro h
  exact absurd h.length_le (Nat.not_succ_le_self t.length)

/-- Of two trails that lead to the same one, one goes on from the other. -/
theorem Under.comparable (h : t.Under x) (h' : t'.Under x) : t.Under t' ∨ t'.Under t := by
  induction h with
  | refl => exact .inr h'
  | @step o h s ih =>
    cases h' with
    | refl => exact .inl (h.step s)
    | step h' => exact ih h'

/-- There is one step from a trail towards a trail below it. -/
theorem Under.step_unique (h : (t.step s).Under x) (h' : (t.step s').Under x) : s = s' := by
  rcases h.comparable h' with h | h
  · cases h with
    | refl => rfl
    | step h => exact absurd h (not_step_under t s)
  · cases h with
    | refl => rfl
    | step h => exact absurd h (not_step_under t s')

/-- A trail starts at one module. -/
theorem Under.module_unique {i j : Nat} (h : (Trail.module i).Under x) (h' : (Trail.module j).Under x) :
    i = j := by
  rcases h.comparable h' with h | h
  · cases h
    rfl
  · cases h
    rfl

/-- Where no extending declarations are entered, they were entered before. -/
theorem Inside.under_extension {i : Nat} (h : t.Inside x) (h' : (y.step (.extension i)).Under x) :
    (y.step (.extension i)).Under t := by
  induction h with
  | refl => exact h'
  | step _ hs ih =>
    cases h' with
    | refl => exact absurd rfl (hs i)
    | step h' => exact ih h'

end Trail

namespace Value

/-- A fault that is a fault of loading, for a document that is to be refused. -/
def Faulted (doc : Value) (e : Fault) : Prop :=
  doc.Documented → (∃ c, e = .load c) ∧ doc.Refused

/-- A fault that does not occur when the fields are of the documented kinds. -/
theorem Faulted.of_not {doc : Value} {e : Fault} (h : ¬ doc.Documented) : doc.Faulted e :=
  fun hdoc => absurd hdoc h

theorem Faulted.of_refused {doc : Value} {c : LoadFault} (h : doc.Refused) : doc.Faulted (.load c) :=
  fun _ => ⟨⟨c, rfl⟩, h⟩

end Value

/-! ## Pieces of building -/

namespace Builder

/-- A piece of building ends with an answer and a builder as `Q` says, or with a fault as `E` says. -/
def Meets {α : Type} (w : Building α) (b : Builder) (Q : α → Builder → Prop) (E : Fault → Prop) : Prop :=
  match w.run b with
  | .ok (a, b') => Q a b'
  | .error e => E e

section

variable {α β : Type} {w : Building α} {f : α → Building β} {b b' : Builder} {Q : α → Builder → Prop}
  {Q' : β → Builder → Prop} {E : Fault → Prop}

theorem Meets.bind (hw : Meets w b Q E) (hf : ∀ a b', Q a b' → Meets (f a) b' Q' E) :
    Meets (w >>= f) b Q' E := by
  unfold Meets at hw ⊢
  rw [StateT.run_bind]
  rcases hrun : w.run b with e | ⟨a, b₁⟩
  · rw [hrun] at hw
    exact hw
  · rw [hrun] at hw
    exact hf a b₁ hw

theorem Meets.mono {Q' : α → Builder → Prop} (hw : Meets w b Q E) (h : ∀ a b', Q a b' → Q' a b') :
    Meets w b Q' E := by
  unfold Meets at hw ⊢
  rcases hrun : w.run b with e | ⟨a, b₁⟩
  · rw [hrun] at hw
    exact hw
  · rw [hrun] at hw
    exact h a b₁ hw

theorem Meets.pure {a : α} (h : Q a b) : Meets (Pure.pure a) b Q E := h

theorem Meets.throw {e : Fault} (h : E e) : Meets (throw e : Building α) b Q E := h

/-- An answer or a fault that concerns no builder. -/
theorem Meets.lift {x : Except Fault α} (hok : ∀ a, x = .ok a → Q a b) (herror : ∀ e, x = .error e → E e) :
    Meets (liftM x : Building α) b Q E := by
  cases x with
  | ok a => exact hok a rfl
  | error e => exact herror e rfl

/-- What comes after a look at the builder. -/
theorem Meets.get {f : Builder → Building β} (h : Meets (f b) b Q' E) :
    Meets ((get : Building Builder) >>= f) b Q' E := h

/-- What comes after a change of the builder. -/
theorem Meets.set {f : PUnit → Building β} (h : Meets (f ⟨⟩) b' Q' E) :
    Meets ((set b' : Building PUnit) >>= f) b Q' E := h

end

/-! ## The log -/

/-- What the builder has met: the trails and descriptions of the nodes, in the order of their places. -/
abbrev Log := List (Trail × Value)

namespace Log

/-- A node of the log names the id as a type. -/
def Refers (log : Log) (p : Place) (slot : LinkSlot) (r : Scalar) : Prop :=
  ∃ t raw, log[p]? = some (t, raw) ∧ (raw.field slot.key).reference? = some r

/-- The list of extending declarations of a node. -/
def lineExtensions (p : Place) (raw : Value) : List (Place × Value) :=
  if (raw.field "extendedBy").isNull then [] else [(p, raw.field "extendedBy")]

/-- The lists of extending declarations of the nodes of a log; the first line is of the place `n`. -/
def extensions (n : Nat) : Log → List (Place × Value)
  | [] => []
  | (_, raw) :: rest => lineExtensions n raw ++ extensions (n + 1) rest

theorem extensions_append (n : Nat) (log new : Log) :
    extensions n (log ++ new) = extensions n log ++ extensions (n + log.length) new := by
  induction log generalizing n with
  | nil => simp [extensions]
  | cons line rest ih =>
    simp only [List.cons_append, extensions, ih, List.append_assoc, List.length_cons]
    rw [Nat.add_right_comm, Nat.add_assoc]

/-- The number of parts of lists of extending declarations. -/
def weight (es : List (Place × Value)) : Nat :=
  (es.map fun e => e.2.parts).sum

@[simp] theorem weight_append (es es' : List (Place × Value)) :
    weight (es ++ es') = weight es + weight es' := by
  simp [weight]

/-- The owner of a node: it has one in the tree below a module only. -/
def OwnerAt (log : Log) (t : Trail) (owner : Option Place) : Prop :=
  match t.owner? with
  | none => owner = none
  | some o => ∃ p raw, owner = some p ∧ log[p]? = some (o, raw)

/-- The attributes, the id and the owner of a node are as they are described. -/
structure Attributed (log : Log) (t : Trail) (raw : Value) (n : Node) : Prop where
  attributes : Node.attributes raw n.parent = .ok n.plain
  id : n.id = raw.id?
  parent : OwnerAt log t n.parent

/-- The places stand for nodes that are described one after the other, the first one at `trail k`. -/
inductive Listed (log : Log) (trail : Nat → Trail) : Nat → List Value → List Place → Prop
  | nil (k : Nat) : Listed log trail k [] []
  | cons {k : Nat} {raw : Value} {raws : List Value} {p : Place} {ps : List Place}
    (hp : log[p]? = some (trail k, raw)) (hps : Listed log trail (k + 1) raws ps) :
    Listed log trail k (raw :: raws) (p :: ps)

/-- A list of owned nodes is there when one is given, with the nodes in it. -/
def WiredList (log : Log) (trail : Nat → Trail) (v : Value) (ps : Option (List Place)) : Prop :=
  if v.isNull then ps = none else ∃ qs, ps = some qs ∧ Listed log trail 0 v.entries qs

/-- A type is there when one is given in place. -/
def WiredSlot (log : Log) (t : Trail) (v : Value) (p : Option Place) : Prop :=
  if v.isNull || v.reference?.isSome then p = none else ∃ q, p = some q ∧ log[q]? = some (t, v)

/-- The links of a node lead to what is described inside it at the keys `done`, and there are no
others. -/
structure Linking (log : Log) (t : Trail) (raw : Value) (done : List String) (n : Node) : Prop where
  lists : ∀ l : OwnedList, if l.key ∈ done then
      WiredList log (fun i => t.step (.owned l i)) (raw.field l.key) (n.list l)
    else n.list l = none
  slots : ∀ s : LinkSlot, if s.key ∈ done then
      WiredSlot log (t.step (.linked s)) (raw.field s.key) (n.slot s)
    else n.slot s = none
  extendedBy : n.extendedBy = none

/-- The links of a node lead to everything that is described inside it. -/
structure Wired (log : Log) (t : Trail) (raw : Value) (n : Node) : Prop where
  lists : ∀ l : OwnedList, WiredList log (fun i => t.step (.owned l i)) (raw.field l.key) (n.list l)
  slots : ∀ s : LinkSlot, WiredSlot log (t.step (.linked s)) (raw.field s.key) (n.slot s)
  extendedBy : n.extendedBy = none

variable {log new : Log} {t : Trail} {raw : Value} {n n' : Node} {done : List String}

theorem getElem?_append {p : Place} {line : Trail × Value} (h : log[p]? = some line) :
    (log ++ new)[p]? = some line := by
  obtain ⟨hp, rfl⟩ := List.getElem?_eq_some_iff.mp h
  rw [List.getElem?_append_left hp, List.getElem?_eq_getElem hp]

theorem OwnerAt.append {owner : Option Place} (h : OwnerAt log t owner) : OwnerAt (log ++ new) t owner := by
  unfold OwnerAt at h ⊢
  cases ho : t.owner? with
  | none =>
    rw [ho] at h
    exact h
  | some o =>
    rw [ho] at h
    obtain ⟨p, raw, hp, hlog⟩ := h
    exact ⟨p, raw, hp, getElem?_append hlog⟩

/-- What a node in the tree owns knows it, what another node owns knows no owner. -/
theorem OwnerAt.owned {p : Place} {l : OwnedList} {i : Nat} (h : log[p]? = some (t, raw)) :
    OwnerAt log (t.step (.owned l i)) (if t.inTree then some p else none) := by
  cases htree : t.inTree with
  | false => simp [OwnerAt, Trail.owner?, htree]
  | true => simp [OwnerAt, Trail.owner?, htree, h]

theorem Attributed.append (h : Attributed log t raw n) : Attributed (log ++ new) t raw n :=
  ⟨h.attributes, h.id, h.parent.append⟩

theorem Attributed.congr (h : Attributed log t raw n) (hplain : n'.plain = n.plain) (hid : n'.id = n.id) :
    Attributed log t raw n' := by
  have hparent : n'.parent = n.parent := show n'.plain.parent = n.plain.parent by rw [hplain]
  exact ⟨by rw [hparent, hplain]; exact h.attributes, hid.trans h.id, hparent ▸ h.parent⟩

theorem Listed.append {trail : Nat → Trail} {k : Nat} {raws : List Value} {ps : List Place}
    (h : Listed log trail k raws ps) : Listed (log ++ new) trail k raws ps := by
  induction h with
  | nil k => exact .nil k
  | cons hp _ ih => exact .cons (getElem?_append hp) ih

theorem WiredList.append {trail : Nat → Trail} {v : Value} {ps : Option (List Place)}
    (h : WiredList log trail v ps) : WiredList (log ++ new) trail v ps := by
  unfold WiredList at h ⊢
  split
  · rwa [if_pos ‹_›] at h
  · rw [if_neg ‹_›] at h
    obtain ⟨qs, hps, hqs⟩ := h
    exact ⟨qs, hps, hqs.append⟩

theorem WiredSlot.append {v : Value} {p : Option Place} (h : WiredSlot log t v p) :
    WiredSlot (log ++ new) t v p := by
  unfold WiredSlot at h ⊢
  split
  · rwa [if_pos ‹_›] at h
  · rw [if_neg ‹_›] at h
    obtain ⟨q, hp, hq⟩ := h
    exact ⟨q, hp, getElem?_append hq⟩

theorem Wired.append (h : Wired log t raw n) : Wired (log ++ new) t raw n :=
  ⟨fun l => (h.lists l).append, fun s => (h.slots s).append, h.extendedBy⟩

theorem Linking.append (h : Linking log t raw done n) (new : Log) : Linking (log ++ new) t raw done n where
  lists l := by
    have hl := h.lists l
    split
    · rw [if_pos ‹_›] at hl
      exact hl.append
    · rwa [if_neg ‹_›] at hl
  slots s := by
    have hs := h.slots s
    split
    · rw [if_pos ‹_›] at hs
      exact hs.append
    · rwa [if_neg ‹_›] at hs
  extendedBy := h.extendedBy

theorem key_inj {l l' : OwnedList} : l.key = l'.key ↔ l = l' := by
  cases l <;> cases l' <;> decide

theorem slotKey_inj {s s' : LinkSlot} : s.key = s'.key ↔ s = s' := by
  cases s <;> cases s' <;> decide

theorem key_ne_slotKey (l : OwnedList) (s : LinkSlot) : l.key ≠ s.key := by
  cases l <;> cases s <;> decide

/-- A list has been met. -/
theorem Linking.own (h : Linking log t raw done n) {l : OwnedList}
    (hlist : ∀ l' ≠ l, n'.list l' = n.list l') (hslot : ∀ s, n'.slot s = n.slot s)
    (hextended : n'.extendedBy = n.extendedBy)
    (hwired : WiredList log (fun i => t.step (.owned l i)) (raw.field l.key) (n'.list l)) :
    Linking log t raw (l.key :: done) n' where
  lists l' := by
    by_cases hl : l' = l
    · subst hl
      rw [if_pos List.mem_cons_self]
      exact hwired
    · simp only [List.mem_cons, key_inj, hl, false_or, hlist l' hl]
      exact h.lists l'
  slots s := by
    simp only [List.mem_cons, (key_ne_slotKey l s).symm, false_or, hslot s]
    exact h.slots s
  extendedBy := hextended.trans h.extendedBy

/-- A type has been met. -/
theorem Linking.fill (h : Linking log t raw done n) {s : LinkSlot} (hlist : ∀ l, n'.list l = n.list l)
    (hslot : ∀ s' ≠ s, n'.slot s' = n.slot s') (hextended : n'.extendedBy = n.extendedBy)
    (hwired : WiredSlot log (t.step (.linked s)) (raw.field s.key) (n'.slot s)) :
    Linking log t raw (s.key :: done) n' where
  lists l := by
    simp only [List.mem_cons, key_ne_slotKey l s, false_or, hlist l]
    exact h.lists l
  slots s' := by
    by_cases hs : s' = s
    · subst hs
      rw [if_pos List.mem_cons_self]
      exact hwired
    · simp only [List.mem_cons, slotKey_inj, hs, false_or, hslot s' hs]
      exact h.slots s'
  extendedBy := hextended.trans h.extendedBy

theorem Linking.wired (h : Linking log t raw done n) (hlists : ∀ l : OwnedList, l.key ∈ done)
    (hslots : ∀ s : LinkSlot, s.key ∈ done) : Wired log t raw n where
  lists l := by
    have hl := h.lists l
    rwa [if_pos (hlists l)] at hl
  slots s := by
    have hs := h.slots s
    rwa [if_pos (hslots s)] at hs
  extendedBy := h.extendedBy

end Log

open Log

/-! ## What is kept -/

/-- What holds of the log and the builder. -/
structure Kept (doc : Value) (log : Log) (b : Builder) : Prop where
  size : b.graph.size = log.length
  nodup : (log.map Prod.fst).Nodup
  described : ∀ {t : Trail} {raw : Value}, (t, raw) ∈ log → doc.nodeAt? t = some raw ∧ raw.isMapping = true
  attributed : ∀ {p : Place} {t : Trail} {raw : Value}, log[p]? = some (t, raw) →
    Attributed log t raw (b.graph.node p)
  unique : b.index.Nodup
  index : ∀ {id : Scalar} {p : Place}, (id, p) ∈ b.index ↔
    ∃ t raw, log[p]? = some (t, raw) ∧ raw.id? = some id

/-- What a step adds to the log. Nodes met before stay as they are; the new ones are complete but for
what they name by ids, which is noted, and for extending declarations. -/
structure Larger (doc : Value) (log : Log) (b : Builder) (new : Log) (b' : Builder) : Prop where
  kept : Kept doc (log ++ new) b'
  same : ∀ q < log.length, b'.graph.node q = b.graph.node q
  wired : ∀ {p : Place} {t : Trail} {raw : Value}, log.length ≤ p → (log ++ new)[p]? = some (t, raw) →
    Wired (log ++ new) t raw (b'.graph.node p)
  pending : ∀ {p slot r}, (p, slot, r) ∈ b'.pending ↔
    (p, slot, r) ∈ b.pending ∨ log.length ≤ p ∧ Refers (log ++ new) p slot r

/-- The extending declarations of the new nodes are noted as well. -/
structure Grown (doc : Value) (log : Log) (b : Builder) (new : Log) (b' : Builder) : Prop
    extends Larger doc log b new b' where
  extensions : b'.extensions.Perm (b.extensions ++ Log.extensions log.length new)

/-- A change of one node that concerns none of its attributes. -/
structure Touched (p : Place) (b b' : Builder) : Prop where
  size : b'.graph.size = b.graph.size
  same : ∀ q, q ≠ p → b'.graph.node q = b.graph.node q
  plain : (b'.graph.node p).plain = (b.graph.node p).plain
  id : (b'.graph.node p).id = (b.graph.node p).id
  index : b'.index = b.index
  extensions : b'.extensions = b.extensions

section

variable {doc raw : Value} {log new new' : Log} {b b' b'' : Builder} {p : Place} {t : Trail}

theorem Touched.refl (p : Place) (b : Builder) : Touched p b b :=
  ⟨rfl, fun _ _ => rfl, rfl, rfl, rfl, rfl⟩

theorem Touched.of_graph (hgraph : b'.graph = b.graph) (hext : b'.extensions = b.extensions) :
    Touched p b b' where
  size := by rw [hgraph]
  same q _ := by rw [hgraph]
  plain := by rw [hgraph]
  id := by rw [hgraph]
  index := congrArg Graph.index hgraph
  extensions := hext

theorem touched_changed {f : Node → Node} (hp : p < b.graph.size) (hplain : ∀ n, (f n).plain = n.plain)
    (hid : ∀ n, (f n).id = n.id) : Touched p b (b.changed p f) where
  size := b.size_changed p f
  same q hq := by rw [b.node_changed f hp, if_neg hq]
  plain := by rw [b.node_changed f hp, if_pos rfl, hplain]
  id := by rw [b.node_changed f hp, if_pos rfl, hid]
  index := rfl
  extensions := rfl

theorem plain_own (n : Node) (l : OwnedList) (ps : List Place) : (n.own l ps).plain = n.plain := by
  cases l <;> rfl

theorem plain_fill (n : Node) (s : LinkSlot) (p : Place) : (n.fill s p).plain = n.plain := by
  cases s <;> rfl

/-- A trail has one place. -/
theorem Kept.place_unique (h : Kept doc log b) {q : Place} {raw' : Value} (hp : log[p]? = some (t, raw))
    (hq : log[q]? = some (t, raw')) : p = q := by
  have hp' : (log.map Prod.fst)[p]? = some t := by rw [List.getElem?_map, hp]; rfl
  have hq' : (log.map Prod.fst)[q]? = some t := by rw [List.getElem?_map, hq]; rfl
  have hlt := (List.getElem?_eq_some_iff.mp hp').1
  exact (List.getElem?_inj hlt h.nodup).mp (hp'.trans hq'.symm)

theorem Kept.touched (h : Kept doc log b) (ht : Touched p b b') : Kept doc log b' where
  size := ht.size.trans h.size
  nodup := h.nodup
  described := h.described
  attributed {q t raw} hq := by
    by_cases hqp : q = p
    · subst hqp
      exact (h.attributed hq).congr ht.plain ht.id
    · rw [ht.same q hqp]
      exact h.attributed hq
  unique := ht.index ▸ h.unique
  index {id q} := by rw [ht.index, h.index]

/-- Only the table and the index matter. -/
theorem Kept.congr (h : Kept doc log b) (hgraph : b'.graph = b.graph) : Kept doc log b' := by
  have hindex : b'.index = b.index := congrArg Graph.index hgraph
  exact ⟨hgraph ▸ h.size, h.nodup, h.described, fun hline => hgraph ▸ h.attributed hline,
    hindex ▸ h.unique, hindex ▸ h.index⟩

theorem Larger.refl (h : Kept doc log b) : Larger doc log b [] b where
  kept := by simpa using h
  same _ _ := rfl
  wired {p t raw} hp hline := by
    rw [List.append_nil] at hline
    exact absurd (List.getElem?_eq_some_iff.mp hline).1 (Nat.not_lt.mpr hp)
  pending {p slot r} := by
    refine ⟨.inl, ?_⟩
    rintro (h | ⟨hp, t, raw, hline, -⟩)
    · exact h
    · rw [List.append_nil] at hline
      exact absurd (List.getElem?_eq_some_iff.mp hline).1 (Nat.not_lt.mpr hp)

theorem Grown.refl (h : Kept doc log b) : Grown doc log b [] b :=
  ⟨.refl h, by simp [Log.extensions]⟩

theorem Log.Refers.append {slot : LinkSlot} {r : Scalar} (h : Refers log p slot r) :
    Refers (log ++ new) p slot r := by
  obtain ⟨t, raw, hline, hr⟩ := h
  exact ⟨t, raw, getElem?_append hline, hr⟩

theorem Log.Refers.of_append {slot : LinkSlot} {r : Scalar} (h : Refers (log ++ new) p slot r)
    (hp : p < log.length) : Refers log p slot r := by
  obtain ⟨t, raw, hline, hr⟩ := h
  rw [List.getElem?_append_left hp] at hline
  exact ⟨t, raw, hline, hr⟩

theorem Larger.trans (h : Larger doc log b new b') (h' : Larger doc (log ++ new) b' new' b'') :
    Larger doc log b (new ++ new') b'' where
  kept := by simpa using h'.kept
  same q hq := by
    rw [h'.same q (by rw [List.length_append]; omega), h.same q hq]
  wired {p t raw} hp hline := by
    rw [← List.append_assoc] at hline ⊢
    by_cases hnew : p < (log ++ new).length
    · rw [h'.same p hnew]
      rw [List.getElem?_append_left hnew] at hline
      exact (h.wired hp hline).append
    · exact h'.wired (Nat.le_of_not_lt hnew) hline
  pending {p slot r} := by
    rw [h'.pending, h.pending, ← List.append_assoc, or_assoc]
    refine or_congr_right ⟨?_, ?_⟩
    · rintro (⟨hp, hr⟩ | ⟨hp, hr⟩)
      · exact ⟨hp, hr.append⟩
      · exact ⟨Nat.le_trans (by simp) hp, hr⟩
    · rintro ⟨hp, hr⟩
      by_cases hnew : p < (log ++ new).length
      · exact .inl ⟨hp, hr.of_append hnew⟩
      · exact .inr ⟨Nat.le_of_not_lt hnew, hr⟩

theorem Grown.trans (h : Grown doc log b new b') (h' : Grown doc (log ++ new) b' new' b'') :
    Grown doc log b (new ++ new') b'' where
  toLarger := h.toLarger.trans h'.toLarger
  extensions := by
    refine h'.extensions.trans ?_
    rw [extensions_append, List.length_append, ← List.append_assoc]
    exact h.extensions.append_right _

/-- A node met before, changed after the step. -/
theorem Grown.node_changed (h : Grown doc log b new b') (hp : p < log.length) (f : Node → Node) :
    p < b'.graph.size ∧ (b'.changed p f).graph.node p = f (b.graph.node p) := by
  have hlt : p < b'.graph.size := by
    rw [h.kept.size, List.length_append]
    exact Nat.lt_add_right _ hp
  refine ⟨hlt, ?_⟩
  rw [Builder.node_changed _ _ hlt, if_pos rfl, h.same p hp]

end

end Builder

end SymbolDocs
