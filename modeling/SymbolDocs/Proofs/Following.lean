import SymbolDocs.Proofs.Building

/-!
# Following the builder through a document

A node is put into the table before anything inside it, then its lists and types are met key by key.
What has been met at one key is never touched by the work at another one, since the trails part there.

* `Builder.Entered` is a builder with a new node in it;
* `Builder.Underway` is a node that is being built, with what has been met of it so far;
* `Builder.Met` and `Builder.MetAll` are nodes that are built;
* `Builder.buildNode_meets` and its companions follow the walk.
-/

namespace SymbolDocs

/-- The key at which a step finds a node. -/
def Trail.Step.key : Trail.Step → String
  | .owned list _ => list.key
  | .linked slot => slot.key
  | .extension _ => "extendedBy"

namespace Builder

open Log

/-! ## A new node -/

/-- A node put at the end of the table, with its id. -/
structure Entered (b : Builder) (n : Node) (id : Option Scalar) (b' : Builder) : Prop where
  size : b'.graph.size = b.graph.size + 1
  same : ∀ q < b.graph.size, b'.graph.node q = b.graph.node q
  node : b'.graph.node b.graph.size = { n with id := id }
  index : b'.index = b.index ++ (id.map fun a => (a, b.graph.size)).toList
  pending : b'.pending = b.pending
  extensions : b'.extensions = b.extensions

/-- A new node gets its id, unless a node has it already. -/
theorem register_meets {b : Builder} {n : Node} {id : Option Scalar} {E : Fault → Prop}
    (hnone : n.id = none)
    (hE : ∀ a k q, id = some a → (k, q) ∈ b.index → k.same a = true → E (.load (.duplicateId a))) :
    Meets (register b.graph.size id) (b.added n) (fun _ b' => Entered b n id b') E := by
  have hsame : ∀ q < b.graph.size, (b.added n).graph.node q = b.graph.node q := by
    intro q hq
    rw [node_added, if_neg (Nat.ne_of_lt hq)]
  have hnode : (b.added n).graph.node b.graph.size = n := by
    rw [node_added, if_pos rfl]
  cases id with
  | none =>
    refine Meets.pure ⟨b.size_added n, hsame, ?_, (List.append_nil _).symm, rfl, rfl⟩
    rw [hnode, ← hnone]
  | some a =>
    refine Meets.get ?_
    dsimp only
    split
    · rename_i hsome
      obtain ⟨q, hq⟩ := Option.isSome_iff_exists.mp hsome
      obtain ⟨k, hmem, hk⟩ := Graph.exists_of_lookup? hq
      exact hE a k q rfl hmem hk
    · have hlt : b.graph.size < (b.added n).graph.size := by
        rw [size_added]
        exact Nat.lt_succ_self _
      have hregistered := (b.added n).node_registered a hlt
      show Entered b n (some a) ((b.added n).registered b.graph.size a)
      refine ⟨(size_changed _ _ _).trans (b.size_added n), fun q hq => ?_, ?_, rfl, rfl, rfl⟩
      · rw [hregistered, if_neg (Nat.ne_of_lt hq), hsame q hq]
      · rw [hregistered, if_pos rfl, hnode]

/-- The attributes of a node involve no other node but its owner. -/
theorem plain_of_attributes {raw : Value} {owner : Option Place} {n : Node}
    (h : Node.attributes raw owner = .ok n) : n.plain = n ∧ n.parent = owner := by
  simp only [Node.attributes, bind, Except.bind, pure, Except.pure] at h
  repeat' split at h
  all_goals cases h
  all_goals exact ⟨rfl, rfl⟩

section

variable {doc raw : Value} {log new : Log} {b b' : Builder} {t : Trail} {owner : Option Place} {n : Node}

theorem Kept.entered (h : Kept doc log b) (hb : Entered b n raw.id? b') (ht : doc.nodeAt? t = some raw)
    (hraw : raw.isMapping = true) (hfresh : ∀ line ∈ log, ¬ t.Under line.1)
    (hn : Node.attributes raw owner = .ok n) (howner : OwnerAt log t owner) :
    Kept doc (log ++ [(t, raw)]) b' where
  size := by rw [hb.size, h.size, List.length_append, List.length_singleton]
  nodup := by
    rw [List.map_append, List.nodup_append']
    refine ⟨h.nodup, List.nodup_singleton _, ?_⟩
    rw [List.map_singleton, List.disjoint_singleton]
    intro hmem
    obtain ⟨line, hline, rfl⟩ := List.mem_map.mp hmem
    exact hfresh line hline .refl
  described {t' raw'} hline := by
    rcases List.mem_append.mp hline with hold | hnew
    · exact h.described hold
    · cases List.mem_singleton.mp hnew
      exact ⟨ht, hraw⟩
  attributed {q t' raw'} hline := by
    obtain ⟨hplain, hparent⟩ := plain_of_attributes hn
    rcases Nat.lt_trichotomy q log.length with hq | rfl | hq
    · rw [List.getElem?_append_left hq] at hline
      rw [hb.same q (h.size ▸ hq)]
      exact (h.attributed hline).append
    · rw [List.getElem?_concat_length] at hline
      cases hline
      rw [← h.size, hb.node]
      refine ⟨?_, rfl, ?_⟩
      · show Node.attributes raw n.parent = .ok n.plain
        rw [hparent, hplain, hn]
      · show OwnerAt _ t n.parent
        rw [hparent]
        exact howner.append
    · rw [List.getElem?_eq_none (by simp; omega)] at hline
      cases hline
  unique := by
    rw [hb.index, List.nodup_append']
    refine ⟨h.unique, by cases raw.id? <;> simp, fun e he hnew => ?_⟩
    -- a place in the index has a line, the new one has none yet
    obtain ⟨a, -, rfl⟩ := Option.map_eq_some_iff.mp (Option.mem_toList.mp hnew)
    obtain ⟨t', raw', hline, -⟩ := h.index.mp he
    rw [h.size] at hline
    exact absurd (List.getElem?_eq_some_iff.mp hline).1 (Nat.lt_irrefl _)
  index {id q} := by
    have hnew : (id, q) ∈ (raw.id?.map fun a => (a, b.graph.size)).toList ↔
        raw.id? = some id ∧ q = log.length := by
      rw [Option.mem_toList, Option.map_eq_some_iff, h.size]
      simp only [Prod.mk.injEq]
      exact ⟨fun ⟨a, ha, haid, hq⟩ => ⟨haid ▸ ha, hq.symm⟩, fun ⟨ha, hq⟩ => ⟨id, ha, rfl, hq.symm⟩⟩
    rw [hb.index, List.mem_append, h.index, hnew]
    constructor
    · rintro (⟨t', raw', hline, hid⟩ | ⟨hid, rfl⟩)
      · exact ⟨t', raw', getElem?_append hline, hid⟩
      · exact ⟨t, raw, List.getElem?_concat_length, hid⟩
    · rintro ⟨t', raw', hline, hid⟩
      by_cases hq : q < log.length
      · rw [List.getElem?_append_left hq] at hline
        exact .inl ⟨t', raw', hline, hid⟩
      · rw [List.getElem?_append_right (Nat.le_of_not_lt hq)] at hline
        obtain ⟨hlt, hget⟩ := List.getElem?_eq_some_iff.mp hline
        rw [List.length_singleton, Nat.lt_one_iff] at hlt
        simp only [hlt, List.getElem_cons_zero, Prod.mk.injEq] at hget
        obtain ⟨rfl, rfl⟩ := hget
        exact .inr ⟨hid, Nat.le_antisymm (Nat.sub_eq_zero_iff_le.mp hlt) (Nat.le_of_not_lt hq)⟩

end

/-! ## A node that is being built -/

/-- A node is being built: it stands behind the log, with its attributes, and what is described inside
it at the keys `done` has been met. -/
structure Underway (doc : Value) (log : Log) (b : Builder) (t : Trail) (fields : Fields)
    (done : List String) (new : Log) (b' : Builder) : Prop where
  fresh : ∀ line ∈ log, ¬ t.Under line.1
  kept : Kept doc (log ++ (t, .map fields) :: new) b'
  same : ∀ q < log.length, b'.graph.node q = b.graph.node q
  wired : ∀ {q : Place} {t' : Trail} {raw : Value}, log.length < q →
    (log ++ (t, .map fields) :: new)[q]? = some (t', raw) →
    Wired (log ++ (t, .map fields) :: new) t' raw (b'.graph.node q)
  linking : Linking (log ++ (t, .map fields) :: new) t (.map fields) done (b'.graph.node log.length)
  pending : ∀ {q slot r}, (q, slot, r) ∈ b'.pending ↔ (q, slot, r) ∈ b.pending ∨
    log.length ≤ q ∧ Refers (log ++ (t, .map fields) :: new) q slot r ∧ (q = log.length → slot.key ∈ done)
  extensions : b'.extensions.Perm (b.extensions ++ Log.extensions (log.length + 1) new)
  inside : ∀ line ∈ new, ∃ s : Trail.Step, s.key ∈ done ∧ (∀ i, s ≠ .extension i) ∧
    (t.step s).Inside line.1
  weight : weight (Log.extensions (log.length + 1) new) ≤ (done.map fun key => Value.partsAt key fields).sum

section

variable {doc : Value} {log new more : Log} {b b' b₁ b₂ : Builder} {t : Trail} {fields : Fields}
  {done : List String} {key : String}

theorem Underway.getElem?_length (log : Log) (line : Trail × Value) (new : Log) :
    (log ++ line :: new)[log.length]? = some line := by
  rw [List.getElem?_append_right (Nat.le_refl _), Nat.sub_self, List.getElem?_cons_zero]

theorem Underway.described (h : Underway doc log b t fields done new b') :
    doc.nodeAt? t = some (.map fields) :=
  (h.kept.described (List.mem_append_right _ List.mem_cons_self)).1

/-- What stands at another key has not been met. -/
theorem Underway.fresh_step (h : Underway doc log b t fields done new b') {s : Trail.Step}
    (hs : s.key ∉ done) : ∀ line ∈ log ++ (t, .map fields) :: new, ¬ (t.step s).Under line.1 := by
  intro line hline hunder
  rcases List.mem_append.mp hline with hold | hline
  · exact h.fresh line hold hunder.of_step
  · rcases List.mem_cons.mp hline with rfl | hnew
    · exact Trail.not_step_under t s hunder
    · obtain ⟨s', hdone, -, hinside⟩ := h.inside line hnew
      exact hs (hunder.step_unique hinside.under ▸ hdone)

/-- Before anything inside the node has been met. -/
theorem Underway.start {owner : Option Place} {n : Node} (h : Kept doc log b)
    (hb : Entered b n (Value.map fields).id? b') (ht : doc.nodeAt? t = some (.map fields))
    (hfresh : ∀ line ∈ log, ¬ t.Under line.1) (hn : Node.attributes (.map fields) owner = .ok n)
    (howner : OwnerAt log t owner) : Underway doc log b t fields [] [] b' where
  fresh := hfresh
  kept := h.entered hb ht rfl hfresh hn howner
  same q hq := hb.same q (h.size ▸ hq)
  wired {q t' raw} hq hline := by
    rw [List.getElem?_eq_none (by simp; omega)] at hline
    cases hline
  linking := by
    have hnode : b'.graph.node log.length = { n.plain with id := (Value.map fields).id? } := by
      rw [(plain_of_attributes hn).1, ← h.size, hb.node]
    rw [hnode]
    exact ⟨fun l => by cases l <;> rfl, fun s => by cases s <;> rfl, rfl⟩
  pending {q slot r} := by
    rw [hb.pending]
    refine ⟨.inl, ?_⟩
    rintro (hold | ⟨hq, ⟨t', raw, hline, -⟩, hdone⟩)
    · exact hold
    · have hlt := (List.getElem?_eq_some_iff.mp hline).1
      rw [List.length_append, List.length_singleton] at hlt
      exact absurd (hdone (Nat.le_antisymm (Nat.lt_succ_iff.mp hlt) hq)) List.not_mem_nil
  extensions := by simp [hb.extensions, Log.extensions]
  inside _ hline := absurd hline List.not_mem_nil
  weight := Nat.le_refl 0

/-- What stands at one more key has been met, and the node has been changed accordingly. -/
theorem Underway.advance (h : Underway doc log b t fields done new b') (key : String)
    (hgrown : Grown doc (log ++ (t, .map fields) :: new) b' more b₁) (htouched : Touched log.length b₁ b₂)
    (hlinking : Linking (log ++ (t, .map fields) :: (new ++ more)) t (.map fields) (key :: done)
      (b₂.graph.node log.length))
    (hpending : ∀ {q slot r}, (q, slot, r) ∈ b₂.pending ↔ (q, slot, r) ∈ b₁.pending ∨
      q = log.length ∧ slot.key = key ∧ ((Value.map fields).field slot.key).reference? = some r)
    (hinside : ∀ line ∈ more, ∃ s : Trail.Step, s.key = key ∧ (∀ i, s ≠ .extension i) ∧
      (t.step s).Inside line.1)
    (hweight : Log.weight (Log.extensions (log.length + 1 + new.length) more) ≤ Value.partsAt key fields) :
    Underway doc log b t fields (key :: done) (new ++ more) b₂ where
  fresh := h.fresh
  kept := by simpa using hgrown.kept.touched htouched
  same q hq := by
    rw [htouched.same q (Nat.ne_of_lt hq), hgrown.same q (by simp; omega), h.same q hq]
  wired {q t' raw} hq hline := by
    rw [← List.cons_append, ← List.append_assoc] at hline ⊢
    rw [htouched.same q (Nat.ne_of_gt hq)]
    by_cases hnew : q < (log ++ (t, .map fields) :: new).length
    · rw [hgrown.same q hnew]
      rw [List.getElem?_append_left hnew] at hline
      exact (h.wired hq hline).append
    · exact hgrown.wired (Nat.le_of_not_lt hnew) hline
  linking := hlinking
  pending {q slot r} := by
    have hself : Refers (log ++ (t, .map fields) :: (new ++ more)) log.length slot r ↔
        ((Value.map fields).field slot.key).reference? = some r := by
      unfold Refers
      rw [getElem?_length]
      simp
    rw [← List.cons_append, ← List.append_assoc] at hself ⊢
    rw [hpending, hgrown.pending, h.pending, or_assoc, or_assoc]
    refine or_congr_right ⟨?_, ?_⟩
    · rintro (⟨hq, hr, hdone⟩ | ⟨hq, hr⟩ | ⟨rfl, rfl, hr⟩)
      · exact ⟨hq, hr.append, fun heq => List.mem_cons_of_mem _ (hdone heq)⟩
      · have hlt : log.length < q := Nat.lt_of_lt_of_le (by simp) hq
        exact ⟨Nat.le_of_lt hlt, hr, fun heq => absurd heq (Nat.ne_of_gt hlt)⟩
      · exact ⟨Nat.le_refl _, hself.mpr hr, fun _ => List.mem_cons_self⟩
    · rintro ⟨hq, hr, hdone⟩
      by_cases hnew : q < (log ++ (t, .map fields) :: new).length
      · by_cases heq : q = log.length
        · subst heq
          rcases List.mem_cons.mp (hdone rfl) with hkey | hkey
          · exact .inr (.inr ⟨rfl, hkey, hself.mp hr⟩)
          · exact .inl ⟨hq, hr.of_append hnew, fun _ => hkey⟩
        · exact .inl ⟨hq, hr.of_append hnew, fun heq' => absurd heq' heq⟩
      · exact .inr (.inl ⟨Nat.le_of_not_lt hnew, hr⟩)
  extensions := by
    rw [htouched.extensions]
    refine hgrown.extensions.trans ?_
    have hlength : (log ++ (t, Value.map fields) :: new).length = log.length + 1 + new.length := by
      simp only [List.length_append, List.length_cons]
      omega
    rw [extensions_append, hlength, ← List.append_assoc]
    exact h.extensions.append_right _
  inside line hline := by
    rcases List.mem_append.mp hline with hold | hmore
    · obtain ⟨s, hdone, hs⟩ := h.inside line hold
      exact ⟨s, List.mem_cons_of_mem _ hdone, hs⟩
    · obtain ⟨s, rfl, hs⟩ := hinside line hmore
      exact ⟨s, List.mem_cons_self, hs⟩
  weight := by
    rw [extensions_append, weight_append, List.map_cons, List.sum_cons, Nat.add_comm]
    exact Nat.add_le_add hweight h.weight

/-- What is linked stays so when the log grows. -/
theorem Underway.linking_append (h : Underway doc log b t fields done new b') (more : Log) :
    Linking (log ++ (t, .map fields) :: (new ++ more)) t (.map fields) done (b'.graph.node log.length) := by
  have happend := h.linking.append more
  rwa [List.append_assoc, List.cons_append] at happend

/-- A list names no type. -/
theorem mem_pending_iff {p q : Place} {l : OwnedList} {slot : LinkSlot} {r : Scalar} :
    (q, slot, r) ∈ b.pending ↔ (q, slot, r) ∈ b.pending ∨ q = p ∧ slot.key = l.key ∧
      ((Value.map fields).field slot.key).reference? = some r := by
  refine ⟨.inl, ?_⟩
  rintro (hold | ⟨-, hkey, -⟩)
  · exact hold
  · exact absurd hkey.symm (key_ne_slotKey l slot)

/-- A list of owned nodes has been met and set. -/
theorem Underway.own (h : Underway doc log b t fields done new b') {l : OwnedList} {ps : List Place}
    (hgrown : Grown doc (log ++ (t, .map fields) :: new) b' more b₁)
    (hnull : ((Value.map fields).field l.key).isNull = false)
    (hlisted : Listed (log ++ (t, .map fields) :: (new ++ more)) (fun i => t.step (.owned l i)) 0
      ((Value.map fields).field l.key).entries ps)
    (hinside : ∀ line ∈ more, ∃ i, (t.step (.owned l i)).Inside line.1)
    (hweight : Log.weight (Log.extensions (log.length + 1 + new.length) more) ≤
      Value.partsAt l.key fields) :
    Underway doc log b t fields (l.key :: done) (new ++ more)
      (b₁.changed log.length fun n => n.own l ps) := by
  obtain ⟨hlt, hnode⟩ := hgrown.node_changed (p := log.length) (by simp) fun n => n.own l ps
  refine h.advance l.key hgrown (touched_changed hlt (plain_own · l ps) (id_own · l ps)) ?_
    mem_pending_iff ?_ hweight
  · rw [hnode]
    refine (h.linking_append more).own (fun l' hl' => ?_) (fun s => ?_) ?_ ?_
    · cases l <;> cases l' <;> first | rfl | exact absurd rfl hl'
    · cases l <;> cases s <;> rfl
    · cases l <;> rfl
    · rw [WiredList, hnull]
      exact ⟨ps, by cases l <;> rfl, hlisted⟩
  · intro line hline
    obtain ⟨i, hi⟩ := hinside line hline
    exact ⟨.owned l i, rfl, nofun, hi⟩

/-- There is no list of owned nodes. -/
theorem Underway.skip (h : Underway doc log b t fields done new b') {l : OwnedList} (hl : l.key ∉ done)
    (hnull : ((Value.map fields).field l.key).isNull = true) :
    Underway doc log b t fields (l.key :: done) new b' := by
  have hlinking : Linking (log ++ (t, .map fields) :: new) t (.map fields) (l.key :: done)
      (b'.graph.node log.length) := by
    refine h.linking.own (fun _ _ => rfl) (fun _ => rfl) rfl ?_
    have hnone := h.linking.lists l
    rw [if_neg hl] at hnone
    rw [WiredList, hnull]
    exact hnone
  have hadvance := h.advance l.key (Grown.refl h.kept) (Touched.refl log.length b')
    (by rwa [List.append_nil]) mem_pending_iff (fun _ hline => absurd hline List.not_mem_nil)
    (Nat.zero_le _)
  rwa [List.append_nil] at hadvance

/-- A type described in place has been met and set. -/
theorem Underway.fill (h : Underway doc log b t fields done new b') {slot : LinkSlot} {p : Place}
    (hgrown : Grown doc (log ++ (t, .map fields) :: new) b' more b₁)
    (hslot : ((Value.map fields).field slot.key).isMapping = true)
    (hline : (log ++ (t, .map fields) :: (new ++ more))[p]? =
      some (t.step (.linked slot), (Value.map fields).field slot.key))
    (hinside : ∀ line ∈ more, (t.step (.linked slot)).Inside line.1)
    (hweight : Log.weight (Log.extensions (log.length + 1 + new.length) more) ≤
      Value.partsAt slot.key fields) :
    Underway doc log b t fields (slot.key :: done) (new ++ more)
      (b₁.changed log.length fun n => n.fill slot p) := by
  obtain ⟨hlt, hnode⟩ := hgrown.node_changed (p := log.length) (by simp) fun n => n.fill slot p
  have hreference : ((Value.map fields).field slot.key).isNull = false ∧
      ((Value.map fields).field slot.key).reference? = none := by
    cases hfield : (Value.map fields).field slot.key with
    | map inner => exact ⟨rfl, rfl⟩
    | scalar s | list items =>
      rw [hfield] at hslot
      cases hslot
  refine h.advance slot.key hgrown (touched_changed hlt (plain_fill · slot p) (id_fill · slot p)) ?_ ?_
    ?_ hweight
  · rw [hnode]
    refine (h.linking_append more).fill (fun l => ?_) (fun s hs => ?_) ?_ ?_
    · cases l <;> cases slot <;> rfl
    · cases s <;> cases slot <;> first | rfl | exact absurd rfl hs
    · cases slot <;> rfl
    · rw [WiredSlot, hreference.1, hreference.2]
      exact ⟨p, by cases slot <;> rfl, hline⟩
  · intro q slot' r
    refine ⟨.inl, ?_⟩
    rintro (hold | ⟨-, hkey, hr⟩)
    · exact hold
    · rw [hkey, hreference.2] at hr
      cases hr
  · exact fun line hline => ⟨.linked slot, rfl, nofun, hinside line hline⟩

/-- There is no type, or its id has been noted. -/
theorem Underway.name (h : Underway doc log b t fields done new b') {slot : LinkSlot} (hs : slot.key ∉ done)
    (hslot : (((Value.map fields).field slot.key).isNull ||
      ((Value.map fields).field slot.key).reference?.isSome) = true)
    (hgraph : b₂.graph = b'.graph) (hext : b₂.extensions = b'.extensions)
    (hpending : b₂.pending = b'.pending ++ (((Value.map fields).field slot.key).reference?.map
      fun r => (log.length, slot, r)).toList) :
    Underway doc log b t fields (slot.key :: done) new b₂ := by
  have hlinking : Linking (log ++ (t, .map fields) :: new) t (.map fields) (slot.key :: done)
      (b₂.graph.node log.length) := by
    rw [hgraph]
    refine h.linking.fill (fun _ => rfl) (fun _ _ => rfl) rfl ?_
    have hnone := h.linking.slots slot
    rw [if_neg hs] at hnone
    rw [WiredSlot, hslot]
    exact hnone
  have hadvance := h.advance slot.key (Grown.refl h.kept) (Touched.of_graph hgraph hext)
    (by rwa [List.append_nil]) ?_ (fun _ hline => absurd hline List.not_mem_nil)
    (Nat.zero_le _)
  · rwa [List.append_nil] at hadvance
  · intro q slot' r
    rw [hpending, List.mem_append, slotKey_inj]
    refine or_congr_right ?_
    simp only [Option.mem_toList, Option.map_eq_some_iff, Prod.mk.injEq]
    constructor
    · rintro ⟨r', hr, rfl, rfl, rfl⟩
      exact ⟨rfl, rfl, hr⟩
    · rintro ⟨rfl, rfl, hr⟩
      exact ⟨r, hr, rfl, rfl, rfl⟩

end

/-! ## Nodes that are built -/

/-- A node is built, with everything inside it. -/
structure Met (doc : Value) (log : Log) (b : Builder) (t : Trail) (raw : Value) (p : Place) (new : Log)
    (b' : Builder) : Prop where
  grown : Grown doc log b new b'
  line : (log ++ new)[p]? = some (t, raw)
  inside : ∀ line ∈ new, t.Inside line.1
  weight : weight (Log.extensions log.length new) < raw.parts

/-- Nodes are built that are described one after the other. -/
structure MetAll (doc : Value) (log : Log) (b : Builder) (trail : Nat → Trail) (k : Nat) (raws : List Value)
    (ps : List Place) (new : Log) (b' : Builder) : Prop where
  grown : Grown doc log b new b'
  listed : Listed (log ++ new) trail k raws ps
  inside : ∀ line ∈ new, ∃ i, k ≤ i ∧ (trail i).Inside line.1
  weight : weight (Log.extensions log.length new) ≤ Value.partsOfItems raws

section

variable {doc raw : Value} {log new new' : Log} {b b' b'' : Builder} {t : Trail} {fields : Fields}

theorem weight_lineExtensions_le (p : Place) (fields : Fields) :
    weight (lineExtensions p (.map fields)) ≤ Value.partsAt "extendedBy" fields := by
  unfold lineExtensions
  split
  · exact Nat.zero_le _
  · rename_i hnull
    cases hget : Fields.get? (.text "extendedBy") fields with
    | none =>
      rw [Value.field_of_none hget] at hnull
      exact absurd rfl hnull
    | some v => simp [Log.weight, Value.partsAt, Value.field_of_get? hget, hget]

/-- Everything inside a node has been met and its extending declarations are noted. -/
theorem Underway.finish
    (h : Underway doc log b t fields ["resolvedType", "type", "typeParameters", "parameters", "children"]
      new b')
    (hgraph : b''.graph = b'.graph) (hpending : b''.pending = b'.pending)
    (hext : b''.extensions = b'.extensions ++ lineExtensions log.length (.map fields)) :
    Met doc log b t (.map fields) log.length ((t, .map fields) :: new) b'' where
  grown :=
    { kept := h.kept.congr hgraph
      same := fun q hq => by rw [hgraph, h.same q hq]
      wired := fun {q t' raw} hq hline => by
        rw [hgraph]
        rcases Nat.lt_or_eq_of_le hq with hlt | rfl
        · exact h.wired hlt hline
        · rw [Underway.getElem?_length] at hline
          cases hline
          exact h.linking.wired (fun l => by cases l <;> simp [OwnedList.key])
            fun s => by cases s <;> simp [LinkSlot.key]
      pending := fun {q slot r} => by
        rw [hpending, h.pending]
        have hkey : slot.key ∈ ["resolvedType", "type", "typeParameters", "parameters", "children"] := by
          cases slot <;> simp [LinkSlot.key]
        simp [hkey]
      extensions := by
        rw [hext, Log.extensions]
        refine (h.extensions.append_right _).trans ?_
        rw [List.append_assoc]
        exact List.perm_append_comm.append_left b.extensions }
  line := Underway.getElem?_length log _ new
  inside line hline := by
    rcases List.mem_cons.mp hline with rfl | hnew
    · exact .refl
    · obtain ⟨s, -, hs, hinside⟩ := h.inside line hnew
      exact (Trail.Inside.refl.step hs).trans hinside
  weight := by
    have hline := weight_lineExtensions_le log.length fields
    have hnew := h.weight
    have hsum := Value.sum_partsAt_le fields ["extendedBy", "resolvedType", "type",
      "typeParameters", "parameters", "children"] (by decide)
    rw [List.map_cons, List.sum_cons] at hsum
    rw [Log.extensions, weight_append, Value.parts]
    omega

/-- The first of several nodes. -/
theorem Met.cons {trail : Nat → Trail} {k : Nat} {raws : List Value} {p : Place} {ps : List Place}
    (h : Met doc log b (trail k) raw p new b')
    (hrest : MetAll doc (log ++ new) b' trail (k + 1) raws ps new' b'') :
    MetAll doc log b trail k (raw :: raws) (p :: ps) (new ++ new') b'' where
  grown := h.grown.trans hrest.grown
  listed := by
    rw [← List.append_assoc]
    exact .cons (getElem?_append h.line) hrest.listed
  inside line hline := by
    rcases List.mem_append.mp hline with hnew | hnew
    · exact ⟨k, Nat.le_refl k, h.inside line hnew⟩
    · obtain ⟨i, hi, hinside⟩ := hrest.inside line hnew
      exact ⟨i, Nat.le_of_succ_le hi, hinside⟩
  weight := by
    have hfirst := h.weight
    have hmore := hrest.weight
    rw [List.length_append] at hmore
    rw [extensions_append, weight_append, Value.partsOfItems]
    omega

end

/-- Only what is empty holds no nodes. -/
theorem notNodes_meets {v : Value} {b : Builder} {E : Fault → Prop} (hE : ∀ e, E e) :
    Meets (notNodes v) b (fun ps b' => b' = b ∧ ps = [] ∧ v.entries = []) E := by
  unfold notNodes
  split
  · split
    · rename_i hs
      subst hs
      exact Meets.pure ⟨rfl, rfl, rfl⟩
    · exact Meets.throw (hE _)
  · exact Meets.pure ⟨rfl, rfl, rfl⟩
  · exact Meets.throw (hE _)
  · exact Meets.throw (hE _)

/-! ## The walk -/

mutual

theorem buildNode_meets (raw : Value) {doc : Value} {log : Log} {b : Builder} {t : Trail}
    {owner : Option Place} (h : Kept doc log b) (ht : doc.nodeAt? t = some raw)
    (hfresh : ∀ line ∈ log, ¬ t.Under line.1) (howner : OwnerAt log t owner) :
    Meets (buildNode t.inTree owner raw) b (fun p b' => ∃ new, Met doc log b t raw p new b')
      doc.Faulted := by
  match raw with
  | .scalar s =>
    rw [buildNode]
    · exact Meets.throw (.of_refused (.notMapping ht rfl))
    · simp
  | .list items =>
    rw [buildNode]
    · exact Meets.throw (.of_refused (.notMapping ht rfl))
    · simp
  | .map fields =>
    rw [buildNode]
    refine Meets.bind (Q := fun n b' => b = b' ∧ Node.attributes (.map fields) owner = .ok n)
      (Meets.lift (fun n hn => ⟨rfl, hn⟩) fun e he hdoc => ?_) ?_
    · obtain ⟨hload, hkind | ⟨name, hname, hflag⟩⟩ := Node.attributes_error (hdoc t _ ht) he
      · exact ⟨hload, .unknownKind ht hkind⟩
      · exact ⟨hload, .unknownFlag ht hname hflag⟩
    rintro n _ ⟨rfl, hn⟩
    refine Meets.bind (Q := fun id b' => b = b' ∧ id = (Value.map fields).id?)
      (Meets.lift (fun id hid => ⟨rfl, Node.idOfValue_ok hid⟩) fun e he hdoc =>
        absurd he (Node.idOfValue_error (hdoc t _ ht))) ?_
    rintro id _ ⟨rfl, rfl⟩
    refine Meets.bind (Q := fun p b' => p = b.graph.size ∧ b' = b.added n) ⟨rfl, rfl⟩ ?_
    rintro _ _ ⟨rfl, rfl⟩
    refine Meets.bind (register_meets (attributes_ok hn).1 ?_) ?_
    · intro a k q hid hmem hsame
      obtain ⟨t', raw', hline, hid'⟩ := h.index.mp hmem
      have hmem' := List.mem_of_getElem? hline
      refine .of_refused (.sharedId ht (h.described hmem').1 ?_ hid hid' (Scalar.same_symm hsame))
      rintro rfl
      exact hfresh _ hmem' .refl
    rintro ⟨⟩ b₀ hb₀
    rw [h.size]
    have h₀ := Underway.start h hb₀ ht hfresh hn howner
    refine Meets.bind (buildOwned_meets fields .children h₀ (by simp)) ?_
    rintro ⟨⟩ b₁ ⟨new₁, h₁⟩
    refine Meets.bind (buildOwned_meets fields .parameters h₁ (by decide)) ?_
    rintro ⟨⟩ b₂ ⟨new₂, h₂⟩
    refine Meets.bind (buildOwned_meets fields .typeParameters h₂ (by decide)) ?_
    rintro ⟨⟩ b₃ ⟨new₃, h₃⟩
    refine Meets.bind (buildLinked_meets fields .type h₃ (by decide)) ?_
    rintro ⟨⟩ b₄ ⟨new₄, h₄⟩
    refine Meets.bind (buildLinked_meets fields .resolvedType h₄ (by decide)) ?_
    rintro ⟨⟩ b₅ ⟨new₅, h₅⟩
    dsimp only
    split
    · rename_i items hget
      have hfield := Value.field_of_get? hget
      split
      · rename_i hnull
        refine Meets.pure ⟨_, h₅.finish rfl rfl ?_⟩
        rw [lineExtensions, hfield, if_pos hnull, List.append_nil]
      · rename_i hnull
        show ∃ new, Met doc log b t (.map fields) log.length new
          { b₅ with extensions := b₅.extensions ++ [(log.length, items)] }
        refine ⟨_, h₅.finish rfl rfl ?_⟩
        rw [lineExtensions, hfield, if_neg hnull]
    · rename_i hget
      refine Meets.pure ⟨_, h₅.finish rfl rfl ?_⟩
      rw [lineExtensions, Value.field_of_none hget]
      exact (List.append_nil _).symm
termination_by (sizeOf raw, 0)
decreasing_by all_goals simp_wf; omega

theorem buildOwned_meets (fields : Fields) (l : OwnedList) {doc : Value} {log new : Log} {b b' : Builder}
    {t : Trail} {done : List String} (h : Underway doc log b t fields done new b')
    (hl : l.key ∉ done) :
    Meets (buildOwned t.inTree log.length l fields) b'
      (fun _ b'' => ∃ new', Underway doc log b t fields (l.key :: done) new' b'') doc.Faulted := by
  -- a list given as something else is no list of the documented kind
  have hnotNodes : ∀ v : Value, (Value.map fields).field l.key = v → v.isNull = false → v.isList = false →
      Meets (do let ps ← notNodes v; change log.length fun n => n.own l ps) b'
        (fun _ b'' => ∃ new', Underway doc log b t fields (l.key :: done) new' b'') doc.Faulted := by
    intro v hfield hnull hlist
    refine Meets.bind (notNodes_meets fun e => .of_not fun hdoc => ?_) ?_
    · have howned := (hdoc t _ h.described).owned l
      rw [hfield, Value.isOptional, hnull, hlist] at howned
      cases howned
    · rintro ps _ ⟨rfl, rfl, hentries⟩
      refine ⟨_, h.own (Grown.refl h.kept) (by rw [hfield, hnull]) ?_ (by simp) (Nat.zero_le _)⟩
      rw [hfield, hentries]
      exact .nil 0
  rw [buildOwned]
  split
  · rename_i hpart
    exact Meets.pure ⟨new, h.skip hl (by rw [Value.field_of_none (Fields.part?_eq_none hpart)]; rfl)⟩
  · rename_i s hs hpart
    have hfield := Value.field_of_get? (Fields.part?_eq_some hpart)
    split
    · exact Meets.pure ⟨new, h.skip hl (by rw [hfield]; rfl)⟩
    · rename_i hnull
      refine hnotNodes _ hfield ?_ rfl
      cases s with
      | null => exact (hnull _ rfl .rfl).elim
      | bool | int | real | text | date => rfl
  · rename_i items hitems hpart
    have hget := Fields.part?_eq_some hpart
    have hfield := Value.field_of_get? hget
    refine Meets.bind (buildNodes_meets items (fun i => t.step (.owned l i)) 0 h.kept ?_
      ?_ ?_ ?_ ?_) ?_
    · intro i raw hraw
      rw [Value.nodeAt?, h.described, Option.bind_some, Trail.Step.described?, hfield, Nat.zero_add]
      exact hraw
    · exact fun i _ => h.fresh_step hl
    · intro i j x hi hj
      cases hi.step_unique hj
      rfl
    · exact fun i => rfl
    · exact fun i => OwnerAt.owned (Underway.getElem?_length log _ new)
    · rintro ps b₁ ⟨more, hmet⟩
      have hlisted := hmet.listed
      have hweight := hmet.weight
      rw [List.append_assoc, List.cons_append] at hlisted
      rw [List.length_append, List.length_cons, Nat.add_comm new.length, ← Nat.add_assoc] at hweight
      refine ⟨_, h.own hmet.grown (by rw [hfield]; rfl) ?_ (fun line hline => ?_) ?_⟩
      · rw [hfield]
        exact hlisted
      · obtain ⟨i, -, hi⟩ := hmet.inside line hline
        exact ⟨i, hi⟩
      · simp only [Value.partsAt, hget, Option.map_some, Option.getD_some, Value.parts]
        omega
  · rename_i inner hinner hpart
    exact hnotNodes _ (Value.field_of_get? (Fields.part?_eq_some hpart)) rfl rfl
termination_by (sizeOf fields, 1)
decreasing_by
  have := ‹sizeOf (Value.list _) < sizeOf fields›
  simp at this ⊢
  omega

theorem buildNodes_meets (raws : List Value) (trail : Nat → Trail) (k : Nat) {doc : Value} {log : Log}
    {b : Builder} {inTree : Bool} {owner : Option Place} (h : Kept doc log b)
    (hraws : ∀ i raw, raws[i]? = some raw → doc.nodeAt? (trail (k + i)) = some raw)
    (hfresh : ∀ i, k ≤ i → ∀ line ∈ log, ¬ (trail i).Under line.1)
    (hapart : ∀ i j x, (trail i).Under x → (trail j).Under x → i = j)
    (htree : ∀ i, (trail i).inTree = inTree) (howner : ∀ i, OwnerAt log (trail i) owner) :
    Meets (buildNodes inTree owner raws) b (fun ps b' => ∃ new, MetAll doc log b trail k raws ps new b')
      doc.Faulted := by
  match raws with
  | [] =>
    rw [buildNodes]
    exact Meets.pure ⟨[], Grown.refl h, .nil k, by simp, Nat.le_refl _⟩
  | raw :: rest =>
    rw [buildNodes]
    have hfirst := buildNode_meets raw h (hraws 0 raw rfl) (hfresh k (Nat.le_refl k)) (howner k)
    rw [htree] at hfirst
    refine Meets.bind hfirst ?_
    rintro p b₁ ⟨new, hmet⟩
    refine Meets.bind (buildNodes_meets rest trail (k + 1) hmet.grown.kept ?_ ?_ hapart
      htree fun i => (howner i).append) ?_
    · intro i raw' hraw'
      rw [Nat.add_assoc, Nat.add_comm 1]
      exact hraws (i + 1) raw' hraw'
    · intro i hi line hline hunder
      rcases List.mem_append.mp hline with hold | hnew
      · exact hfresh i (Nat.le_of_succ_le hi) line hold hunder
      · have := hapart i k line.1 hunder (hmet.inside line hnew).under
        omega
    · rintro ps b₂ ⟨new', hrest⟩
      exact Meets.pure ⟨new ++ new', hmet.cons hrest⟩
termination_by (sizeOf raws, 1)
decreasing_by all_goals simp_wf; omega

theorem buildLinked_meets (fields : Fields) (slot : LinkSlot) {doc : Value} {log new : Log}
    {b b' : Builder} {t : Trail} {done : List String} (h : Underway doc log b t fields done new b')
    (hs : slot.key ∉ done) :
    Meets (buildLinked log.length slot fields) b'
      (fun _ b'' => ∃ new', Underway doc log b t fields (slot.key :: done) new' b'') doc.Faulted := by
  -- what is neither a mapping nor an id is no node
  have hnotNode : ∀ v : Value, (Value.map fields).field slot.key = v → v.isNull = false →
      v.reference? = none → v.isMapping = false → doc.Refused := by
    intro v hfield hnull hreference hmapping
    refine .notMapping (t := t.step (.linked slot)) ?_ hmapping
    rw [Value.nodeAt?, h.described, Option.bind_some, Trail.Step.described?, hfield, hnull, hreference]
    rfl
  rw [buildLinked]
  split
  · rename_i hpart
    have hfield := Value.field_of_none (Fields.part?_eq_none hpart)
    refine Meets.pure ⟨new, h.name hs (by rw [hfield]; rfl) rfl rfl ?_⟩
    rw [hfield]
    exact (List.append_nil _).symm
  · rename_i s hsize hpart
    have hfield := Value.field_of_get? (Fields.part?_eq_some hpart)
    split
    · refine Meets.pure ⟨new, h.name hs (by rw [hfield]; rfl) rfl rfl ?_⟩
      rw [hfield]
      exact (List.append_nil _).symm
    · exact ⟨new, h.name hs (by rw [hfield]; rfl) rfl rfl (by rw [hfield]; rfl)⟩
    · exact ⟨new, h.name hs (by rw [hfield]; rfl) rfl rfl (by rw [hfield]; rfl)⟩
    · rename_i hnull hint hbool
      refine Meets.throw (.of_refused (hnotNode _ hfield ?_ ?_ rfl))
      · cases s with
        | null => exact (hnull _ rfl .rfl).elim
        | bool | int | real | text | date => rfl
      · cases s with
        | int n => exact (hint n _ rfl .rfl).elim
        | bool b => exact (hbool b _ rfl .rfl).elim
        | null | real | text | date => rfl
  · rename_i items hsize hpart
    have hfield := Value.field_of_get? (Fields.part?_eq_some hpart)
    exact Meets.throw (.of_refused (hnotNode _ hfield rfl rfl rfl))
  · rename_i inner hsize hpart
    have hget := Fields.part?_eq_some hpart
    have hfield := Value.field_of_get? hget
    refine Meets.bind (buildNode_meets (.map inner) (t := t.step (.linked slot)) h.kept ?_
      (h.fresh_step hs) rfl) ?_
    · rw [Value.nodeAt?, h.described, Option.bind_some, Trail.Step.described?, hfield]
      rfl
    · rintro p b₁ ⟨more, hmet⟩
      have hline := hmet.line
      have hweight := hmet.weight
      rw [List.append_assoc, List.cons_append] at hline
      rw [List.length_append, List.length_cons, Nat.add_comm new.length, ← Nat.add_assoc] at hweight
      refine ⟨_, h.fill hmet.grown (by rw [hfield]; rfl) ?_ hmet.inside ?_⟩
      · rw [hfield]
        exact hline
      · simp only [Value.partsAt, hget, Option.map_some, Option.getD_some]
        exact Nat.le_of_lt hweight
termination_by (sizeOf fields, 1)
decreasing_by
  exact Prod.Lex.left _ _ ‹_ < sizeOf fields›

end

end Builder

end SymbolDocs
