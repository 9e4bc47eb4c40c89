import SymbolDocs.Proofs.Following

/-!
# Reading the extending declarations

When the modules are built, the lists of extending declarations wait in a queue. Reading one may build
nodes whose own lists join the queue, so a node can be met that only an extending declaration of an
extending declaration describes. The lists that wait are different parts of the document and what is
described in them has not been met, which is why every list is read once and the reading ends.

* `Builder.Waiting` is what holds of the queue;
* `Builder.readExtensions_meets` follows the reading;
* `Builder.Surveyed` is the log at its end: everything that the document describes is in it.
-/

namespace SymbolDocs

namespace Value

/-- The number of parts of the mappings among some values. -/
def mappingParts (vs : List Value) : Nat :=
  ((vs.filter isMapping).map parts).sum

theorem mappingParts_cons (v : Value) (vs : List Value) :
    mappingParts (v :: vs) = (if v.isMapping then v.parts else 0) + mappingParts vs := by
  unfold mappingParts
  cases hv : v.isMapping <;> simp [hv]

theorem mappingParts_le (vs : List Value) : mappingParts vs ≤ partsOfItems vs := by
  induction vs with
  | nil => exact Nat.le_refl 0
  | cons v rest ih =>
    rw [mappingParts_cons, partsOfItems]
    split <;> omega

/-- The mappings in a list are parts of it; a text and a mapping have no mappings as entries. -/
theorem mappingParts_entries_lt (v : Value) : mappingParts v.entries < v.parts := by
  rcases v with s | items | fields
  · have hnone : mappingParts (Value.scalar s).entries = 0 := by
      cases s with
      | text s =>
        have hfilter : (s.toList.map fun c => Value.text (String.singleton c)).filter isMapping = [] := by
          simp [isMapping]
        show mappingParts (s.toList.map fun c => Value.text (String.singleton c)) = 0
        rw [mappingParts, hfilter]
        rfl
      | null | bool | int | real | date => rfl
    rw [hnone, parts]
    exact Nat.zero_lt_one
  · have hle := mappingParts_le items
    rw [entries_list, parts]
    omega
  · have hfilter : (fields.map fun f => Value.scalar f.1).filter isMapping = [] := by
      rw [List.filter_eq_nil_iff]
      rintro v hv
      obtain ⟨f, -, rfl⟩ := List.mem_map.mp hv
      simp [isMapping]
    have hnone : mappingParts (Value.map fields).entries = 0 := by
      show mappingParts (fields.map fun f => Value.scalar f.1) = 0
      rw [mappingParts, hfilter]
      rfl
    rw [hnone, parts]
    omega

end Value

namespace Builder

/-- Extending declarations as they are read: ids, and the places of those described in place. -/
inductive Log.Read (log : Log) (t : Trail) : Nat → List Value → List Extension → Prop
  | nil (k : Nat) : Read log t k [] []
  | named {k : Nat} {v : Value} {r : Scalar} {vs : List Value} {es : List Extension}
    (hr : v.reference? = some r) (hes : Read log t (k + 1) vs es) : Read log t k (v :: vs) (.inl r :: es)
  | built {k : Nat} {v : Value} {p : Place} {vs : List Value} {es : List Extension}
    (hv : v.reference? = none) (hp : log[p]? = some (t.step (.extension k), v))
    (hes : Read log t (k + 1) vs es) : Read log t k (v :: vs) (.inr p :: es)

open Log

section

variable {doc : Value} {log new : Log} {b b' : Builder} {t : Trail}

theorem Log.Read.append {k : Nat} {vs : List Value} {es : List Extension} (h : Read log t k vs es) :
    Read (log ++ new) t k vs es := by
  induction h with
  | nil k => exact .nil k
  | named hr _ ih => exact .named hr ih
  | built hv hp _ ih => exact .built hv (getElem?_append hp) ih

/-- A list of extending declarations is read. -/
structure MetExtensions (doc : Value) (log : Log) (b : Builder) (t : Trail) (k : Nat) (vs : List Value)
    (es : List Extension) (new : Log) (b' : Builder) : Prop where
  grown : Grown doc log b new b'
  read : Read (log ++ new) t k vs es
  inside : ∀ line ∈ new, ∃ i, k ≤ i ∧ (t.step (.extension i)).Inside line.1
  weight : weight (Log.extensions log.length new) ≤ Value.mappingParts vs

/-- An id goes before the rest. -/
theorem MetExtensions.named {k : Nat} {v : Value} {r : Scalar} {vs : List Value} {es : List Extension}
    (h : MetExtensions doc log b t (k + 1) vs es new b') (hr : v.reference? = some r) :
    MetExtensions doc log b t k (v :: vs) (.inl r :: es) new b' where
  grown := h.grown
  read := .named hr h.read
  inside line hline := by
    obtain ⟨i, hi, hinside⟩ := h.inside line hline
    exact ⟨i, Nat.le_of_succ_le hi, hinside⟩
  weight := by
    rw [Value.mappingParts_cons]
    exact Nat.le_add_left_of_le h.weight

/-- A node described in place goes before the rest. -/
theorem MetExtensions.built {b₁ : Builder} {more : Log} {k : Nat} {v : Value} {p : Place} {vs : List Value}
    {es : List Extension} (hmet : Met doc log b (t.step (.extension k)) v p new b₁)
    (h : MetExtensions doc (log ++ new) b₁ t (k + 1) vs es more b') (hv : v.reference? = none) :
    MetExtensions doc log b t k (v :: vs) (.inr p :: es) (new ++ more) b' where
  grown := hmet.grown.trans h.grown
  read := by
    rw [← List.append_assoc]
    exact .built hv (getElem?_append hmet.line) h.read
  inside line hline := by
    rcases List.mem_append.mp hline with hnew | hmore
    · exact ⟨k, Nat.le_refl k, hmet.inside line hnew⟩
    · obtain ⟨i, hi, hinside⟩ := h.inside line hmore
      exact ⟨i, Nat.le_of_succ_le hi, hinside⟩
  weight := by
    have hmapping := (hmet.grown.kept.described (List.mem_of_getElem? hmet.line)).2
    have hfirst := hmet.weight
    have hrest := h.weight
    rw [List.length_append] at hrest
    rw [extensions_append, weight_append, Value.mappingParts_cons, if_pos hmapping]
    omega

theorem extensionItems_meets (vs : List Value) {k : Nat} (h : Kept doc log b)
    (hvs : ∀ i v, vs[i]? = some v → v.reference? = none →
      doc.nodeAt? (t.step (.extension (k + i))) = some v)
    (hfresh : ∀ i, k ≤ i → ∀ line ∈ log, ¬ (t.step (.extension i)).Under line.1) :
    Meets (extensionItems vs) b (fun es b' => ∃ new, MetExtensions doc log b t k vs es new b')
      doc.Faulted := by
  induction vs generalizing k log b with
  | nil => exact Meets.pure ⟨[], Grown.refl h, .nil k, by simp, Nat.le_refl _⟩
  | cons v rest ih =>
    have hrest : ∀ i v, rest[i]? = some v → v.reference? = none →
        doc.nodeAt? (t.step (.extension (k + 1 + i))) = some v := by
      intro i w hw hnone
      rw [Nat.add_assoc, Nat.add_comm 1]
      exact hvs (i + 1) w hw hnone
    have hnamed : ∀ r, v.reference? = some r →
        Meets (do return .inl r :: (← extensionItems rest)) b
          (fun es b' => ∃ new, MetExtensions doc log b t k (v :: rest) es new b') doc.Faulted := by
      intro r hr
      refine Meets.bind (ih h hrest fun i hi => hfresh i (Nat.le_of_succ_le hi)) ?_
      rintro es b' ⟨new, hmet⟩
      exact Meets.pure ⟨new, hmet.named hr⟩
    have hbuilt : v.reference? = none →
        Meets (do let p ← buildNode false none v; return .inr p :: (← extensionItems rest)) b
          (fun es b' => ∃ new, MetExtensions doc log b t k (v :: rest) es new b') doc.Faulted := by
      intro hnone
      refine Meets.bind (buildNode_meets v (t := t.step (.extension k)) h (hvs 0 v rfl hnone)
        (hfresh k (Nat.le_refl k)) rfl) ?_
      rintro p b₁ ⟨new, hmet⟩
      refine Meets.bind (ih hmet.grown.kept hrest ?_) ?_
      · intro i hi line hline hunder
        rcases List.mem_append.mp hline with hold | hnew
        · exact hfresh i (Nat.le_of_succ_le hi) line hold hunder
        · cases hunder.step_unique (hmet.inside line hnew).under
          exact absurd hi (Nat.not_succ_le_self k)
      · rintro es b' ⟨more, hmore⟩
        exact Meets.pure ⟨new ++ more, .built hmet hmore hnone⟩
    rcases v with (_ | c | n | d | s | _) | items | fields
    · exact hbuilt rfl
    · exact hnamed (.bool c) rfl
    · exact hnamed (.int n) rfl
    · exact hbuilt rfl
    · exact hbuilt rfl
    · exact hbuilt rfl
    · exact hbuilt rfl
    · exact hbuilt rfl

/-! ## The queue -/

theorem Log.mem_extensions {n : Nat} {log : Log} {e : Place × Value} (h : e ∈ Log.extensions n log) :
    n ≤ e.1 ∧ ∃ t raw, log[e.1 - n]? = some (t, raw) ∧ (raw.field "extendedBy").isNull = false ∧
      raw.field "extendedBy" = e.2 := by
  induction log generalizing n with
  | nil => cases h
  | cons line rest ih =>
    obtain ⟨t, raw⟩ := line
    rw [Log.extensions, List.mem_append] at h
    rcases h with h | h
    · unfold lineExtensions at h
      split at h
      · cases h
      · rename_i hnull
        cases List.mem_singleton.mp h
        exact ⟨Nat.le_refl n, t, raw, by simp, by simpa using hnull, rfl⟩
    · obtain ⟨hle, t', raw', hline, hrest⟩ := ih h
      refine ⟨Nat.le_of_succ_le hle, t', raw', ?_, hrest⟩
      have hsucc : e.1 - n = e.1 - (n + 1) + 1 :=
        (Nat.succ_pred_eq_of_pos (Nat.sub_pos_of_lt hle)).symm
      rw [hsucc, List.getElem?_cons_succ]
      exact hline

theorem Log.extensions_mem {n p : Nat} {log : Log} {t : Trail} {raw : Value}
    (hline : log[p]? = some (t, raw)) (hnull : (raw.field "extendedBy").isNull = false) :
    (n + p, raw.field "extendedBy") ∈ Log.extensions n log := by
  induction log generalizing n p with
  | nil => cases hline
  | cons line rest ih =>
    rw [Log.extensions, List.mem_append]
    cases p with
    | zero =>
      cases hline
      left
      simp [lineExtensions, hnull]
    | succ p =>
      right
      rw [← Nat.add_assoc, Nat.add_right_comm]
      exact ih hline

theorem Log.nodup_extensions (n : Nat) (log : Log) : ((Log.extensions n log).map Prod.fst).Nodup := by
  induction log generalizing n with
  | nil => exact List.nodup_nil
  | cons line rest ih =>
    obtain ⟨t, raw⟩ := line
    rw [Log.extensions, List.map_append, List.nodup_append']
    refine ⟨?_, ih (n + 1), ?_⟩
    · unfold lineExtensions
      split
      · exact List.nodup_nil
      · exact List.nodup_singleton n
    · intro p hp hrest
      obtain ⟨e, he, rfl⟩ := List.mem_map.mp hrest
      have hle := (mem_extensions he).1
      unfold lineExtensions at hp
      split at hp
      · cases hp
      · rw [List.mem_singleton.mp hp] at hle
        exact Nat.not_succ_le_self n hle

/-- The lists that wait are those of different nodes, and nothing in them has been met. -/
structure Waiting (doc : Value) (log : Log) (b : Builder) : Prop where
  kept : Kept doc log b
  nodup : (b.extensions.map Prod.fst).Nodup
  queue : ∀ e ∈ b.extensions, ∃ t raw, log[e.1]? = some (t, raw) ∧
    (raw.field "extendedBy").isNull = false ∧ raw.field "extendedBy" = e.2 ∧
    ∀ i, ∀ line ∈ log, ¬ (t.step (.extension i)).Under line.1

/-- New nodes that are described inside trails of one length, not met before and outside of what waits,
may join the queue. -/
theorem Waiting.grow (h : Waiting doc log b) (hgrown : Grown doc log b new b') {n : Nat}
    (hroots : ∀ line ∈ new, ∃ u : Trail, u.length = n ∧ u.Inside line.1 ∧
      (∀ line' ∈ log, ¬ u.Under line'.1) ∧
      ∀ e ∈ b.extensions, ∀ t raw, log[e.1]? = some (t, raw) → ∀ i, ¬ (t.step (.extension i)).Under u) :
    Waiting doc (log ++ new) b' where
  kept := hgrown.kept
  nodup := by
    rw [(hgrown.extensions.map Prod.fst).nodup_iff, List.map_append, List.nodup_append']
    refine ⟨h.nodup, nodup_extensions _ _, ?_⟩
    intro p hp hnew
    obtain ⟨e, he, rfl⟩ := List.mem_map.mp hp
    obtain ⟨e', he', heq⟩ := List.mem_map.mp hnew
    obtain ⟨t, raw, hline, -⟩ := h.queue e he
    have hlt := (List.getElem?_eq_some_iff.mp hline).1
    have hle := (mem_extensions he').1
    rw [heq] at hle
    exact absurd hlt (Nat.not_lt.mpr hle)
  queue e he := by
    rcases List.mem_append.mp (hgrown.extensions.mem_iff.mp he) with hold | hnew
    · obtain ⟨t, raw, hline, hnull, hfield, hfresh⟩ := h.queue e hold
      refine ⟨t, raw, getElem?_append hline, hnull, hfield, fun i line' hline' hunder => ?_⟩
      rcases List.mem_append.mp hline' with hold' | hnew'
      · exact hfresh i line' hold' hunder
      · obtain ⟨u, -, hinside, -, hapart⟩ := hroots line' hnew'
        exact hapart e hold t raw hline i (hinside.under_extension hunder)
    · obtain ⟨hle, t, raw, hline, hnull, hfield⟩ := mem_extensions hnew
      have hmem := List.mem_of_getElem? hline
      refine ⟨t, raw, ?_, hnull, hfield, fun i line' hline' hunder => ?_⟩
      · rw [List.getElem?_append_right hle]
        exact hline
      · obtain ⟨u, hu, hinside, hfresh, -⟩ := hroots _ hmem
        rcases List.mem_append.mp hline' with hold' | hnew'
        · exact hfresh line' hold' (hinside.under.trans hunder.of_step)
        · -- the step would lead from below one of the trails to another one, which is not longer
          obtain ⟨u', hu', hinside', -⟩ := hroots line' hnew'
          have hlong := (hinside'.under_extension hunder).length_le
          have hshort : u.length ≤ t.length := hinside.under.length_le
          rw [Trail.length] at hlong
          omega

/-- A list that has been read leaves the queue, and the lists of the nodes described in it join. -/
theorem Waiting.read (h : Waiting doc log b) {p : Place} {v : Value} {rest : List (Place × Value)}
    {raw : Value} {es : List Extension} (hqueue : b.extensions = (p, v) :: rest)
    (hline : log[p]? = some (t, raw)) (hfresh : ∀ i, ∀ line ∈ log, ¬ (t.step (.extension i)).Under line.1)
    (hmet : MetExtensions doc log { b with extensions := rest } t 0 v.entries es new b') :
    Waiting doc (log ++ new) b' := by
  have hnodup := h.nodup
  rw [hqueue, List.map_cons, List.nodup_cons] at hnodup
  have hwaiting : Waiting doc log { b with extensions := rest } :=
    ⟨h.kept.congr rfl, hnodup.2, fun e he => h.queue e (hqueue ▸ List.mem_cons_of_mem _ he)⟩
  refine hwaiting.grow hmet.grown (n := t.length + 1) fun line hnew => ?_
  obtain ⟨i, -, hinside⟩ := hmet.inside line hnew
  refine ⟨t.step (.extension i), rfl, hinside, hfresh i, fun e he t' raw' hline' j hunder => ?_⟩
  obtain ⟨t'', raw'', hline'', -, -, hfresh'⟩ := hwaiting.queue e he
  cases Option.some.inj (hline'.symm.trans hline'')
  cases hunder with
  | refl =>
    -- one node has one list, and it is read
    have heq : e.1 = p := h.kept.place_unique hline' hline
    exact hnodup.1 (List.mem_map.mpr ⟨e, he, heq⟩)
  | step hunder => exact hfresh' j _ (List.mem_of_getElem? hline) hunder

/-- All lists are read, those that waited and those noted meanwhile. -/
structure ReadAll (doc : Value) (log : Log) (b : Builder) (read : List (Place × List Extension)) (new : Log)
    (b' : Builder) : Prop where
  larger : Larger doc log b new b'
  each : ∀ {p es}, (p, es) ∈ read → ∃ t raw, (log ++ new)[p]? = some (t, raw) ∧
    (raw.field "extendedBy").isNull = false ∧ Read (log ++ new) t 0 (raw.field "extendedBy").entries es
  all : ∀ e ∈ b.extensions ++ Log.extensions log.length new, ∃ es, (e.1, es) ∈ read

/-- One more list is read, before all others. -/
theorem ReadAll.cons {p : Place} {v raw : Value} {rest : List (Place × Value)} {es : List Extension}
    {read : List (Place × List Extension)} {b₁ : Builder} {more : Log}
    (hqueue : b.extensions = (p, v) :: rest) (hline : log[p]? = some (t, raw))
    (hnull : (raw.field "extendedBy").isNull = false) (hfield : raw.field "extendedBy" = v)
    (hmet : MetExtensions doc log { b with extensions := rest } t 0 v.entries es new b₁)
    (h : ReadAll doc (log ++ new) b₁ read more b') :
    ReadAll doc log b ((p, es) :: read) (new ++ more) b' where
  larger := by
    have hlarger := hmet.grown.toLarger.trans h.larger
    exact ⟨hlarger.kept, hlarger.same, hlarger.wired, hlarger.pending⟩
  each {q es'} hmem := by
    rw [← List.append_assoc]
    rcases List.mem_cons.mp hmem with heq | hrest
    · cases heq
      exact ⟨t, raw, getElem?_append (getElem?_append hline), hnull, hfield ▸ hmet.read.append⟩
    · exact h.each hrest
  all e he := by
    rw [hqueue, extensions_append, List.cons_append, List.mem_cons, ← List.append_assoc] at he
    rcases he with rfl | he
    · exact ⟨es, List.mem_cons_self⟩
    · have hmem : e ∈ b₁.extensions ++ Log.extensions (log ++ new).length more := by
        rw [List.length_append]
        exact ((hmet.grown.extensions.append_right _).mem_iff).mpr he
      obtain ⟨es', hes'⟩ := h.all e hmem
      exact ⟨es', List.mem_cons_of_mem _ hes'⟩

theorem readExtensions_meets (fuel : Nat) (h : Waiting doc log b) (hfuel : weight b.extensions < fuel) :
    Meets (readExtensions fuel) b (fun read b' => ∃ new, ReadAll doc log b read new b') doc.Faulted := by
  induction fuel generalizing log b with
  | zero => exact absurd hfuel (Nat.not_lt_zero _)
  | succ fuel ih =>
    refine Meets.get ?_
    split
    · rename_i hqueue
      refine Meets.pure ⟨[], .refl h.kept, fun hmem => absurd hmem List.not_mem_nil, ?_⟩
      rw [hqueue]
      simp [Log.extensions]
    · rename_i p v rest hqueue
      obtain ⟨t, raw, hline, hnull, hfield, hfresh⟩ := h.queue (p, v) (hqueue ▸ List.mem_cons_self)
      have hdescribed := (h.kept.described (List.mem_of_getElem? hline)).1
      refine Meets.set (Meets.bind (Q := fun vs b' => b' = { b with extensions := rest } ∧ vs = v.entries)
        (Meets.lift (fun vs hvs => ⟨rfl, ?_⟩) fun e he => .of_not fun hdoc => ?_) ?_)
      · rw [Value.entries, hvs]
      · have hlist := (hdoc t raw hdescribed).extendedBy
        rw [Value.isOptional, hnull, hfield] at hlist
        cases v with
        | list items => cases he
        | scalar s | map fields => cases hlist
      rintro _ _ ⟨rfl, rfl⟩
      refine Meets.bind (extensionItems_meets v.entries (k := 0) (t := t) (h.kept.congr rfl) ?_
        fun i _ => hfresh i) ?_
      · intro i w hw hnone
        rw [Nat.zero_add, Value.nodeAt?, hdescribed, Option.bind_some, Trail.Step.described?, hfield, hw,
          Option.bind_some, hnone]
        rfl
      rintro es b₁ ⟨new, hmet⟩
      refine Meets.bind (ih (h.read hqueue hline hfresh hmet) ?_) ?_
      · have hnew := hmet.weight
        have hlt := Value.mappingParts_entries_lt v
        have hweight : weight b₁.extensions = weight rest + weight (Log.extensions log.length new) := by
          rw [← weight_append]
          exact (hmet.grown.extensions.map _).sum_eq
        have hold : weight b.extensions = v.parts + weight rest := by
          rw [hqueue]
          rfl
        omega
      · rintro read b' ⟨more, hall⟩
        exact Meets.pure ⟨new ++ more, .cons hqueue hline hnull hfield hmet hall⟩

/-! ## The whole document -/

/-- Everything is met. -/
structure Surveyed (doc : Value) (log : Log) (places : List Place) (read : List (Place × List Extension))
    (b : Builder) : Prop where
  kept : Kept doc log b
  modules : Listed log .module 0 (doc.field "modules").entries places
  wired : ∀ {p : Place} {t : Trail} {raw : Value}, log[p]? = some (t, raw) →
    Wired log t raw (b.graph.node p)
  pending : ∀ {p slot r}, (p, slot, r) ∈ b.pending ↔ Refers log p slot r
  each : ∀ {p es}, (p, es) ∈ read → ∃ t raw, log[p]? = some (t, raw) ∧
    (raw.field "extendedBy").isNull = false ∧ Read log t 0 (raw.field "extendedBy").entries es
  all : ∀ {p : Place} {t : Trail} {raw : Value}, log[p]? = some (t, raw) →
    (raw.field "extendedBy").isNull = false → ∃ es, (p, es) ∈ read

theorem kept_start (doc : Value) : Kept doc [] ⟨#[], [], [], []⟩ where
  size := rfl
  nodup := List.nodup_nil
  described h := absurd h List.not_mem_nil
  attributed h := nomatch h
  unique := List.nodup_nil
  index := by simp

theorem ReadAll.surveyed {ps : List Place} {read : List (Place × List Extension)} {more : Log}
    (hmet : MetAll doc [] ⟨#[], [], [], []⟩ .module 0 (doc.field "modules").entries ps log b)
    (h : ReadAll doc log b read more b') : Surveyed doc (log ++ more) ps read b' := by
  have hlarger := hmet.grown.toLarger.trans h.larger
  refine ⟨hlarger.kept, hmet.listed.append, fun hline => hlarger.wired (Nat.zero_le _) hline, ?_,
    h.each, ?_⟩
  · intro p slot r
    rw [hlarger.pending]
    simp
  · intro p t raw hline hnull
    refine h.all (p, raw.field "extendedBy") ?_
    rw [(hmet.grown.extensions.append_right _).mem_iff, List.nil_append, List.length_nil]
    have hmem := extensions_mem (n := 0) hline hnull
    rwa [extensions_append, Nat.zero_add, Nat.zero_add] at hmem

end

/-- Building the modules and reading the lists of extending declarations meets everything. -/
theorem survey_meets {α : Type} {doc : Value} {modules : List Value} {Q : α → Builder → Prop}
    {f : List Place → List (Place × List Extension) → Building α}
    (hmodules : doc.field "modules" = .list modules)
    (hf : ∀ {places read b log}, Surveyed doc log places read b → Meets (f places read) b Q doc.Faulted) :
    Meets (do
        let places ← buildNodes true none modules
        let read ← readExtensions (doc.parts + 1)
        f places read)
      ⟨#[], [], [], []⟩ Q doc.Faulted := by
  refine Meets.bind (buildNodes_meets modules .module 0 (kept_start doc) ?_ ?_ ?_
    (fun _ => rfl) fun _ => rfl) ?_
  · intro i raw hraw
    rw [Nat.zero_add, Value.nodeAt?, hmodules]
    exact hraw
  · exact fun i _ line hline => absurd hline List.not_mem_nil
  · intro i j x hi hj
    exact hi.module_unique hj
  rintro places b ⟨log, hmet⟩
  have hentries : (doc.field "modules").entries = modules := by
    rw [hmodules]
    rfl
  have hwaiting : Waiting doc log b := by
    have hstart : Waiting doc [] ⟨#[], [], [], []⟩ :=
      ⟨kept_start doc, List.nodup_nil, fun e he => absurd he List.not_mem_nil⟩
    refine hstart.grow (n := 0) hmet.grown fun line hline => ?_
    obtain ⟨i, -, hinside⟩ := hmet.inside line hline
    exact ⟨.module i, rfl, hinside, fun _ hline => absurd hline List.not_mem_nil,
      fun e he => absurd he List.not_mem_nil⟩
  refine Meets.bind (readExtensions_meets _ hwaiting ?_) ?_
  · have hweight := hmet.weight
    have hparts := Value.parts_field_le doc "modules"
    have hsame : weight b.extensions = weight (Log.extensions 0 log) :=
      (hmet.grown.extensions.map _).sum_eq
    rw [hmodules, Value.parts] at hparts
    rw [List.length_nil] at hweight
    omega
  · rintro read b' ⟨more, hall⟩
    exact hf (hall.surveyed (hentries ▸ hmet))

section

variable {doc raw : Value} {log : Log} {places : List Place} {read : List (Place × List Extension)}
  {b : Builder} {t : Trail}

theorem Log.Listed.getElem? {trail : Nat → Trail} {k i : Nat} {raws : List Value} {ps : List Place}
    (h : Listed log trail k raws ps) (hraw : raws[i]? = some raw) :
    ∃ p, ps[i]? = some p ∧ log[p]? = some (trail (k + i), raw) := by
  induction h generalizing i with
  | nil k => cases hraw
  | @cons k _ _ p _ hp _ ih =>
    cases i with
    | zero =>
      cases hraw
      exact ⟨p, rfl, hp⟩
    | succ i =>
      obtain ⟨q, hq, hline⟩ := ih hraw
      exact ⟨q, hq, by rw [← Nat.add_assoc, Nat.add_right_comm]; exact hline⟩

theorem Log.Read.getElem? {k i : Nat} {vs : List Value} {es : List Extension} {v : Value}
    (h : Read log t k vs es) (hv : vs[i]? = some v) :
    (∃ r, v.reference? = some r ∧ es[i]? = some (.inl r)) ∨
      ∃ p, v.reference? = none ∧ es[i]? = some (.inr p) ∧
        log[p]? = some (t.step (.extension (k + i)), v) := by
  induction h generalizing i with
  | nil k => cases hv
  | @named k _ r _ _ hr _ ih =>
    cases i with
    | zero =>
      cases hv
      exact .inl ⟨r, hr, rfl⟩
    | succ i =>
      rw [← Nat.add_assoc, Nat.add_right_comm]
      exact ih hv
  | @built k _ p _ _ hnone hp _ ih =>
    cases i with
    | zero =>
      cases hv
      exact .inr ⟨p, hnone, rfl, hp⟩
    | succ i =>
      rw [← Nat.add_assoc, Nat.add_right_comm]
      exact ih hv

theorem isNull_of_entries {v w : Value} {i : Nat} (h : v.entries[i]? = some w) : v.isNull = false := by
  rcases v with (_ | _ | _ | _ | _ | _) | _ | _
  case scalar.null => cases h
  all_goals rfl

/-- A list leads to what is described in it. -/
theorem Log.WiredList.getElem? {trail : Nat → Trail} {v : Value} {ps : Option (List Place)} {i : Nat}
    (h : WiredList log trail v ps) (hraw : v.entries[i]? = some raw) :
    ∃ p, (ps.getD [])[i]? = some p ∧ log[p]? = some (trail i, raw) := by
  rw [WiredList, isNull_of_entries hraw] at h
  obtain ⟨qs, rfl, hlisted⟩ := h
  obtain ⟨q, hq, hline⟩ := hlisted.getElem? hraw
  rw [Nat.zero_add] at hline
  exact ⟨q, hq, hline⟩

/-- What a document describes is in the log. -/
theorem Surveyed.exists_line (h : Surveyed doc log places read b) (ht : doc.nodeAt? t = some raw) :
    ∃ p : Place, log[p]? = some (t, raw) := by
  induction t generalizing raw with
  | module i =>
    obtain ⟨p, -, hp⟩ := h.modules.getElem? ht
    exact ⟨p, by rwa [Nat.zero_add] at hp⟩
  | step owner s ih =>
    obtain ⟨rawOwner, howner, hs⟩ := Option.bind_eq_some_iff.mp ht
    obtain ⟨p, hp⟩ := ih howner
    cases s with
    | owned l i =>
      obtain ⟨q, -, hq⟩ := ((h.wired hp).lists l).getElem? hs
      exact ⟨q, hq⟩
    | linked slot =>
      have hslot := (h.wired hp).slots slot
      rw [Trail.Step.described?] at hs
      split at hs
      · cases hs
      · rename_i hnode
        rw [WiredSlot, if_neg hnode] at hslot
        obtain ⟨q, -, hq⟩ := hslot
        cases hs
        exact ⟨q, hq⟩
    | extension i =>
      obtain ⟨v, hv, hs⟩ := Option.bind_eq_some_iff.mp hs
      obtain ⟨es, hes⟩ := h.all hp (isNull_of_entries hv)
      obtain ⟨t', raw', hp', -, hread⟩ := h.each hes
      cases Option.some.inj (hp.symm.trans hp')
      rcases hread.getElem? hv with ⟨r, hr, -⟩ | ⟨q, hnone, -, hq⟩
      · rw [hr] at hs
        cases hs
      · rw [hnone] at hs
        cases hs
        exact ⟨q, by rwa [Nat.zero_add] at hq⟩

end

end Builder

end SymbolDocs
