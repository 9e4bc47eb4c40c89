import SymbolDocs.Proofs.Codec
import SymbolDocs.Proofs.Loading
import SymbolDocs.Summary.Reader

/-!
# What a reader finds

The reader of a summary looks ids up among the records at the top level and those of their members
and parameters, at any depth. Every id in a summary is the id of a node, and the record that is found
for it is one of that node, or none is found at all.

* `Record.Known` says it of the ids of one record, `Site.closed_known` of a whole summary;
* `Reader.find?_ofRecords` describes the look-up as a search through the records in order;
* `Reader.Faithful` says that what is found has the kind and the name of its node;
* `Reader.FindsListed` says that every node listed in a summary is found;
* `Site.reader_of_summary` reads the document of a graph with integer ids;
* `Site.lookup_faithful` says what the reader of such a document finds, also where a record in short
  comes first, as in `lookup_faithful_short`.
-/

namespace SymbolDocs

open Relation Work

/-! ## Ids -/

/-- The ids of a record are ids of nodes, its own that of the node it is a record of. -/
structure Record.Known (g : Graph) (r : Record) : Prop where
  own : r.id ≠ none → ∃ p, r.Heads (g.node p)
  type : ∀ id, r.type = some (.ref id) → ∃ p, (g.node p).id = some id
  resolvedType : ∀ id, r.resolvedType = some (.ref id) → ∃ p, (g.node p).id = some id

/-- The id in a type position is the id of a node. -/
def TypeValue.Known (g : Graph) (v : TypeValue Record) : Prop :=
  ∀ id, v = .ref id → ∃ p, (g.node p).id = some id

namespace Site

variable {site : Site}

theorem id_of_exportedId? {n : Node} {id : Scalar} (h : n.exportedId? = some id) : n.id = some id := by
  unfold Node.exportedId? at h
  split at h
  · exact h
  · cases h

theorem made_known {r : Record} (h : site.Made (fun _ v => v.Known site.graph) r) :
    r.Known site.graph := by
  cases h with
  | stub p => exact ⟨fun _ => ⟨p, rfl, rfl, rfl⟩, fun _ h => (by cases h), fun _ h => (by cases h)⟩
  | @record p r h =>
    refine ⟨fun _ => ⟨p, h.kind, h.id, h.name⟩, fun id hid => ?_, fun id hid => ?_⟩
    · obtain ⟨t, -, ht⟩ := h.exists_of_type hid
      exact ht id rfl
    · obtain ⟨q, -, hq | hq⟩ := h.exists_of_resolvedType hid
      · exact hq id rfl
      · cases hq
  | @parameter p hk s =>
    exact ⟨fun _ => ⟨p, hk.symm, rfl, rfl⟩, fun _ h => (by cases h), fun _ h => (by cases h)⟩
  | @ref p id h =>
    refine ⟨fun h => absurd rfl h, fun id' h' => ?_, fun _ h => (by cases h)⟩
    cases h'
    exact h id rfl
  | inline s => exact ⟨fun h => absurd rfl h, fun _ h => (by cases h), fun _ h => (by cases h)⟩
  | @mention t id h =>
    refine ⟨fun h => absurd rfl h, fun id' h' => ?_, fun _ h => (by cases h)⟩
    cases h'
    exact ⟨t, id_of_exportedId? h⟩
  | entry h =>
    obtain ⟨v, args, hv, hargs, rfl⟩ := h
    refine ⟨fun h => absurd rfl h, fun id' h' => ?_, fun _ h => (by cases h)⟩
    cases hv with
    | @ref t id _ hid =>
      cases h'
      exact ⟨t, hid⟩
    | text => cases h'
  | clause p rs =>
    refine ⟨fun h => absurd rfl h, fun id h => ?_, fun _ h => (by cases h)⟩
    dsimp only at h
    cases howner : site.graph.heritageOwner? p with
    | none => simp [howner] at h
    | some o => exact ⟨o, by simpa [howner] using h⟩

theorem known_of_position {active : List Place} {P : Place → TypeValue Record → Prop}
    {B : Place → Record → Prop} {p : Place} {v : TypeValue Record}
    (h : site.PositionOf active P B p v) : v.Known site.graph := by
  have hflattened : ∀ {q}, site.FlattenedOf active P B q v → v.Known site.graph := by
    rintro q h id rfl
    cases h with
    | cut _ _ hid => exact ⟨q, hid⟩
  rintro id rfl
  cases h with
  | ref hid => exact ⟨_, id_of_exportedId? hid⟩
  | followed _ _ _ _ h => exact hflattened h id rfl
  | own _ _ h => exact hflattened h id rfl

theorem closed_known : site.Closed (fun _ _ => True) (site.DeepRecord (Record.Known site.graph))
    (site.DeepRecord (Record.Known site.graph))
    (Deep (fun _ v => v.Known site.graph) (Record.Known site.graph)) :=
  closed_all (fun _ h => made_known h) known_of_position

end Site

/-- The ids of the nodes are integers. -/
def Graph.IntIds (g : Graph) : Prop :=
  ∀ p id, (g.node p).id = some id → ∃ n, id = .int n

/-- Where ids are integers every record can be read back. -/
theorem Record.Known.writable {g : Graph} (hg : g.IntIds) {r : Record} (h : r.Known g) : r.Writable := by
  refine ⟨fun hid => ?_, fun id hid => ?_, fun id hid => ?_⟩
  · obtain ⟨p, hp⟩ := h.own (by simp [hid])
    obtain ⟨n, hn⟩ := hg p .null (hp.id ▸ hid)
    cases hn
  · obtain ⟨p, hp⟩ := h.type id hid
    exact hg p id hp
  · obtain ⟨p, hp⟩ := h.resolvedType id hid
    exact hg p id hp

/-- In a loaded graph the node of an id is the one that has it. -/
theorem Graph.Sound.find?_eq_some_iff {g : Graph} (hg : g.Sound) {id : Scalar} {p : Place} :
    g.find? id = some p ↔ ∃ k, (g.node p).id = some k ∧ k.same id = true :=
  (lookup?_eq_some_iff hg.distinct).trans
    (exists_congr fun _ => and_congr_left fun _ => ⟨hg.index, hg.indexed⟩)

/-! ## Looking an id up -/

/-- The record has the id. -/
def Record.hasId (id : Scalar) (r : Record) : Bool :=
  match r.id with
  | some k => k.same id
  | none => false

namespace Reader

theorem find?_append (id : Scalar) (a b : List (Scalar × Record)) :
    find? id (a ++ b) = (find? id a).or (find? id b) := by
  induction a with
  | nil => rfl
  | cons e rest ih =>
    obtain ⟨k, r⟩ := e
    rw [List.cons_append, find?, find?]
    split
    · rfl
    · exact ih

/-- The same id finds the same. -/
theorem find?_congr {a b : Scalar} (h : a.same b = true) (byId : List (Scalar × Record)) :
    find? a byId = find? b byId := by
  induction byId with
  | nil => rfl
  | cons e rest ih =>
    obtain ⟨k, r⟩ := e
    rw [find?, find?, ih]
    have hk : k.same a = true ↔ k.same b = true :=
      ⟨fun hk => Scalar.same_trans hk h, fun hk => Scalar.same_trans hk (Scalar.same_symm h)⟩
    by_cases ha : k.same a = true
    · rw [if_pos ha, if_pos (hk.mp ha)]
    · rw [if_neg ha, if_neg fun hb => ha (hk.mpr hb)]

theorem find?_register (id : Scalar) (byId : List (Scalar × Record)) (r : Record) :
    find? id (register byId r) = (find? id byId).or (if r.hasId id then some r else none) := by
  unfold register Record.hasId
  cases hr : r.id with
  | none => simp
  | some k =>
    dsimp only
    split
    · rename_i hfound
      by_cases hk : k.same id = true
      · rw [find?_congr hk] at hfound
        obtain ⟨x, hx⟩ := Option.isSome_iff_exists.mp hfound
        simp [hx]
      · simp [hk]
    · rw [find?_append]
      rfl

/-- Registering records one after the other keeps the first one of an id. -/
theorem find?_foldl_register (id : Scalar) (rs : List Record) (byId : List (Scalar × Record)) :
    find? id (rs.foldl register byId) = (find? id byId).or (rs.find? (Record.hasId id)) := by
  induction rs generalizing byId with
  | nil => simp
  | cons r rest ih =>
    rw [List.foldl_cons, ih, find?_register, List.find?_cons]
    cases r.hasId id <;> cases find? id byId <;> rfl

theorem find?_ofRecords (link : Record → String) (rs : List Record) (id : Scalar) :
    find? id (ofRecords link rs).byId = (rs.flatMap Record.declared).find? (Record.hasId id) := by
  rw [ofRecords, find?_foldl_register]
  rfl

end Reader

/-! ## The records that count -/

namespace Record

/-- The records of members and parameters count with a record. -/
def Counts (r x : Record) : Prop :=
  x ∈ r.children.getD [] ∨ x ∈ r.parameters.getD []

theorem Counts.part {r x : Record} (h : r.Counts x) : r.Part x :=
  h.elim .child .parameter

theorem mem_declaredLast {d : Record} {rs : List Record} :
    d ∈ declaredLast rs ↔ ∃ r ∈ rs, d ∈ r.declared := by
  induction rs with
  | nil => simp [declaredLast]
  | cons r rest ih =>
    rw [declaredLast, List.mem_append, ih]
    simp [or_comm]

theorem mem_declaredIn {d : Record} {rs : Option (List Record)} :
    d ∈ declaredIn rs ↔ ∃ r ∈ rs.getD [], d ∈ r.declared := by
  cases rs with
  | none => simp [declaredIn]
  | some rs => exact mem_declaredLast

theorem mem_declared {d r : Record} :
    d ∈ r.declared ↔ d = r ∨ ∃ x, r.Counts x ∧ d ∈ x.declared := by
  obtain ⟨kind, id, name, flags, value, docs, parameters, children, type, typeParameters, resolvedType,
    tsconfig⟩ := r
  rw [declared, List.mem_cons, List.mem_append, mem_declaredIn, mem_declaredIn]
  grind [Counts]

mutual

theorem counts_of_mem_declared : ∀ (r : Record) {d : Record}, d ∈ r.declared → ReflTransGen Counts r d
  | ⟨kind, id, name, flags, value, docs, parameters, children, type, typeParameters, resolvedType,
      tsconfig⟩, d, hd => by
    rw [declared, List.mem_cons, List.mem_append] at hd
    rcases hd with rfl | hd | hd
    · exact .refl
    · obtain ⟨x, hx, hxd⟩ := counts_of_mem_declaredIn parameters hd
      exact .head (.inr hx) hxd
    · obtain ⟨x, hx, hxd⟩ := counts_of_mem_declaredIn children hd
      exact .head (.inl hx) hxd

theorem counts_of_mem_declaredIn : ∀ (rs : Option (List Record)) {d : Record}, d ∈ declaredIn rs →
    ∃ x ∈ rs.getD [], ReflTransGen Counts x d
  | none, d, hd => by
    rw [declaredIn] at hd
    cases hd
  | some rs, d, hd => by
    rw [declaredIn] at hd
    exact counts_of_mem_declaredLast rs hd

theorem counts_of_mem_declaredLast : ∀ (rs : List Record) {d : Record}, d ∈ declaredLast rs →
    ∃ x ∈ rs, ReflTransGen Counts x d
  | [], d, hd => by
    rw [declaredLast] at hd
    cases hd
  | r :: rs, d, hd => by
    rw [declaredLast, List.mem_append] at hd
    rcases hd with hd | hd
    · obtain ⟨x, hx, hxd⟩ := counts_of_mem_declaredLast rs hd
      exact ⟨x, List.mem_cons_of_mem _ hx, hxd⟩
    · exact ⟨r, List.mem_cons_self, counts_of_mem_declared r hd⟩

end

/-- A record counts with another one when members and parameters lead to it. -/
theorem mem_declared_iff {r d : Record} : d ∈ r.declared ↔ ReflTransGen Counts r d := by
  refine ⟨counts_of_mem_declared r, fun h => ?_⟩
  induction h using ReflTransGen.head_induction_on with
  | refl => exact mem_declared.mpr (.inl rfl)
  | head hx _ ih => exact mem_declared.mpr (.inr ⟨_, hx, ih⟩)

/-- What holds at every depth holds of what counts. -/
theorem All.declared {Q : Record → Prop} {r d : Record} (h : r.All Q) (hd : d ∈ r.declared) : Q d := by
  have hle : ReflTransGen Counts ≤ ReflTransGen Part := ReflTransGen.mono fun _ _ => Counts.part
  exact h d (hle r d (mem_declared_iff.mp hd))

mutual

/-- Reading back changes each of them. -/
theorem declared_normal : ∀ r : Record, r.normal.declared = r.declared.map normal
  | ⟨kind, id, name, flags, value, docs, parameters, children, type, typeParameters, resolvedType,
      tsconfig⟩ => by
    rw [normal, declared, declared, List.map_cons, List.map_append, declaredIn_normal parameters,
      declaredIn_normal children, normal]

theorem declaredIn_normal : ∀ rs : Option (List Record),
    declaredIn (normalIn rs) = (declaredIn rs).map normal
  | none => by
    rw [normalIn, declaredIn, List.map_nil]
  | some rs => by
    rw [normalIn, declaredIn, declaredIn, declaredLast_normal rs]

theorem declaredLast_normal : ∀ rs : List Record,
    declaredLast (normals rs) = (declaredLast rs).map normal
  | [] => by
    rw [normals, declaredLast, List.map_nil]
  | r :: rs => by
    rw [normals, declaredLast, declaredLast, List.map_append, declaredLast_normal rs,
      declared_normal r]

end

theorem normal_id (r : Record) : r.normal.id = r.id := by
  cases r
  rw [normal]

theorem normal_kind (r : Record) : r.normal.kind = r.kind := by
  cases r
  rw [normal]

theorem normal_name (r : Record) : r.normal.name = presentText r.name := by
  cases r
  rw [normal]

theorem hasId_normal (id : Scalar) (r : Record) : r.normal.hasId id = r.hasId id := by
  rw [hasId, hasId, normal_id]

/-- Reading back keeps whose record it is. -/
theorem Heads.normal {n : Node} {r : Record} (h : r.Heads n) : r.normal.Heads n := by
  refine ⟨(normal_kind r).trans h.kind, (normal_id r).trans h.id, ?_⟩
  rw [normal_name, h.name, Node.name?]
  split
  · rfl
  · rename_i hne
    rw [presentText, if_neg hne]

end Record

/-! ## The reader of a document -/

namespace Reader

/-- What is found for the id of a node is a record of the node. -/
def Faithful (g : Graph) (rd : Reader) : Prop :=
  ∀ p id d, (g.node p).id = some id → find? id rd.byId = some d → d.Heads (g.node p)

/-- Every node listed in a summary is found. -/
def FindsListed (g : Graph) (rd : Reader) : Prop :=
  ∀ p ∈ Site.summaryNodes g, ∀ id, (g.node p).id = some id → ∃ d, find? id rd.byId = some d

/-- The reader of records that are read back. -/
theorem find?_normal (link : Record → String) (rs : List Record) (id : Scalar) :
    find? id (ofRecords link (rs.map Record.normal)).byId =
      ((rs.flatMap Record.declared).find? (Record.hasId id)).map Record.normal := by
  have hdeclared : (rs.map Record.normal).flatMap Record.declared =
      (rs.flatMap Record.declared).map Record.normal := by
    induction rs with
    | nil => rfl
    | cons r rest ih =>
      rw [List.map_cons, List.flatMap_cons, List.flatMap_cons, List.map_append, ih,
        Record.declared_normal]
  rw [find?_ofRecords, hdeclared, List.find?_map]
  congr 2
  funext r
  exact Record.hasId_normal id r

/-- Whatever is found under an id is a record of a node that has it. All records that count say the
same of their node, so it does not matter which of them comes first. -/
theorem exists_heads_of_find? {g : Graph} (link : Record → String) {rs : List Record}
    (hrs : ∀ r ∈ rs, r.All (Record.Known g)) {id : Scalar} {d : Record}
    (hd : find? id (ofRecords link (rs.map Record.normal)).byId = some d) :
    ∃ p k, (g.node p).id = some k ∧ k.same id = true ∧ d.Heads (g.node p) := by
  rw [find?_normal, Option.map_eq_some_iff] at hd
  obtain ⟨x, hx, rfl⟩ := hd
  obtain ⟨r, hr, hxr⟩ := List.mem_flatMap.mp (List.mem_of_find?_eq_some hx)
  have hid := List.find?_some hx
  unfold Record.hasId at hid
  split at hid
  · rename_i k hk
    obtain ⟨p, hp⟩ := ((hrs r hr).declared hxr).own (by simp [hk])
    exact ⟨p, k, hp.id ▸ hk, hid, hp.normal⟩
  · cases hid

theorem faithful_of_known {g : Graph} (hg : g.Sound) (link : Record → String) {rs : List Record}
    (hrs : ∀ r ∈ rs, r.All (Record.Known g)) :
    (ofRecords link (rs.map Record.normal)).Faithful g := by
  intro p id d hp hd
  obtain ⟨q, k, hq, hsame, hheads⟩ := exists_heads_of_find? link hrs hd
  obtain rfl : q = p := hg.eq_of_same hq hp hsame
  exact hheads

/-- A record that counts and has the id is found, or another one is. -/
theorem find?_isSome {rs : List Record} (link : Record → String) {r d : Record} {id : Scalar}
    (hr : r ∈ rs) (hd : d ∈ r.declared) (hid : d.id = some id) :
    ∃ x, find? id (ofRecords link (rs.map Record.normal)).byId = some x := by
  rw [← Option.isSome_iff_exists, find?_normal, Option.isSome_map, List.find?_isSome]
  refine ⟨d, List.mem_flatMap.mpr ⟨r, hr, hd⟩, ?_⟩
  rw [Record.hasId, hid]
  exact Scalar.same_refl id

/-- A reader that holds a record of every node listed finds each of them. -/
theorem findsListed_of_heads {g : Graph} (link : Record → String) {rs : List Record}
    (hrs : ∀ p ∈ Site.summaryNodes g, ∃ r ∈ rs, r.Heads (g.node p)) :
    (ofRecords link (rs.map Record.normal)).FindsListed g := by
  intro p hp id hid
  obtain ⟨r, hr, hheads⟩ := hrs p hp
  exact find?_isSome link hr (Record.mem_declared.mpr (.inl rfl)) (hheads.id.trans hid)

end Reader

namespace Site

variable {site : Site} {s : Session}

/-- The document holds the records made. -/
theorem summary_of_records {rs : List Record} (h : (site.summaryRecords.run.run s).1 = .ok rs) :
    (site.summary.run.run s).1 = .ok (.record [("index", .list (rs.map Record.toValue))]) := by
  rw [summary, run_bind]
  rcases hrun : site.summaryRecords.run.run s with ⟨_ | _, s'⟩
  · rw [hrun] at h
    cases h
  · rw [hrun] at h
    cases h
    rfl

/-- There is nothing else in a document. -/
theorem summary_eq_ok {v : Value} (h : (site.summary.run.run s).1 = .ok v) :
    ∃ rs, (site.summaryRecords.run.run s).1 = .ok rs ∧
      v = .record [("index", .list (rs.map Record.toValue))] := by
  rw [summary, run_bind] at h
  rcases hrun : site.summaryRecords.run.run s with ⟨_ | rs, s'⟩
  · rw [hrun] at h
    cases h
  · rw [hrun] at h
    cases h
    exact ⟨rs, rfl, rfl⟩

/-- The records of a document are those of the nodes listed, and their ids are known. -/
theorem known_of_summaryRecords (hs : site.Reached s) {rs : List Record}
    (h : (site.summaryRecords.run.run s).1 = .ok rs) :
    (∀ r ∈ rs, r.All (Record.Known site.graph)) ∧
      ∀ p ∈ summaryNodes site.graph, ∃ r ∈ rs, r.Heads (site.graph.node p) := by
  have hkeeps := hs.keeps closed_known fun _ => trivial
  obtain ⟨rs', hrs', rfl⟩ :=
    (closed_known.summaryRecords_spec (fun _ _ => trivial) s hkeeps).2 rs h
  refine ⟨fun r hr => ?_, fun p hp => ?_⟩
  · obtain ⟨p, -, hp⟩ := exists_of_mem_forall₂ hrs' (List.mem_mergeSort.mp hr)
    exact hp.2
  · obtain ⟨r, hr, hpr⟩ := exists_of_mem_forall₂ hrs'.flip hp
    exact ⟨r, List.mem_mergeSort.mpr hr, hpr.1⟩

/-- A record is read back as it was written. -/
theorem record_read (hint : site.graph.IntIds) (hs : site.Reached s) {p : Place} {r : Record}
    (h : ((site.summarize p).run.run s).1 = .ok r) : Record.ofValue r.toValue = .ok r.normal := by
  have hknown := (closed_known.summarize_spec trivial s (hs.keeps closed_known fun _ => trivial)).2 r h
  exact r.ofValue_toValue fun x hx => (hknown.2 x hx).writable hint

/-- So is what stands in a type position. -/
theorem position_read (hint : site.graph.IntIds) (hs : site.Reached s) {p : Place}
    {v : TypeValue Record} (h : ((site.position p).run.run s).1 = .ok v) :
    Record.typeOfValue v.toValue = .ok (Record.normalType (some v)) := by
  have hknown := (closed_known.position_spec trivial s (hs.keeps closed_known fun _ => trivial)).2 v h
  refine Record.typeOfValue_toValue (fun r hr x hx => (hknown.2 r hr x hx).writable hint) ?_
  intro id hid
  obtain ⟨q, hq⟩ := hknown.1 id (Option.some.inj hid)
  exact hint q id hq

/-- A document of records that can be written is read as the reader of these records. -/
theorem reader_of_records (link : Record → String) {rs : List Record}
    (hrs : ∀ r ∈ rs, r.All Record.Writable) :
    Reader.ofValue link (.record [("index", .list (rs.map Record.toValue))]) =
      .ok (Reader.ofRecords link (rs.map Record.normal)) := by
  have hread : (rs.map Record.toValue).mapM Record.ofValue = .ok (rs.map Record.normal) :=
    mapM_ok fun r hr => r.ofValue_toValue (hrs r hr)
  simp only [Value.record, List.map_cons, List.map_nil, Reader.ofValue, Fields.get?_singleton,
    if_true, Option.getD_some, Value.items, hread, bind, Except.bind]
  rfl

/-- The document of a graph with integer ids is read as the reader of the records made for it. -/
theorem reader_of_summaryRecords (hint : site.graph.IntIds) (hs : site.Reached s) {rs : List Record}
    (h : (site.summaryRecords.run.run s).1 = .ok rs) (link : Record → String) :
    Reader.ofValue link (.record [("index", .list (rs.map Record.toValue))]) =
      .ok (Reader.ofRecords link (rs.map Record.normal)) := by
  have hknown := (known_of_summaryRecords hs h).1
  exact reader_of_records link fun r hr x hx => (hknown r hr x hx).writable hint

/-- **The reader of a summary** finds every node listed, and whatever it finds is a record of the node
that has the id. -/
theorem reader_of_summary (hg : site.graph.Sound) (hint : site.graph.IntIds) (hs : site.Reached s)
    {v : Value} (h : (site.summary.run.run s).1 = .ok v) (link : Record → String) :
    ∃ rd, Reader.ofValue link v = .ok rd ∧ rd.link = link ∧ rd.Faithful site.graph ∧
      rd.FindsListed site.graph := by
  obtain ⟨rs, hrs, rfl⟩ := summary_eq_ok h
  obtain ⟨hknown, hlisted⟩ := known_of_summaryRecords hs hrs
  exact ⟨_, reader_of_summaryRecords hint hs hrs link, rfl, Reader.faithful_of_known hg link hknown,
    Reader.findsListed_of_heads link hlisted⟩

/-- **The look-up of a summary.** Let the document of a graph with integer ids be made, in any session.
It can be read. Whatever the reader finds under an id is a record of the node that has the id in the
graph, with its kind and its name, and every node with a page and every named type is found. -/
theorem lookup_faithful {doc : Value} (hload : Graph.ofValue doc = .ok site.graph)
    (hint : site.graph.IntIds) (hs : site.Reached s) {v : Value}
    (hv : (site.summary.run.run s).1 = .ok v) (link : Record → String) :
    ∃ rd, Reader.ofValue link v = .ok rd ∧
      (∀ id d, rd.refRecord? (some (.ref id)) = some d → ∃ p, site.graph.find? id = some p ∧
        d.kind = (site.graph.node p).kind ∧ d.name = (site.graph.node p).name?) ∧
      ∀ id p, site.graph.find? id = some p →
        (site.graph.node p).hasOwnPage = true ∨ (site.graph.node p).kind = .typeAlias →
        ∃ d, rd.refRecord? (some (.ref id)) = some d := by
  have hg := Graph.sound_of_load hload
  obtain ⟨rs, hrs, rfl⟩ := summary_eq_ok hv
  obtain ⟨hknown, hlisted⟩ := known_of_summaryRecords hs hrs
  refine ⟨_, reader_of_summaryRecords hint hs hrs link, fun id d hd => ?_, fun id p hp hkind => ?_⟩
  · obtain ⟨p, k, hk, hsame, hheads⟩ := Reader.exists_heads_of_find? link hknown hd
    exact ⟨p, hg.find?_eq_some_iff.mpr ⟨k, hk, hsame⟩, hheads.kind, hheads.name⟩
  · obtain ⟨k, hk, hsame⟩ := hg.find?_eq_some_iff.mp hp
    have hmem : p ∈ summaryNodes site.graph :=
      List.mem_filter.mpr ⟨List.mem_map.mpr ⟨_, hg.indexed hk, rfl⟩, by simpa using hkind⟩
    obtain ⟨d, hd⟩ := Reader.findsListed_of_heads link hlisted p hmem k hk
    exact ⟨d, (Reader.find?_congr hsame _).symm.trans hd⟩

/-! ## A record in short that comes first -/

/-- A named type for an interface that stands in a namespace, and the namespace in a function. The
interface has a method that returns the function. -/
def boxDocument : Value :=
  .record [("modules", .list [.record [("kind", .text "module"), ("id", .int 1), ("children", .list [
    .record [("kind", .text "type_alias"), ("id", .int 2), ("name", .text "Alias"), ("type", .int 5)],
    .record [("kind", .text "function"), ("id", .int 3), ("children", .list [
      .record [("kind", .text "namespace"), ("id", .int 4), ("children", .list [
        .record [("kind", .text "interface"), ("id", .int 5), ("name", .text "Box"),
          ("children", .list [
            .record [("kind", .text "method"), ("id", .int 6), ("type", .int 3)]])]])]])]])]])]

/-- The site of the document. -/
def boxSite : Site where
  graph :=
    { nodes := #[
        { Node.bare .moduleFile with id := some (.int 1), children := some [1, 2] },
        { Node.bare .typeAlias with
          id := some (.int 2), name := "Alias", type := some 4, parent := some 0 },
        { Node.bare .function with id := some (.int 3), children := some [3], parent := some 0 },
        { Node.bare .namespaceDecl with id := some (.int 4), children := some [4], parent := some 2 },
        { Node.bare .interfaceDecl with
          id := some (.int 5), name := "Box", children := some [5], parent := some 3 },
        { Node.bare .method with id := some (.int 6), type := some 2, parent := some 4 }]
      modules := [0]
      index := [(.int 1, 0), (.int 2, 1), (.int 3, 2), (.int 4, 3), (.int 5, 4), (.int 6, 5)] }
  plan := .empty false
  options := {}

theorem boxDocument_loads : Graph.ofValue boxDocument = .ok boxSite.graph := by
  cbv

theorem boxSite_intIds : boxSite.graph.IntIds := by
  intro p id h
  match p with
  | 0 | 1 | 2 | 3 | 4 | 5 =>
    cases h
    exact ⟨_, rfl⟩
  | p + 6 =>
    rw [Graph.node_of_size_le (by simp [boxSite, Graph.size])] at h
    cases h

/-- The interface in short. -/
def shortBox : Record :=
  { kind := .interfaceDecl, id := some (.int 5), name := some "Box" }

/-- The namespace was recorded while the interface was in progress, for the named type. -/
def boxNamespace : Record :=
  { kind := .namespaceDecl, id := some (.int 4), children := some [shortBox] }

/-- The function with the namespace. -/
def boxFunction : Record :=
  { kind := .function, id := some (.int 3), children := some [boxNamespace] }

/-- The interface with its method. -/
def fullBox : Record :=
  { shortBox with children := some [{ kind := .method, id := some (.int 6)
                                      type := some (.embedded boxFunction) }] }

/-- The named type. -/
def boxAlias : Record :=
  { kind := .typeAlias, id := some (.int 2), name := some "Alias", type := some (.embedded fullBox) }

/-- The records of the document. -/
def boxRecords : List Record :=
  [{ kind := .moduleFile, id := some (.int 1), children := some [boxFunction, boxAlias] },
    boxNamespace, boxAlias, fullBox]

theorem boxSite_records : (boxSite.summaryRecords.run.run {}).1 = .ok boxRecords := by
  cbv

/-- The interface is listed with its method, but the reader meets it in the namespace first. What it
finds there has the kind and the name of the interface all the same. -/
theorem lookup_faithful_short : ∃ rd, Reader.ofValue Record.plainLink
      (.record [("index", .list (boxRecords.map Record.toValue))]) = .ok rd ∧
    rd.refRecord? (some (.ref (.int 5))) = some shortBox ∧
    ∃ p, boxSite.graph.find? (.int 5) = some p ∧ shortBox.kind = (boxSite.graph.node p).kind ∧
      shortBox.name = (boxSite.graph.node p).name? := by
  obtain ⟨rd, hrd, hfound, -⟩ := lookup_faithful boxDocument_loads boxSite_intIds .fresh
    (summary_of_records boxSite_records) Record.plainLink
  have hread := reader_of_summaryRecords boxSite_intIds .fresh boxSite_records Record.plainLink
  obtain rfl := Except.ok.inj (hread.symm.trans hrd)
  have hshort : (Reader.ofRecords Record.plainLink (boxRecords.map Record.normal)).refRecord?
      (some (.ref (.int 5))) = some shortBox := by
    cbv
  exact ⟨_, hrd, hshort, hfound _ _ hshort⟩

end Site

end SymbolDocs
