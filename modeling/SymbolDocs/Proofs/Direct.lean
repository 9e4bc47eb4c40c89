import SymbolDocs.Proofs.Encoding

/-!
# Records without sessions

What a node is recorded as depends on the session, which keeps records, and on the nodes in progress,
which appear in short. Neither matters for a node on which the work comes to an end by itself: then
there is one record, and the program makes that one.

* `Graph.Ends` says that no chain of tasks from a task runs on for ever;
* `Site.IsRecord` and `Site.IsEncoding` are the least relations that follow the steps of the program
  with no node in progress;
* `Site.closed_direct` says that the program follows them, `Site.IsRecord.unique` that they leave no
  choice.
-/

namespace SymbolDocs

open Relation Work

namespace Graph

variable {g : Graph} {t t' : Task}

/-- The work on a task comes to an end: every chain of tasks that it leads to is finite. -/
def Ends (g : Graph) (t : Task) : Prop :=
  Acc (fun t' t => g.Needs t t') t

theorem Ends.step (h : g.Ends t) (ht : g.Needs t t') : g.Ends t' :=
  h.inv ht

theorem Ends.not_circular (h : g.Ends t) : ¬ TransGen g.Needs t t :=
  not_circular_of_acc h

/-- Text is printed finitely when the work on it ends. -/
theorem Ends.printsFinitely {p : Place} (h : g.Ends (.text p)) : g.PrintsFinitely p :=
  Subrelation.accessible (fun hpq => Needs.printed hpq) (InvImage.accessible Task.text h)

theorem Ends.of_position {p : Place} (h : g.Ends (.position p)) : g.PrintsFinitely p :=
  (h.step (.text p)).printsFinitely

/-! ### Computing it -/

/-- The node whose structure is carried for a node, if there is one. -/
def carried (g : Graph) (p : Place) : List Place :=
  ((g.node p).mention?.getD p :: []).filter fun q =>
    (g.node q).isStructural && (g.node q).exportedId?.isNone

theorem mem_carried {p q : Place} (h : g.Carries p q) : q ∈ g.carried p := by
  obtain ⟨hs, hid, hq⟩ := h
  have hq : q = (g.node p).mention?.getD p := by
    rcases hq with ⟨hp, rfl⟩ | ⟨hp, -⟩
    · rw [hp]
      rfl
    · rw [hp]
      rfl
  simp [carried, ← hq, hs, hid]

/-- The tasks that a task can lead to. -/
def next (g : Graph) : Task → List Task
  | .record p => [.body p]
  | .body p => (g.node p).parts.map .record ++ (g.node p).typeParts.map .position ++
      ((g.node p).arguments.flatMap fun a => (g.typeArgument a).types).map .text
  | .position p => (g.node p).arguments.map .position ++
      ((g.node p).members.flatMap fun c => (g.node c).arguments).map .position ++
      (g.carried p).map .body ++ [.text p]
  | .text p => (g.typeRule p).types.map .text

theorem mem_next_of_needs (h : g.Needs t t') : t' ∈ g.next t := by
  cases h with
  | make | text => simp [next]
  | part h | typePart h | argument h => simp [next, h]
  | bound ha hq =>
    simp only [next, List.mem_append, List.mem_map, List.mem_flatMap]
    exact .inr ⟨_, ⟨_, ha, hq⟩, rfl⟩
  | heritage _ hc ha =>
    simp only [next, List.mem_append, List.mem_map, List.mem_flatMap]
    exact .inl (.inl (.inr ⟨_, ⟨_, hc, ha⟩, rfl⟩))
  | carry h => simp [next, mem_carried h]
  | printed h => exact List.mem_map_of_mem h

/-- Does the work on a task end after so many steps? -/
def endsWithin (g : Graph) : Nat → Task → Bool
  | 0, _ => false
  | n + 1, t => (g.next t).all (endsWithin g n)

theorem ends_of_endsWithin {n : Nat} (h : g.endsWithin n t = true) : g.Ends t := by
  induction n generalizing t with
  | zero => cases h
  | succ n ih =>
    rw [endsWithin, List.all_eq_true] at h
    exact ⟨t, fun t' ht => ih (h t' (mem_next_of_needs ht))⟩

/-- The making of each record in progress has led to the task. -/
def Below (g : Graph) (active : List Place) (t : Task) : Prop :=
  ∀ a ∈ active, ReflTransGen g.Needs (.body a) t

/-- Where the work ends, it puts no node in progress that is in progress already. -/
theorem Below.not_mem {active : List Place} {q : Place} (h : g.Below active t) (ht : g.Ends t)
    (hq : g.Needs t (.body q)) : q ∉ active := by
  intro hactive
  exact (ht.step hq).not_circular (TransGen.tail' (h q hactive) hq)

end Graph

namespace Site

variable {site : Site} {S : Place → Record → Prop} {P : Place → TypeValue Record → Prop}
  {B : Place → Record → Prop} {p : Place} {r r' : Record} {v v' : TypeValue Record}

/-! ## The records that the steps lead to -/

/-- What is known of records and type positions follows from the same of their parts. -/
structure Direct (site : Site) (S : Place → Record → Prop) (P : Place → TypeValue Record → Prop) :
    Prop where
  record : ∀ {p r}, site.RecordOf S P p r → S p r
  position : ∀ {p v}, site.PositionOf [] P (site.RecordOf S P) p v → P p v

/-- The record is the one of the node. -/
def IsRecord (site : Site) (p : Place) (r : Record) : Prop :=
  ∀ S P, site.Direct S P → S p r

/-- The node is encoded so in a type position. -/
def IsEncoding (site : Site) (p : Place) (v : TypeValue Record) : Prop :=
  ∀ S P, site.Direct S P → P p v

theorem direct : site.Direct site.IsRecord site.IsEncoding where
  record h _ _ hd := hd.record (h.imp (fun _ _ _ hr => hr _ _ hd) fun _ _ _ hv => hv _ _ hd)
  position h _ _ hd := hd.position (h.imp (fun _ _ => .rfl) (fun _ _ _ hv => hv _ _ hd) fun _ _ _ hr =>
    hr.imp (fun _ _ _ hr => hr _ _ hd) fun _ _ _ hv => hv _ _ hd)

/-- Undoing a step is a step as well, so there is nothing else in the relations. -/
theorem direct_parts : site.Direct (site.RecordOf site.IsRecord site.IsEncoding)
    (site.PositionOf [] site.IsEncoding (site.RecordOf site.IsRecord site.IsEncoding)) where
  record h := h.imp (fun _ _ _ hr => direct.record hr) fun _ _ _ hv => direct.position hv
  position h := h.imp (fun _ _ => .rfl) (fun _ _ _ hv => direct.position hv) fun _ _ _ hr =>
    hr.imp (fun _ _ _ hr => direct.record hr) fun _ _ _ hv => direct.position hv

theorem IsRecord.parts (h : site.IsRecord p r) : site.RecordOf site.IsRecord site.IsEncoding p r :=
  h _ _ direct_parts

theorem IsEncoding.parts (h : site.IsEncoding p v) :
    site.PositionOf [] site.IsEncoding site.IsRecord p v :=
  (h _ _ direct_parts).imp (fun _ _ => .rfl) (fun _ _ _ hv => hv) fun _ _ _ hr => direct.record hr

/-! ## The program makes these records -/

/-- What is known of the record of a node on which the work may not end. -/
def EndingRecord (site : Site) (p : Place) (r : Record) : Prop :=
  site.graph.Ends (.record p) → site.IsRecord p r

/-- The same of type positions. -/
def EndingEncoding (site : Site) (p : Place) (v : TypeValue Record) : Prop :=
  site.graph.Ends (.position p) → site.IsEncoding p v

theorem isRecord_of_ending (h : site.RecordOf site.EndingRecord site.EndingEncoding p r)
    (hp : site.graph.Ends (.body p)) : site.IsRecord p r :=
  direct.record (h.imp (fun _ hc _ hr => hr (hp.step (.part hc)))
    fun _ ht _ hv => hv (hp.step (.typePart ht)))

/-- **Sessions do not matter.** Where the work ends, the program makes the record of the node,
whatever has been kept and is in progress. -/
theorem closed_direct : site.Closed site.graph.Below site.EndingRecord
    (site.RecordOf site.EndingRecord site.EndingEncoding) site.EndingEncoding where
  step hC hneeds _ a ha := (hC a ha).tail hneeds
  enter {active t q} hC hneeds _ a ha := by
    rcases List.mem_cons.mp ha with rfl | ha
    · exact .refl
    · exact (hC a ha).tail hneeds
  kept h hp := isRecord_of_ending h (hp.step (.make _))
  cut hC hp hends := absurd hp (hC.not_mem hends (.make _))
  record h := h
  position {active p v} hC h hends := by
    have hactive : ∀ q, site.graph.Carries p q → q ∉ active :=
      fun q hq => hC.not_mem hends (.carry hq)
    refine direct.position (h.imp (fun q hq => by simp [hactive q hq])
      (fun a ha v hv => hv (hends.step ha)) fun q hq r hr => ?_)
    exact (isRecord_of_ending hr (hends.step (.carry hq))).parts

/-! ## There is no choice -/

theorem forall₂_unique {α β : Type} {Q : α → β → Prop} {as : List α} {bs bs' : List β}
    (h : ∀ a ∈ as, ∀ b b', Q a b → Q a b' → b = b') (hbs : List.Forall₂ Q as bs)
    (hbs' : List.Forall₂ Q as bs') : bs = bs' := by
  induction hbs generalizing bs' with
  | nil =>
    cases hbs'
    rfl
  | cons hb _ ih =>
    cases hbs' with
    | cons hb' hrest =>
      rw [h _ List.mem_cons_self _ _ hb hb', ih (fun a ha => h a (List.mem_cons_of_mem _ ha)) hrest]

theorem anyOf_unique {α : Type} {Q : Place → α → Prop} {ps : List Place} {as as' : Option (List α)}
    (h : ∀ p ∈ ps, ∀ a a', Q p a → Q p a' → a = a') (has : AnyOf Q ps as) (has' : AnyOf Q ps as') :
    as = as' := by
  cases has with
  | none =>
    cases has' with
    | none => rfl
    | some hne => exact absurd rfl hne
  | some hne has =>
    cases has' with
    | none => exact absurd rfl hne
    | some _ has' => rw [forall₂_unique h has has']

theorem optionRel_unique {α β : Type} {Q : α → β → Prop} {a : Option α} {b b' : Option β}
    (h : ∀ x, a = some x → ∀ y y', Q x y → Q x y' → y = y') (hb : Option.Rel Q a b)
    (hb' : Option.Rel Q a b') : b = b' := by
  cases hb with
  | none =>
    cases hb'
    rfl
  | some hb =>
    cases hb' with
    | some hb' => rw [h _ rfl _ _ hb hb']

/-- Only one encoding is known of the node. -/
def OneOf {α : Type} (Q : Place → α → Prop) (p : Place) : Prop :=
  ∀ a a', Q p a → Q p a' → a = a'

theorem oneOf_argument (h : OneOf P p) : OneOf (ArgumentOf P) p := by
  rintro _ _ ⟨v, hv, rfl⟩ ⟨v', hv', rfl⟩
  rw [h v v' hv hv']

theorem oneOf_entry (hc : site.Clean)
    (htext : ∀ q ∈ (site.graph.typeArgument p).types, site.graph.PrintsFinitely q) (h : OneOf P p) :
    OneOf (site.EntryOf P) p := by
  intro r r' hr hr'
  cases hr with
  | parameter hk hs =>
    cases hr' with
    | parameter _ hs' => rw [hs hc htext, hs' hc htext]
    | argument hk' => exact absurd hk hk'
  | argument hk hr =>
    cases hr' with
    | parameter hk' => exact absurd hk' hk
    | argument _ hr' => exact oneOf_argument h _ _ hr hr'

theorem oneOf_resolved (h : ∀ q, (site.graph.node p).resolvedType = some q → OneOf P q) :
    OneOf (site.ResolvedOf P) p := by
  intro o o' ho ho'
  cases ho with
  | none hq =>
    cases ho' with
    | none => rfl
    | name hq' => rw [hq] at hq'; cases hq'
    | encoded hq' => rw [hq] at hq'; cases hq'
  | name hq ht hback =>
    cases ho' with
    | none hq' => rw [hq] at hq'; cases hq'
    | name hq' =>
      rw [hq] at hq'
      cases hq'
      rfl
    | encoded hq' hback' =>
      rw [hq] at hq'
      cases hq'
      exact absurd hback (hback' _ ht)
  | encoded hq hback hv =>
    cases ho' with
    | none hq' => rw [hq] at hq'; cases hq'
    | name hq' ht' hback' =>
      rw [hq] at hq'
      cases hq'
      exact absurd hback' (hback _ ht')
    | encoded hq' _ hv' =>
      rw [hq] at hq'
      cases hq'
      rw [h _ hq _ _ hv hv']

/-- The parts of a record leave no choice. -/
theorem oneOf_record (hc : site.Clean) (hp : site.graph.Ends (.body p))
    (hS : ∀ c ∈ (site.graph.node p).parts, OneOf S c)
    (hP : ∀ t ∈ (site.graph.node p).typeParts, OneOf P t) : OneOf (site.RecordOf S P) p := by
  intro r r' h h'
  have hchildren : r.children = r'.children := by
    obtain ⟨rs, hrs, hr⟩ := h.children
    obtain ⟨rs', hrs', hr'⟩ := h'.children
    rw [hr, hr', anyOf_unique (fun c hc => hS c (List.mem_append_left _ hc)) hrs hrs']
  have hparameters : r.parameters = r'.parameters := by
    refine optionRel_unique (Q := List.Forall₂ S)
      (fun ps hps _ _ => forall₂_unique fun c hc => hS c ?_) h.parameters h'.parameters
    exact List.mem_append_right _ (by simpa [hps] using hc)
  have htypeParameters : r.typeParameters = r'.typeParameters := by
    refine anyOf_unique (fun a ha => oneOf_entry hc (fun q hq => ?_) ?_) h.typeParameters
      h'.typeParameters
    · exact (hp.step (.bound ha hq)).printsFinitely
    · exact hP a (List.mem_append_right _ ha)
  have htype : r.type = r'.type := by
    refine optionRel_unique (fun t ht => hP t ?_) h.type h'.type
    exact List.mem_append_left _ (List.mem_append_left _ (by simp [ht]))
  have hresolved : r.resolvedType = r'.resolvedType := by
    obtain ⟨o, ho, hr⟩ := h.resolvedType
    obtain ⟨o', ho', hr'⟩ := h'.resolvedType
    rw [hr, hr', htype, oneOf_resolved (fun q hq => hP q ?_) o o' ho ho']
    exact List.mem_append_left _ (List.mem_append_right _ (by simp [hq]))
  have hflat := And.intro (h.kind.trans h'.kind.symm) (And.intro (h.id.trans h'.id.symm)
    (And.intro (h.name.trans h'.name.symm) (And.intro (h.flags.trans h'.flags.symm)
    (And.intro (h.value.trans h'.value.symm) (And.intro (h.docs.trans h'.docs.symm)
      (h.tsconfig.trans h'.tsconfig.symm))))))
  cases r
  cases r'
  simp_all

theorem oneOf_heritageTarget (hc : site.Clean) (hp : site.graph.PrintsFinitely p) :
    OneOf site.HeritageTargetOf p := by
  intro v v' hv hv'
  cases hv with
  | ref ht hid =>
    cases hv' with
    | ref ht' hid' =>
      obtain rfl := Option.some.inj (ht.symm.trans ht')
      rw [Option.some.inj (hid.symm.trans hid')]
    | text hid' => simp [hid' _ ht] at hid
  | text hid hs =>
    cases hv' with
    | ref ht' hid' => simp [hid _ ht'] at hid'
    | text _ hs' => rw [hs hc hp, hs' hc hp]

theorem oneOf_heritageEntry (hc : site.Clean) (hp : site.graph.PrintsFinitely p)
    (hP : ∀ a ∈ (site.graph.node p).arguments, OneOf P a) : OneOf (site.HeritageEntryOf P) p := by
  rintro _ _ ⟨v, args, hv, hargs, rfl⟩ ⟨v', args', hv', hargs', rfl⟩
  rw [oneOf_heritageTarget hc hp v v' hv hv',
    anyOf_unique (fun a ha => oneOf_argument (hP a ha)) hargs hargs']

theorem oneOf_flattened (hc : site.Clean)
    (hp : (site.graph.node p).isStructural = false → site.graph.PrintsFinitely p)
    (hP : (site.graph.node p).kind = .classType → ∀ c ∈ (site.graph.node p).members,
      ∀ a ∈ (site.graph.node c).arguments, OneOf P a)
    (hB : (site.graph.node p).isStructural = true → OneOf B p) :
    OneOf (site.FlattenedOf [] P B) p := by
  intro v v' hv hv'
  cases hv with
  | heritage hk hrs =>
    cases hv' with
    | heritage _ hrs' =>
      have hentries : ∀ c ∈ site.heritageEntries p, OneOf (site.HeritageEntryOf P) c := by
        intro c hc'
        have hmem := List.mem_of_mem_filter hc'
        have hs : (site.graph.node p).isStructural = false := by
          simp [Node.isStructural, hk, Kind.isEmbedded]
        refine oneOf_heritageEntry hc ((hp hs).step ?_) (hP hk c hmem)
        simp [Graph.Prints, Graph.typeRule, hk, Graph.classType, Layout.types, hmem]
      rw [forall₂_unique hentries hrs hrs']
    | base hk' => rw [hk] at hk'; cases hk'
    | text hk' => exact absurd hk hk'
    | carried hs => exact absurd hk (isStructural_kind hs).1
    | cut _ h | cutText _ h => cases h
  | base hk =>
    cases hv' with
    | heritage hk' => rw [hk] at hk'; cases hk'
    | base => rfl
    | text _ hk' => exact absurd hk hk'
    | carried hs => exact absurd hk (isStructural_kind hs).2.1
    | cut _ h | cutText _ h => cases h
  | text hk hbase hs h =>
    cases hv' with
    | heritage hk' => exact absurd hk' hk
    | base hk' => exact absurd hk' hbase
    | text _ _ _ h' => rw [h hc (hp hs), h' hc (hp hs)]
    | carried hs' => simp [hs] at hs'
    | cut _ h | cutText _ h => cases h
  | carried hs _ h =>
    cases hv' with
    | heritage hk' => exact absurd hk' (isStructural_kind hs).1
    | base hk' => exact absurd hk' (isStructural_kind hs).2.1
    | text _ _ hs' => simp [hs] at hs'
    | carried _ _ h' => rw [hB hs _ _ h h']
    | cut _ h | cutText _ h => cases h
  | cut _ h | cutText _ h => cases h

/-- The parts of an encoding leave no choice. -/
theorem oneOf_position (hc : site.Clean) (hp : site.graph.Ends (.position p))
    (hP : ∀ a, site.graph.Needs (.position p) (.position a) → OneOf P a)
    (hB : ∀ q, site.graph.Carries p q → OneOf B q) : OneOf (site.PositionOf [] P B) p := by
  intro v v' hv hv'
  cases hv with
  | ref hid harg =>
    cases hv' with
    | ref hid' => rw [Option.some.inj (hid.symm.trans hid')]
    | mention ht hne _ hargs => simp_all
    | text ht hid' => simp [ht, hid'] at hid
    | followed ht hid' => simp [ht, hid'] at hid
    | own ht hid' => simp [ht, hid'] at hid
  | mention ht hne hid hargs hrs =>
    cases hv' with
    | ref hid' harg' => simp_all
    | mention ht' _ hid' _ hrs' =>
      obtain rfl := Option.some.inj (ht.symm.trans ht')
      rw [Option.some.inj (hid.symm.trans hid'),
        forall₂_unique (fun a ha => oneOf_argument (hP a (.argument ha))) hrs hrs']
    | text ht' hid' => simp_all
    | followed ht' hid' => simp_all
    | own ht' => simp_all
  | text ht hid hargs h =>
    cases hv' with
    | ref hid' harg' => simp_all
    | mention ht' hne' hid' => simp_all
    | text _ _ _ h' => rw [h hc hp.of_position, h' hc hp.of_position]
    | followed ht' hid' hargs' hs' => simp_all
    | own ht' => simp_all
  | followed ht hid hargs hs h =>
    cases hv' with
    | ref hid' harg' => simp_all
    | mention ht' hne' hid' => simp_all
    | text ht' hid' hargs' => simp_all
    | followed ht' _ _ _ h' =>
      obtain rfl := Option.some.inj (ht.symm.trans ht')
      refine oneOf_flattened hc (fun hs' => ?_) (fun hk => ?_)
        (fun _ => hB _ ⟨hs, hid, .inr ⟨ht, hargs⟩⟩) v v' h h'
      · simp [hs] at hs'
      · exact absurd hk (isStructural_kind hs).1
    | own ht' => simp_all
  | own ht hid h =>
    cases hv' with
    | ref hid' => simp_all
    | mention ht' => simp_all
    | text ht' => simp_all
    | followed ht' => simp_all
    | own _ _ h' =>
      exact oneOf_flattened hc (fun _ => hp.of_position)
        (fun hk c hc' a ha => hP a (.heritage hk hc' ha))
        (fun hs => hB p ⟨hs, hid, .inl ⟨ht, rfl⟩⟩) v v' h h'

/-- What is determined by the steps. -/
def Determined (site : Site) : Graph.Task → Prop
  | .record p | .body p => OneOf site.IsRecord p
  | .position p => OneOf site.IsEncoding p
  | .text _ => True

theorem determined_of_ends (hc : site.Clean) {t : Graph.Task} (h : site.graph.Ends t) :
    site.Determined t := by
  induction h with
  | intro t hends ih =>
    have hends : site.graph.Ends t := ⟨t, hends⟩
    cases t with
    | record p => exact ih (.body p) (.make p)
    | body p =>
      intro r r' hr hr'
      exact oneOf_record hc hends (fun c hc => ih _ (.part hc)) (fun t ht => ih _ (.typePart ht)) r r'
        hr.parts hr'.parts
    | position p =>
      intro v v' hv hv'
      exact oneOf_position hc hends (fun a ha => ih _ ha) (fun q hq => ih _ (.carry hq)) v v' hv.parts
        hv'.parts
    | text p => trivial

/-- **The record of a node** on which the work ends is the only one. -/
theorem IsRecord.unique (hc : site.Clean) (hp : site.graph.Ends (.record p)) (h : site.IsRecord p r)
    (h' : site.IsRecord p r') : r = r' :=
  determined_of_ends hc hp r r' h h'

end Site

end SymbolDocs
