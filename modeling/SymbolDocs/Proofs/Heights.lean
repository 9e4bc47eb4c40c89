import SymbolDocs.Proofs.Depth
import SymbolDocs.Proofs.Parts
import SymbolDocs.Proofs.Tables

/-!
# How high records are

A record holds records, some kept in the session and some made for this place only. A kept record was
complete before it was put into another one, so kept records inside each other were kept one after the
other; between two of them there are no more records than the work is deep.

* `Record.Within` bounds how many records stand inside each other;
* `Graph.Layered` says that the records of a table are the lower the earlier they were kept;
* `Work.Fits` says what a piece of work keeps of this, with a bound on its answer that depends on how
  many records there are in the end;
* `Site.Reached.within_summarize` and `Site.Reached.within_summaryRecords` bound every record that is
  returned, by a number that depends on the graph only.
-/

namespace SymbolDocs

open Relation

/-! ## Heights -/

/-- At most so many records stand inside each other, the record itself included. -/
def Record.Within : Nat → Record → Prop
  | 0, _ => False
  | n + 1, r => ∀ x, r.Part x → Within n x

/-- The same of a record in a type position. -/
def TypeValue.Within (n : Nat) (v : TypeValue Record) : Prop :=
  ∀ r, v = .embedded r → r.Within n

theorem Record.Within.mono {n m : Nat} {r : Record} (h : r.Within n) (hnm : n ≤ m) : r.Within m := by
  induction n generalizing m r with
  | zero => exact h.elim
  | succ n ih =>
    obtain ⟨m, rfl⟩ : ∃ k, m = k + 1 := ⟨m - 1, by omega⟩
    exact fun x hx => ih (h x hx) (by omega)

/-- A record without parts. -/
theorem Record.Within.of_flat {n : Nat} {r : Record} (h : ∀ x, ¬ r.Part x) : r.Within (n + 1) :=
  fun x hx => absurd hx (h x)

theorem TypeValue.Within.mono {n m : Nat} {v : TypeValue Record} (h : v.Within n) (hnm : n ≤ m) :
    v.Within m :=
  fun r hr => (h r hr).mono hnm

/-- A type argument is no higher than what it is made of. -/
theorem TypeValue.Within.asRecord {n : Nat} {v : TypeValue Record} (h : v.Within (n + 1)) :
    v.asRecord.Within (n + 1) := by
  cases v with
  | embedded r => exact h r rfl
  | ref id | inline s =>
    refine .of_flat ?_
    rintro x (hx | hx | hx | hx | hx) <;> cases hx

namespace Graph

/-- How many nodes of the graph a table has records of. -/
def kept (g : Graph) (t : List (Place × Record)) : Nat :=
  t.countP fun e => decide (e.1 < g.size)

/-- How many records there can be between a kept record and those kept before it. -/
def layer (g : Graph) : Nat :=
  2 * Site.summaryDepth g

/-- Every record of a table is as high as the number of those kept so far allows. -/
def Layered (g : Graph) : List (Place × Record) → Prop
  | [] => True
  | e :: t => e.2.Within (g.kept (e :: t) * g.layer + 2) ∧ Layered g t

variable {g : Graph}

theorem kept_le_cons (g : Graph) (e : Place × Record) (t : List (Place × Record)) :
    g.kept t ≤ g.kept (e :: t) :=
  (List.sublist_cons_self e t).countP_le

theorem Layered.lookup {t : List (Place × Record)} (h : g.Layered t) {p : Place} {r : Record}
    (hr : t.lookup p = some r) : r.Within (g.kept t * g.layer + 2) := by
  induction t with
  | nil => cases hr
  | cons e t ih =>
    have hmono : g.kept t * g.layer + 2 ≤ g.kept (e :: t) * g.layer + 2 :=
      Nat.add_le_add_right (Nat.mul_le_mul_right _ (g.kept_le_cons e t)) 2
    rw [List.lookup_cons] at hr
    split at hr
    · cases hr
      exact h.1
    · exact (ih h.2 hr).mono hmono

/-- A table has records of no more nodes than there are. -/
theorem kept_le_size {t : List (Place × Record)} (h : (t.map Prod.fst).Nodup) : g.kept t ≤ g.size := by
  have hnodup : ((t.filter fun e => decide (e.1 < g.size)).map Prod.fst).Nodup :=
    h.sublist (List.filter_sublist.map _)
  have hlen := length_le_size hnodup fun a ha => by
    obtain ⟨e, he, rfl⟩ := List.mem_map.mp ha
    simpa using (List.mem_filter.mp he).2
  rwa [List.length_map, ← List.countP_eq_length_filter] at hlen

end Graph

/-! ## Work on layered tables -/

namespace Work

variable {α β : Type} {g : Graph} {n m : Nat}

/-- From a layered table with records of at least `n` nodes the work leads to a layered table with no
fewer than before, and an answer satisfies `Q` for the number there is in the end, and for more. -/
def Fits (g : Graph) (n : Nat) (w : Work α) (Q : Nat → α → Prop) : Prop :=
  ∀ s : Session, g.Layered s.records → n ≤ g.kept s.records →
    g.Layered (w.run.run s).2.records ∧ g.kept s.records ≤ g.kept (w.run.run s).2.records ∧
      ∀ a, (w.run.run s).1 = .ok a → ∀ k, g.kept (w.run.run s).2.records ≤ k → Q k a

namespace Fits

theorem pure {a : α} {Q : Nat → α → Prop} (h : ∀ k, n ≤ k → Q k a) : Fits g n (Pure.pure a) Q := by
  intro s hs hn
  refine ⟨hs, le_rfl, fun b hb k hk => ?_⟩
  cases hb
  exact h k (hn.trans hk)

theorem throw (e : Fault) (Q : Nat → α → Prop) : Fits g n (MonadExcept.throw e : Work α) Q :=
  fun _ hs _ => ⟨hs, le_rfl, fun _ hb => by cases hb⟩

/-- What comes second starts with the records that are there after the first. -/
theorem bind {w : Work α} {f : α → Work β} {Q : Nat → α → Prop} {Q' : Nat → β → Prop}
    (hw : Fits g n w Q) (hf : ∀ m a, n ≤ m → (∀ k, m ≤ k → Q k a) → Fits g m (f a) Q') :
    Fits g n (w >>= f) Q' := by
  intro s hs hn
  obtain ⟨hs', hle, hQ⟩ := hw s hs hn
  rw [run_bind]
  rcases hrun : w.run.run s with ⟨_ | a, s'⟩
  · rw [hrun] at hs' hle
    exact ⟨hs', hle, fun b hb => by cases hb⟩
  · rw [hrun] at hs' hle hQ
    obtain ⟨hs'', hle', hQ'⟩ := hf _ a (hn.trans hle) (hQ a rfl) s' hs' le_rfl
    exact ⟨hs'', hle.trans hle', hQ'⟩

/-- The answer is used once. -/
theorem map {w : Work α} {f : α → β} {Q : Nat → α → Prop} {Q' : Nat → β → Prop} (hw : Fits g n w Q)
    (hf : ∀ k a, Q k a → Q' k (f a)) : Fits g n (do return f (← w)) Q' :=
  hw.bind fun _ a _ ha => .pure fun k hk => hf k a (ha k hk)

theorem later {w : Work α} {Q : Nat → α → Prop} (h : Fits g n w Q) (hnm : n ≤ m) : Fits g m w Q :=
  fun s hs hm => h s hs (hnm.trans hm)

theorem mono {w : Work α} {Q Q' : Nat → α → Prop} (hw : Fits g n w Q)
    (h : ∀ k a, Q k a → Q' k a) : Fits g n w Q' := by
  intro s hs hn
  obtain ⟨hs', hle, hQ⟩ := hw s hs hn
  exact ⟨hs', hle, fun a ha k hk => h k a (hQ a ha k hk)⟩

/-- Work that writes no records. -/
theorem of_grows {w : Work α} (h : Grows (fun _ => True) (fun _ => False) w) :
    Fits g n w fun _ _ => True := by
  intro s hs hn
  have hsame := (h.session s).records.eq_of_false
  rw [hsame]
  exact ⟨hs, le_rfl, fun _ _ _ _ => trivial⟩

/-! ### Lists of places -/

section

variable {f : Place → Work α} {Q : Nat → α → Prop}

theorem eachPlace {ps : List Place} (h : ∀ p ∈ ps, Fits g n (f p) Q) :
    Fits g n (SymbolDocs.eachPlace f ps) fun k as => ∀ a ∈ as, Q k a := by
  induction ps generalizing n with
  | nil => exact .pure fun _ _ => by simp
  | cons p rest ih =>
    refine (h p List.mem_cons_self).bind fun m a hm ha => ?_
    refine (ih fun q hq => (h q (List.mem_cons_of_mem _ hq)).later hm).bind fun m' more hm' hmore => ?_
    exact .pure fun k hk => List.forall_mem_cons.mpr ⟨ha k (hm'.trans hk), hmore k hk⟩

theorem eachOf {ps : Option (List Place)} (h : ∀ p ∈ ps.getD [], Fits g n (f p) Q) :
    Fits g n (SymbolDocs.eachOf f ps) fun k as => ∀ a ∈ as.getD [], Q k a := by
  cases ps with
  | none => exact .pure fun _ _ => by simp
  | some ps => exact (eachPlace h).map fun _ _ has => has

theorem eachIfAny {ps : List Place} (h : ∀ p ∈ ps, Fits g n (f p) Q) :
    Fits g n (SymbolDocs.eachIfAny f ps) fun k as => ∀ a ∈ as.getD [], Q k a := by
  unfold SymbolDocs.eachIfAny
  split
  · exact .pure fun _ _ => by simp
  · exact (eachPlace h).map fun _ _ has => has

theorem onPlace {p : Option Place} (h : ∀ q, p = some q → Fits g n (f q) Q) :
    Fits g n (SymbolDocs.onPlace f p) fun k o => ∀ a, o = some a → Q k a := by
  cases p with
  | none => exact .pure fun _ _ => by simp
  | some q => exact (h q rfl).map fun _ _ ha _ hb => Option.some.inj hb ▸ ha

end

end Fits

end Work

/-! ## Records and type positions -/

namespace Site

open Work

variable {site : Site} {n : Nat} {h : Nat → Nat} {summarize : Place → Work Record}
  {position : Place → Work (TypeValue Record)} {enter : Place → Work Record} {p : Place}

theorem print_fits (l : Layout) : Fits site.graph n (site.print l) fun _ _ => True :=
  .of_grows (site.print_grows fun _ _ _ _ => trivial)

theorem text_fits (p : Place) :
    Fits site.graph n (do return .inline (← site.text p)) fun k (v : TypeValue Record) =>
      v.Within (h k) := by
  have htext : Fits site.graph n (site.text p) fun _ _ => True :=
    Fits.map (print_fits _) fun _ _ _ => trivial
  exact htext.map fun _ _ _ _ hr => by cases hr

theorem argumentRecord_fits (hP : Fits site.graph n (position p) fun k v => v.Within (h k + 1)) :
    Fits site.graph n (argumentRecord position p) fun k r => r.Within (h k + 1) :=
  hP.map fun _ _ hv => hv.asRecord

theorem typeParameterRecord_fits (hP : Fits site.graph n (position p) fun k v => v.Within (h k + 1)) :
    Fits site.graph n (site.typeParameterRecord position p) fun k r => r.Within (h k + 1) := by
  unfold typeParameterRecord
  dsimp only
  split
  · exact argumentRecord_fits hP
  · refine Fits.map (print_fits _) fun _ _ _ => .of_flat ?_
    rintro x (hx | hx | hx | hx | hx) <;> cases hx

theorem resolvedPosition_fits (hP : ∀ q, (site.graph.node p).resolvedType = some q →
      Fits site.graph n (position q) fun k v => v.Within (h k + 1)) :
    Fits site.graph n (site.resolvedPosition position p) fun k o =>
      ∀ v, o = some v → v.Within (h k + 1) := by
  unfold resolvedPosition
  cases hq : (site.graph.node p).resolvedType with
  | none => exact .pure fun _ _ _ hv => by cases hv
  | some q =>
    have hposition : Fits site.graph n (do return some (← position q)) fun k o =>
        ∀ v, o = some v → v.Within (h k + 1) :=
      (hP q hq).map fun _ _ hv _ h => Option.some.inj h ▸ hv
    dsimp only
    split
    · split
      · refine .pure fun _ _ v hv r hr => ?_
        cases hv
        cases hr
      · exact hposition
    · exact hposition

/-- The record of a node is higher by one than what is in it. -/
theorem recordWith_fits
    (hS : ∀ c ∈ (site.graph.node p).parts, Fits site.graph n (summarize c) fun k r => r.Within (h k + 1))
    (hP : ∀ t ∈ (site.graph.node p).typeParts,
      Fits site.graph n (position t) fun k v => v.Within (h k + 1)) :
    Fits site.graph n (site.recordWith summarize position p) fun k r => r.Within (h k + 2) := by
  refine (Fits.eachIfAny fun c hc => hS c (List.mem_append_left _ hc)).bind
    fun n₁ children h₁ hchildren => ?_
  refine (Fits.eachOf fun c hc => (hS c (List.mem_append_right _ hc)).later h₁).bind
    fun n₂ parameters h₂ hparameters => ?_
  refine (Fits.eachIfAny fun a ha => (typeParameterRecord_fits
    (hP a (List.mem_append_right _ ha))).later (h₁.trans h₂)).bind
    fun n₃ typeParameters h₃ htypeParameters => ?_
  refine (Fits.onPlace fun t ht => (hP t ?_).later (h₁.trans (h₂.trans h₃))).bind
    fun n₄ type h₄ htype => ?_
  · exact List.mem_append_left _ (List.mem_append_left _ (by simp [ht]))
  refine ((resolvedPosition_fits fun q hq => hP q ?_).later
    (h₁.trans (h₂.trans (h₃.trans h₄)))).bind fun n₅ resolved h₅ hresolved => ?_
  · exact List.mem_append_left _ (List.mem_append_right _ (by simp [hq]))
  refine .pure fun k hk => ?_
  rintro x (hx | hx | hx | hx | hx)
  · refine hchildren k (h₂.trans (h₃.trans (h₄.trans (h₅.trans hk)))) x ?_
    dsimp only at hx
    split at hx
    · exact hx
    · cases children with
      | none => exact hx
      | some rs => exact List.mem_mergeSort.mp hx
  · exact hparameters k (h₃.trans (h₄.trans (h₅.trans hk))) x hx
  · exact htypeParameters k (h₄.trans (h₅.trans hk)) x hx
  · exact htype k (h₅.trans hk) _ hx x rfl
  · exact hresolved k hk _ (dropSame_eq_some hx) x rfl

theorem heritageTarget_fits : Fits site.graph n (site.heritageTarget p) fun _ v => v.Within 0 := by
  unfold heritageTarget
  split
  · refine .pure fun _ _ r hr => ?_
    cases hr
  · exact text_fits p

theorem heritageEntry_fits
    (hP : ∀ a ∈ (site.graph.node p).arguments,
      Fits site.graph n (position a) fun k v => v.Within (h k + 1)) :
    Fits site.graph n (site.heritageEntry position p) fun k r => r.Within (h k + 2) := by
  refine heritageTarget_fits.bind fun m v hm hv => ?_
  refine Fits.bind (Fits.eachIfAny fun a ha => (argumentRecord_fits (hP a ha)).later hm)
    fun m' args hm' hargs => ?_
  refine .pure fun k hk => ?_
  rintro x (hx | hx | hx | hx | hx)
  · cases hx
  · cases hx
  · exact hargs k hk x hx
  · exact (hv m le_rfl x (Option.some.inj hx)).elim
  · cases hx

theorem heritageRecord_fits
    (hP : ∀ c ∈ (site.graph.node p).members, ∀ a ∈ (site.graph.node c).arguments,
      Fits site.graph n (position a) fun k v => v.Within (h k + 1)) :
    Fits site.graph n (site.heritageRecord position p) fun k r => r.Within (h k + 3) := by
  refine Fits.map (Fits.eachPlace fun c hc => heritageEntry_fits (hP c (List.mem_of_mem_filter hc)))
    fun k rs hrs => ?_
  rintro x (hx | hx | hx | hx | hx)
  · exact hrs x hx
  · cases hx
  · cases hx
  · cases howner : (site.graph.heritageOwner? p).bind fun o => (site.graph.node o).id <;>
      simp [howner] at hx
  · cases hx

theorem flattenNode_fits {active : List Place}
    (hP : (site.graph.node p).kind = .classType → ∀ c ∈ (site.graph.node p).members,
      ∀ a ∈ (site.graph.node c).arguments, Fits site.graph n (position a) fun k v => v.Within (h k + 1))
    (hB : (site.graph.node p).isStructural = true → p ∉ active →
      Fits site.graph n (enter p) fun k r => r.Within (h k + 2)) :
    Fits site.graph n (site.flattenNode active position enter p) fun k v => v.Within (h k + 3) := by
  have hplain : ∀ v : TypeValue Record, (∀ r, v ≠ .embedded r) →
      Fits site.graph n (pure v) fun k v => v.Within (h k + 3) :=
    fun v hv => .pure fun _ _ r hr => absurd hr (hv r)
  have hcarried : ∀ {m : Nat} {r : Record}, r.Within m → (TypeValue.embedded r).Within m :=
    fun hr _ h => TypeValue.embedded.inj h ▸ hr
  unfold flattenNode
  dsimp only
  split
  · rename_i hk
    exact Fits.map (heritageRecord_fits (hP (by simpa using hk))) fun _ _ hr => hcarried hr
  split
  · exact hplain _ (by simp)
  split
  · exact text_fits p
  rename_i hs
  have hs : (site.graph.node p).isStructural = true := by simpa [Node.isStructural] using hs
  split
  · split
    · exact hplain _ (by simp)
    · split
      · exact hplain _ (by simp)
      · exact text_fits p
  · rename_i hp
    exact (hB hs hp).map fun _ _ hr => hcarried (hr.mono (Nat.le_succ _))

/-- What stands in a type position is higher by two at most than what it is made of. -/
theorem positionWith_fits {active : List Place}
    (hP : ∀ a, site.graph.Needs (.position p) (.position a) →
      Fits site.graph n (position a) fun k v => v.Within (h k + 1))
    (hB : ∀ q, site.graph.Carries p q → q ∉ active →
      Fits site.graph n (enter q) fun k r => r.Within (h k + 2)) :
    Fits site.graph n (site.positionWith active position enter p) fun k v => v.Within (h k + 3) := by
  cases hid : (site.graph.node ((site.graph.node p).mention?.getD p)).exportedId? with
  | some id =>
    rw [positionWith_of_some hid]
    split
    · refine Fits.map (Fits.eachPlace fun a ha => argumentRecord_fits (hP a (.argument ha)))
        fun k rs hrs r hr => ?_
      cases hr
      have hmention : Record.Within (h k + 2)
          { kind := .reference, type := some (.ref id), typeParameters := some rs } := by
        rintro x (hx | hx | hx | hx | hx)
        · cases hx
        · cases hx
        · exact hrs x hx
        · cases hx
        · cases hx
      exact hmention.mono (Nat.le_succ _)
    · exact .pure fun _ _ r hr => by cases hr
  | none =>
    rw [positionWith_of_none hid]
    cases ht : (site.graph.node p).mention? with
    | none =>
      rw [ht] at hid
      rw [flattenWith_of_none ht]
      exact flattenNode_fits (fun hk c hc a ha => hP a (.heritage hk hc ha)) fun hs hp =>
        hB p ⟨hs, hid, .inl ⟨ht, rfl⟩⟩ hp
    | some t =>
      rw [ht] at hid
      rw [flattenWith_of_some ht]
      split
      · exact text_fits p
      · rename_i hcond
        have hargs : (site.graph.node p).arguments = [] := by
          by_contra h
          exact hcond (.inl h)
        have hs : (site.graph.node t).isStructural = true := by
          by_contra h
          exact hcond (.inr (by simpa using h))
        refine flattenNode_fits (fun hk => absurd hk (isStructural_kind hs).1) fun hs hp => ?_
        exact hB t ⟨hs, hid, .inr ⟨ht, hargs⟩⟩ hp

/-! ## Whole runs -/

/-- Work on a node that is kept puts a layer on top of those kept before. A place outside the table
of nodes counts for nothing, but there is nothing in its record either. -/
theorem once_fits {active : List Place} {w : Work Record}
    (hw : Fits site.graph n w fun k r => r.Within (k * site.graph.layer + (site.graph.layer + 2)))
    (houtside : site.graph.size ≤ p → Fits site.graph n w fun _ r => r.Within 2) :
    Fits site.graph n (once .records active p (site.graph.node p).stub w) fun k r =>
      r.Within (k * site.graph.layer + 2) := by
  intro s hs hn
  have hmono : ∀ {i k : Nat}, i ≤ k → i * site.graph.layer + 2 ≤ k * site.graph.layer + 2 :=
    fun hik => Nat.add_le_add_right (Nat.mul_le_mul_right _ hik) 2
  rw [run_once]
  split
  · rename_i r hr
    refine ⟨hs, le_rfl, fun r' hr' k hk => ?_⟩
    cases hr'
    exact (hs.lookup hr).mono (hmono hk)
  split
  · refine ⟨hs, le_rfl, fun r' hr' k hk => ?_⟩
    cases hr'
    refine .of_flat ?_
    rintro x (hx | hx | hx | hx | hx) <;> cases hx
  obtain ⟨hs', hle, hr⟩ := hw s hs hn
  have hout := fun hp => (houtside hp s hs hn).2.2
  rcases hrun : w.run.run s with ⟨_ | r, s'⟩
  · rw [hrun] at hs' hle
    exact ⟨hs', hle, fun _ h => by cases h⟩
  · rw [hrun] at hs' hle hr hout
    have htop : r.Within (site.graph.kept ((p, r) :: s'.records) * site.graph.layer + 2) := by
      by_cases hp : p < site.graph.size
      · have hcount : site.graph.kept ((p, r) :: s'.records) = site.graph.kept s'.records + 1 := by
          simp [Graph.kept, hp]
        rw [hcount, Nat.succ_mul, Nat.add_assoc]
        exact hr r rfl _ le_rfl
      · exact (hout (Nat.le_of_not_lt hp) r rfl _ le_rfl).mono (Nat.le_add_left _ _)
    refine ⟨⟨htop, hs'⟩, hle.trans (site.graph.kept_le_cons _ _), fun r' hr' k hk => ?_⟩
    cases hr'
    exact htop.mono (hmono hk)

/-- **Heights.** A record that is made is as high as the number of nodes with kept records allows; in
a type position there is more by two for each step down. -/
theorem summarizeFrom_fits (fuel : Nat) (hfuel : fuel ≤ summaryDepth site.graph) :
    (∀ active p, Fits site.graph 0 (site.summarizeFrom fuel active p) fun k r =>
      r.Within (k * site.graph.layer + 2)) ∧
    ∀ active p, Fits site.graph 0 (site.positionFrom fuel active p) fun k v =>
      v.Within (k * site.graph.layer + 2 * fuel + 2) := by
  induction fuel with
  | zero =>
    refine ⟨fun active p => ?_, fun active p => ?_⟩
    · rw [summarizeFrom]
      exact .throw _ _
    · rw [positionFrom]
      exact .throw _ _
  | succ fuel ih =>
    obtain ⟨ihS, ihP⟩ := ih (Nat.le_of_succ_le hfuel)
    have hbody : ∀ active q, Fits site.graph 0
        (site.recordWith (fun r => site.summarizeFrom fuel active r)
          (fun r => site.positionFrom fuel active r) q)
        fun k r => r.Within (k * site.graph.layer + 2 * fuel + 3) := fun active q =>
      recordWith_fits (fun c _ => (ihS active c).mono fun k r hr => hr.mono (by omega))
        fun t _ => ihP active t
    refine ⟨fun active p => ?_, fun active p => ?_⟩
    · rw [summarizeFrom_succ]
      refine once_fits ((hbody (p :: active) p).mono fun k r hr => hr.mono ?_) fun hp => ?_
      · simp only [Graph.layer]
        omega
      · have hnode : site.graph.node p = Node.bare .unknown := Graph.node_of_size_le hp
        refine recordWith_fits (h := fun _ => 0) (fun c hc => ?_) fun t ht => ?_
        · rw [hnode] at hc
          cases hc
        · rw [hnode] at ht
          cases ht
    · rw [positionFrom]
      exact positionWith_fits (fun a _ => ihP active a) fun q _ _ => hbody (q :: active) q

theorem summarize_fits (p : Place) : Fits site.graph 0 (site.summarize p) fun k r =>
    r.Within (k * site.graph.layer + 2) :=
  (summarizeFrom_fits _ le_rfl).1 [] p

theorem summaryRecords_fits : Fits site.graph 0 site.summaryRecords fun k rs =>
    ∀ r ∈ rs, r.Within (k * site.graph.layer + 2) :=
  Fits.map (Fits.eachPlace fun p _ => summarize_fits p) fun _ _ hrs r hr =>
    hrs r (List.mem_mergeSort.mp hr)

/-- What a run adds to the table of records is for new places. -/
theorem nodup_of_written {K : Place → Prop} {t t' : List (Place × Record)} (h : Written K t t')
    (ht : (t.map Prod.fst).Nodup) : (t'.map Prod.fst).Nodup := by
  induction h with
  | none => exact ht
  | @entry t' _ p _ hnew b ih =>
    refine List.nodup_cons.mpr ⟨fun hmem => ?_, ih⟩
    obtain ⟨e, he, rfl⟩ := List.mem_map.mp hmem
    simpa using List.lookup_eq_none_iff.mp hnew e he

/-- In every session the table of records is layered, with one record for a place. -/
theorem Reached.layered {s : Session} (hs : site.Reached s) :
    site.graph.Layered s.records ∧ (s.records.map Prod.fst).Nodup := by
  have hstep : ∀ {α : Type} {w : Work α} {Q : Nat → α → Prop} {K J : Place → Prop} {s : Session},
      Fits site.graph 0 w Q → Grows K J w →
      site.graph.Layered s.records ∧ (s.records.map Prod.fst).Nodup →
      site.graph.Layered (w.run.run s).2.records ∧ ((w.run.run s).2.records.map Prod.fst).Nodup :=
    fun {_ _ _ _ _ s} hw hgrows ih =>
      ⟨(hw s ih.1 (Nat.zero_le _)).1, nodup_of_written (hgrows.session s).records ih.2⟩
  induction hs with
  | fresh => exact ⟨trivial, List.nodup_nil⟩
  | print l _ ih =>
    exact hstep (print_fits l) (site.print_grows (K := fun _ => True) (J := fun _ => False)
      fun _ _ _ _ => trivial) ih
  | summarize p _ ih => exact hstep (summarize_fits p) (site.summarize_grows p) ih
  | position p _ ih =>
    exact hstep ((summarizeFrom_fits _ le_rfl).2 [] p) ((site.summarizeFrom_grows _).2 [] p) ih
  | summary _ ih =>
    refine hstep summaryRecords_fits (K := fun _ => True) (J := fun _ => True) ?_ ih
    have heach : Grows (fun _ => True) (fun _ => True)
        (eachPlace site.summarize (summaryNodes site.graph)) :=
      (growing _ _).eachPlace fun p _ =>
        (site.summarize_grows p).mono (fun _ _ => trivial) fun _ _ => trivial
    exact (growing _ _).bind heach fun _ => (growing _ _).pure _

end Site

/-- How high a record of a node of the graph can be. -/
def Graph.heightBound (g : Graph) : Nat :=
  g.size * g.layer + 2

namespace Site

open Work

variable {site : Site} {s : Session}

/-- What an answer satisfies for any number of kept records it satisfies for that of all nodes. -/
theorem Reached.answer {α : Type} {w : Work α} {Q : Nat → α → Prop} (hs : site.Reached s)
    (hw : Fits site.graph 0 w Q) (hs' : site.Reached (w.run.run s).2) {a : α}
    (ha : (w.run.run s).1 = .ok a) : Q site.graph.size a :=
  (hw s hs.layered.1 (Nat.zero_le _)).2.2 a ha _ (Graph.kept_le_size hs'.layered.2)

/-- **Records are trees of bounded height.** In every session, whatever has been kept and is shared,
the record of a node is no higher than the graph allows. -/
theorem Reached.within_summarize (hs : site.Reached s) {p : Place} {r : Record}
    (hr : ((site.summarize p).run.run s).1 = .ok r) : r.Within site.graph.heightBound :=
  hs.answer (summarize_fits p) (.summarize p hs) hr

/-- The same of the records of a whole summary. -/
theorem Reached.within_summaryRecords (hs : site.Reached s) {rs : List Record}
    (hrs : (site.summaryRecords.run.run s).1 = .ok rs) : ∀ r ∈ rs, r.Within site.graph.heightBound :=
  hs.answer summaryRecords_fits (.summary hs) hrs

end Site

end SymbolDocs
