import SymbolDocs.Proofs.Lockstep

/-!
# What a run writes

The two tables of a session are written from inside nested work, part of which may fail. Yet every
entry is written once: work on a node looks the node up before it starts, and while the node is in
progress nothing writes an entry for it.

* `Written` says that a table has got entries for new places only, and for which;
* `Session.Grows` says so of both tables of a session;
* `Work.once` is work on a place that is looked up first, and both tables are written by it;
* `Site.Pass` collects what is needed to follow summarising through all its steps;
* `Site.renderNode_grows` and `Site.summarizeFrom_grows` say for which places a run can write: for
  what the node leads to, apart from the nodes in progress.
-/

namespace SymbolDocs

open Relation

/-! ## Tables -/

/-- The second table is the first one with entries for new places in front, at each of which `K`
holds. -/
inductive Written {β : Type} (K : Place → Prop) (t : List (Place × β)) : List (Place × β) → Prop
  | none : Written K t t
  | entry {t' : List (Place × β)} (h : Written K t t') {p : Place} (hp : K p)
    (hnew : t'.lookup p = none) (b : β) : Written K t ((p, b) :: t')

namespace Written

variable {β : Type} {K K' : Place → Prop} {t t' t'' : List (Place × β)} {p : Place}

theorem trans (h : Written K t t') (h' : Written K t' t'') : Written K t t'' := by
  induction h' with
  | none => exact h
  | entry _ hp hnew b ih => exact .entry ih hp hnew b

theorem mono (hK : ∀ p, K p → K' p) (h : Written K t t') : Written K' t t' := by
  induction h with
  | none => exact .none
  | entry _ hp hnew b ih => exact .entry ih (hK _ hp) hnew b

theorem lookup_cons_of_ne {p q : Place} {b : β} (h : p ≠ q) :
    ((q, b) :: t).lookup p = t.lookup p := by
  rw [List.lookup_cons, beq_eq_false_iff_ne.mpr h]

/-- An entry stays what it is. -/
theorem lookup_some (h : Written K t t') {b : β} (hb : t.lookup p = some b) :
    t'.lookup p = some b := by
  induction h with
  | none => exact hb
  | @entry t' _ q _ hnew c ih =>
    have hne : p ≠ q := by
      rintro rfl
      rw [ih] at hnew
      cases hnew
    rw [lookup_cons_of_ne hne, ih]

/-- Nothing is written where `K` does not hold. -/
theorem lookup_eq (h : Written K t t') (hp : ¬ K p) : t'.lookup p = t.lookup p := by
  induction h with
  | none => rfl
  | @entry t' _ q hq _ c ih =>
    have hne : p ≠ q := fun he => hp (he ▸ hq)
    rw [lookup_cons_of_ne hne, ih]

theorem eq_of_false (h : Written (fun _ => False) t t') : t' = t := by
  cases h with
  | none => rfl
  | entry _ hp => exact hp.elim

theorem suffix (h : Written K t t') : t <:+ t' := by
  induction h with
  | none => exact List.suffix_rfl
  | entry _ _ _ b ih => exact ih.trans (List.suffix_cons _ _)

end Written

/-! ## Sessions -/

/-- Entries have been added to the tables of a session: markup of places at which `K` holds, and
records of places at which `J` holds. -/
structure Session.Grows (K J : Place → Prop) (s s' : Session) : Prop where
  markup : Written K s.markup s'.markup
  records : Written J s.records s'.records

namespace Session.Grows

variable {K K' J J' : Place → Prop} {s s' s'' : Session}

theorem refl (s : Session) : s.Grows K J s := ⟨.none, .none⟩

theorem trans (h : s.Grows K J s') (h' : s'.Grows K J s'') : s.Grows K J s'' :=
  ⟨h.markup.trans h'.markup, h.records.trans h'.records⟩

theorem mono (hK : ∀ p, K p → K' p) (hJ : ∀ p, J p → J' p) (h : s.Grows K J s') :
    s.Grows K' J' s' :=
  ⟨h.markup.mono hK, h.records.mono hJ⟩

end Session.Grows

/-! ## Work that is done once -/

/-- One of the two tables of a session. -/
structure Shelf (β : Type) where
  /-- What is kept there. -/
  entries : Session → List (Place × β)
  /-- Keeps something for a place. -/
  add : Place → β → Session → Session
  entries_add : ∀ p b s, entries (add p b s) = (p, b) :: entries s

/-- The markup of nodes. -/
def Shelf.markup : Shelf String where
  entries := Session.markup
  add p m s := { s with markup := (p, m) :: s.markup }
  entries_add _ _ _ := rfl

/-- The records of nodes. -/
def Shelf.records : Shelf Record where
  entries := Session.records
  add p r s := { s with records := (p, r) :: s.records }
  entries_add _ _ _ := rfl

namespace Work

variable {α β : Type}

/-- Work on a place that is done only when the table has no entry for it. While the work is going on,
a short form stands for its answer. -/
def once (k : Shelf β) (active : List Place) (p : Place) (short : β) (w : Work β) : Work β := do
  match (k.entries (← get)).lookup p with
  | some b => return b
  | none =>
    if p ∈ active then return short
    else
      let b ← w
      modify (k.add p b)
      return b

section

variable {k : Shelf β} {active : List Place} {p : Place} {short : β} {w : Work β} {s : Session}

/-- How a session goes through such work. -/
theorem run_once : (once k active p short w).run.run s =
    match (k.entries s).lookup p with
    | some b => (.ok b, s)
    | none =>
      if p ∈ active then (.ok short, s)
      else
        match w.run.run s with
        | (.ok b, s') => (.ok b, k.add p b s')
        | (.error e, s') => (.error e, s') := by
  have hrun : (once k active p short w).run.run s = _ := run_bind get _ s
  rw [hrun]
  change ((match (k.entries s).lookup p with
    | some b => pure b
    | none => if p ∈ active then pure short else do
      let b ← w
      modify (k.add p b)
      pure b : Work β)).run.run s = _
  cases (k.entries s).lookup p with
  | some b => rfl
  | none =>
    dsimp only
    split
    · rfl
    · rw [run_bind]
      rcases w.run.run s with ⟨_ | b, s'⟩ <;> rfl

/-- Where there is nothing in the table, the answer is that of the work. -/
theorem answer_of_run_once (hs : (k.entries s).lookup p = none) (hp : p ∉ active) :
    ((once k active p short w).run.run s).1 = (w.run.run s).1 := by
  rw [run_once, hs]
  dsimp only
  rw [if_neg hp]
  rcases w.run.run s with ⟨_ | b, s'⟩ <;> rfl

/-- What was answered is kept, unless it was the short form. -/
theorem lookup_of_run_once (hp : p ∉ active) {b : β} {s' : Session}
    (h : (once k active p short w).run.run s = (.ok b, s')) : (k.entries s').lookup p = some b := by
  rw [run_once] at h
  split at h
  · rename_i c hc
    cases h
    exact hc
  · rw [if_neg hp] at h
    split at h
    · cases h
      simp [k.entries_add]
    · cases h

end

/-- Work that leads from each session to one that stands in the relation `T` to it, also when it
fails. -/
def leads (T : Session → Session → Prop) (hrefl : ∀ s, T s s)
    (htrans : ∀ {s s' s''}, T s s' → T s' s'' → T s s'') : Lockstep Work Work where
  Agree w _ := ∀ s, T s (w.run.run s).2
  pure _ s := hrefl s
  throw _ s := hrefl s
  bind {_ _ w _ f _} hw hf s := by
    have hw := hw s
    rw [run_bind]
    rcases hrun : w.run.run s with ⟨_ | a, s'⟩
    · simpa only [hrun] using hw
    · rw [hrun] at hw
      exact htrans hw (hf a s')

/-- Work that is done once leads where the work leads, and then to a new entry. -/
theorem leads_once {T T' : Session → Session → Prop} {k : Shelf β} {active : List Place} {p : Place}
    {short : β} {w : Work β} (hw : p ∉ active → ∀ s, T' s (w.run.run s).2) (hrefl : ∀ s, T s s)
    (hstop : ∀ {s s'}, T' s s' → T s s')
    (hadd : p ∉ active → ∀ {s s'} b, (k.entries s).lookup p = none → T' s s' → T s (k.add p b s'))
    (s : Session) : T s ((once k active p short w).run.run s).2 := by
  rw [run_once]
  split
  · exact hrefl s
  · rename_i hnone
    split
    · exact hrefl s
    · rename_i hp
      have hw := hw hp s
      rcases hrun : w.run.run s with ⟨_ | b, s'⟩
      · rw [hrun] at hw
        exact hstop hw
      · rw [hrun] at hw
        exact hadd hp b hnone hw

/-- Work that adds markup for places at which `K` holds, and records for places at which `J`
holds. -/
def growing (K J : Place → Prop) : Lockstep Work Work :=
  leads (Session.Grows K J) .refl .trans

/-- What the work adds to the tables. -/
abbrev Grows (K J : Place → Prop) (w : Work α) : Prop :=
  (growing K J).Self w

theorem Grows.session {K J : Place → Prop} {w : Work α} (h : Grows K J w) (s : Session) :
    s.Grows K J (w.run.run s).2 :=
  h s

theorem Grows.mono {K K' J J' : Place → Prop} (hK : ∀ p, K p → K' p) (hJ : ∀ p, J p → J' p)
    {w : Work α} (h : Grows K J w) : Grows K' J' w :=
  fun s => (h.session s).mono hK hJ

theorem grows_warn (K J : Place → Prop) (w : Warning) : Grows K J (warn w) :=
  fun _ => ⟨.none, .none⟩

end Work

/-! ## Printing -/

namespace Site

open Work

variable (site : Site) {K J : Place → Prop}

/-- One step of rendering, as work that is done once. -/
theorem renderNode_succ (budget : Nat) (active : List Place) (p : Place) :
    site.renderNode (budget + 1) active p =
      once .markup active p (bareName (site.graph.node p)) ((site.graph.typeRule p).print
        (fun q => do
          let m ← site.renderNode budget (p :: active) q
          return restDots (site.graph.node q) m)
        fun q => site.link q) := by
  rw [renderNode]
  refine congrArg (fun f => (get : Work Session) >>= f) (funext fun s => ?_)
  cases h : s.markup.lookup p with
  | some m => simp only [Shelf.markup, h]
  | none =>
    simp only [Shelf.markup, h]
    rfl

/-- A link writes nothing. -/
theorem link_grows (p : Place) : Grows K J (site.link p) :=
  (growing K J).link_self (grows_warn K J) p

/-- **Rendering** writes markup of what the node leads to, and none of a node in progress. -/
theorem renderNode_grows (budget : Nat) : ∀ (active : List Place) (p : Place),
    Grows (fun q => q ∉ active ∧ ReflTransGen site.graph.Prints p q) J
      (site.renderNode budget active p) := by
  induction budget with
  | zero => exact fun _ _ => (growing _ J).throw _
  | succ budget ih =>
    intro active p
    rw [renderNode_succ]
    -- the parts of the node may write for all that the node leads to, except the node itself
    let K : Place → Prop := fun q => q ∉ p :: active ∧ ReflTransGen site.graph.Prints p q
    have hK : ∀ q, K q → q ∉ active ∧ ReflTransGen site.graph.Prints p q :=
      fun q hq => ⟨fun h => hq.1 (List.mem_cons_of_mem _ h), hq.2⟩
    have hrule : Grows K J ((site.graph.typeRule p).print
        (fun q => do
          let m ← site.renderNode budget (p :: active) q
          return restDots (site.graph.node q) m) fun q => site.link q) := by
      refine (growing K J).print (fun q hq => ?_) site.link_grows
      have hq : Grows K J (site.renderNode budget (p :: active) q) :=
        (ih (p :: active) q).mono (fun r hr => ⟨hr.1, .head hq hr.2⟩) fun _ h => h
      exact (growing K J).bind hq fun m => (growing K J).pure _
    refine leads_once (fun _ => hrule.session) .refl (fun h => h.mono hK fun _ h => h) ?_
    intro hp s s' b hnone h
    have hnew : s'.markup.lookup p = none := by
      rw [h.markup.lookup_eq fun hp => hp.1 List.mem_cons_self]
      exact hnone
    exact ⟨.entry (h.markup.mono hK) ⟨hp, .refl⟩ hnew b, h.records⟩

theorem renderType_grows (p : Place) :
    Grows (ReflTransGen site.graph.Prints p) J (site.renderType p) := by
  have hnode : Grows (ReflTransGen site.graph.Prints p) J
      (site.renderNode (site.graph.size + 1) [] p) :=
    (site.renderNode_grows _ [] p).mono (fun _ h => h.2) fun _ h => h
  exact (growing _ J).bind hnode fun m => (growing _ J).pure _

/-- Printing a layout writes markup of what its types lead to. -/
theorem print_grows {l : Layout} (h : ∀ q ∈ l.types, ∀ r, ReflTransGen site.graph.Prints q r → K r) :
    Grows K J (site.print l) :=
  (growing K J).print (fun q hq => (site.renderType_grows q).mono (h q hq) fun _ h => h)
    site.link_grows

end Site

/-! ## Summarising -/

namespace Graph

/-- What the work on a task can lead to, whichever nodes are in progress: what it needs, and the text
of a structural type that is in progress and has neither id nor name. -/
inductive Uses (g : Graph) : Task → Task → Prop
  | need {t t' : Task} (h : g.Needs t t') : Uses g t t'
  | cut {p q : Place} (h : g.Carries p q) : Uses g (.position p) (.text q)

theorem uses_of_needs {g : Graph} {t t' : Task} (h : ReflTransGen g.Needs t t') :
    ReflTransGen g.Uses t t' :=
  h.lift id fun _ _ h => .need h

variable (g : Graph) {t t' : Task}

/-- The nodes whose text the work on a task can lead to. -/
def TextsOf (t : Task) (q : Place) : Prop :=
  ReflTransGen g.Uses t (.text q)

/-- The nodes whose record the work on a task can lead to while the nodes `active` are in
progress. -/
def RecordsOf (t : Task) (active : List Place) (q : Place) : Prop :=
  q ∉ active ∧ ReflTransGen g.Uses t (.record q)

variable {g}

theorem TextsOf.head {q : Place} (h : g.Uses t t') (hq : g.TextsOf t' q) : g.TextsOf t q :=
  ReflTransGen.head h hq

theorem RecordsOf.head {active : List Place} {q : Place} (h : g.Uses t t')
    (hq : g.RecordsOf t' active q) : g.RecordsOf t active q :=
  ⟨hq.1, .head h hq.2⟩

theorem RecordsOf.of_cons {active : List Place} {p q : Place} (hq : g.RecordsOf t (p :: active) q) :
    g.RecordsOf t active q :=
  ⟨fun h => hq.1 (List.mem_cons_of_mem _ h), hq.2⟩

/-- The parts of a text are texts that the task leads to. -/
theorem TextsOf.printed {q r : Place} (hq : g.TextsOf t q) (h : ReflTransGen g.Prints q r) :
    g.TextsOf t r := by
  induction h with
  | refl => exact hq
  | tail _ hr ih => exact ReflTransGen.tail ih (.need (.printed hr))

end Graph

namespace Site

open Work

variable (site : Site)

/-- One step of summarising, as work that is done once. -/
theorem summarizeFrom_succ (fuel : Nat) (active : List Place) (p : Place) :
    site.summarizeFrom (fuel + 1) active p =
      once .records active p (site.graph.node p).stub
        (site.recordWith (fun q => site.summarizeFrom fuel (p :: active) q)
          (fun q => site.positionFrom fuel (p :: active) q) p) := by
  rw [summarizeFrom]
  refine congrArg (fun f => (get : Work Session) >>= f) (funext fun s => ?_)
  cases h : s.records.lookup p with
  | some r => simp only [Shelf.records, h]
  | none =>
    simp only [Shelf.records, h]
    rfl

/-- `C` holds of a task, the fuel for it and the nodes in progress, and this is enough to summarise in
step: for the texts of the task, for what the task leads to, and for the keeping of records. -/
structure Pass (L : Lockstep Work Work) (C : Nat → List Place → Graph.Task → Prop) : Prop where
  text : ∀ {fuel active t l}, C fuel active t → site.graph.Spells t l → L.Self (site.print l)
  cut : ∀ {fuel active p q}, C fuel active (.position p) → site.graph.Carries p q →
    L.Self (site.print (.type q))
  argument : ∀ {fuel active p a}, C (fuel + 1) active (.position p) →
    site.graph.Needs (.position p) (.position a) → C fuel active (.position a)
  enter : ∀ {fuel active t q t'}, C (fuel + 1) active t → site.graph.Needs t (.body q) → q ∉ active →
    site.graph.Needs (.body q) t' → C fuel (q :: active) t'
  record : ∀ {fuel active p}, C (fuel + 1) active (.record p) →
    (p ∉ active → L.Self (site.recordWith (fun q => site.summarizeFrom fuel (p :: active) q)
      (fun q => site.positionFrom fuel (p :: active) q) p)) →
    L.Self (site.summarizeFrom (fuel + 1) active p)

/-- **Summarising is in step with itself** wherever enough is known for it. -/
theorem Pass.self {site : Site} {L : Lockstep Work Work} {C : Nat → List Place → Graph.Task → Prop}
    (hC : site.Pass L C) (fuel : Nat) :
    (∀ {active p}, C fuel active (.record p) → L.Self (site.summarizeFrom fuel active p)) ∧
      ∀ {active p}, C fuel active (.position p) → L.Self (site.positionFrom fuel active p) := by
  induction fuel with
  | zero =>
    refine ⟨fun _ => ?_, fun _ => ?_⟩
    · rw [summarizeFrom]
      exact L.throw _
    · rw [positionFrom]
      exact L.throw _
  | succ fuel ih =>
    obtain ⟨ihS, ihP⟩ := ih
    have hbody : ∀ {active t q}, C (fuel + 1) active t → site.graph.Needs t (.body q) → q ∉ active →
        L.Self (site.recordWith (fun r => site.summarizeFrom fuel (q :: active) r)
          (fun r => site.positionFrom fuel (q :: active) r) q) := fun ht hq hnew =>
      L.recordWith (fun c hc => ihS (hC.enter ht hq hnew (.part hc)))
        (fun a ha => ihP (hC.enter ht hq hnew (.typePart ha)))
        fun l hl => hC.text ht fun r hr => .head hq (hl r hr)
    refine ⟨fun {active p} hp => ?_, fun {active p} hp => ?_⟩
    · exact hC.record hp (hbody hp (.make p))
    · rw [positionFrom]
      exact L.positionWith (fun _ _ => Iff.rfl) (fun l hl => hC.text hp hl)
        (fun q hq _ => hC.cut hp hq) (fun a ha => ihP (hC.argument hp ha))
        fun q hq hnew => hbody hp (.carry hq) hnew

/-- The texts of a task write markup only. -/
theorem spells_grows {t : Graph.Task} {J : Place → Prop} {l : Layout} (h : site.graph.Spells t l) :
    Grows (site.graph.TextsOf t) J (site.print l) :=
  site.print_grows fun q hq _ hr => Graph.TextsOf.printed (Graph.uses_of_needs (h q hq)) hr

/-- The making of a record, from what the calls in it write. -/
theorem recordWith_grows {active : List Place} {p : Place} {summarize : Place → Work Record}
    {position : Place → Work (TypeValue Record)}
    (hS : ∀ c, Grows (site.graph.TextsOf (.record c)) (site.graph.RecordsOf (.record c) active)
      (summarize c))
    (hP : ∀ t, Grows (site.graph.TextsOf (.position t)) (site.graph.RecordsOf (.position t) active)
      (position t)) :
    Grows (site.graph.TextsOf (.body p)) (site.graph.RecordsOf (.body p) active)
      (site.recordWith summarize position p) := by
  refine (growing _ _).recordWith (fun c hc => ?_) (fun t ht => ?_) fun l hl => site.spells_grows hl
  · exact (hS c).mono (fun _ h => h.head (.need (.part hc))) fun _ h => h.head (.need (.part hc))
  · exact (hP t).mono (fun _ h => h.head (.need (.typePart ht)))
      fun _ h => h.head (.need (.typePart ht))

/-- **Summarising** writes markup and records of what the task leads to, and no record of a node in
progress. -/
theorem summarizeFrom_grows (fuel : Nat) :
    (∀ active p, Grows (site.graph.TextsOf (.record p)) (site.graph.RecordsOf (.record p) active)
      (site.summarizeFrom fuel active p)) ∧
    ∀ active p, Grows (site.graph.TextsOf (.position p)) (site.graph.RecordsOf (.position p) active)
      (site.positionFrom fuel active p) := by
  induction fuel with
  | zero =>
    refine ⟨fun _ _ => ?_, fun _ _ => ?_⟩
    · rw [summarizeFrom]
      exact (growing _ _).throw _
    · rw [positionFrom]
      exact (growing _ _).throw _
  | succ fuel ih =>
    obtain ⟨ihS, ihP⟩ := ih
    refine ⟨fun active p => ?_, fun active p => ?_⟩
    · rw [summarizeFrom_succ]
      have hmake : site.graph.Uses (.record p) (.body p) := .need (.make p)
      have hbody := site.recordWith_grows (p := p) (ihS (p :: active)) (ihP (p :: active))
      have hstop : ∀ q, site.graph.RecordsOf (.body p) (p :: active) q →
          site.graph.RecordsOf (.record p) active q := fun q hq => hq.of_cons.head hmake
      refine leads_once (fun _ => hbody.session) .refl
        (fun h => h.mono (fun _ h => h.head hmake) hstop) ?_
      intro hp s s' r hnone h
      have hnew : s'.records.lookup p = none := by
        rw [h.records.lookup_eq fun hp => hp.1 List.mem_cons_self]
        exact hnone
      exact ⟨h.markup.mono fun _ h => h.head hmake,
        .entry (h.records.mono hstop) ⟨hp, .refl⟩ hnew r⟩
    · rw [positionFrom]
      refine (growing _ _).positionWith (fun _ _ => Iff.rfl) (fun l hl => site.spells_grows hl)
        (fun q hq _ => ?_) (fun a ha => ?_) fun q hq _ => ?_
      · exact (site.renderType_grows q).mono
          (fun r hr => Graph.TextsOf.printed (.single (.cut hq)) hr) fun _ h => h
      · exact (ihP active a).mono (fun _ h => h.head (.need ha)) fun _ h => h.head (.need ha)
      · have hcarry : site.graph.Uses (.position p) (.body q) := .need (.carry hq)
        exact (site.recordWith_grows (ihS (q :: active)) (ihP (q :: active))).mono
          (fun _ h => h.head hcarry) fun _ h => h.of_cons.head hcarry

theorem summarize_grows (p : Place) :
    Grows (site.graph.TextsOf (.record p)) (site.graph.RecordsOf (.record p) []) (site.summarize p) :=
  (site.summarizeFrom_grows _).1 [] p

end Site

end SymbolDocs
