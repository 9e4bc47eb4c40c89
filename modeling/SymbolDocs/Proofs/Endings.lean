import SymbolDocs.Proofs.Heights
import SymbolDocs.Proofs.RecordOrder
import SymbolDocs.Proofs.Unbounded

/-!
# Summarising without a bound

Records and type positions are made by two programs that call each other and count down a bound. Here
they are written without it, and so is the writing of a record as a document. In a loaded graph all of
this ends: the nodes in progress are different ones, between two of them there are finitely many type
arguments, and a record is no higher than the graph allows.

* `Site.unboundedSummarize` and `Site.unboundedPosition` are the two programs;
* `Record.unboundedToValue` writes a record, and `Site.unboundedSummary` the whole summary;
* `Site.summaries_end` says that they end, in every session.
-/

namespace SymbolDocs

open Relation Work

/-! ## The recursions -/

namespace Site

variable {site : Site} {summarize summarize' : Place → Unbounded Record}
  {position position' : Place → Unbounded (TypeValue Record)}

/-- The making of a record ends more often when the calls in it do. -/
theorem below_recordWith (hS : ∀ q, Unbounded.below.Agree (summarize q) (summarize' q))
    (hP : ∀ q, Unbounded.below.Agree (position q) (position' q)) (p : Place) :
    Unbounded.below.Agree (site.recordWith summarize position p)
      (site.recordWith summarize' position' p) :=
  Unbounded.below.recordWith (fun c _ => hS c) (fun t _ => hP t) fun _ _ => Unbounded.below_refl _

variable (site)

mutual

/-- The record of a node while the nodes `active` are in progress. -/
def unboundedSummarize (site : Site) (active : List Place) (p : Place) : Unbounded Record :=
  Unbounded.once .records active p (site.graph.node p).stub
    (site.recordWith (fun q => site |>.unboundedSummarize (p :: active) q)
      (fun q => site |>.unboundedPosition (p :: active) q) p)
partial_fixpoint monotonicity fun f f' hf active p s => by
  refine (Unbounded.Flat.iff {}).mpr (Unbounded.below_once (below_recordWith ?_ ?_ p) s)
  · exact fun q => Unbounded.Flat.below {} (hf.1 (p :: active) q)
  · exact fun q => Unbounded.Flat.below {} (hf.2 (p :: active) q)

/-- The encoding of a type position while the nodes `active` are in progress. -/
def unboundedPosition (site : Site) (active : List Place) (p : Place) : Unbounded (TypeValue Record) :=
  site.positionWith active (fun q => site |>.unboundedPosition active q)
    (fun q => site.recordWith (fun r => site |>.unboundedSummarize (q :: active) r)
      (fun r => site |>.unboundedPosition (q :: active) r) q) p
partial_fixpoint monotonicity fun f f' hf active p s => by
  have hrecord : ∀ active q, Unbounded.below.Agree (f.1 active q) (f'.1 active q) :=
    fun active q => Unbounded.Flat.below {} (hf.1 active q)
  have hposition : ∀ active q, Unbounded.below.Agree (f.2 active q) (f'.2 active q) :=
    fun active q => Unbounded.Flat.below {} (hf.2 active q)
  refine (Unbounded.Flat.iff {}).mpr (Unbounded.below.positionWith (fun _ _ => Iff.rfl)
    (fun _ _ => Unbounded.below_refl _) (fun _ _ _ => Unbounded.below_refl _)
    (fun a _ => hposition active a) (fun q _ _ => ?_) s)
  exact below_recordWith (hrecord (q :: active)) (hposition (q :: active)) q

end

end Site

/-- What a record is written as, from what the records in it are written as. -/
def Record.written (r : Record) (parameters children type typeParameters resolvedType : Option Value) :
    Value :=
  .map ([(.text "kind", .int r.kind.code)] ++
    optionalField "id" (r.id.map .scalar) ++
    optionalField "name" (nonEmpty r.name) ++
    optionalField "flags" (if r.flags.bits = 0 then none else some (.int r.flags.bits)) ++
    optionalField "value" (if r.value.isNull then none else some r.value) ++
    optionalField "docs" (r.docs.map Documentation.toValue) ++
    optionalField "parameters" parameters ++
    optionalField "children" children ++
    optionalField "type" type ++
    optionalField "typeP" typeParameters ++
    optionalField "resolvedType" resolvedType ++
    optionalField "tsconfig" (nonEmpty r.tsconfig))

/-- A list of records, when there is one, with a writer of records. -/
abbrev Record.listWith (write : Record → Option Value) (rs : Option (List Record)) :
    Option (Option Value) :=
  rs.mapM fun rs => do return .list (← rs.mapM write)

/-- What stands in a type position, when something does, with a writer of records. -/
abbrev Record.typeWith (write : Record → Option Value) (v : Option (TypeValue Record)) :
    Option (Option Value) :=
  v.mapM fun
    | .inline s => some (.text s)
    | .ref id => some (.scalar id)
    | .embedded r => write r

/-- A record as a mapping. -/
def Record.unboundedToValue (r : Record) : Option Value := do
  let parameters ← Record.listWith (fun x => x |>.unboundedToValue) r.parameters
  let children ← Record.listWith (fun x => x |>.unboundedToValue) r.children
  let type ← Record.typeWith (fun x => x |>.unboundedToValue) r.type
  let typeParameters ← Record.listWith (fun x => x |>.unboundedToValue) r.typeParameters
  let resolvedType ← Record.typeWith (fun x => x |>.unboundedToValue) r.resolvedType
  return r.written parameters children type typeParameters resolvedType
partial_fixpoint

namespace Site

variable (site : Site)

/-- The records of a summary, in the order of their names. -/
def unboundedRecords : Unbounded (List Record) := do
  let records ← eachPlace (site.unboundedSummarize []) (summaryNodes site.graph)
  return Record.sortByName records

/-- The summary of a graph. -/
def unboundedSummary : Unbounded Value := do
  let records ← site.unboundedRecords
  let written ← Unbounded.ofOption (records.mapM Record.unboundedToValue)
  return .record [("index", .list written)]

end Site

/-! ## Records -/

namespace Site

variable {site : Site}

/-- **Summarising ends** while there is fuel for whatever can follow. -/
theorem summarizeFrom_ends (hg : site.graph.Sound) (hclimb : ∀ x, ¬ TransGen site.graph.Climbs x x)
    (fuel : Nat) :
    (∀ {active p}, site.graph.Open fuel active (.record p) →
      ending.Agree (site.summarizeFrom fuel active p) (site.unboundedSummarize active p)) ∧
    ∀ {active p}, site.graph.Open fuel active (.position p) →
      ending.Agree (site.positionFrom fuel active p) (site.unboundedPosition active p) := by
  induction fuel with
  | zero =>
    refine ⟨fun h => ?_, fun h => ?_⟩
    · obtain ⟨_, h⟩ := h.exists_succ
      cases h
    · obtain ⟨_, h⟩ := h.exists_succ
      cases h
  | succ fuel ih =>
    obtain ⟨ihS, ihP⟩ := ih
    have hbody : ∀ {active t q}, site.graph.Open (fuel + 1) active t → site.graph.Needs t (.body q) →
        q ∉ active → ending.Agree
          (site.recordWith (fun r => site.summarizeFrom fuel (q :: active) r)
            (fun r => site.positionFrom fuel (q :: active) r) q)
          (site.recordWith (fun r => site.unboundedSummarize (q :: active) r)
            (fun r => site.unboundedPosition (q :: active) r) q) := fun ht hq hnew =>
      ending.recordWith (fun c hc => ihS (ht.enter hq hnew (.part hc)))
        (fun a ha => ihP (ht.enter hq hnew (.typePart ha))) fun l _ => print_ends hg hclimb l
    refine ⟨fun {active p} hp => ?_, fun {active p} hp => ?_⟩
    · rw [summarizeFrom_succ, unboundedSummarize]
      exact ending_once (hbody hp (.make p))
    · rw [positionFrom, unboundedPosition]
      exact ending.positionWith (fun _ _ => Iff.rfl) (fun l _ => print_ends hg hclimb l)
        (fun q _ _ => print_ends hg hclimb (.type q)) (fun a ha => ihP (hp.argument hg ha))
        fun q hq hnew => hbody hp (.carry hq) hnew

theorem summarize_ends (hg : site.graph.Sound) (hclimb : ∀ x, ¬ TransGen site.graph.Climbs x x)
    (p : Place) : ending.Agree (site.summarize p) (site.unboundedSummarize [] p) :=
  (summarizeFrom_ends hg hclimb _).1 (.top site.graph _)

theorem summaryRecords_ends (hg : site.graph.Sound) (hclimb : ∀ x, ¬ TransGen site.graph.Climbs x x) :
    ending.Agree site.summaryRecords site.unboundedRecords :=
  ending.bind (ending.eachPlace fun p _ => summarize_ends hg hclimb p) fun _ => ending.pure _

end Site

/-! ## Documents -/

namespace Record

theorem toValue_eq_written (r : Record) :
    r.toValue = r.written (listToValue? r.parameters) (listToValue? r.children) (typeToValue? r.type)
      (listToValue? r.typeParameters) (typeToValue? r.resolvedType) := by
  cases r
  rfl

theorem listToValues_eq_map (rs : List Record) : listToValues rs = rs.map toValue := by
  induction rs with
  | nil => rfl
  | cons r rs ih => rw [listToValues, ih, List.map_cons]

theorem listWith_eq {rs : Option (List Record)}
    (h : ∀ r ∈ rs.getD [], r.unboundedToValue = some r.toValue) :
    listWith (fun r => r.unboundedToValue) rs = some (listToValue? rs) := by
  cases rs with
  | none => rfl
  | some rs =>
    have hrs : rs.mapM (fun r => r.unboundedToValue) = some (rs.map toValue) := mapM_eq_some h
    simp only [Option.mapM, hrs, listToValue?, listToValues_eq_map]
    rfl

theorem typeWith_eq {v : Option (TypeValue Record)}
    (h : ∀ r, v = some (.embedded r) → r.unboundedToValue = some r.toValue) :
    typeWith (fun r => r.unboundedToValue) v = some (typeToValue? v) := by
  rcases v with _ | _ | _ | r
  · rfl
  · rfl
  · rfl
  · simp only [Option.mapM, h r rfl, typeToValue?]
    rfl

/-- **Writing a record ends**, after as many steps down as the record is high. -/
theorem Within.unboundedToValue_eq {n : Nat} {r : Record} (h : r.Within n) :
    r.unboundedToValue = some r.toValue := by
  induction n generalizing r with
  | zero => exact h.elim
  | succ n ih =>
    have hpart : ∀ x, r.Part x → x.unboundedToValue = some x.toValue := fun x hx => ih (h x hx)
    rw [unboundedToValue, listWith_eq fun x hx => hpart x (.parameter hx),
      listWith_eq fun x hx => hpart x (.child hx),
      typeWith_eq fun x hx => hpart x (.type hx),
      listWith_eq fun x hx => hpart x (.typeParameter hx),
      typeWith_eq fun x hx => hpart x (.resolvedType hx), toValue_eq_written]
    rfl

end Record

namespace Site

variable {site : Site} {s : Session}

/-- The records of a summary are written after they have been made, so their height is known. -/
theorem summary_ends (hg : site.graph.Sound) (hclimb : ∀ x, ¬ TransGen site.graph.Climbs x x)
    (hs : site.Reached s) : site.unboundedSummary.run.run s = some (site.summary.run.run s) := by
  have hrecords := summaryRecords_ends hg hclimb s
  have hwithin : ∀ rs, (site.summaryRecords.run.run s).1 = .ok rs →
      ∀ r ∈ rs, r.Within site.graph.heightBound := fun rs => hs.within_summaryRecords
  rw [unboundedSummary, summary, Unbounded.run_bind, run_bind, hrecords]
  rcases hrun : site.summaryRecords.run.run s with ⟨_ | rs, s'⟩
  · rfl
  · rw [hrun] at hwithin
    have hwritten : rs.mapM Record.unboundedToValue = some (rs.map Record.toValue) :=
      mapM_eq_some fun r hr => (hwithin rs rfl r hr).unboundedToValue_eq
    exact ending_ofOption hwritten
      (f := fun written => pure (Value.record [("index", .list written)])) (ending.pure _) s'

/-- **Summarising ends.** Let a document be loaded, whatever cycles its types run in, and let no climb
from a node to what its owner stands for come back to a node. Then in every session that other work
can have left behind

* the record of every node, and the whole summary, are made without a bound, with the results of the
  bounded programs;
* whatever records are returned, there are no more of them inside each other than the graph allows,
  so that writing them ends as well. -/
theorem summaries_end {doc : Value} (hload : Graph.ofValue doc = .ok site.graph)
    (hclimb : ∀ x, ¬ TransGen site.graph.Climbs x x) (hs : site.Reached s) :
    (∀ p, (site.unboundedSummarize [] p).run.run s = some ((site.summarize p).run.run s)) ∧
    site.unboundedRecords.run.run s = some (site.summaryRecords.run.run s) ∧
    site.unboundedSummary.run.run s = some (site.summary.run.run s) ∧
    (∀ p r, ((site.summarize p).run.run s).1 = .ok r →
      r.Within site.graph.heightBound ∧ r.unboundedToValue = some r.toValue) ∧
    ∀ rs, (site.summaryRecords.run.run s).1 = .ok rs → ∀ r ∈ rs,
      r.Within site.graph.heightBound ∧ r.unboundedToValue = some r.toValue := by
  have hg := Graph.sound_of_load hload
  refine ⟨fun p => summarize_ends hg hclimb p s, summaryRecords_ends hg hclimb s,
    summary_ends hg hclimb hs, fun p r hr => ?_, fun rs hrs r hr => ?_⟩
  · have hwithin := hs.within_summarize hr
    exact ⟨hwithin, hwithin.unboundedToValue_eq⟩
  · have hwithin := hs.within_summaryRecords hrs r hr
    exact ⟨hwithin, hwithin.unboundedToValue_eq⟩

/-- The record of an interface whose method returns it, after the method has been summarised: inside
the record of the method the interface is there once more, with the method in short. -/
theorem summaries_end_tree : Graph.ofValue treeDocument = .ok treeSite.graph ∧
    (∀ x, ¬ TransGen treeSite.graph.Climbs x x) ∧
    treeSite.Reached (treeSite.session [.summarize 2]) ∧
    ((treeSite.unboundedSummarize [] 1).run.run (treeSite.session [.summarize 2])).map Prod.fst =
      some (.ok (treeRecord (walkRecord (.embedded
        (treeRecord { kind := .method, id := some (.int 3), name := some "walk" }))))) := by
  have hclimb : ∀ x, ¬ TransGen treeSite.graph.Climbs x x := by
    refine not_transGen_climbs fun x y hxy => ?_
    have hx := hxy.lt_size
    obtain ⟨o, ho, rfl⟩ := hxy
    change x < 6 at hx
    interval_cases x <;> revert o <;> decide
  have hs := treeSite.reached_session [.summarize 2]
  have hrecord : ((treeSite.summarize 1).run.run (treeSite.session [.summarize 2])).1 =
      .ok (treeRecord (walkRecord (.embedded
        (treeRecord { kind := .method, id := some (.int 3), name := some "walk" })))) := by
    cbv
  obtain ⟨hends, -⟩ := summaries_end treeDocument_loads hclimb hs
  refine ⟨treeDocument_loads, hclimb, hs, ?_⟩
  rw [hends, Option.map_some, hrecord]

end Site

end SymbolDocs
