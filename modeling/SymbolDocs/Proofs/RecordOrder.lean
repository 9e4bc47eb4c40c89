import SymbolDocs.Proofs.Depth
import SymbolDocs.Proofs.RenderOrder

/-!
# The order of summarising

What was summarised before can show in what is summarised next: the record of a node that was made
while another node was in progress refers back to that node, and it is kept. This needs work that does
not end by itself and that both lead to. Where there is none, two sessions that differ in what was
summarised before give the same record.

* `Site.freshRecord` and `Site.freshPosition` are the answers of a fresh session;
* `Site.computes_of_ends` says that work which ends by itself comes to these answers in every session
  and with any nodes in progress;
* `Site.pass_paired` says that summarising goes in step in two sessions that hold the same for all
  work that does not end;
* `Site.summarize_after` is the result for summarising after other summarising, and
  `Site.summarize_cut_short` shows that the condition is needed.
-/

namespace SymbolDocs

open Relation

namespace Graph

variable {g : Graph} {t t' : Task}

/-- The tasks that a task can lead to, whichever nodes are in progress. -/
def uses (g : Graph) (t : Task) : List Task :=
  g.next t ++ match t with
    | .position p => (g.carried p).map .text
    | _ => []

theorem mem_uses (h : g.Uses t t') : t' ∈ g.uses t := by
  cases h with
  | need h => exact List.mem_append_left _ (mem_next_of_needs h)
  | cut h => exact List.mem_append_right _ (List.mem_map_of_mem (mem_carried h))

/-- Does all that a task can lead to end after so many steps? -/
def usesWithin (g : Graph) : Nat → Task → Bool
  | 0, _ => false
  | n + 1, t => (g.uses t).all (usesWithin g n)

theorem ends_of_usesWithin {n : Nat} (h : g.usesWithin n t = true)
    (ht' : ReflTransGen g.Uses t t') : g.Ends t' := by
  induction n generalizing t t' with
  | zero => cases h
  | succ n ih =>
    rw [usesWithin, List.all_eq_true] at h
    cases ht'.cases_head with
    | inl heq =>
      subst heq
      exact ⟨t, fun t₁ hneeds => ih (h t₁ (mem_uses (.need hneeds))) .refl⟩
    | inr hstep =>
      obtain ⟨t₁, huses, hrest⟩ := hstep
      exact ih (h t₁ (mem_uses huses)) hrest

end Graph

namespace Site

open Work

variable (site : Site)

/-! ## The answers of a fresh session -/

/-- The record of a node, made in a fresh session. -/
def freshRecord (p : Place) : Except Fault Record :=
  ((site.summarize p).run.run {}).1

/-- The encoding of a type position, made in a fresh session. -/
def freshPosition (p : Place) : Except Fault (TypeValue Record) :=
  ((site.position p).run.run {}).1

/-- A record is the one of a fresh session when the work on it ends. -/
def FreshRecord (p : Place) (r : Record) : Prop :=
  site.graph.Ends (.record p) → site.freshRecord p = .ok r

/-- Summarising that comes to a given answer in sessions with plain markup and fresh records. It leaves
alone the entries of all nodes on which the work does not end. -/
def recording : Lockstep Work (Except Fault) :=
  computing (fun s => s.Keeps site.PlainMarkup site.FreshRecord)
    (fun q => ¬ site.graph.PrintsFinitely q) fun q => ¬ site.graph.Ends (.record q)

/-- Printing leaves all records alone. -/
theorem recording_of_printing {α : Type} {w : Work α} {x : Except Fault α}
    (h : (site.printing site.FreshRecord).Agree w x) : site.recording.Agree w x := by
  intro s hs
  obtain ⟨hx, hkeeps, hsame⟩ := h s hs
  exact ⟨hx, hkeeps, hsame.mono (fun _ hq => hq) fun _ _ => trivial⟩

/-- The texts that a task needs end when the task does. -/
theorem spells_computes {t : Graph.Task} (ht : site.graph.Ends t) {l : Layout}
    (hl : site.graph.Spells t l) :
    site.recording.Agree (site.print l) (Printer.printLayout site l) := by
  refine site.recording_of_printing (site.print_computes fun q hq => ?_)
  have hends : ∀ {t'}, ReflTransGen site.graph.Needs t t' → site.graph.Ends t' := by
    intro t' h
    induction h with
    | refl => exact ht
    | tail _ hneeds ih => exact ih.step hneeds
  exact (hends (hl q hq)).printsFinitely

/-- The work on a task comes to the answer of a fresh session, with any nodes in progress as long as
there is fuel; the making of a record comes to the record of fresh parts. -/
def Computes : Graph.Task → Prop
  | .record p => ∀ fuel active, site.graph.Open fuel active (.record p) →
      site.recording.Agree (site.summarizeFrom fuel active p) (site.freshRecord p)
  | .position p => ∀ fuel active, site.graph.Open fuel active (.position p) →
      site.recording.Agree (site.positionFrom fuel active p) (site.freshPosition p)
  | .body p => ∀ fuel active, (∀ t, site.graph.Needs (.body p) t → site.graph.Open fuel active t) →
      site.recording.Agree
        (site.recordWith (fun q => site.summarizeFrom fuel active q)
          (fun q => site.positionFrom fuel active q) p)
        (site.recordWith site.freshRecord site.freshPosition p)
  | .text _ => True

theorem computes_body {p : Place} (hends : site.graph.Ends (.body p))
    (ih : ∀ t, site.graph.Needs (.body p) t → site.Computes t) : site.Computes (.body p) := by
  intro fuel active hopen
  refine site.recording.recordWith (fun c hc => ?_) (fun t ht => ?_)
    fun l hl => site.spells_computes hends hl
  · exact ih _ (.part hc) fuel active (hopen _ (.part hc))
  · exact ih _ (.typePart ht) fuel active (hopen _ (.typePart ht))

theorem computes_record {p : Place} (hends : site.graph.Ends (.record p))
    (ih : site.Computes (.body p)) : site.Computes (.record p) := by
  -- in every session without a record of `p` the record is made of fresh parts
  have hmake : ∀ fuel active, site.graph.Open (fuel + 1) active (.record p) →
      p ∉ active ∧ site.recording.Agree
        (site.recordWith (fun q => site.summarizeFrom fuel (p :: active) q)
          (fun q => site.positionFrom fuel (p :: active) q) p)
        (site.recordWith site.freshRecord site.freshPosition p) := by
    intro fuel active hopen
    have hnew : p ∉ active := hopen.below.not_mem hends (.make p)
    exact ⟨hnew, ih fuel (p :: active) fun t ht => hopen.enter (.make p) hnew ht⟩
  have hfresh : site.freshRecord p = site.recordWith site.freshRecord site.freshPosition p := by
    have htop := Graph.Open.top site.graph (.record p)
    obtain ⟨fuel, hfuel⟩ := htop.exists_succ
    rw [hfuel] at htop
    obtain ⟨hnew, hbody⟩ := hmake fuel [] htop
    rw [freshRecord, summarize, hfuel, summarizeFrom_succ, answer_of_run_once rfl hnew]
    exact (hbody {} (Session.keeps_fresh _ _)).1
  intro fuel active hopen
  obtain ⟨fuel, rfl⟩ := hopen.exists_succ
  obtain ⟨hnew, hbody⟩ := hmake fuel active hopen
  rw [← hfresh] at hbody
  rw [summarizeFrom_succ]
  refine computing_once hnew (fun {s r} hs hr => ?_) hbody fun hs hsame hr => ⟨?_, ?_⟩
  · have hkept : site.FreshRecord p r := hs.records (p, r) (mem_of_lookup hr)
    exact hkept hends
  · exact hs.add_record fun _ => hr
  · exact hsame.add_record (fun h => h hends) _

theorem computes_position (hg : site.graph.Sound) {p : Place} (hends : site.graph.Ends (.position p))
    (ih : ∀ t, site.graph.Needs (.position p) t → site.Computes t) :
    site.Computes (.position p) := by
  have hstep : ∀ fuel active, site.graph.Open fuel active (.position p) →
      site.recording.Agree (site.positionFrom fuel active p)
        (site.positionWith [] site.freshPosition
          (fun q => site.recordWith site.freshRecord site.freshPosition q) p) := by
    intro fuel active hopen
    obtain ⟨fuel, rfl⟩ := hopen.exists_succ
    have hnew : ∀ q, site.graph.Carries p q → q ∉ active :=
      fun q hq => hopen.below.not_mem hends (.carry hq)
    rw [positionFrom]
    refine site.recording.positionWith (fun q hq => ?_) (fun l hl => site.spells_computes hends hl)
      (fun q hq hactive => ?_) (fun a ha => ?_) fun q hq _ => ?_
    · exact iff_of_false (hnew q hq) List.not_mem_nil
    · exact absurd hactive (hnew q hq)
    · exact ih _ ha fuel active (hopen.argument hg ha)
    · exact ih _ (.carry hq) fuel (q :: active) fun t ht => hopen.enter (.carry hq) (hnew q hq) ht
  have hfresh : site.freshPosition p = site.positionWith [] site.freshPosition
      (fun q => site.recordWith site.freshRecord site.freshPosition q) p :=
    (hstep _ [] (.top site.graph _) {} (Session.keeps_fresh _ _)).1
  rw [← hfresh] at hstep
  exact hstep

/-- **Work that ends by itself** comes to the answer of a fresh session. -/
theorem computes_of_ends (hg : site.graph.Sound) {t : Graph.Task} (h : site.graph.Ends t) :
    site.Computes t := by
  induction h with
  | intro t h ih =>
    have hends : site.graph.Ends t := ⟨t, h⟩
    cases t with
    | record p => exact site.computes_record hends (ih _ (.make p))
    | body p => exact site.computes_body hends ih
    | position p => exact site.computes_position hg hends ih
    | text p => trivial

/-! ## Every session holds fresh records -/

/-- Summarising any node keeps the records fresh on which the work ends. Other records may be cut short
anywhere, but nothing is said of them. -/
theorem pass_keeping (hg : site.graph.Sound) :
    site.Pass (site.keepingPlain site.FreshRecord) site.graph.Open where
  text _ _ := site.print_keeps _
  cut _ _ := site.print_keeps _
  argument hopen ha := hopen.argument hg ha
  enter hopen hq hnew ht := hopen.enter hq hnew ht
  record {fuel active p} hopen hbody := by
    by_cases hends : site.graph.Ends (.record p)
    · exact fun s hs => (site.computes_of_ends hg hends (fuel + 1) active hopen s hs).2.1
    · rw [summarizeFrom_succ]
      exact keeping_once hbody fun s r hs => hs.add_record fun h => absurd h hends

/-! ## Two sessions -/

section

variable (t₀ : Graph.Task)

/-- Two sessions with plain markup and fresh records that hold the same for all work that the task
leads to and that does not end. -/
abbrev AlikeFor (s s' : Session) : Prop :=
  site.Alike (site.graph.TextsOf t₀) site.FreshRecord
    (fun q => ReflTransGen site.graph.Uses t₀ (.record q) ∧ ¬ site.graph.Ends (.record q)) s s'

variable {t₀}

/-- The texts that the task leads to are printed in step. -/
theorem texts_paired {l : Layout} (hl : ∀ q ∈ l.types, site.graph.TextsOf t₀ q) :
    (paired (site.AlikeFor t₀)).Self (site.print l) :=
  site.print_paired (fun hp hq => hp.printed (.single hq)) hl

/-- **Summarising goes in step** in two sessions that are alike for what it leads to. -/
theorem pass_paired (hg : site.graph.Sound) :
    site.Pass (paired (site.AlikeFor t₀)) fun fuel active t =>
      site.graph.Open fuel active t ∧ ReflTransGen site.graph.Uses t₀ t where
  text ht hl := site.texts_paired fun q hq => ht.2.trans (Graph.uses_of_needs (hl q hq))
  cut ht hq := site.renderType_paired (fun hp hq => hp.printed (.single hq)) (ht.2.tail (.cut hq))
  argument ht ha := ⟨ht.1.argument hg ha, ht.2.tail (.need ha)⟩
  enter ht hq hnew ht' := ⟨ht.1.enter hq hnew ht', (ht.2.tail (.need hq)).tail (.need ht')⟩
  record {fuel active p} ht hbody := by
    by_cases hends : site.graph.Ends (.record p)
    · exact site.paired_of_computing (fun _ hq => hq.2)
        (site.computes_of_ends hg hends (fuel + 1) active ht.1)
    · rw [summarizeFrom_succ]
      refine paired_once (fun hs => hs.same.records p ⟨ht.2, hends⟩) hbody fun r hs => ?_
      exact ⟨hs.left.add_record fun h => absurd h hends,
        hs.right.add_record fun h => absurd h hends, hs.same.add_both_record p r⟩

end

/-- Summarising writes markup and records of what the nodes lead to. -/
theorem session_summarizes_grows (before : List Place) :
    ({} : Session).Grows (fun q => ∃ a ∈ before, site.graph.TextsOf (.record a) q)
      (fun q => ∃ a ∈ before, ReflTransGen site.graph.Uses (.record a) (.record q))
      (site.session (before.map .summarize)) := by
  refine site.session_induction (.refl _) fun c hc s hs => ?_
  obtain ⟨a, ha, rfl⟩ := List.mem_map.mp hc
  have hsummarize : Grows (site.graph.TextsOf (.record a)) (site.graph.RecordsOf (.record a) [])
      (site.answer (.summarize a)) :=
    (growing _ _).bind (site.summarize_grows a) fun r => (growing _ _).pure _
  exact hs.trans ((hsummarize.session s).mono (fun q hq => ⟨a, ha, hq⟩) fun q hq => ⟨a, ha, hq.2⟩)

theorem session_summarizes_keeps (hg : site.graph.Sound) (before : List Place) :
    (site.session (before.map .summarize)).Keeps site.PlainMarkup site.FreshRecord := by
  refine site.session_induction (Session.keeps_fresh _ _) fun c hc s hs => ?_
  obtain ⟨a, ha, rfl⟩ := List.mem_map.mp hc
  rw [answer, session_bind_pure]
  exact ((site.pass_keeping hg).self _).1 (.top site.graph _) s hs

/-- **The order of summarising does not matter** where all work ends on the records and texts that both
an earlier node and this one lead to: in a loaded graph, the record of `b` made after the records of
the other nodes is the record made at once, or both fail with the same fault. -/
theorem summarize_after {doc : Value} (hload : Graph.ofValue doc = .ok site.graph)
    {before : List Place} {b : Place}
    (hrecords : ∀ a ∈ before, ∀ q, ReflTransGen site.graph.Uses (.record a) (.record q) →
      ReflTransGen site.graph.Uses (.record b) (.record q) → site.graph.Ends (.record q))
    (htexts : ∀ a ∈ before, ∀ q, site.graph.TextsOf (.record a) q →
      site.graph.TextsOf (.record b) q → site.graph.PrintsFinitely q) :
    ((site.summarize b).run.run (site.session (before.map .summarize))).1 =
      ((site.summarize b).run.run {}).1 := by
  have hg := Graph.sound_of_load hload
  have hgrows := site.session_summarizes_grows before
  have halike : site.AlikeFor (.record b) (site.session (before.map .summarize)) {} := by
    refine ⟨site.session_summarizes_keeps hg before, Session.keeps_fresh _ _, fun q hq => ?_,
      fun q hq => ?_⟩
    · refine (hgrows.markup.lookup_eq fun hwritten => hq.2 ?_).symm
      obtain ⟨a, ha, haq⟩ := hwritten
      exact htexts a ha q haq hq.1
    · refine (hgrows.records.lookup_eq fun hwritten => hq.2 ?_).symm
      obtain ⟨a, ha, haq⟩ := hwritten
      exact hrecords a ha q haq hq.1
  exact (((site.pass_paired hg).self _).1 ⟨.top site.graph _, .refl⟩ _ {} halike).1

/-! ## An interface whose method returns it -/

/-- A module with an interface that is not exported and has a method that returns the interface. -/
def treeDocument : Value :=
  .record [("modules", .list [.record [("kind", .int 1), ("id", .int 1), ("children", .list [
    .record [("kind", .int 4), ("id", .int 2), ("name", .text "Tree"), ("children", .list [
      .record [("kind", .int 9), ("id", .int 3), ("name", .text "walk"),
        ("parameters", .list [.record [("kind", .int 17), ("name", .text "depth"),
          ("type", .record [("kind", .int 35), ("name", .text "number")])]]),
        ("type", .record [("kind", .int 20), ("name", .text "Tree"), ("type", .int 2)])]])]])]])]

/-- The site of the document. -/
def treeSite : Site where
  graph :=
    { nodes := #[
        { Node.bare .moduleFile with id := some (.int 1), children := some [1] },
        { Node.bare .interfaceDecl with
          id := some (.int 2), name := "Tree", children := some [2], parent := some 0 },
        { Node.bare .method with
          id := some (.int 3), name := "walk", type := some 5, parameters := some [3]
          parent := some 1 },
        { Node.bare .parameter with name := "depth", type := some 4, parent := some 2 },
        { Node.bare .baseType with name := "number" },
        { Node.bare .reference with name := "Tree", type := some 1 }]
      modules := [0]
      index := [(.int 1, 0), (.int 2, 1), (.int 3, 2)] }
  plan := .empty false
  options := {}

theorem treeDocument_loads : Graph.ofValue treeDocument = .ok treeSite.graph := by
  cbv

/-- The record of the parameter. -/
def depthRecord : Record :=
  { kind := .parameter, name := some "depth", type := some (.inline "number") }

/-- The record of the method, with what stands for the interface. -/
def walkRecord (type : TypeValue Record) : Record :=
  { kind := .method, id := some (.int 3), name := some "walk", parameters := some [depthRecord]
    type := some type }

/-- The record of the interface, with what stands for the method. -/
def treeRecord (walk : Record) : Record :=
  { kind := .interfaceDecl, id := some (.int 2), name := some "Tree", children := some [walk] }

/-- Summarising the parameter first does not change the interface. -/
theorem summarize_after_depth : Graph.ofValue treeDocument = .ok treeSite.graph ∧
    ((treeSite.summarize 1).run.run (treeSite.session [.summarize 3])).1 =
      .ok (treeRecord (walkRecord (.ref (.int 2)))) := by
  have hends : ∀ t, ReflTransGen treeSite.graph.Uses (.record 3) t → treeSite.graph.Ends t :=
    fun t => Graph.ends_of_usesWithin
      (show treeSite.graph.usesWithin 5 (.record 3) = true by decide)
  have hrecords : ∀ a ∈ [3], ∀ q, ReflTransGen treeSite.graph.Uses (.record a) (.record q) →
      ReflTransGen treeSite.graph.Uses (.record 1) (.record q) → treeSite.graph.Ends (.record q) := by
    intro a ha q hq _
    obtain rfl := List.mem_singleton.mp ha
    exact hends _ hq
  have htexts : ∀ a ∈ [3], ∀ q, treeSite.graph.TextsOf (.record a) q →
      treeSite.graph.TextsOf (.record 1) q → treeSite.graph.PrintsFinitely q := by
    intro a ha q hq _
    obtain rfl := List.mem_singleton.mp ha
    exact (hends _ hq).printsFinitely
  exact ⟨treeDocument_loads,
    (summarize_after treeSite treeDocument_loads hrecords htexts).trans (by cbv)⟩

/-- Summarising the interface first does change its method: it refers back to the interface, which was
in progress, and is kept that way. At once the method carries the interface in place, and there the
method is cut short. -/
theorem summarize_cut_short : Graph.ofValue treeDocument = .ok treeSite.graph ∧
    ((treeSite.summarize 2).run.run {}).1 =
      .ok (walkRecord (.embedded (treeRecord (treeSite.graph.node 2).stub))) ∧
    ((treeSite.summarize 2).run.run (treeSite.session [.summarize 1])).1 =
      .ok (walkRecord (.ref (.int 2))) :=
  ⟨treeDocument_loads, by cbv, by cbv⟩

end Site

end SymbolDocs
