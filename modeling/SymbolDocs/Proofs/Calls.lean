import SymbolDocs.Proofs.Guards

/-!
# Sequences of calls

A site is worked on by calls that share one session: nodes are rendered, headings printed, records
made, and any of these calls may fail. What can be relied on between two calls is this.

* `Work.Steady` says of a piece of work that it gives its answer again in every later session;
* `Call` lists the calls, `Site.answer` runs one in a session and `Site.heldAnswer` under guards;
* `Site.calls_repeat` says that after any calls no node is in progress, that the entries of the two
  tables stay as they are, and that a call which has returned returns the same later on.
-/

namespace SymbolDocs

/-! ## Work that gives its answer again -/

/-- The second session is a later one: it has the same entries and perhaps more. -/
abbrev Session.Extends (s s' : Session) : Prop :=
  s.Grows (fun _ => True) (fun _ => True) s'

namespace Work

variable {α β : Type}

/-- Work that adds to the tables and, once it has answered, gives that answer in every session from
then on. -/
structure Steady (w : Work α) : Prop where
  grows : ∀ s : Session, s.Extends (w.run.run s).2
  again : ∀ {s s' : Session} {a : α}, w.run.run s = (.ok a, s') → ∀ {s'' : Session}, s'.Extends s'' →
    (w.run.run s'').1 = .ok a

theorem steady_pure (a : α) : Steady (pure a : Work α) where
  grows := .refl
  again h _ _ := by
    cases h
    rfl

theorem Steady.bind {w : Work α} {f : α → Work β} (hw : Steady w) (hf : ∀ a, Steady (f a)) :
    Steady (w >>= f) where
  grows := (leads Session.Extends .refl .trans).bind (v := w) (g := f) hw.grows fun a => (hf a).grows
  again {s s' b} h s'' hs := by
    obtain ⟨a, s₁, hw₁, hf₁⟩ := bind_ok h
    -- the session in which the rest began is earlier than the one in which it ended
    have hmid : s₁.Extends s' := by simpa [hf₁] using (hf a).grows s₁
    have hfirst := hw.again hw₁ (hmid.trans hs)
    have hlater := hw.grows s''
    rw [run_bind]
    rcases hrun : w.run.run s'' with ⟨x, s₂⟩
    rw [hrun] at hfirst hlater
    cases hfirst
    exact (hf a).again hf₁ (hs.trans hlater)

/-- Steady work, as a relation that goes through programs. -/
def steady : Lockstep Work Work where
  Agree w _ := Steady w
  pure := steady_pure
  throw _ := ⟨.refl, fun h => by cases h⟩
  bind hw hf := hw.bind hf

/-- Outside all work on the place itself, work that is done once is steady: the answer is kept, and
found again. -/
theorem steady_once {k : Shelf β} {p : Place} {short : β} {w : Work β}
    (hgrows : ∀ s : Session, s.Extends ((once k [] p short w).run.run s).2)
    (hkept : ∀ {s s' : Session} {b : β}, s.Extends s' → (k.entries s).lookup p = some b →
      (k.entries s').lookup p = some b) : Steady (once k [] p short w) where
  grows := hgrows
  again h s'' hs := by
    have hfound := hkept hs (lookup_of_run_once List.not_mem_nil h)
    rw [run_once, hfound]

end Work

namespace Site

open Work

variable (site : Site)

theorem steady_renderType (p : Place) : Steady (site.renderType p) := by
  have hgrows : Grows (fun _ => True) (fun _ => True) (site.renderNode (site.graph.size + 1) [] p) :=
    (site.renderNode_grows _ [] p).mono (fun _ _ => trivial) fun _ h => h
  rw [renderNode_succ] at hgrows
  have hnode : Steady (site.renderNode (site.graph.size + 1) [] p) := by
    rw [renderNode_succ]
    exact steady_once hgrows.session fun hs h => hs.markup.lookup_some h
  exact hnode.bind fun m => steady_pure _

theorem steady_print (l : Layout) : Steady (site.print l) := by
  have hwarn : ∀ w, steady.Self (warn w) := fun w => ⟨fun _ => ⟨.none, .none⟩, fun h _ _ => by
    cases h
    rfl⟩
  have hself : steady.Self (site.print l) :=
    steady.print (fun q _ => site.steady_renderType q) fun q => steady.link_self hwarn q
  exact hself

theorem steady_summarize (p : Place) : Steady (site.summarize p) := by
  obtain ⟨fuel, hfuel⟩ : ∃ fuel, summaryDepth site.graph = fuel + 1 :=
    ⟨_, (Nat.succ_pred_eq_of_pos (Nat.mul_pos (Nat.succ_pos _) (Nat.succ_pos _))).symm⟩
  have hgrows : Grows (fun _ => True) (fun _ => True) (site.summarize p) :=
    (site.summarize_grows p).mono (fun _ _ => trivial) fun _ _ => trivial
  rw [summarize, hfuel, summarizeFrom_succ] at hgrows ⊢
  exact steady_once hgrows.session fun hs h => hs.records.lookup_some h

theorem steady_summary : Steady site.summary := by
  have hrecords : steady.Self (eachPlace site.summarize (summaryNodes site.graph)) :=
    steady.eachPlace fun p _ => site.steady_summarize p
  exact (Steady.bind hrecords fun records => steady_pure _).bind fun records => steady_pure _

end Site

/-! ## Calls -/

/-- What can be asked of a site. -/
inductive Call where
  /-- The markup of a type position. -/
  | render (p : Option Place)
  /-- Its visible text. -/
  | renderText (p : Option Place)
  /-- The heading of a declaration with its badges. -/
  | signature (p : Place)
  /-- The plain heading of a declaration. -/
  | signatureText (p : Place)
  /-- A parameter. -/
  | parameter (p : Place)
  /-- A type parameter with its bound, or a type argument. -/
  | typeArgument (p : Place)
  /-- The record of a node. -/
  | summarize (p : Place)
  /-- The summary of the graph. -/
  | summary

/-- What a call can return. -/
inductive Answer where
  /-- Markup or text. -/
  | text (s : String)
  /-- A record. -/
  | record (r : Record)
  /-- A document. -/
  | document (v : Value)

namespace Site

open Work

/-- Runs a call in a session. -/
def answer (site : Site) : Call → Work Answer
  | .render p => return .text (← site.render p)
  | .renderText p => return .text (← site.renderText p)
  | .signature p => return .text (← site.print (site.graph.signature p))
  | .signatureText p => return .text (← site.print (site.graph.signatureText p))
  | .parameter p => return .text (← site.print (site.graph.parameter p))
  | .typeArgument p => return .text (← site.print (site.graph.typeArgument p))
  | .summarize p => return .record (← site.summarize p)
  | .summary => return .document (← site.summary)

/-- Runs a call under guards. -/
def heldAnswer (site : Site) : Call → Held Answer
  | .render p => return .text (← site.heldPrint (Layout.optional p))
  | .renderText p => return .text (Markup.visible (← site.heldPrint (Layout.optional p)))
  | .signature p => return .text (← site.heldPrint (site.graph.signature p))
  | .signatureText p => return .text (← site.heldPrint (site.graph.signatureText p))
  | .parameter p => return .text (← site.heldPrint (site.graph.parameter p))
  | .typeArgument p => return .text (← site.heldPrint (site.graph.typeArgument p))
  | .summarize p => return .record (← site.heldSummarize (summaryDepth site.graph) p)
  | .summary => do
    let records ← eachPlace (site.heldSummarize (summaryDepth site.graph)) (summaryNodes site.graph)
    return .document (.record [("index", .list ((Record.sortByName records).map Record.toValue))])

/-- The session after some calls, each of which may have failed. -/
def session (site : Site) (calls : List Call) : Session :=
  calls.foldl (fun s c => ((site.answer c).run.run s).2) {}

/-- The engine after some calls. -/
def engine (site : Site) (calls : List Call) : Engine :=
  calls.foldl (fun e c => ((site.heldAnswer c).run.run e).2) {}

variable (site : Site)

theorem render_eq_print (p : Option Place) : site.render p = site.print (Layout.optional p) := by
  cases p <;> rfl

theorem steady_answer (c : Call) : Steady (site.answer c) := by
  cases c with
  | render p =>
    rw [answer, render_eq_print]
    exact (site.steady_print _).bind fun m => steady_pure _
  | renderText p =>
    rw [answer, renderText, render_eq_print]
    exact ((site.steady_print _).bind fun m => steady_pure _).bind fun s => steady_pure _
  | signature p | signatureText p | parameter p | typeArgument p =>
    exact (site.steady_print _).bind fun m => steady_pure _
  | summarize p => exact (site.steady_summarize p).bind fun r => steady_pure _
  | summary => exact site.steady_summary.bind fun v => steady_pure _

/-- A call under free guards is the call in the session, and leaves the guards free. -/
theorem answer_held (c : Call) : (guarded fun _ => []).Agree (site.answer c) (site.heldAnswer c) := by
  let G := guarded fun _ => []
  have hprint : ∀ l, G.Agree (site.print l) (site.heldPrint l) := site.print_held rfl
  have hsummarize : ∀ p, G.Agree (site.summarize p)
      (site.heldSummarize (summaryDepth site.graph) p) :=
    (site.summarizeFrom_held (summaryDepth site.graph) (fun _ => []) rfl).1
  cases c with
  | render p =>
    rw [answer, render_eq_print]
    exact G.bind (hprint _) fun m => G.pure _
  | renderText p =>
    rw [answer, renderText, render_eq_print, bind_assoc]
    exact G.bind (hprint _) fun m => G.pure _
  | signature p | signatureText p | parameter p | typeArgument p =>
    exact G.bind (hprint _) fun m => G.pure _
  | summarize p => exact G.bind (hsummarize p) fun r => G.pure _
  | summary =>
    have hrecords : G.Agree (eachPlace site.summarize (summaryNodes site.graph))
        (eachPlace (site.heldSummarize (summaryDepth site.graph)) (summaryNodes site.graph)) :=
      G.eachPlace fun p _ => hsummarize p
    rw [answer, summary, summaryRecords, bind_assoc, bind_assoc]
    exact G.bind hrecords fun records => G.pure _

/-! ## Whole sequences -/

theorem session_append (calls more : List Call) :
    site.session (calls ++ more) =
      more.foldl (fun s c => ((site.answer c).run.run s).2) (site.session calls) :=
  List.foldl_append

/-- Doing something with the answer does not change the session. -/
theorem session_bind_pure {α β : Type} (w : Work α) (f : α → β) (s : Session) :
    ((w >>= fun a => pure (f a)).run.run s).2 = (w.run.run s).2 := by
  rw [run_bind]
  rcases w.run.run s with ⟨_ | a, s'⟩ <;> rfl

theorem reached_answer {s : Session} (hs : site.Reached s) (c : Call) :
    site.Reached ((site.answer c).run.run s).2 := by
  cases c with
  | render p =>
    rw [answer, session_bind_pure, render_eq_print]
    exact .print _ hs
  | renderText p =>
    rw [answer, session_bind_pure, renderText, session_bind_pure, render_eq_print]
    exact .print _ hs
  | signature p | signatureText p | parameter p | typeArgument p =>
    rw [answer, session_bind_pure]
    exact .print _ hs
  | summarize p =>
    rw [answer, session_bind_pure]
    exact .summarize p hs
  | summary =>
    rw [answer, session_bind_pure, summary, session_bind_pure]
    exact .summary hs

/-- What holds at first and is kept by each call holds after all of them. -/
theorem session_induction {I : Session → Prop} {calls : List Call} (hfresh : I {})
    (hstep : ∀ c ∈ calls, ∀ s, I s → I ((site.answer c).run.run s).2) : I (site.session calls) := by
  induction calls using List.reverseRecOn with
  | nil => exact hfresh
  | append_singleton calls c ih =>
    rw [session_append]
    exact hstep c (by simp) _ (ih fun c hc => hstep c (List.mem_append_left _ hc))

/-- What calls lead to can be reached. -/
theorem reached_session (calls : List Call) : site.Reached (site.session calls) :=
  site.session_induction .fresh fun c _ _ hs => site.reached_answer hs c

/-- More calls only add entries. -/
theorem session_extends (calls more : List Call) :
    (site.session calls).Extends (site.session (calls ++ more)) := by
  rw [session_append]
  generalize site.session calls = s
  induction more generalizing s with
  | nil => exact .refl s
  | cons c more ih => exact ((site.steady_answer c).grows s).trans (ih _)

/-- **Guards are released**: after any calls the engine is the session, and nothing is in progress. -/
theorem engine_eq (calls : List Call) : site.engine calls = ⟨site.session calls, fun _ => []⟩ := by
  have hstep : ∀ (s : Session), calls.foldl (fun e c => ((site.heldAnswer c).run.run e).2)
      (⟨s, fun _ => []⟩ : Engine) =
      ⟨calls.foldl (fun s c => ((site.answer c).run.run s).2) s, fun _ => []⟩ := by
    induction calls with
    | nil => exact fun _ => rfl
    | cons c calls ih =>
      intro s
      rw [List.foldl_cons, List.foldl_cons, site.answer_held c s]
      exact ih _
  exact hstep {}

/-- **Calls repeat their answers.** After any calls, whether they returned or failed:

* no node is in progress, for its markup or for its record, and the next call does what it does in
  the session, again leaving nothing in progress;
* more calls only put entries in front of the two tables, and none for a place that has one;
* a call that returns returns the same at any later time. -/
theorem calls_repeat (before later : List Call) (c : Call) :
    (∀ d, (site.engine before).active d = []) ∧
    (site.engine before).session = site.session before ∧
    (site.heldAnswer c).run.run (site.engine before) =
      (((site.answer c).run.run (site.session before)).1,
        ⟨((site.answer c).run.run (site.session before)).2, fun _ => []⟩) ∧
    (site.session before).markup <:+ (site.session (before ++ c :: later)).markup ∧
    (site.session before).records <:+ (site.session (before ++ c :: later)).records ∧
    (∀ p m, (site.session before).markup.lookup p = some m →
      (site.session (before ++ c :: later)).markup.lookup p = some m) ∧
    (∀ p r, (site.session before).records.lookup p = some r →
      (site.session (before ++ c :: later)).records.lookup p = some r) ∧
    ∀ a, ((site.answer c).run.run (site.session before)).1 = .ok a →
      ((site.answer c).run.run (site.session (before ++ c :: later))).1 = .ok a := by
  have hlater := site.session_extends before (c :: later)
  refine ⟨fun d => by rw [engine_eq], by rw [engine_eq], ?_, hlater.markup.suffix,
    hlater.records.suffix, fun p m => hlater.markup.lookup_some, fun p r => hlater.records.lookup_some,
    fun a ha => ?_⟩
  · rw [engine_eq]
    exact site.answer_held c _
  · rcases hrun : (site.answer c).run.run (site.session before) with ⟨x, s'⟩
    rw [hrun] at ha
    cases ha
    refine (site.steady_answer c).again hrun ?_
    have hrest := site.session_extends (before ++ [c]) later
    have hmid : site.session (before ++ [c]) = s' := by
      rw [session_append, List.foldl_cons, List.foldl_nil, hrun]
    rwa [hmid, List.append_assoc, List.singleton_append] at hrest

/-! ## Two function types that return each other -/

/-- A module with a named type: a function that returns a function, which takes numbers and returns
the first one. -/
def pingDocument : Value :=
  .record [("modules", .list [.record [("kind", .int 1), ("id", .int 1), ("children", .list [
    .record [("kind", .int 14), ("id", .int 2), ("name", .text "Ping"),
      ("type", .record [("kind", .int 37), ("id", .int 3), ("parameters", .list []),
        ("type", .record [("kind", .int 37), ("id", .int 4),
          ("parameters", .list [.record [("kind", .int 17), ("name", .text "n"),
            ("type", .record [("kind", .int 21),
              ("type", .record [("kind", .int 35), ("name", .text "number")])])]]),
          ("type", .int 3)])])]])]])]

/-- The site of the document. -/
def pingSite : Site where
  graph :=
    { nodes := #[
        { Node.bare .moduleFile with id := some (.int 1), children := some [1] },
        { Node.bare .typeAlias with
          id := some (.int 2), name := "Ping", type := some 2, parent := some 0 },
        { Node.bare .functionType with id := some (.int 3), type := some 3, parameters := some [] },
        { Node.bare .functionType with id := some (.int 4), type := some 2, parameters := some [4] },
        { Node.bare .parameter with name := "n", type := some 5 },
        { Node.bare .array with type := some 6 },
        { Node.bare .baseType with name := "number" }]
      modules := [0]
      index := [(.int 1, 0), (.int 2, 1), (.int 3, 2), (.int 4, 3)] }
  plan := .empty false
  options := {}

theorem pingDocument_loads : Graph.ofValue pingDocument = .ok pingSite.graph := by
  cbv

/-- The second function was cut short inside the first one, and that is what it stays. -/
theorem calls_repeat_ping : Graph.ofValue pingDocument = .ok pingSite.graph ∧
    ((pingSite.answer (.render (some 3))).run.run
      (pingSite.session [.render (some 2), .render (some 3), .summary])).1 =
      .ok (.text "(n: number[]) =&gt; ?") := by
  obtain ⟨-, -, -, -, -, -, -, hrepeat⟩ :=
    calls_repeat pingSite [.render (some 2)] [.summary] (.render (some 3))
  exact ⟨pingDocument_loads, hrepeat _ (by cbv)⟩

end Site

end SymbolDocs
