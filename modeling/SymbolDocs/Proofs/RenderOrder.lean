import SymbolDocs.Proofs.PlainMarkup

/-!
# The order of rendering

What was rendered before can show in what is rendered next: a type that was cut short inside another
one is kept that way. This needs a type that is a part of itself and that both lead to. Where there
is none, two sessions that differ in what was rendered before give the same markup.

* `Site.Alike` says that two sessions have plain markup and the same entries for all nodes of a
  region that are not printed finitely;
* `Site.print_paired` says that printing in such a region goes in step in the two sessions;
* `Site.render_after` is the result for rendering after other rendering, and `Site.render_cut_short`
  shows that the condition is needed.
-/

namespace SymbolDocs

open Relation

namespace Work

variable {β : Type}

/-- Work that is done once goes in step in two sessions with the same entry for the place. -/
theorem paired_once {I : Session → Session → Prop} {k : Shelf β} {active : List Place} {p : Place}
    {short : β} {w : Work β}
    (hsame : ∀ {s s'}, I s s' → (k.entries s').lookup p = (k.entries s).lookup p)
    (hw : p ∉ active → (paired I).Self w) (hadd : ∀ {s s'} b, I s s' → I (k.add p b s) (k.add p b s')) :
    (paired I).Self (once k active p short w) := by
  intro s s' hs
  rw [run_once, run_once, hsame hs]
  split
  · exact ⟨rfl, hs⟩
  split
  · exact ⟨rfl, hs⟩
  · rename_i hp
    obtain ⟨hx, hs'⟩ := hw hp s s' hs
    rcases hrun : w.run.run s with ⟨x, s₁⟩
    rcases hrun' : w.run.run s' with ⟨x', s₁'⟩
    rw [hrun, hrun'] at hx hs'
    obtain rfl : x = x' := hx
    cases x with
    | error e => exact ⟨rfl, hs'⟩
    | ok b => exact ⟨rfl, hadd b hs'⟩

end Work

namespace Session.Same

variable {K J : Place → Prop} {s s' s₁ s₁' : Session}

/-- Sessions that were the same in parts still are when these parts have not changed. -/
theorem after (h : s.Same K J s') (h₁ : s.Same K J s₁) (h₁' : s'.Same K J s₁') : s₁.Same K J s₁' :=
  ⟨fun q hq => by rw [h₁'.markup q hq, h.markup q hq, h₁.markup q hq],
    fun q hq => by rw [h₁'.records q hq, h.records q hq, h₁.records q hq]⟩

/-- The same entry is put in front of both tables. -/
theorem add_both_markup (h : s.Same K J s') (p : Place) (m : String) :
    (Shelf.markup.add p m s).Same K J (Shelf.markup.add p m s') := by
  refine ⟨fun q hq => ?_, h.records⟩
  simp only [Shelf.markup, List.lookup_cons, h.markup q hq]

theorem add_both_record (h : s.Same K J s') (p : Place) (r : Record) :
    (Shelf.records.add p r s).Same K J (Shelf.records.add p r s') := by
  refine ⟨h.markup, fun q hq => ?_⟩
  simp only [Shelf.records, List.lookup_cons, h.records q hq]

end Session.Same

namespace Site

open Work

variable (site : Site) {Z : Place → Prop} {R : Place → Record → Prop} {J : Place → Prop}

/-- Two sessions with plain markup that have the same entries for all nodes of the region `Z` that are
not printed finitely. `R` and `J` say the like of records. -/
structure Alike (Z : Place → Prop) (R : Place → Record → Prop) (J : Place → Prop) (s s' : Session) :
    Prop where
  left : s.Keeps site.PlainMarkup R
  right : s'.Keeps site.PlainMarkup R
  same : s.Same (fun q => Z q ∧ ¬ site.graph.PrintsFinitely q) J s'

/-- What computes an answer does so in both sessions. -/
theorem paired_of_computing {α : Type} {w : Work α} {x : Except Fault α} {J₀ : Place → Prop}
    (hJ : ∀ q, J q → J₀ q)
    (h : (computing (fun s => s.Keeps site.PlainMarkup R) (fun q => ¬ site.graph.PrintsFinitely q)
      J₀).Agree w x) : (paired (site.Alike Z R J)).Self w := by
  intro s s' hs
  obtain ⟨hx, hkeeps, hsame⟩ := h s hs.left
  obtain ⟨hx', hkeeps', hsame'⟩ := h s' hs.right
  refine ⟨hx.trans hx'.symm, hkeeps, hkeeps', hs.same.after ?_ ?_⟩
  · exact hsame.mono (fun _ hq => hq.2) hJ
  · exact hsame'.mono (fun _ hq => hq.2) hJ

theorem link_paired (p : Place) : (paired (site.Alike Z R J)).Self (site.link p) :=
  site.paired_of_computing (fun _ _ => trivial) (site.link_computes p)

/-- **Rendering in a region goes in step** in two sessions that are alike there. -/
theorem renderNode_paired (hZ : ∀ {p q}, Z p → site.graph.Prints p q → Z q) (budget : Nat) :
    ∀ (active : List Place) (p : Place), site.graph.Above budget active p → Z p →
      (paired (site.Alike Z R J)).Self (site.renderNode budget active p) := by
  let L := paired (site.Alike Z R J)
  induction budget with
  | zero => exact fun _ _ _ _ => L.throw _
  | succ budget ih =>
    intro active p habove hp
    by_cases hfinite : site.graph.PrintsFinitely p
    · exact site.paired_of_computing (fun _ _ => trivial)
        (site.renderNode_computes hfinite _ active habove)
    · rw [renderNode_succ]
      refine paired_once (fun hs => hs.same.markup p ⟨hp, hfinite⟩) (fun hnew => ?_) fun m hs => ?_
      · refine L.print (fun q hq => ?_) site.link_paired
        exact L.bind (ih (p :: active) q (habove.step hnew hq) (hZ hp hq)) fun m => L.pure _
      · exact ⟨hs.left.add_markup fun h => absurd h hfinite,
          hs.right.add_markup fun h => absurd h hfinite, hs.same.add_both_markup p m⟩

theorem renderType_paired (hZ : ∀ {p q}, Z p → site.graph.Prints p q → Z q) {p : Place} (hp : Z p) :
    (paired (site.Alike Z R J)).Self (site.renderType p) :=
  (paired (site.Alike Z R J)).bind (site.renderNode_paired hZ _ [] p (.top site.graph p) hp)
    fun _ => (paired (site.Alike Z R J)).pure _

theorem print_paired (hZ : ∀ {p q}, Z p → site.graph.Prints p q → Z q) {l : Layout}
    (hl : ∀ q ∈ l.types, Z q) : (paired (site.Alike Z R J)).Self (site.print l) :=
  (paired (site.Alike Z R J)).print (fun q hq => site.renderType_paired hZ (hl q hq))
    site.link_paired

/-- A session without markup of a type that `b` leads to and that is a part of itself, or has such a
part, is as good as a fresh one. -/
theorem render_eq_fresh {s : Session} (hs : site.Reached s) {b : Place}
    (hfree : ∀ q, ReflTransGen site.graph.Prints b q → ¬ site.graph.PrintsFinitely q →
      s.markup.lookup q = none) :
    ((site.render (some b)).run.run s).1 = ((site.render (some b)).run.run {}).1 := by
  have halike : site.Alike (ReflTransGen site.graph.Prints b) (fun _ _ => True) (fun _ => False) s {} :=
    ⟨hs.plain, Session.keeps_fresh _ _, fun q hq => (hfree q hq.1 hq.2).symm, fun _ hq => hq.elim⟩
  exact (site.renderType_paired (fun hp hq => hp.tail hq) .refl s {} halike).1

/-- Rendering writes markup of what the nodes lead to. -/
theorem session_renders_grows (before : List Place) :
    ({} : Session).Grows (fun q => ∃ a ∈ before, ReflTransGen site.graph.Prints a q) (fun _ => False)
      (site.session (before.map fun a => .render (some a))) := by
  refine site.session_induction (.refl _) fun c hc s hs => ?_
  obtain ⟨a, ha, rfl⟩ := List.mem_map.mp hc
  have hrender : Grows (ReflTransGen site.graph.Prints a) (fun _ => False)
      (site.answer (.render (some a))) :=
    (growing _ _).bind (site.renderType_grows a) fun m => (growing _ _).pure _
  exact hs.trans ((hrender.session s).mono (fun q hq => ⟨a, ha, hq⟩) fun _ h => h)

/-- **The order of rendering does not matter** where no type is a part of itself that both an earlier
node and this one lead to: rendering `b` after the other nodes comes to the same markup or fault as
rendering it at once. -/
theorem render_after {before : List Place} {b : Place}
    (h : ∀ a ∈ before, ∀ q, ReflTransGen site.graph.Prints a q → ReflTransGen site.graph.Prints b q →
      ¬ TransGen site.graph.Prints q q) :
    ((site.render (some b)).run.run (site.session (before.map fun a => .render (some a)))).1 =
      ((site.render (some b)).run.run {}).1 := by
  refine site.render_eq_fresh (site.reached_session _) fun q hq hinfinite => ?_
  refine (site.session_renders_grows before).markup.lookup_eq fun hwritten => hinfinite ?_
  obtain ⟨a, ha, haq⟩ := hwritten
  exact Graph.printsFinitely_of_acyclic fun r hr => h a ha r (haq.trans hr) (hq.trans hr)

/-- Rendering the numbers first does not change the functions. -/
theorem render_after_numbers : Graph.ofValue pingDocument = .ok pingSite.graph ∧
    ((pingSite.render (some 2)).run.run (pingSite.session [.render (some 5)])).1 =
      .ok "() =&gt; (n: number[]) =&gt; ?" := by
  have hends : pingSite.graph.Ends (.text 5) :=
    Graph.ends_of_endsWithin (show pingSite.graph.endsWithin 3 (.text 5) = true by decide)
  have hshared : ∀ a ∈ [5], ∀ q, ReflTransGen pingSite.graph.Prints a q →
      ReflTransGen pingSite.graph.Prints 2 q → ¬ TransGen pingSite.graph.Prints q q := by
    intro a ha q hq _
    obtain rfl := List.mem_singleton.mp ha
    exact (hends.printsFinitely.of_reaches hq).not_circular
  exact ⟨pingDocument_loads, (render_after pingSite hshared).trans (by cbv)⟩

/-- Rendering one function first does: the other one is cut short, and kept that way. -/
theorem render_cut_short : Graph.ofValue pingDocument = .ok pingSite.graph ∧
    ((pingSite.render (some 3)).run.run {}).1 = .ok "(n: number[]) =&gt; () =&gt; ?" ∧
    ((pingSite.render (some 3)).run.run (pingSite.session [.render (some 2)])).1 =
      .ok "(n: number[]) =&gt; ?" :=
  ⟨pingDocument_loads, by cbv, by cbv⟩

end Site

end SymbolDocs
