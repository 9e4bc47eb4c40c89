import SymbolDocs.Proofs.Calls
import SymbolDocs.Proofs.Direct

/-!
# Rendering by plain recursion

The markup of a type by its rules alone: each part is rendered where it stands, nothing is kept, and
nothing stops a type that is a part of itself. Where no type is a part of itself, that is what
rendering in a session comes to, whatever was rendered and summarised before.

* `Site.plainType` is the plain recursion, with a bound on its depth that is never reached where it
  ends at all;
* `Work.computing` compares work in sessions with plain answers, faults included;
* `Site.renderNode_computes` says that rendering in a session follows the plain recursion;
* `Site.render_eq_plain` puts this together for all sessions.
-/

namespace SymbolDocs

open Relation

/-! ## Chains of printed parts -/

namespace Graph

variable {g : Graph}

/-- What is printed finitely leads to nothing else. -/
theorem PrintsFinitely.of_reaches {p q : Place} (hp : g.PrintsFinitely p)
    (h : ReflTransGen g.Prints p q) : g.PrintsFinitely q := by
  induction h with
  | refl => exact hp
  | tail _ hq ih => exact ih.step hq

/-- Where no node is a part of itself, every chain of parts ends, because the table is finite. -/
theorem printsFinitely_of_acyclic {p : Place}
    (h : ∀ q, ReflTransGen g.Prints p q → ¬ TransGen g.Prints q q) : g.PrintsFinitely p := by
  suffices hall : ∀ depth above p, g.Above depth above p →
      (∀ q, ReflTransGen g.Prints p q → ¬ TransGen g.Prints q q) → g.PrintsFinitely p from
    hall _ [] p (.top g p) h
  intro depth
  induction depth with
  | zero =>
    intro above p hp
    obtain ⟨d, hd⟩ := hp.exists_succ
    cases hd
  | succ depth ih =>
    intro above p hp hacyclic
    have hnew : p ∉ above := fun hmem => hacyclic p .refl (hp.leads p hmem)
    refine ⟨p, fun q hq => ih (p :: above) q (hp.step hnew hq) fun r hr => ?_⟩
    exact hacyclic r (.head hq hr)

end Graph

/-! ## The plain recursion -/

namespace Lockstep

/-- Programs with equal parts are equal. -/
def equality {μ : Type → Type} [Monad μ] [MonadExceptOf Fault μ] : Lockstep μ μ where
  Agree w v := w = v
  pure _ := rfl
  throw _ := rfl
  bind := by
    rintro _ _ w _ f g rfl hfg
    obtain rfl : f = g := funext hfg
    rfl

end Lockstep

namespace Site

variable (site : Site)

/-- A link. The session matters for its warnings only. -/
def plainLink (p : Place) : Except Fault String :=
  ((site.link p).run.run {}).1

/-- A node by direct recursion on the rules of printing, to a depth. -/
def plainNode : Nat → Place → Except Fault String
  | 0, _ => throw .unbounded
  | depth + 1, p =>
    (site.graph.typeRule p).print
      (fun q => do
        let m ← plainNode depth q
        return restDots (site.graph.node q) m)
      site.plainLink

/-- A node in a type position by direct recursion. -/
def plainType (p : Place) : Except Fault String := do
  let m ← site.plainNode (site.graph.size + 1) p
  return restDots (site.graph.node p) m

/-- Without a session layouts are printed by direct recursion. -/
instance : Printer (Except Fault) :=
  ⟨fun site l => l.print site.plainType site.plainLink⟩

/-- Where the recursion ends, one more step of depth changes nothing. -/
theorem plainNode_succ {p : Place} (hp : site.graph.PrintsFinitely p) :
    ∀ (depth : Nat) (above : List Place), site.graph.Above depth above p →
      site.plainNode depth p = site.plainNode (depth + 1) p := by
  induction hp with
  | intro p hp ih =>
    intro depth above habove
    have hnew : p ∉ above := habove.not_mem ⟨p, hp⟩
    obtain ⟨depth, rfl⟩ := habove.exists_succ
    refine Lockstep.equality.print (fun q hq => ?_) fun q => rfl
    have hq : site.plainNode depth q = site.plainNode (depth + 1) q :=
      ih q hq depth (p :: above) (habove.step hnew hq)
    exact congrArg (fun x => x >>= fun m => pure (restDots (site.graph.node q) m)) hq

/-- **The plain recursion follows the rules**, with no bound on its depth. -/
theorem plainNode_eq {p : Place} (hp : site.graph.PrintsFinitely p) :
    site.plainNode (site.graph.size + 1) p =
      (site.graph.typeRule p).print site.plainType site.plainLink :=
  site.plainNode_succ hp _ [] (.top site.graph p)

end Site

/-! ## Sessions with plain answers -/

/-- Two sessions hold the same markup where `K` holds, and the same records where `J` holds. -/
structure Session.Same (K J : Place → Prop) (s s' : Session) : Prop where
  markup : ∀ q, K q → s'.markup.lookup q = s.markup.lookup q
  records : ∀ q, J q → s'.records.lookup q = s.records.lookup q

namespace Session.Same

variable {K K' J J' : Place → Prop} {s s' s'' : Session}

theorem refl (s : Session) : s.Same K J s := ⟨fun _ _ => rfl, fun _ _ => rfl⟩

theorem trans (h : s.Same K J s') (h' : s'.Same K J s'') : s.Same K J s'' :=
  ⟨fun q hq => (h'.markup q hq).trans (h.markup q hq),
    fun q hq => (h'.records q hq).trans (h.records q hq)⟩

theorem mono (hK : ∀ q, K' q → K q) (hJ : ∀ q, J' q → J q) (h : s.Same K J s') : s.Same K' J' s' :=
  ⟨fun q hq => h.markup q (hK q hq), fun q hq => h.records q (hJ q hq)⟩

/-- What is not written stays the same. -/
theorem of_grows (h : s.Grows K J s') : s.Same (fun q => ¬ K q) (fun q => ¬ J q) s' :=
  ⟨fun _ hq => h.markup.lookup_eq hq, fun _ hq => h.records.lookup_eq hq⟩

/-- A new entry changes nothing elsewhere. -/
theorem add_markup (h : s.Same K J s') {p : Place} (hp : ¬ K p) (m : String) :
    s.Same K J (Shelf.markup.add p m s') := by
  refine ⟨fun q hq => ?_, h.records⟩
  have hne : q ≠ p := fun he => hp (he ▸ hq)
  exact (Written.lookup_cons_of_ne hne).trans (h.markup q hq)

theorem add_record (h : s.Same K J s') {p : Place} (hp : ¬ J p) (r : Record) :
    s.Same K J (Shelf.records.add p r s') := by
  refine ⟨h.markup, fun q hq => ?_⟩
  have hne : q ≠ p := fun he => hp (he ▸ hq)
  exact (Written.lookup_cons_of_ne hne).trans (h.records q hq)

end Session.Same

namespace Work

variable {α β : Type}

/-- Work that comes to a given answer or fault in every session in which `I` holds. Then `I` still
holds, and the entries are the same where `K` and `J` hold. -/
def computing (I : Session → Prop) (K J : Place → Prop) : Lockstep Work (Except Fault) where
  Agree w x := ∀ s, I s → (w.run.run s).1 = x ∧ I (w.run.run s).2 ∧ s.Same K J (w.run.run s).2
  pure _ s hs := ⟨rfl, hs, .refl s⟩
  throw _ s hs := ⟨rfl, hs, .refl s⟩
  bind {_ _ w x f g} hw hf s hs := by
    obtain ⟨rfl, hs', hsame⟩ := hw s hs
    rw [run_bind]
    rcases hrun : w.run.run s with ⟨_ | a, s'⟩
    · rw [hrun] at hs' hsame
      exact ⟨rfl, hs', hsame⟩
    · rw [hrun] at hs' hsame
      obtain ⟨hx, hs'', hsame'⟩ := hf a s' hs'
      exact ⟨hx, hs'', hsame.trans hsame'⟩

/-- Work that is done once computes what the work computes, when the table holds the right answers. -/
theorem computing_once {I : Session → Prop} {K J : Place → Prop} {k : Shelf β} {active : List Place}
    {p : Place} {short : β} {w : Work β} {x : Except Fault β} (hp : p ∉ active)
    (hfound : ∀ {s b}, I s → (k.entries s).lookup p = some b → x = .ok b)
    (hw : (computing I K J).Agree w x)
    (hadd : ∀ {s s' : Session} {b}, I s' → s.Same K J s' → x = .ok b →
      I (k.add p b s') ∧ s.Same K J (k.add p b s')) :
    (computing I K J).Agree (once k active p short w) x := by
  intro s hs
  rw [run_once]
  split
  · rename_i b hb
    exact ⟨(hfound hs hb).symm, hs, .refl s⟩
  · rw [if_neg hp]
    obtain ⟨hx, hs', hsame⟩ := hw s hs
    rcases hrun : w.run.run s with ⟨_ | b, s'⟩
    · rw [hrun] at hx hs' hsame
      exact ⟨hx, hs', hsame⟩
    · rw [hrun] at hx hs' hsame
      exact ⟨hx, hadd hs' hsame hx.symm⟩

/-- Work that keeps what holds of a session, also when it fails. -/
def keeping (I : Session → Prop) : Lockstep Work Work :=
  leads (fun s s' => I s → I s') (fun _ h => h) fun h h' hs => h' (h hs)

theorem keeping_once {I : Session → Prop} {k : Shelf β} {active : List Place} {p : Place} {short : β}
    {w : Work β} (hw : p ∉ active → (keeping I).Self w) (hadd : ∀ s b, I s → I (k.add p b s)) :
    (keeping I).Self (once k active p short w) := by
  let T : Session → Session → Prop := fun s s' => I s → I s'
  have hw : p ∉ active → ∀ s, T s (w.run.run s).2 := hw
  have hrefl : ∀ s, T s s := fun _ hs => hs
  exact leads_once hw hrefl (fun h => h) fun _ _ s' b _ h hs => hadd s' b (h hs)

/-- Work in two sessions that stand in the relation `I`: it gives the same answer or fault in both,
and the sessions it leads to stand in the relation again. -/
def paired (I : Session → Session → Prop) : Lockstep Work Work where
  Agree w v := ∀ s s', I s s' →
    (w.run.run s).1 = (v.run.run s').1 ∧ I (w.run.run s).2 (v.run.run s').2
  pure _ _ _ hs := ⟨rfl, hs⟩
  throw _ _ _ hs := ⟨rfl, hs⟩
  bind {_ _ w v f g} hw hf s s' hs := by
    obtain ⟨hx, hs'⟩ := hw s s' hs
    rw [run_bind, run_bind]
    rcases hrun : w.run.run s with ⟨x, s₁⟩
    rcases hrun' : v.run.run s' with ⟨x', s₁'⟩
    rw [hrun, hrun'] at hx hs'
    obtain rfl : x = x' := hx
    cases x with
    | error e => exact ⟨rfl, hs'⟩
    | ok a => exact hf a s₁ s₁' hs'

end Work

namespace Session.Keeps

variable {M : Place → String → Prop} {R : Place → Record → Prop} {s s' : Session}

theorem of_grows (h : s.Keeps M R) (hs : s.Grows (fun _ => False) (fun _ => False) s') :
    s'.Keeps M R := by
  refine ⟨?_, ?_⟩
  · rw [hs.markup.eq_of_false]
    exact h.markup
  · rw [hs.records.eq_of_false]
    exact h.records

theorem add_markup (h : s.Keeps M R) {p : Place} {m : String} (hm : M p m) :
    (Shelf.markup.add p m s).Keeps M R := by
  refine ⟨fun e he => ?_, h.records⟩
  rcases List.mem_cons.mp he with rfl | he
  · exact hm
  · exact h.markup e he

theorem add_record (h : s.Keeps M R) {p : Place} {r : Record} (hr : R p r) :
    (Shelf.records.add p r s).Keeps M R := by
  refine ⟨h.markup, fun e he => ?_⟩
  rcases List.mem_cons.mp he with rfl | he
  · exact hr
  · exact h.records e he

end Session.Keeps

/-! ## Rendering follows the plain recursion -/

namespace Site

open Work

variable (site : Site) {R : Place → Record → Prop}

/-- A link is the same in every session. -/
theorem link_eq_plain (p : Place) (s : Session) :
    ((site.link p).run.run s).1 = site.plainLink p :=
  ((paired fun _ _ => True).link_self (fun _ _ _ _ => ⟨rfl, trivial⟩) p s {} trivial).1

/-- The markup of a node that is printed finitely is the plain one. -/
def PlainMarkup (p : Place) (m : String) : Prop :=
  site.graph.PrintsFinitely p → site.plainNode (site.graph.size + 1) p = .ok m

/-- Printing that comes to a plain answer, in sessions with plain markup. It leaves alone the records
and the markup of all nodes that are not printed finitely. -/
def printing (R : Place → Record → Prop) : Lockstep Work (Except Fault) :=
  computing (fun s => s.Keeps site.PlainMarkup R) (fun q => ¬ site.graph.PrintsFinitely q)
    fun _ => True

theorem link_computes (p : Place) : (site.printing R).Agree (site.link p) (site.plainLink p) := by
  intro s hs
  have hgrows := (site.link_grows (K := fun _ => False) (J := fun _ => False) p).session s
  exact ⟨site.link_eq_plain p s, hs.of_grows hgrows,
    (Session.Same.of_grows hgrows).mono (fun _ _ h => h) fun _ _ h => h⟩

/-- **Rendering in a session is the plain recursion** at a node that is printed finitely, whatever is
in progress around it. -/
theorem renderNode_computes {p : Place} (hp : site.graph.PrintsFinitely p) :
    ∀ (budget : Nat) (active : List Place), site.graph.Above budget active p →
      (site.printing R).Agree (site.renderNode budget active p)
        (site.plainNode (site.graph.size + 1) p) := by
  induction hp with
  | intro p hp ih =>
    intro budget active habove
    have hfinite : site.graph.PrintsFinitely p := ⟨p, hp⟩
    have hnew : p ∉ active := habove.not_mem hfinite
    obtain ⟨budget, rfl⟩ := habove.exists_succ
    rw [renderNode_succ, site.plainNode_eq hfinite]
    have hrule : (site.printing R).Agree
        ((site.graph.typeRule p).print
          (fun q => do
            let m ← site.renderNode budget (p :: active) q
            return restDots (site.graph.node q) m) fun q => site.link q)
        ((site.graph.typeRule p).print site.plainType site.plainLink) := by
      refine (site.printing R).print (fun q hq => ?_) site.link_computes
      have hq := ih q hq budget (p :: active) (habove.step hnew hq)
      exact (site.printing R).bind hq fun m => (site.printing R).pure _
    refine computing_once hnew (fun hs hb => ?_) hrule fun hs hT hb => ⟨?_, ?_⟩
    · rw [← site.plainNode_eq hfinite]
      exact hs.markup _ (mem_of_lookup hb) hfinite
    · refine hs.add_markup fun _ => ?_
      rw [site.plainNode_eq hfinite, hb]
    · exact hT.add_markup (fun h => h hfinite) _

theorem renderType_computes {p : Place} (hp : site.graph.PrintsFinitely p) :
    (site.printing R).Agree (site.renderType p) (site.plainType p) :=
  (site.printing R).bind (site.renderNode_computes hp _ [] (.top site.graph p))
    fun _ => (site.printing R).pure _

/-- Layouts of nodes that are printed finitely. -/
theorem print_computes {l : Layout} (hl : ∀ q ∈ l.types, site.graph.PrintsFinitely q) :
    (site.printing R).Agree (site.print l) (Printer.printLayout site l) :=
  (site.printing R).print (fun q hq => site.renderType_computes (hl q hq)) site.link_computes

/-! ## Every session has plain markup -/

/-- Sessions whose markup is plain where nodes are printed finitely. -/
abbrev keepingPlain (R : Place → Record → Prop) : Lockstep Work Work :=
  keeping fun s => s.Keeps site.PlainMarkup R

theorem link_keeps (p : Place) : (site.keepingPlain R).Self (site.link p) :=
  fun s hs => (site.link_computes p s hs).2.1

/-- Rendering any node keeps the markup plain. A node that is a part of itself may be cut short
anywhere, but nothing is said of its markup. -/
theorem renderNode_keeps (budget : Nat) : ∀ (active : List Place) (p : Place),
    site.graph.Above budget active p →
      (site.keepingPlain R).Self (site.renderNode budget active p) := by
  let L := site.keepingPlain R
  induction budget with
  | zero => exact fun _ _ _ => L.throw _
  | succ budget ih =>
    intro active p habove
    by_cases hfinite : site.graph.PrintsFinitely p
    · exact fun s hs => (site.renderNode_computes hfinite _ active habove s hs).2.1
    · rw [renderNode_succ]
      refine keeping_once (fun hnew => ?_) fun s m hs => hs.add_markup fun h => absurd h hfinite
      refine L.print (fun q hq => ?_) site.link_keeps
      exact L.bind (ih (p :: active) q (habove.step hnew hq)) fun m => L.pure _

theorem print_keeps (l : Layout) : (site.keepingPlain R).Self (site.print l) := by
  let L := site.keepingPlain R
  refine L.print (fun q _ => ?_) site.link_keeps
  exact L.bind (site.renderNode_keeps _ [] q (.top site.graph q)) fun m => L.pure _

/-- What printing keeps and no record can change holds in every session. -/
theorem Reached.kept {I : Session → Prop} (hfresh : I {})
    (hprint : ∀ l, (keeping I).Self (site.print l))
    (hrecord : ∀ s p r, I s → I (Shelf.records.add p r s)) {s : Session} (hs : site.Reached s) :
    I s := by
  have hpass : site.Pass (keeping I) fun _ _ _ => True := by
    refine ⟨fun _ _ => hprint _, fun _ _ => hprint _, fun _ _ => trivial, fun _ _ _ _ => trivial,
      fun {fuel active p} _ hbody => ?_⟩
    rw [summarizeFrom_succ]
    exact keeping_once hbody fun s r => hrecord s p r
  induction hs with
  | fresh => exact hfresh
  | print l _ ih => exact hprint l _ ih
  | summarize p _ ih => exact (hpass.self _).1 trivial _ ih
  | position p _ ih => exact (hpass.self _).2 trivial _ ih
  | summary _ ih =>
    have hrecords : (keeping I).Self (eachPlace site.summarize (summaryNodes site.graph)) :=
      (keeping I).eachPlace fun p _ => (hpass.self (summaryDepth site.graph)).1 trivial
    exact (keeping I).bind hrecords (fun records => (keeping I).pure _) _ ih

/-- In every session the markup of what is printed finitely is plain. -/
theorem Reached.plain {s : Session} (hs : site.Reached s) :
    s.Keeps site.PlainMarkup fun _ _ => True :=
  hs.kept site (Session.keeps_fresh _ _) site.print_keeps fun _ _ _ h => h.add_record trivial

/-- **Rendering equals plain recursion.** Let no node that `p` leads to be a part of itself. Then in
every session, whatever was printed and summarised before and whether those calls succeeded, rendering
`p` comes to the same markup or the same fault as the plain recursion; and that is the recursion by
the rules, with nothing kept, nothing in progress and no bound. -/
theorem render_eq_plain {p : Place}
    (hp : ∀ q, ReflTransGen site.graph.Prints p q → ¬ TransGen site.graph.Prints q q) {s : Session}
    (hs : site.Reached s) :
    ((site.render (some p)).run.run s).1 = site.plainType p ∧
    ∀ q, ReflTransGen site.graph.Prints p q → site.plainType q = do
      let m ← (site.graph.typeRule q).print site.plainType site.plainLink
      return restDots (site.graph.node q) m := by
  have hfinite : ∀ q, ReflTransGen site.graph.Prints p q → site.graph.PrintsFinitely q :=
    fun q hq => Graph.printsFinitely_of_acyclic fun r hr => hp r (hq.trans hr)
  refine ⟨(site.renderType_computes (hfinite p .refl) s hs.plain).1, fun q hq => ?_⟩
  rw [plainType, site.plainNode_eq (hfinite q hq)]

/-- The numbers are printed while the two functions are cut short, and still as they should be. -/
theorem render_eq_plain_numbers : Graph.ofValue pingDocument = .ok pingSite.graph ∧
    ((pingSite.render (some 5)).run.run ((pingSite.print (.type 2)).run.run {}).2).1 =
      .ok "number[]" := by
  have hends : pingSite.graph.Ends (.text 5) :=
    Graph.ends_of_endsWithin (show pingSite.graph.endsWithin 3 (.text 5) = true by decide)
  obtain ⟨hrender, -⟩ := render_eq_plain pingSite
    (fun q hq => (hends.printsFinitely.of_reaches hq).not_circular) (.print (.type 2) .fresh)
  exact ⟨pingDocument_loads, hrender.trans (by cbv)⟩

end Site

end SymbolDocs
