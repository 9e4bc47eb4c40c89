import SymbolDocs.Proofs.Tables

/-!
# Guards

The programs for printing and summarising carry the nodes in progress along as a list, so a node
leaves it when the call returns. Here the nodes in progress are kept in the state instead: a node is
put in before its work starts and taken out when the work is over, with an answer or with a fault.
Two such guards are enough, one for markup and one for records, shared by all calls.

* `Engine` is a session with the two guards, and `Held` is work that can see them;
* `Held.once` is work that is done once for a place, under a guard;
* `Site.heldNode`, `Site.heldSummarize` and `Site.heldPosition` print and summarise that way;
* `Site.renderNode_held` and `Site.summarizeFrom_held` say that they do exactly what the programs do,
  and give the guards back as they were.
-/

namespace SymbolDocs

/-- What a node can be in progress for. -/
inductive Guard where
  /-- Its markup is being printed. -/
  | printing
  /-- Its record is being made. -/
  | recording
  deriving DecidableEq

/-- A session, and the nodes in progress in it. -/
structure Engine where
  /-- The tables and warnings. -/
  session : Session := {}
  /-- The nodes behind each guard. -/
  active : Guard → List Place := fun _ => []

namespace Engine

/-- Puts a node in progress. -/
def enter (e : Engine) (d : Guard) (p : Place) : Engine :=
  { e with active := Function.update e.active d (p :: e.active d) }

/-- Takes a node out again. -/
def leave (e : Engine) (d : Guard) (p : Place) : Engine :=
  { e with active := Function.update e.active d ((e.active d).erase p) }

theorem leave_enter (e : Engine) (d : Guard) (p : Place) : (e.enter d p).leave d p = e := by
  simp [leave, enter]

end Engine

/-- Work in which the guards can be seen. -/
abbrev Held := ExceptT Fault (StateM Engine)

namespace Held

variable {α β : Type}

/-- Work that leaves the guards alone. -/
def lift (w : Work α) : Held α :=
  ExceptT.mk fun e => ((w.run.run e.session).1, { e with session := (w.run.run e.session).2 })

/-- Work on a node that is in progress meanwhile. The guard is released also when the work fails. -/
def during (d : Guard) (p : Place) (h : Held α) : Held α := do
  modify fun e => e.enter d p
  try h finally modify fun e => e.leave d p

/-- Work on a place that is done only when the table has no entry for it, under a guard. -/
def once (d : Guard) (k : Shelf β) (p : Place) (short : β) (h : Held β) : Held β := do
  let e ← get
  match (k.entries e.session).lookup p with
  | some b => return b
  | none =>
    if p ∈ e.active d then return short
    else
      let b ← during d p h
      lift (modify (k.add p b))
      return b

theorem run_tryFinally (h : Held α) (f : Engine → Engine) (e : Engine) :
    (tryFinally h (modify f : Held Unit)).run.run e = ((h.run.run e).1, f (h.run.run e).2) := by
  rcases hh : h.run.run e with ⟨x, e'⟩
  have hh : h e = (x, e') := hh
  cases x <;>
  · simp only [tryFinally, tryFinally', ExceptT.run, StateT.run, ExceptT.mk, bind, StateT.bind,
      Functor.map, ExceptT.map, hh]
    rfl

/-- Whatever the work comes to, the node is in progress during it and not afterwards. -/
theorem run_during (d : Guard) (p : Place) (h : Held α) (e : Engine) :
    (during d p h).run.run e =
      ((h.run.run (e.enter d p)).1, (h.run.run (e.enter d p)).2.leave d p) :=
  run_tryFinally h (fun e => e.leave d p) (e.enter d p)

/-- How an engine goes through work that is done once. -/
theorem run_once {d : Guard} {k : Shelf β} {p : Place} {short : β} {h : Held β} {e : Engine} :
    (once d k p short h).run.run e =
      match (k.entries e.session).lookup p with
      | some b => (.ok b, e)
      | none =>
        if p ∈ e.active d then (.ok short, e)
        else
          match (during d p h).run.run e with
          | (.ok b, e') => (.ok b, { e' with session := k.add p b e'.session })
          | (.error x, e') => (.error x, e') := by
  have hrun : (once d k p short h).run.run e = _ := Work.run_bind get _ e
  rw [hrun]
  change ((match (k.entries e.session).lookup p with
    | some b => pure b
    | none => if p ∈ e.active d then pure short else do
      let b ← during d p h
      lift (modify (k.add p b))
      pure b : Held β)).run.run e = _
  cases (k.entries e.session).lookup p with
  | some b => rfl
  | none =>
    dsimp only
    split
    · rfl
    · rw [Work.run_bind]
      rcases (during d p h).run.run e with ⟨_ | b, e'⟩ <;> rfl

end Held

namespace Work

variable {α β : Type}

/-- Work that does the same with the nodes `active` behind the guards, and finds them there when it
is over. -/
def guarded (active : Guard → List Place) : Lockstep Work Held where
  Agree w h := ∀ s : Session, h.run.run ⟨s, active⟩ = ((w.run.run s).1, ⟨(w.run.run s).2, active⟩)
  pure _ _ := rfl
  throw _ _ := rfl
  bind {_ _ w h f g} hw hf s := by
    have hw := hw s
    rw [run_bind, run_bind, hw]
    rcases w.run.run s with ⟨_ | a, s'⟩
    · rfl
    · exact hf a s'

theorem guarded_lift (active : Guard → List Place) (w : Work α) :
    (guarded active).Agree w (Held.lift w) :=
  fun _ => rfl

/-- Work done while a node is in progress. -/
theorem guarded_during {active : Guard → List Place} {d : Guard} {p : Place} {w : Work α} {h : Held α}
    (hw : (guarded (Function.update active d (p :: active d))).Agree w h) :
    (guarded active).Agree w (Held.during d p h) := by
  intro s
  rw [Held.run_during]
  have hw := hw s
  have henter : (⟨s, active⟩ : Engine).enter d p =
    ⟨s, Function.update active d (p :: active d)⟩ := rfl
  rw [henter, hw]
  exact congrArg _ (Engine.leave_enter ⟨(w.run.run s).2, active⟩ d p)

/-- **Work that is done once** treats the list of nodes in progress as the guard. -/
theorem guarded_once {active : Guard → List Place} {d : Guard} {k : Shelf β} {p : Place} {short : β}
    {w : Work β} {h : Held β}
    (hw : (guarded (Function.update active d (p :: active d))).Agree w h) :
    (guarded active).Agree (once k (active d) p short w) (Held.once d k p short h) := by
  intro s
  have hnew := guarded_during hw s
  rw [Held.run_once, run_once, hnew]
  cases (k.entries s).lookup p with
  | some b => rfl
  | none =>
    dsimp only
    split
    · rfl
    · rcases w.run.run s with ⟨_ | b, s'⟩ <;> rfl

end Work

/-! ## Printing and summarising under guards -/

namespace Site

open Work

/-- Renders a node. -/
def heldNode (site : Site) : Nat → Place → Held String
  | 0, _ => throw .unbounded
  | budget + 1, p =>
    Held.once .printing .markup p (bareName (site.graph.node p))
      ((site.graph.typeRule p).print
        (fun q => do
          let m ← heldNode site budget q
          return restDots (site.graph.node q) m)
        fun q => Held.lift (site.link q))

/-- Renders a node in a type position. -/
def heldType (site : Site) (p : Place) : Held String := do
  let m ← site.heldNode (site.graph.size + 1) p
  return restDots (site.graph.node p) m

/-- Prints a layout. -/
def heldPrint (site : Site) (l : Layout) : Held String :=
  l.print site.heldType fun q => Held.lift (site.link q)

/-- Under guards layouts are printed with them. -/
instance : Printer Held := ⟨heldPrint⟩

mutual

/-- The record of a node. -/
def heldSummarize (site : Site) : Nat → Place → Held Record
  | 0, _ => throw .unbounded
  | fuel + 1, p =>
    Held.once .recording .records p (site.graph.node p).stub
      (site.recordWith (fun q => heldSummarize site fuel q) (fun q => heldPosition site fuel q) p)

/-- The encoding of a type position. -/
def heldPosition (site : Site) : Nat → Place → Held (TypeValue Record)
  | 0, _ => throw .unbounded
  | fuel + 1, p => do
    let e ← get
    site.positionWith (e.active .recording) (fun q => heldPosition site fuel q)
      (fun q => Held.during .recording q
        (site.recordWith (fun r => heldSummarize site fuel r) (fun r => heldPosition site fuel r) q))
      p

end

variable (site : Site)

/-- **Rendering under a guard** is rendering with the list of nodes behind it. -/
theorem renderNode_held (budget : Nat) : ∀ (active : Guard → List Place) (p : Place),
    (guarded active).Agree (site.renderNode budget (active .printing) p) (site.heldNode budget p) := by
  induction budget with
  | zero => exact fun active _ => (guarded active).throw _
  | succ budget ih =>
    intro active p
    rw [renderNode_succ, heldNode]
    refine guarded_once ((guarded _).print (fun q _ => ?_) fun q => guarded_lift _ _)
    have hq := ih (Function.update active .printing (p :: active .printing)) q
    rw [Function.update_self] at hq
    exact (guarded _).bind hq fun m => (guarded _).pure _

/-- Outside all markup layouts are printed as in a session. -/
theorem print_held {active : Guard → List Place} (h : active .printing = []) (l : Layout) :
    (guarded active).Agree (site.print l) (site.heldPrint l) := by
  refine (guarded active).print (fun q _ => ?_) fun q => guarded_lift _ _
  have hq := site.renderNode_held (site.graph.size + 1) active q
  rw [h] at hq
  exact (guarded active).bind hq fun m => (guarded active).pure _

/-- **Summarising under a guard** is summarising with the list of nodes behind it. Texts are printed
outside all markup, because no markup leads to a record. -/
theorem summarizeFrom_held (fuel : Nat) : ∀ active : Guard → List Place, active .printing = [] →
    (∀ p, (guarded active).Agree (site.summarizeFrom fuel (active .recording) p)
      (site.heldSummarize fuel p)) ∧
    ∀ p, (guarded active).Agree (site.positionFrom fuel (active .recording) p)
      (site.heldPosition fuel p) := by
  induction fuel with
  | zero =>
    refine fun active _ => ⟨fun p => ?_, fun p => ?_⟩
    · rw [summarizeFrom, heldSummarize]
      exact (guarded active).throw _
    · rw [positionFrom, heldPosition]
      exact (guarded active).throw _
  | succ fuel ih =>
    intro active hactive
    -- the making of a record, with its node behind the guard
    have hbody : ∀ p, (guarded (Function.update active .recording (p :: active .recording))).Agree
        (site.recordWith (fun q => site.summarizeFrom fuel (p :: active .recording) q)
          (fun q => site.positionFrom fuel (p :: active .recording) q) p)
        (site.recordWith (fun q => site.heldSummarize fuel q)
          (fun q => site.heldPosition fuel q) p) := by
      intro p
      have hprinting : Function.update active .recording (p :: active .recording) .printing = [] := by
        simpa using hactive
      obtain ⟨hS, hP⟩ := ih _ hprinting
      rw [Function.update_self] at hS hP
      exact (guarded _).recordWith (fun c _ => hS c) (fun t _ => hP t)
        fun l _ => site.print_held hprinting l
    refine ⟨fun p => ?_, fun p => ?_⟩
    · rw [summarizeFrom_succ, heldSummarize]
      exact guarded_once (hbody p)
    · rw [positionFrom, heldPosition]
      exact (guarded active).positionWith (fun _ _ => Iff.rfl)
        (fun l _ => site.print_held hactive l) (fun q _ _ => site.print_held hactive (.type q))
        (fun a _ => (ih active hactive).2 a) fun q _ _ => guarded_during (hbody q)

end Site

end SymbolDocs
