import Mathlib
import SymbolDocs.Session

/-!
# What work keeps

A piece of work goes through many sessions, and it may stop half way with a fault. What can be said
about all of them is said about the entries of the two tables: every markup kept satisfies `M` and
every record kept satisfies `R`.

* `Session.Keeps` says so of a session;
* `Work.Ensures` says of a piece of work that it leads from such a session to such a session, also
  when it fails, and that an answer of it satisfies a condition.

There is one rule for each way of putting work together, so that the proofs about printing and
summarising follow the text of the programs.
-/

namespace SymbolDocs

/-- The entries of the two tables of a session satisfy `M` and `R`. -/
structure Session.Keeps (M : Place → String → Prop) (R : Place → Record → Prop) (s : Session) :
    Prop where
  markup : ∀ e ∈ s.markup, M e.1 e.2
  records : ∀ e ∈ s.records, R e.1 e.2

/-- A fresh session has no entries. -/
theorem Session.keeps_fresh (M : Place → String → Prop) (R : Place → Record → Prop) :
    ({} : Session).Keeps M R :=
  ⟨by simp, by simp⟩

/-- What a table holds for a place is one of its entries. -/
theorem mem_of_lookup {β : Type} {p : Place} {b : β} {table : List (Place × β)}
    (h : table.lookup p = some b) : (p, b) ∈ table := by
  induction table with
  | nil => simp at h
  | cons e rest ih =>
    obtain ⟨q, c⟩ := e
    rw [List.lookup_cons] at h
    split at h
    · rename_i heq
      obtain rfl : p = q := by simpa using heq
      cases h
      exact List.mem_cons_self
    · exact List.mem_cons_of_mem _ (ih h)

/-- Among answers given in turn each one is the answer for something. -/
theorem exists_of_mem_forall₂ {α β : Type} {Q : α → β → Prop} {as : List α} {bs : List β}
    (h : List.Forall₂ Q as bs) {b : β} (hb : b ∈ bs) : ∃ a ∈ as, Q a b := by
  induction h with
  | nil => cases hb
  | cons hab _ ih =>
    rcases List.mem_cons.mp hb with rfl | hb
    · exact ⟨_, List.mem_cons_self, hab⟩
    · obtain ⟨a, ha, h⟩ := ih hb
      exact ⟨a, List.mem_cons_of_mem _ ha, h⟩

namespace Work

variable {α β : Type} {M : Place → String → Prop} {R : Place → Record → Prop}

/-- From a session whose entries satisfy `M` and `R` the work leads to another one, and an answer
satisfies `Q`. -/
def Ensures (M : Place → String → Prop) (R : Place → Record → Prop) (w : Work α) (Q : α → Prop) :
    Prop :=
  ∀ s : Session, s.Keeps M R → (w.run.run s).2.Keeps M R ∧ ∀ a, (w.run.run s).1 = .ok a → Q a

/-- Running one piece of work after another, whatever it changes. -/
theorem run_bind {σ : Type} (w : ExceptT Fault (StateM σ) α) (f : α → ExceptT Fault (StateM σ) β)
    (s : σ) :
    (w >>= f).run.run s =
      match w.run.run s with
      | (.ok a, s') => (f a).run.run s'
      | (.error e, s') => (.error e, s') := by
  change (ExceptT.bind w f : ExceptT Fault (StateM σ) β).run.run s = _
  simp only [ExceptT.bind, ExceptT.run, ExceptT.mk, StateT.run, bind, StateT.bind]
  rcases w s with ⟨_ | _, s'⟩ <;> rfl

theorem run_bind_ok {w : Work α} {s s₁ : Session} {a : α} (hw : w.run.run s = (.ok a, s₁))
    (f : α → Work β) : (w >>= f).run.run s = (f a).run.run s₁ := by
  rw [run_bind, hw]

/-- Work that succeeds, taken apart. -/
theorem bind_ok {w : Work α} {f : α → Work β} {s s' : Session} {b : β}
    (h : (w >>= f).run.run s = (.ok b, s')) :
    ∃ a s₁, w.run.run s = (.ok a, s₁) ∧ (f a).run.run s₁ = (.ok b, s') := by
  rw [run_bind] at h
  rcases hw : w.run.run s with ⟨_ | a, s₁⟩
  · rw [hw] at h
    cases h
  · rw [hw] at h
    exact ⟨a, s₁, rfl, h⟩

theorem ofExcept_ok {x : Except Fault α} {s s' : Session} {a : α}
    (h : (Work.ofExcept x).run.run s = (.ok a, s')) : x = .ok a ∧ s' = s := by
  cases x with
  | error e => cases h
  | ok b =>
    cases h
    exact ⟨rfl, rfl⟩

namespace Ensures

theorem pure {a : α} {Q : α → Prop} (h : Q a) : Ensures M R (Pure.pure a) Q := by
  intro s hs
  refine ⟨hs, fun b hb => ?_⟩
  cases hb
  exact h

theorem throw (e : Fault) (Q : α → Prop) : Ensures M R (MonadExcept.throw e : Work α) Q := by
  intro s hs
  exact ⟨hs, fun b hb => by cases hb⟩

theorem bind {w : Work α} {f : α → Work β} {Q : α → Prop} {Q' : β → Prop} (hw : Ensures M R w Q)
    (hf : ∀ a, Q a → Ensures M R (f a) Q') : Ensures M R (w >>= f) Q' := by
  intro s hs
  obtain ⟨hs', hQ⟩ := hw s hs
  rw [run_bind]
  rcases hrun : w.run.run s with ⟨_ | a, s'⟩
  · rw [hrun] at hs'
    exact ⟨hs', fun b hb => by cases hb⟩
  · rw [hrun] at hs' hQ
    exact hf a (hQ a rfl) s' hs'

theorem mono {w : Work α} {Q Q' : α → Prop} (hw : Ensures M R w Q) (h : ∀ a, Q a → Q' a) :
    Ensures M R w Q' :=
  fun s hs => ⟨(hw s hs).1, fun a ha => h a ((hw s hs).2 a ha)⟩

theorem ofExcept {x : Except Fault α} {Q : α → Prop} (h : ∀ a, x = .ok a → Q a) :
    Ensures M R (Work.ofExcept x) Q := by
  cases x with
  | ok a => exact pure (h a rfl)
  | error e => exact throw e Q

/-- A warning changes no table. -/
theorem warn (w : Warning) : Ensures M R (Work.warn w) fun _ => True :=
  fun _ hs => ⟨⟨hs.markup, hs.records⟩, fun _ _ => trivial⟩

theorem markup? (p : Place) : Ensures M R (Work.markup? p) fun o => ∀ m, o = some m → M p m := by
  intro s hs
  refine ⟨hs, fun o ho m hm => ?_⟩
  cases ho
  exact hs.markup _ (mem_of_lookup hm)

theorem rememberMarkup {p : Place} {m : String} (h : M p m) :
    Ensures M R (Work.rememberMarkup p m) fun _ => True := by
  intro s hs
  refine ⟨⟨fun e he => ?_, hs.records⟩, fun _ _ => trivial⟩
  rcases List.mem_cons.mp he with rfl | he
  · exact h
  · exact hs.markup e he

theorem record? (p : Place) : Ensures M R (Work.record? p) fun o => ∀ r, o = some r → R p r := by
  intro s hs
  refine ⟨hs, fun o ho r hr => ?_⟩
  cases ho
  exact hs.records _ (mem_of_lookup hr)

theorem rememberRecord {p : Place} {r : Record} (h : R p r) :
    Ensures M R (Work.rememberRecord p r) fun _ => True := by
  intro s hs
  refine ⟨⟨hs.markup, fun e he => ?_⟩, fun _ _ => trivial⟩
  rcases List.mem_cons.mp he with rfl | he
  · exact h
  · exact hs.records e he

end Ensures

end Work

end SymbolDocs
