import SymbolDocs.Proofs.Navigating
import SymbolDocs.Proofs.PlainMarkup
import SymbolDocs.Proofs.Unbounded

/-!
# Addresses of members

A node without a page of its own is found on the page of its nearest owner that has one. Its address is
read by climbing from owner to owner, and every node that the climb passes adds its anchor. Seen from a
page, the part before the last anchor is left out when the owner bears the name of the page's node.

* `Site.address` is the address without its session, and `Site.address_eq` the equation it satisfies
  wherever the climb ends, with no bound on its length;
* `Graph.Resolves` says that the climb ends, and `Site.resolves_iff` that it does unless the program runs
  into its bound;
* `Graph.Within` says on whose page a node stands, and which nodes stand between, and
  `Graph.exists_within` that every member stands on some page;
* `Site.member_address_iff`: the address of a member has one anchor exactly when no node between has an
  id;
* `Site.short_address_iff`: the short address of a node means the same place as the full one exactly when
  it is read on the page of the node's owner.
-/

namespace SymbolDocs

open Relation

/-! ## Owners -/

namespace Graph

variable {g : Graph}

/-- One node owns the other as a member, a parameter or a type parameter. -/
def Owns (g : Graph) (o c : Place) : Prop :=
  c ∈ (g.node o).owned

/-- Below a root every node knows its owner, whichever of the lists it stands in. -/
theorem Forest.parent_of_owns {roots : List Place} (hr : g.Forest roots) {m o c : Place}
    (hm : m ∈ roots) (ho : ReflTransGen g.Owns m o) (hc : g.Owns o c) :
    (g.node c).parent = some o := by
  have hknown : g.OwnerKnown o := by
    clear hc
    induction ho with
    | refl => exact hr.known m hm
    | tail _ hstep ih => exact hr.nested.known (by simp [ih _ hstep])
  exact hknown c hc

/-- What stands for nothing else is its own target. -/
theorem target_of_plain {p : Place} (h : (g.node p).kind.isWrapper = false) :
    g.target p = (p, false) := by
  simp [target, follow, wrapped?, h]

theorem target_of_hasOwnPage {p : Place} (h : (g.node p).hasOwnPage = true) :
    g.target p = (p, false) :=
  target_of_plain (Site.not_isWrapper_of_hasOwnPage h)

/-- An address is read further at what the owner of a node stands for, if the node has no page. -/
def Rises (g : Graph) (x y : Place) : Prop :=
  (g.node x).hasOwnPage = false ∧ g.Climbs x y

/-- The climb to the address of a node ends: no endless chain of such steps starts at what the node
stands for. -/
def Resolves (g : Graph) (p : Place) : Prop :=
  Acc (fun y x => g.Rises x y) (g.target p).1

theorem resolves_of_page {p : Place} (h : (g.node (g.target p).1).hasOwnPage = true) :
    g.Resolves p := by
  refine ⟨_, fun y hy => ?_⟩
  rw [hy.1] at h
  cases h

theorem resolves_of_top {p : Place} (h : (g.node (g.target p).1).parent = none) : g.Resolves p := by
  refine ⟨_, fun y hy => ?_⟩
  obtain ⟨-, o, ho, -⟩ := hy
  rw [h] at ho
  cases ho

theorem resolves_of_owner {p owner : Place} (hparent : (g.node (g.target p).1).parent = some owner)
    (howner : g.Resolves owner) : g.Resolves p := by
  refine ⟨_, fun y hy => ?_⟩
  obtain ⟨-, o, ho, rfl⟩ := hy
  cases hparent.symm.trans ho
  exact howner

/-- Climbs that lead to the front of the table end. -/
theorem resolves_of_falling (h : ∀ x y, g.Climbs x y → y < x) (p : Place) : g.Resolves p :=
  Subrelation.accessible (fun hrises => h _ _ hrises.2) (Nat.lt_wfRel.wf.apply _)

end Graph

/-! ## Addresses without sessions -/

/-- Work that comes to a given answer or fault in every session. -/
def Work.answering : Lockstep Work (Except Fault) where
  Agree w x := ∀ s : Session, (w.run.run s).1 = x
  pure _ _ := rfl
  throw _ _ := rfl
  bind {_ _ w x f g} hw hf s := by
    rw [run_bind]
    obtain rfl := hw s
    rcases w.run.run s with ⟨_ | a, s'⟩
    · rfl
    · exact hf a s'

namespace Site

variable (site : Site)

/-- The address of a node, seen from a page when one is given. The session matters for its warnings
only. -/
def address (p : Place) (page : Option Place := none) : Except Fault String :=
  ((site.href p page).run.run {}).1

/-- The address with a bound on the climb. -/
def addressFrom (fuel : Nat) (p : Place) (page : Option Place) : Except Fault String :=
  ((site.hrefFrom fuel p page).run.run {}).1

/-- The address of a node that wrappers have led to, with the addresses of owners given. -/
def addressAt (address : Place → Except Fault String) (q : Place) (page : Option Place) :
    Except Fault String :=
  let n := site.graph.node q
  if n.hasOwnPage then site.plan.pageOf site.graph q
  else do
    let base ←
      match n.parent with
      | none => pure ""
      | some owner =>
        match page with
        | none => address owner
        | some page =>
          if (site.graph.node owner).name != (site.graph.node page).name then address owner
          else pure ""
    return base ++ anchor n

/-- Addresses are the same in every session. -/
theorem hrefFrom_eq_addressFrom (fuel : Nat) (p : Place) (page : Option Place) (s : Session) :
    ((site.hrefFrom fuel p page).run.run s).1 = site.addressFrom fuel p page :=
  ((Work.paired fun _ _ => True).hrefFrom_self (fun _ _ _ _ => ⟨rfl, trivial⟩) fuel p page s {}
    trivial).1

theorem href_eq_address (p : Place) (page : Option Place) (s : Session) :
    ((site.href p page).run.run s).1 = site.address p page :=
  site.hrefFrom_eq_addressFrom _ p page s

theorem target_answers (p : Place) :
    Work.answering.Agree (site.target p) (.ok (site.graph.target p).1) := by
  intro s
  rw [target]
  rcases site.graph.target p with ⟨q, _ | _⟩ <;> rfl

theorem addressFrom_succ (fuel : Nat) (p : Place) (page : Option Place) :
    site.addressFrom (fuel + 1) p page =
      site.addressAt (fun owner => site.addressFrom fuel owner none) (site.graph.target p).1 page := by
  let L := Work.answering
  have hanchor : ∀ (n : Node) {w : Work String} {x : Except Fault String}, L.Agree w x →
      L.Agree (do let base ← w; pure (base ++ anchor n)) (do let base ← x; pure (base ++ anchor n)) :=
    fun n w x h => L.bind h fun base => L.pure _
  have howner : ∀ owner, L.Agree (site.hrefFrom fuel owner none) (site.addressFrom fuel owner none) :=
    fun owner => site.hrefFrom_eq_addressFrom fuel owner none
  refine L.bind (site.target_answers p) (fun q => ?_) {}
    (g := fun q => site.addressAt (fun owner => site.addressFrom fuel owner none) q page)
  unfold addressAt
  dsimp only
  split
  · cases site.plan.pageOf site.graph q with
    | ok name => exact L.pure _
    | error e => exact L.throw _
  cases (site.graph.node q).parent with
  | none => exact hanchor _ (L.pure _)
  | some owner =>
    cases page with
    | none => exact hanchor _ (howner owner)
    | some page =>
      dsimp only
      split
      · exact hanchor _ (howner owner)
      · exact hanchor _ (L.pure _)

/-- Only the address of the owner matters, and only for a node without a page. -/
theorem addressAt_congr {f f' : Place → Except Fault String} {q : Place} (page : Option Place)
    (h : ∀ owner, site.graph.Rises q (site.graph.target owner).1 →
      (site.graph.node q).parent = some owner → f owner = f' owner) :
    site.addressAt f q page = site.addressAt f' q page := by
  unfold addressAt
  dsimp only
  split
  · rfl
  rename_i hown
  cases hparent : (site.graph.node q).parent with
  | none => rfl
  | some owner =>
    dsimp only
    rw [h owner ⟨by simpa using hown, owner, hparent, rfl⟩ hparent]

/-- Where the climb ends, one more step changes nothing. The nodes passed all lead to where the climb is
now, so that none of them is met again. -/
theorem addressFrom_enough (fuel : Nat) : ∀ (p : Place) (page : Option Place) (passed : List Place),
    site.graph.Resolves p → passed.Nodup → (∀ a ∈ passed, a < site.graph.size) →
    (∀ a ∈ passed, TransGen site.graph.Rises a (site.graph.target p).1) →
    site.graph.size < fuel + passed.length →
    site.addressFrom fuel p page = site.addressFrom (fuel + 1) p page := by
  induction fuel with
  | zero =>
    intro p page passed _ hnodup hinside _ hroom
    have hlen := Graph.length_le_size hnodup hinside
    omega
  | succ fuel ih =>
    intro p page passed hends hnodup hinside hleads hroom
    rw [addressFrom_succ, addressFrom_succ]
    refine site.addressAt_congr page fun owner hrises hparent => ?_
    refine ih owner none ((site.graph.target p).1 :: passed) (hends.inv hrises) ?_ (fun a ha => ?_)
      (fun a ha => ?_) ?_
    · exact List.nodup_cons.mpr ⟨fun hmem => not_circular_of_acc hends (hleads _ hmem), hnodup⟩
    · rcases List.mem_cons.mp ha with rfl | ha
      · exact hrises.2.lt_size
      · exact hinside a ha
    · rcases List.mem_cons.mp ha with rfl | ha
      · exact .single hrises
      · exact (hleads a ha).tail hrises
    · rw [List.length_cons]
      omega

/-- **Addresses satisfy their equation** wherever the climb ends, with no bound on it. -/
theorem address_eq {p : Place} (hp : site.graph.Resolves p) (page : Option Place) :
    site.address p page = site.addressAt site.address (site.graph.target p).1 page := by
  change site.addressFrom (site.graph.size + 1) p page = _
  rw [site.addressFrom_enough _ p page [] hp List.nodup_nil (by simp) (by simp) (by simp),
    addressFrom_succ]
  rfl

/-- A label as a link to an address. -/
def linkMarkup (address label : String) : String :=
  let word := if site.options.spa && address.toList.head? != some '#' then "doc-a" else "a"
  "<" ++ word ++ " href=\"" ++ Markup.escape address ++ "\">" ++ label ++ ("</" ++ word ++ ">")

/-- A link is made of the address of what it leads to, and is the label alone if that has no id. -/
theorem plainLink_eq (p : Place) : site.plainLink p =
    if (site.graph.node (site.linkTarget p)).id = none then .ok (displayName (site.graph.node p))
    else do
      let a ← site.address (site.linkTarget p)
      return site.linkMarkup a (displayName (site.graph.node p)) := by
  let L := Work.answering
  rw [plainLink, link]
  by_cases hid : (site.graph.node (site.linkTarget p)).id = none
  · rw [if_pos (by simp [hid]), if_pos hid]
    rfl
  · rw [if_neg (by simp [hid]), if_neg hid]
    refine L.bind (site.href_eq_address (site.linkTarget p) none) (fun a => ?_) {}
    rw [linkMarkup]
    split
    · exact L.pure _
    · exact L.pure _

theorem plainLink_of_address {p : Place} {a : String} (h : site.address (site.linkTarget p) = .ok a) :
    ∃ m, site.plainLink p = .ok m := by
  rw [plainLink_eq, h]
  split
  · exact ⟨_, rfl⟩
  · exact ⟨_, rfl⟩

/-- Where the climb ends an address is found, unless the page it leads to would be named for a source
that is missing. -/
theorem address_found {p : Place} (hp : site.graph.Resolves p) : (∃ a, site.address p = .ok a) ∨
    ∃ q, (site.graph.node q).hasOwnPage = true ∧ (site.graph.node q).LacksSource ∧
      site.address p = .error (.missingSource (site.graph.node q).name) := by
  suffices h : ∀ x, Acc (fun y x => site.graph.Rises x y) x → ∀ p, (site.graph.target p).1 = x →
      (∃ a, site.address p = .ok a) ∨
        ∃ q, (site.graph.node q).hasOwnPage = true ∧ (site.graph.node q).LacksSource ∧
          site.address p = .error (.missingSource (site.graph.node q).name) from h _ hp p rfl
  intro x hx
  induction hx with
  | intro x hx ih =>
    rintro p rfl
    rw [site.address_eq ⟨_, hx⟩, addressAt]
    dsimp only
    cases hown : (site.graph.node (site.graph.target p).1).hasOwnPage with
    | true =>
      rw [if_pos rfl, PagePlan.pageOf]
      cases site.plan.name? (site.graph.target p).1 with
      | some name => exact .inl ⟨name, rfl⟩
      | none =>
        rcases (site.graph.node (site.graph.target p).1).pageName_spec site.plan.hasReadme with
          ⟨hlacks, herror⟩ | ⟨-, hname⟩
        · exact .inr ⟨_, hown, hlacks, herror⟩
        · exact .inl hname
    | false =>
      rw [if_neg Bool.false_ne_true]
      cases hparent : (site.graph.node (site.graph.target p).1).parent with
      | none => exact .inl ⟨_, rfl⟩
      | some owner =>
        rcases ih _ ⟨hown, owner, hparent, rfl⟩ owner rfl with ⟨a, ha⟩ | ⟨q, hq, hlacks, herror⟩
        · exact .inl ⟨_, by simp only [ha]; rfl⟩
        · exact .inr ⟨q, hq, hlacks, by simp only [herror]; rfl⟩

/-- **The bound is never felt**: the program stops at it exactly when the climb has no end. -/
theorem resolves_iff (p : Place) :
    site.graph.Resolves p ↔ site.address p ≠ .error .unbounded := by
  constructor
  · intro hp h
    rcases site.address_found hp with ⟨a, ha⟩ | ⟨q, -, -, herror⟩
    · rw [ha] at h
      cases h
    · rw [herror] at h
      cases h
  · suffices h : ∀ fuel p, site.addressFrom fuel p none ≠ .error .unbounded → site.graph.Resolves p from
      h _ p
    intro fuel
    induction fuel with
    | zero => exact fun p h => absurd rfl h
    | succ fuel ih =>
      intro p h
      rw [addressFrom_succ, addressAt] at h
      cases hown : (site.graph.node (site.graph.target p).1).hasOwnPage with
      | true => exact Graph.resolves_of_page hown
      | false =>
        cases hparent : (site.graph.node (site.graph.target p).1).parent with
        | none => exact Graph.resolves_of_top hparent
        | some owner =>
          refine Graph.resolves_of_owner hparent (ih owner fun herror => h ?_)
          simp only [hown, hparent, herror, Bool.false_eq_true, if_false]
          rfl

/-! ## Pages and members -/

variable {site} {p owner : Place}

theorem address_of_page (h : (site.graph.node (site.graph.target p).1).hasOwnPage = true)
    (page : Option Place) :
    site.address p page = site.plan.pageOf site.graph (site.graph.target p).1 := by
  rw [site.address_eq (Graph.resolves_of_page h), addressAt, if_pos h]

section

variable (hown : (site.graph.node (site.graph.target p).1).hasOwnPage = false)
  (hparent : (site.graph.node (site.graph.target p).1).parent = some owner)

include hown hparent

/-- A node without a page is at an anchor of where its owner is. -/
theorem address_of_member (howner : site.graph.Resolves owner) : site.address p =
    (site.address owner).map (· ++ anchor (site.graph.node (site.graph.target p).1)) := by
  rw [site.address_eq (Graph.resolves_of_owner hparent howner), addressAt]
  simp only [hown, hparent, Bool.false_eq_true, if_false]
  cases site.address owner <;> rfl

/-- Seen from a page only the name of the owner matters, wherever the climb from it leads. -/
theorem address_from_page (page : Place) : site.address p (some page) =
    if (site.graph.node owner).name = (site.graph.node page).name then
      .ok (anchor (site.graph.node (site.graph.target p).1))
    else site.address p := by
  change site.addressFrom (site.graph.size + 1) p (some page) =
    if _ then _ else site.addressFrom (site.graph.size + 1) p none
  rw [addressFrom_succ, addressFrom_succ, addressAt, addressAt]
  simp only [hown, hparent, Bool.false_eq_true, if_false]
  by_cases hname : (site.graph.node owner).name = (site.graph.node page).name
  · simp only [hname, bne_self_eq_false, Bool.false_eq_true, if_false, if_true, pure_bind,
      String.empty_append]
    rfl
  · simp only [hname, bne_iff_ne, ne_eq, not_false_eq_true, if_true, if_false]

end

end Site

/-! ## Where a member is found -/

namespace Graph

variable {g : Graph}

/-- The node has no page and stands for nothing else. -/
structure Inner (g : Graph) (p : Place) : Prop where
  page : (g.node p).hasOwnPage = false
  plain : (g.node p).kind.isWrapper = false

/-- The nearest owner of `p` with a page is `a`, and the nodes `between` stand in between, the outermost
one first. -/
inductive Within (g : Graph) (a : Place) : List Place → Place → Prop
  /-- The owner has the page. -/
  | direct {p : Place} (ha : (g.node a).hasOwnPage = true) (hp : g.Owns a p) (hinner : g.Inner p) :
      Within g a [] p
  /-- The owner stands on the page itself. -/
  | deeper {between : List Place} {o p : Place} (ho : Within g a between o) (hp : g.Owns o p)
      (hinner : g.Inner p) : Within g a (between ++ [o]) p

/-- The anchors of nodes in turn. -/
def anchors (g : Graph) (ps : List Place) : String :=
  String.join (ps.map fun q => anchor (g.node q))

theorem anchors_eq_empty_iff {ps : List Place} : g.anchors ps = "" ↔ ∀ q ∈ ps, (g.node q).id = none := by
  have hanchor : ∀ n : Node, anchor n = "" ↔ n.id = none := by
    intro n
    rw [anchor]
    cases n.id <;> simp
  induction ps with
  | nil => simp [anchors]
  | cons q rest ih =>
    have hcons : g.anchors (q :: rest) = anchor (g.node q) ++ g.anchors rest := by simp [anchors]
    rw [hcons, String.append_eq_empty_iff, List.forall_mem_cons]
    exact and_congr (hanchor _) ih

/-- The owners of a node on the page of an owner are found below a root, like it. -/
theorem Within.reached {m a p : Place} {between : List Place} (h : g.Within a between p)
    (hma : ReflTransGen g.Owns m a) : ReflTransGen g.Owns m p := by
  induction h with
  | direct _ hp _ => exact hma.tail hp
  | deeper _ hp _ ih => exact ih.tail hp

/-- One node owns the other, which stands for itself. -/
def OwnsPlain (g : Graph) (o c : Place) : Prop :=
  g.Owns o c ∧ (g.node c).kind.isWrapper = false

/-- **Every member is on some page.** Whatever is reached from a module, or from another owner of a page,
without passing a wrapper, has a nearest owner with a page unless it has one itself. -/
theorem exists_within {m p : Place} (hm : (g.node m).hasOwnPage = true)
    (hmp : ReflTransGen g.OwnsPlain m p) (hp : (g.node p).hasOwnPage = false) :
    ∃ a between, ReflTransGen g.Owns m a ∧ g.Within a between p := by
  induction hmp with
  | refl =>
    rw [hm] at hp
    cases hp
  | @tail o p hmo hop ih =>
    have hinner : g.Inner p := ⟨hp, hop.2⟩
    cases ho : (g.node o).hasOwnPage with
    | true => exact ⟨o, [], ReflTransGen.mono (fun _ _ h => h.1) _ _ hmo, .direct ho hop.1 hinner⟩
    | false =>
      obtain ⟨a, between, hma, hwithin⟩ := ih ho
      exact ⟨a, between ++ [o], hma, .deeper hwithin hop.1 hinner⟩

end Graph

namespace Site

variable {site : Site}

theorem address_of_inner {p owner : Place} (hp : site.graph.Inner p)
    (hparent : (site.graph.node p).parent = some owner) (howner : site.graph.Resolves owner) :
    site.graph.Resolves p ∧ site.address p = (site.address owner).map (· ++ anchor (site.graph.node p)) := by
  have hself : (site.graph.target p).1 = p := congrArg Prod.fst (Graph.target_of_plain hp.plain)
  have hown := hp.page
  rw [← hself] at hparent hown
  have haddress := address_of_member hown hparent howner
  rw [hself] at haddress
  exact ⟨Graph.resolves_of_owner hparent howner, haddress⟩

/-- The climb from a member reaches the page, and each node on its way adds an anchor. -/
theorem address_of_within {roots : List Place} (hr : site.graph.Forest roots) {m a : Place}
    (hm : m ∈ roots) (hma : ReflTransGen site.graph.Owns m a) {between : List Place} {p : Place}
    (h : site.graph.Within a between p) :
    site.graph.Resolves p ∧ site.address p = (site.plan.pageOf site.graph a).map fun name =>
      name ++ site.graph.anchors between ++ anchor (site.graph.node p) := by
  induction h with
  | direct ha hp hinner =>
    have hself : (site.graph.target a).1 = a := congrArg Prod.fst (Graph.target_of_hasOwnPage ha)
    rw [← hself] at ha
    have haddress := address_of_inner hinner (hr.parent_of_owns hm hma hp) (Graph.resolves_of_page ha)
    rw [address_of_page ha, hself] at haddress
    simpa [Graph.anchors] using haddress
  | deeper ho hp hinner ih =>
    obtain ⟨hresolves, howner⟩ := ih
    obtain ⟨hp, haddress⟩ :=
      address_of_inner hinner (hr.parent_of_owns hm (ho.reached hma) hp) hresolves
    refine ⟨hp, ?_⟩
    rw [haddress, howner]
    cases site.plan.pageOf site.graph a with
    | error e => rfl
    | ok name => simp [Except.map, Graph.anchors, String.append_assoc]

/-- **The address of a member** in a loaded graph: the file of the nearest owner with a page, then the
anchors of all nodes in between, then the anchor of the member. The file and its own anchor are the whole
address exactly when no node in between has an id. There is such an owner by `Graph.exists_within`. -/
theorem member_address_iff {site : Site} {doc : Value} (hload : Graph.ofValue doc = .ok site.graph)
    {m a p : Place} (hm : m ∈ site.graph.modules) (hma : ReflTransGen site.graph.Owns m a)
    {between : List Place} (hp : site.graph.Within a between p) {id : Int}
    (hid : (site.graph.node p).id = some (.int id)) (s : Session) :
    ((site.href p).run.run s).1 = (site.plan.pageOf site.graph a).map (fun name =>
        name ++ site.graph.anchors between ++ ("#s" ++ Text.intText id)) ∧
    ∀ name, site.plan.pageOf site.graph a = .ok name →
      (((site.href p).run.run s).1 = .ok (name ++ ("#s" ++ Text.intText id)) ↔
        ∀ q ∈ between, (site.graph.node q).id = none) := by
  have hanchor : anchor (site.graph.node p) = "#s" ++ Text.intText id := by
    rw [anchor, hid]
    rfl
  have haddress := (address_of_within (Graph.forest_of_load hload) hm hma hp).2
  rw [href_eq_address, haddress, hanchor]
  refine ⟨rfl, fun name hname => ?_⟩
  rw [hname, ← Graph.anchors_eq_empty_iff]
  simp [Except.map]

end Site

/-- A module in which a constant is taken apart into one element. -/
def unpackedDocument : Value :=
  .record [("modules", .list [.record [("kind", .int 1), ("id", .int 1), ("name", .text "a.ts"),
    ("children", .list [.record [("kind", .int 15), ("id", .int 2), ("flags", .int 1),
      ("children", .list [.record [("kind", .int 15), ("id", .int 3), ("name", .text "x"),
        ("flags", .int 1)]])]])]])]

/-- The site of the document. -/
def unpackedSite : Site where
  graph :=
    { nodes := #[
        { Node.bare .moduleFile with id := some (.int 1), name := "a.ts", children := some [1] },
        { Node.bare .variable with
          id := some (.int 2), flags := ⟨1⟩, children := some [2], parent := some 0 },
        { Node.bare .variable with id := some (.int 3), name := "x", flags := ⟨1⟩, parent := some 1 }]
      modules := [0]
      index := [(.int 1, 0), (.int 2, 1), (.int 3, 2)] }
  plan := ⟨[(0, "a.html")], [0], false⟩
  options := {}

namespace Site

/-- The element stands on the page of the module, but its address has the anchor of the constant too. -/
theorem member_address_unpacked : Graph.ofValue unpackedDocument = .ok unpackedSite.graph ∧
    (planPages unpackedSite.graph {}).1 = .ok unpackedSite.plan ∧
    unpackedSite.graph.Within 0 [1] 2 ∧
    ((unpackedSite.href 2).run.run {}).1 = .ok "a.html#s2#s3" ∧
    ((unpackedSite.href 2).run.run {}).1 ≠ .ok "a.html#s3" := by
  have hload : Graph.ofValue unpackedDocument = .ok unpackedSite.graph := by cbv
  have horder : planningOrder unpackedSite.graph {} = [(0, true), (1, true), (2, true)] := by cbv
  have hplan : (planPages unpackedSite.graph {}).1 = .ok unpackedSite.plan := by
    rw [planPages, horder]
    rfl
  have hwithin : unpackedSite.graph.Within 0 [1] 2 :=
    .deeper (.direct rfl List.mem_cons_self ⟨rfl, rfl⟩) List.mem_cons_self ⟨rfl, rfl⟩
  have hid : (unpackedSite.graph.node 2).id = some (.int 3) := rfl
  obtain ⟨haddress, hone⟩ := member_address_iff hload List.mem_cons_self .refl hwithin hid {}
  refine ⟨hload, hplan, hwithin, haddress, fun h => ?_⟩
  have hnone := (hone "a.html" rfl).mp h 1 List.mem_cons_self
  cases hnone

end Site

/-! ## Addresses on a page -/

namespace Site

/-- The short address of a node on a page, behind the address of the page, is its full address. -/
def SamePlace (site : Site) (p page : Place) : Prop :=
  ∃ base short, site.address page = .ok base ∧ site.address p (some page) = .ok short ∧
    site.address p = .ok (base ++ short)

/-- What is at an anchor of a page is at the same place seen from a page exactly when its address is cut
there and both are one page. -/
theorem samePlace_iff {site : Site} (hplan : (planPages site.graph site.options).1 = .ok site.plan)
    {owner p page : Place} (hinner : (site.graph.node (site.graph.target p).1).hasOwnPage = false)
    (hparent : (site.graph.node (site.graph.target p).1).parent = some owner)
    (hhome : (site.graph.node (site.graph.target owner).1).hasOwnPage = true)
    (hpage : (site.graph.node page).hasOwnPage = true) :
    site.SamePlace p page ↔ (site.graph.node owner).name = (site.graph.node page).name ∧
      ∃ name, site.plan.pageOf site.graph page = .ok name ∧
        site.plan.pageOf site.graph (site.graph.target owner).1 = .ok name := by
  have hshort := address_from_page hinner hparent page
  have hfull := address_of_member hinner hparent (Graph.resolves_of_page hhome)
  rw [address_of_page hhome] at hfull
  have hself : (site.graph.target page).1 = page := congrArg Prod.fst (Graph.target_of_hasOwnPage hpage)
  have hbase : site.address page = site.plan.pageOf site.graph page := by
    rw [address_of_page (hself.symm ▸ hpage), hself]
  constructor
  · rintro ⟨base, short, hpage, hp, hjoined⟩
    rw [hbase] at hpage
    rw [hshort] at hp
    split at hp
    · rename_i hname
      cases hp
      refine ⟨hname, base, hpage, ?_⟩
      rw [hfull] at hjoined
      cases hhome : site.plan.pageOf site.graph (site.graph.target owner).1 with
      | error e =>
        rw [hhome] at hjoined
        cases hjoined
      | ok name =>
        rw [hhome] at hjoined
        have heq := Except.ok.inj hjoined
        rw [(String.append_left_inj _).mp heq]
    · -- nothing is cut, so the page would have no name
      rw [hjoined] at hp
      have hempty : base = "" := by simpa using Except.ok.inj hp
      have hpagename := PagePlan.isPageName_of_pageOf (planPages_namesPages hplan) hpage
      exact absurd hpagename (not_isPageName (by simp [hempty]))
  · rintro ⟨hname, name, hpage, hhome⟩
    refine ⟨name, _, hbase.trans hpage, hshort.trans (if_pos hname), ?_⟩
    rw [hfull, hhome]
    rfl

/-- Planned pages are one page only if they belong to one node. -/
theorem samePage_iff {g : Graph} {plan : PagePlan} {o : Options} (hcorrect : plan.Correct g o)
    {a b : Place} (ha : g.PageUnder g.modules a) (hb : g.PageUnder g.modules b) :
    (∃ name, plan.pageOf g a = .ok name ∧ plan.pageOf g b = .ok name) ↔ b = a := by
  obtain ⟨name, hname⟩ := (hcorrect.named a).mpr ha
  obtain ⟨name', hname'⟩ := (hcorrect.named b).mpr hb
  simp only [PagePlan.pageOf, hname, hname', Except.ok.injEq, exists_eq_left']
  constructor
  · rintro rfl
    exact hcorrect.distinct _ _ name' hname' hname
  · intro heq
    rw [heq, hname] at hname'
    exact (Option.some.inj hname').symm

/-- **Short addresses.** In a loaded graph with a plan of its pages, let a node stand for one without a
page. Seen from a page its address is cut to the anchor exactly when the owner has the name of the page's
node, and is the full one otherwise. If the owner owns a page or stands for a node that does, the address
means the same place as the full one exactly when it is cut and that page is the page of the owner; if
both pages are planned, they must belong to one node. -/
theorem short_address_iff {site : Site} {doc : Value} (hload : Graph.ofValue doc = .ok site.graph)
    (hplan : (planPages site.graph site.options).1 = .ok site.plan) {m owner p page : Place}
    (hm : m ∈ site.graph.modules) (howner : ReflTransGen site.graph.Owns m owner)
    (howns : site.graph.Owns owner (site.graph.target p).1)
    (hinner : (site.graph.node (site.graph.target p).1).hasOwnPage = false)
    (hpage : (site.graph.node page).hasOwnPage = true) :
    (∀ s, ((site.href p (some page)).run.run s).1 =
      if (site.graph.node owner).name = (site.graph.node page).name then
        .ok (anchor (site.graph.node (site.graph.target p).1))
      else ((site.href p).run.run s).1) ∧
    ((site.graph.node (site.graph.target owner).1).hasOwnPage = true →
      (site.SamePlace p page ↔ (site.graph.node owner).name = (site.graph.node page).name ∧
        ∃ name, site.plan.pageOf site.graph page = .ok name ∧
          site.plan.pageOf site.graph (site.graph.target owner).1 = .ok name) ∧
      (site.graph.PageUnder site.graph.modules page →
        site.graph.PageUnder site.graph.modules (site.graph.target owner).1 →
        (site.SamePlace p page ↔ (site.graph.node owner).name = (site.graph.node page).name ∧
          (site.graph.target owner).1 = page))) := by
  have hparent := (Graph.forest_of_load hload).parent_of_owns hm howner howns
  refine ⟨fun s => ?_, fun hhome => ?_⟩
  · rw [href_eq_address, href_eq_address, address_from_page hinner hparent page]
  have hsame := samePlace_iff hplan hinner hparent hhome hpage
  refine ⟨hsame, fun hplanned hplanned' => ?_⟩
  rw [hsame, samePage_iff (planPages_correct hload hplan) hplanned hplanned']

end Site

/-- Two modules with a group of the same name. The group in the second one hands on the function of the
first one. -/
def namesakesDocument : Value :=
  .record [("modules", .list [
    .record [("kind", .int 1), ("id", .int 1), ("name", .text "a.ts"), ("children", .list [
      .record [("kind", .int 2), ("id", .int 2), ("name", .text "Utils"), ("flags", .int 1),
        ("children", .list [
          .record [("kind", .int 8), ("id", .int 3), ("name", .text "f"), ("flags", .int 1)]])]])],
    .record [("kind", .int 1), ("id", .int 4), ("name", .text "b.ts"), ("children", .list [
      .record [("kind", .int 2), ("id", .int 5), ("name", .text "Utils"), ("flags", .int 1),
        ("children", .list [
          .record [("kind", .int 42), ("id", .int 6), ("name", .text "f"), ("flags", .int 1),
            ("type", .int 3)]])]])]])]

/-- The site of the document. -/
def namesakesSite : Site where
  graph :=
    { nodes := #[
        { Node.bare .moduleFile with id := some (.int 1), name := "a.ts", children := some [1] },
        { Node.bare .namespaceDecl with
          id := some (.int 2), name := "Utils", flags := ⟨1⟩, children := some [2], parent := some 0 },
        { Node.bare .function with id := some (.int 3), name := "f", flags := ⟨1⟩, parent := some 1 },
        { Node.bare .moduleFile with id := some (.int 4), name := "b.ts", children := some [4] },
        { Node.bare .namespaceDecl with
          id := some (.int 5), name := "Utils", flags := ⟨1⟩, children := some [5], parent := some 3 },
        { Node.bare .reExport with
          id := some (.int 6), name := "f", flags := ⟨1⟩, type := some 2, parent := some 4 }]
      modules := [0, 3]
      index := [(.int 1, 0), (.int 2, 1), (.int 3, 2), (.int 4, 3), (.int 5, 4), (.int 6, 5)] }
  plan := ⟨[(0, "a.html"), (1, "ns--Utils.html"), (3, "b.html"), (4, "ns--Utils-s5.html")],
    [0, 1, 3, 4], false⟩
  options := {}

theorem namesakesDocument_loads : Graph.ofValue namesakesDocument = .ok namesakesSite.graph := by
  cbv

theorem namesakesSite_planned : (planPages namesakesSite.graph {}).1 = .ok namesakesSite.plan := by
  have horder : planningOrder namesakesSite.graph {} =
      [(0, true), (1, true), (2, true), (3, true), (4, true), (5, true)] := by
    cbv
  rw [planPages, horder]
  rfl

theorem namesakesSite_intIds : namesakesSite.graph.IntIds := by
  intro p id h
  match p with
  | 0 | 1 | 2 | 3 | 4 | 5 =>
    cases h
    exact ⟨_, rfl⟩
  | p + 6 =>
    rw [Graph.node_of_size_le (by simp [namesakesSite, Graph.size])] at h
    cases h

namespace Site

/-- On the page of the group that holds the function, its short address is right. -/
theorem short_address_home : Graph.ofValue namesakesDocument = .ok namesakesSite.graph ∧
    (planPages namesakesSite.graph {}).1 = .ok namesakesSite.plan ∧
    (namesakesSite.graph.target 5).1 = 2 ∧ namesakesSite.SamePlace 5 1 := by
  have htarget : namesakesSite.graph.target 5 = (2, false) := by cbv
  have hhome : namesakesSite.graph.target 1 = (1, false) := by cbv
  refine ⟨namesakesDocument_loads, namesakesSite_planned, congrArg Prod.fst htarget, ?_⟩
  have howner : ReflTransGen namesakesSite.graph.Owns 0 1 := .single List.mem_cons_self
  have hpage : (namesakesSite.graph.node 1).hasOwnPage = true := rfl
  obtain ⟨-, hmeans⟩ := short_address_iff namesakesDocument_loads namesakesSite_planned
    (p := 5) List.mem_cons_self howner (by rw [htarget]; exact List.mem_cons_self)
    (by rw [htarget]; rfl) hpage
  obtain ⟨hsame, -⟩ := hmeans (by rw [hhome]; rfl)
  exact hsame.mpr ⟨rfl, "ns--Utils.html", rfl, by rw [hhome]; rfl⟩

/-- On the page of the other group the short address of what it hands on names an anchor that is on
another page: both groups have one name. -/
theorem short_address_elsewhere : Graph.ofValue namesakesDocument = .ok namesakesSite.graph ∧
    namesakesSite.graph.IntIds ∧
    (planPages namesakesSite.graph {}).1 = .ok namesakesSite.plan ∧
    namesakesSite.graph.PageUnder namesakesSite.graph.modules 4 ∧
    (namesakesSite.graph.target 5).1 = 2 ∧ namesakesSite.graph.Owns 1 2 ∧
    (namesakesSite.graph.node 2).hasOwnPage = false ∧
    ((namesakesSite.href 5 (some 4)).run.run {}).1 = .ok "#s3" ∧
    ((namesakesSite.href 4).run.run {}).1 = .ok "ns--Utils-s5.html" ∧
    ((namesakesSite.href 5).run.run {}).1 = .ok "ns--Utils.html#s3" ∧
    ((namesakesSite.href 5).run.run {}).1 ≠ .ok ("ns--Utils-s5.html" ++ "#s3") := by
  have hfull : ((namesakesSite.href 5).run.run {}).1 = .ok "ns--Utils.html#s3" := by cbv
  refine ⟨namesakesDocument_loads, namesakesSite_intIds, namesakesSite_planned, ?_, by cbv,
    List.mem_cons_self, rfl, by cbv, by cbv, hfull, by rw [hfull]; simp⟩
  exact ⟨rfl, 3, by decide, .single List.mem_cons_self⟩

end Site

end SymbolDocs
