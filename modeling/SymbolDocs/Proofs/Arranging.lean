import SymbolDocs.Proofs.Grouping
import SymbolDocs.Proofs.Navigating

/-!
# Members in groups

The groups of a node are made in one pass over its shown members: a member opens the group of its kind
if there is none, gets an entry if its name is new in the group, and a card if it is shown on one. Here
the pass is taken apart. First every member gets a row with what is printed for it; then the rows are
arranged in groups, and that is a matter of filtering.

* `Graph.StablyOrdered` says what it means to be listed by name, static members first;
* `MemberPrinter.rows` prints the rows, `Graph.arrange` puts them into groups;
* `MemberPrinter.Arranged` says which rows the groups hold;
* `MemberPrinter.groups_exact` is the result: groups lose and duplicate nothing, they stand in the order
  of their titles, and the order in which members were declared makes no difference.
-/

namespace SymbolDocs

/-! ## The order of members -/

/-- What members are listed by: static ones come first, then names decide. -/
def Node.listKey (n : Node) : ℕ ×ₗ String :=
  toLex (if n.has .staticMember then 0 else 1, n.name)

theorem Node.precedes_iff (a b : Node) : a.precedes b = true ↔ a.listKey ≤ b.listKey := by
  rw [precedes, listKey, listKey, Prod.Lex.toLex_le_toLex]
  cases ha : a.has .staticMember <;> cases hb : b.has .staticMember <;> simp

namespace Graph

/-- The second list has the nodes of the first one in the order of their keys, and nodes with the same
key as they were. -/
structure StablyOrdered (g : Graph) (ps qs : List Place) : Prop where
  perm : qs.Perm ps
  sorted : qs.Pairwise fun a b => (g.node a).listKey ≤ (g.node b).listKey
  stable : ∀ k, (qs.filter fun p => (g.node p).listKey = k) = ps.filter fun p => (g.node p).listKey = k

theorem stablyOrdered_sortMembers (g : Graph) (ps : List Place) :
    g.StablyOrdered ps (g.sortMembers ps) := by
  have hperm : (g.sortMembers ps).Perm ps := List.mergeSort_perm _ _
  refine ⟨hperm, ?_, fun k => ?_⟩
  · exact (g.pairwise_sortMembers ps).imp fun {a b} h => (Node.precedes_iff _ _).mp h
  · -- nodes of one key are in order already, so they stay together as they are
    have hpairwise : (ps.filter fun p => (g.node p).listKey = k).Pairwise
        fun a b => (g.node a).precedes (g.node b) = true := by
      refine List.pairwise_of_forall_mem_list fun a ha b hb => (Node.precedes_iff _ _).mpr ?_
      rw [List.mem_filter, decide_eq_true_eq] at ha hb
      rw [ha.2, hb.2]
    have hsub : (ps.filter fun p => (g.node p).listKey = k).Sublist (g.sortMembers ps) :=
      List.sublist_mergeSort
        (fun a b c => Node.precedes_trans (g.node a) (g.node b) (g.node c))
        (fun a b => Node.precedes_total (g.node a) (g.node b)) hpairwise List.filter_sublist
    have hfilter := hsub.filter fun p => decide ((g.node p).listKey = k)
    rw [List.filter_filter] at hfilter
    simp only [Bool.and_self] at hfilter
    exact (hfilter.eq_of_length (hperm.filter _).length_eq.symm).symm

/-- Where keys differ the order does not depend on how the nodes were given. -/
theorem sortMembers_eq_of_perm {g : Graph} {ps qs : List Place} (hperm : qs.Perm ps)
    (hkeys : (ps.map fun p => (g.node p).listKey).Nodup) : g.sortMembers qs = g.sortMembers ps := by
  have hqs := g.stablyOrdered_sortMembers qs
  have hps := g.stablyOrdered_sortMembers ps
  refine List.Perm.eq_of_pairwise (fun a b ha hb hab hba => ?_) hqs.sorted hps.sorted
    (hqs.perm.trans (hperm.trans hps.perm.symm))
  have ha' : a ∈ ps := hperm.mem_iff.mp (hqs.perm.mem_iff.mp ha)
  exact List.inj_on_of_nodup_map hkeys ha' (hps.perm.mem_iff.mp hb) (le_antisymm hab hba)

end Graph

/-! ## Rows -/

/-- What is printed for a member: an entry, a card, both or nothing. -/
structure Row where
  /-- The owner under which the member is listed. -/
  owner : Place
  /-- The member. -/
  member : Place
  /-- Its entry in the index. -/
  entry : Option String
  /-- Its card. -/
  card : Option String

namespace Graph

variable (g : Graph)

/-- The kind under which a node is grouped. -/
def groupKind (p : Place) : Kind :=
  (g.node p).kind.grouped

/-- The rows of the members that are grouped under a kind. -/
def rowsOf (k : Kind) (rows : List Row) : List Row :=
  rows.filter fun r => g.groupKind r.member == k

/-- Has a member of the same kind and name a row already? -/
def isListed (rows : List Row) (p : Place) : Bool :=
  (g.rowsOf (g.groupKind p) rows).any fun r => (g.node r.member).name == (g.node p).name

/-- The first row of each name. -/
def firstRows (rows : List Row) : List Row :=
  rows.eraseDupsBy fun a b => (g.node a.member).name == (g.node b.member).name

/-- The group of a kind. -/
def groupOf (rows : List Row) (k : Kind) : Group where
  kind := k
  index := (g.rowsOf k rows).filterMap Row.entry
  body := (g.rowsOf k rows).filterMap Row.card
  names := ((g.rowsOf k rows).map fun r => (g.node r.member).name).eraseDups

/-- Rows in groups, one for each kind in the order in which the kinds occur. -/
def arrange (rows : List Row) : List Group :=
  (rows.map fun r => g.groupKind r.member).eraseDups.map (g.groupOf rows)

/-- The groups of the rows, by title where they are sorted. -/
def arrangement (sorted : Bool) (rows : List Row) : List Group :=
  if sorted then Group.sortByTitle (g.arrange rows) else g.arrange rows

end Graph

namespace MemberPrinter

/-- The entry of a member whose name is new after the rows that are there. -/
def newEntry (mp : MemberPrinter) (g : Graph) (indexOnly : Bool) (rows : List Row) (owner p : Place) :
    Work (Option String) :=
  if g.isListed rows p then pure none
  else some <$> mp.entry p (if indexOnly then none else some owner)

/-- The card of a member that is shown on one. -/
def ownCard (mp : MemberPrinter) (g : Graph) (indexOnly : Bool) (p : Place) : Work (Option String) :=
  if !indexOnly && (g.node p).onCard then some <$> mp.card p else pure none

/-- Prints a member whose turn it is after the rows that are there. -/
def row (mp : MemberPrinter) (g : Graph) (indexOnly : Bool) (rows : List Row) (owner p : Place) :
    Work Row := do
  let entry ← mp.newEntry g indexOnly rows owner p
  let card ← mp.ownCard g indexOnly p
  return { owner, member := p, entry, card }

/-- Prints members in turn. -/
def rows (mp : MemberPrinter) (g : Graph) (indexOnly : Bool) :
    List Row → List (Place × Place) → Work (List Row)
  | done, [] => pure done
  | done, (owner, p) :: rest => do
    let row ← mp.row g indexOnly done owner p
    rows mp g indexOnly (done ++ [row]) rest

end MemberPrinter

/-! ## Firsts -/

section Firsts

variable {α β : Type} [BEq β] [LawfulBEq β] {f : α → β}

/-- The first of each value, when one more comes. -/
theorem eraseDupsBy_concat (xs : List α) (a : α) :
    (xs ++ [a]).eraseDupsBy (fun x y => f x == f y) =
      xs.eraseDupsBy (fun x y => f x == f y) ++ if xs.any (fun x => f x == f a) then [] else [a] := by
  induction hlength : xs.length using Nat.strong_induction_on generalizing xs with
  | h n ih =>
    cases xs with
    | nil => simp [List.eraseDupsBy_cons]
    | cons x rest =>
      have hshort := List.length_filter_le (fun y => decide ((f y == f x) = false)) rest
      have hrest := ih _ (by rw [List.length_cons] at hlength; omega)
        (rest.filter fun y => decide ((f y == f x) = false)) rfl
      rw [List.cons_append, List.eraseDupsBy_cons, List.eraseDupsBy_cons, List.filter_append]
      by_cases hx : f x = f a
      · simp [hx]
      · have hany : (rest.filter fun y => decide ((f y == f x) = false)).any (fun y => f y == f a) =
            rest.any fun y => f y == f a := by
          rw [Bool.eq_iff_iff]
          simp only [List.any_eq_true, List.mem_filter, beq_iff_eq, decide_eq_true_eq, beq_eq_false_iff_ne]
          exact ⟨fun ⟨y, hy, hya⟩ => ⟨y, hy.1, hya⟩,
            fun ⟨y, hy, hya⟩ => ⟨y, ⟨hy, fun hyx => hx (hyx.symm.trans hya)⟩, hya⟩⟩
        have hkept : [a].filter (fun y => decide ((f y == f x) = false)) = [a] := by
          simp [Ne.symm hx]
        rw [hkept, hrest, hany, List.any_cons, beq_false_of_ne hx, Bool.false_or, List.cons_append]

theorem eraseDups_concat [DecidableEq α] (xs : List α) (a : α) :
    (xs ++ [a]).eraseDups = xs.eraseDups ++ if a ∈ xs then [] else [a] := by
  rw [List.eraseDups_append]
  by_cases ha : a ∈ xs <;> simp [List.removeAll, ha, List.eraseDups_cons]

theorem nodup_eraseDups [DecidableEq α] (xs : List α) : xs.eraseDups.Nodup := by
  induction xs using List.reverseRecOn with
  | nil => exact List.nodup_nil
  | append_singleton xs a ih =>
    rw [eraseDups_concat]
    split
    · simpa using ih
    · rename_i ha
      refine List.nodup_append.mpr ⟨ih, List.nodup_singleton a, fun x hx y hy hxy => ha ?_⟩
      rw [← List.mem_singleton.mp hy, ← hxy]
      exact List.mem_eraseDups.mp hx

end Firsts

/-! ## Groups and rows -/

namespace Group

/-- Setting a group among groups that are listed by kind. -/
theorem put_map {f : Kind → Group} (hf : ∀ k, (f k).kind = k) {group : Group} {kinds : List Kind}
    (hnodup : kinds.Nodup) :
    group.put (kinds.map f) =
      if group.kind ∈ kinds then kinds.map fun k => if k = group.kind then group else f k
      else kinds.map f ++ [group] := by
  induction kinds with
  | nil => rfl
  | cons k rest ih =>
    obtain ⟨hk, hrest⟩ := List.nodup_cons.mp hnodup
    rw [List.map_cons, put, hf]
    by_cases hkind : k = group.kind
    · have hsame : rest.map (fun k => if k = group.kind then group else f k) = rest.map f := by
        refine List.map_congr_left fun k' hk' => if_neg ?_
        rintro rfl
        exact hk (hkind ▸ hk')
      simp [hkind, hsame]
    · have hkind' : group.kind ≠ k := Ne.symm hkind
      rw [ih hrest]
      by_cases hmem : group.kind ∈ rest <;> simp [hkind, hkind', hmem]

end Group

namespace Graph

variable {g : Graph}

theorem groupOf_of_notMem {rows : List Row} {k : Kind}
    (hk : k ∉ rows.map fun r => g.groupKind r.member) : g.groupOf rows k = { kind := k } := by
  have hnone : g.rowsOf k rows = [] := by
    refine List.filter_eq_nil_iff.mpr fun r hr hkind => hk ?_
    exact List.mem_map.mpr ⟨r, hr, by simpa using hkind⟩
  simp [groupOf, hnone]

/-- Among arranged rows the group of a kind is found, or there are no rows of the kind. -/
theorem ofKind_arrange (rows : List Row) (k : Kind) :
    Group.ofKind k (g.arrange rows) = g.groupOf rows k := by
  have hfind : (g.arrange rows).find? (fun group => group.kind == k) =
      ((rows.map fun r => g.groupKind r.member).eraseDups.find? (· == k)).map (g.groupOf rows) := by
    rw [arrange, List.find?_map]
    rfl
  rw [Group.ofKind, hfind]
  by_cases hk : k ∈ rows.map fun r => g.groupKind r.member
  · obtain ⟨k', hk'⟩ : ∃ k', (rows.map fun r => g.groupKind r.member).eraseDups.find? (· == k) = some k' :=
      Option.isSome_iff_exists.mp (List.find?_isSome.mpr ⟨k, List.mem_eraseDups.mpr hk, beq_self_eq_true k⟩)
    obtain rfl : k' = k := by simpa using List.find?_some hk'
    rw [hk']
    rfl
  · have hnone : (rows.map fun r => g.groupKind r.member).eraseDups.find? (· == k) = none := by
      refine List.find?_eq_none.mpr fun k' hk' hkind => hk ?_
      rw [← eq_of_beq hkind]
      exact List.mem_eraseDups.mp hk'
    rw [hnone, groupOf_of_notMem hk]
    rfl

theorem rowsOf_concat (rows : List Row) (row : Row) (k : Kind) :
    g.rowsOf k (rows ++ [row]) =
      g.rowsOf k rows ++ if g.groupKind row.member = k then [row] else [] := by
  rw [rowsOf, rowsOf, List.filter_append]
  by_cases hk : g.groupKind row.member = k <;> simp [hk]

/-- A row changes the group of its kind only. -/
theorem groupOf_concat_of_ne {rows : List Row} {row : Row} {k : Kind}
    (hk : k ≠ g.groupKind row.member) : g.groupOf (rows ++ [row]) k = g.groupOf rows k := by
  rw [groupOf, groupOf, rowsOf_concat, if_neg hk.symm, List.append_nil]

/-- The group of a kind with one more row. -/
theorem groupOf_concat (rows : List Row) (row : Row) :
    g.groupOf (rows ++ [row]) (g.groupKind row.member) =
      { kind := g.groupKind row.member
        index := (g.groupOf rows (g.groupKind row.member)).index ++ row.entry.toList
        body := (g.groupOf rows (g.groupKind row.member)).body ++ row.card.toList
        names := (g.groupOf rows (g.groupKind row.member)).names ++
          if g.isListed rows row.member then [] else [(g.node row.member).name] } := by
  have hrows : g.rowsOf (g.groupKind row.member) (rows ++ [row]) =
      g.rowsOf (g.groupKind row.member) rows ++ [row] := by
    rw [rowsOf_concat, if_pos rfl]
  have hlisted : g.isListed rows row.member = true ↔ (g.node row.member).name ∈
      (g.rowsOf (g.groupKind row.member) rows).map fun r => (g.node r.member).name := by
    simp [isListed]
  have hprinted : ∀ print : Row → Option String, [row].filterMap print = (print row).toList := by
    intro print
    cases hprint : print row <;> simp [hprint]
  rw [groupOf, hrows]
  simp only [groupOf, List.filterMap_append, List.map_append, List.map_cons, List.map_nil, hprinted,
    eraseDups_concat, hlisted]

/-- One more row, set into the group of its kind. -/
theorem arrange_concat (rows : List Row) (row : Row) :
    g.arrange (rows ++ [row]) =
      (g.groupOf (rows ++ [row]) (g.groupKind row.member)).put (g.arrange rows) := by
  have hgroup : (g.groupOf (rows ++ [row]) (g.groupKind row.member)).kind = g.groupKind row.member := rfl
  rw [arrange, arrange, Group.put_map (fun _ => rfl) (nodup_eraseDups _), hgroup, List.map_append,
    List.map_cons, List.map_nil, eraseDups_concat]
  by_cases hk : g.groupKind row.member ∈ rows.map fun r => g.groupKind r.member
  · rw [if_pos hk, if_pos (List.mem_eraseDups.mpr hk), List.append_nil]
    refine List.map_congr_left fun k _ => ?_
    split
    · rename_i heq
      rw [heq]
    · exact groupOf_concat_of_ne ‹_›
  · rw [if_neg hk, if_neg fun h => hk (List.mem_eraseDups.mp h), List.map_append, List.map_cons,
      List.map_nil]
    congr 1
    refine List.map_congr_left fun k hmem => groupOf_concat_of_ne ?_
    rintro rfl
    exact hk (List.mem_eraseDups.mp hmem)

end Graph

/-! ## The pass -/

namespace MemberPrinter

variable {mp : MemberPrinter} {g : Graph}

/-- One member: it gets a row, and the groups are those of the rows so far and this one. -/
theorem addMember_arrange (mp : MemberPrinter) (g : Graph) (indexOnly : Bool) (rows : List Row)
    (owner p : Place) :
    mp.addMember g indexOnly (g.arrange rows) owner p = (do
      let row ← mp.row g indexOnly rows owner p
      return g.arrange (rows ++ [row])) := by
  have hlisted : (g.groupOf rows (g.groupKind p)).names.contains (g.node p).name = g.isListed rows p := by
    rw [Bool.eq_iff_iff]
    simp [Graph.groupOf, Graph.isListed, List.mem_eraseDups]
  have hcard : (indexOnly || (g.node p).hasOwnPage || (g.node p).kind == .reExport) =
      !(!indexOnly && (g.node p).onCard) := by
    cases indexOnly <;> simp [Node.onCard]
  have hrow : ∀ row : Row, row.member = p → g.arrange (rows ++ [row]) =
      Group.put
        { kind := g.groupKind p
          index := (g.groupOf rows (g.groupKind p)).index ++ row.entry.toList
          body := (g.groupOf rows (g.groupKind p)).body ++ row.card.toList
          names := (g.groupOf rows (g.groupKind p)).names ++
            if g.isListed rows p then [] else [(g.node p).name] } (g.arrange rows) := by
    rintro row rfl
    rw [Graph.arrange_concat, Graph.groupOf_concat]
  unfold addMember row newEntry ownCard
  dsimp only
  rw [← Graph.groupKind, Graph.ofKind_arrange, hlisted, hcard]
  cases hp : g.isListed rows p <;> cases hc : !indexOnly && (g.node p).onCard <;>
    simp [hrow, hp, Graph.groupOf]

theorem addMembers_arrange (mp : MemberPrinter) (g : Graph) (indexOnly : Bool)
    (members : List (Place × Place)) (rows : List Row) :
    mp.addMembers g indexOnly (g.arrange rows) members = (do
      let rows ← mp.rows g indexOnly rows members
      return g.arrange rows) := by
  induction members generalizing rows with
  | nil => rfl
  | cons m rest ih =>
    obtain ⟨owner, p⟩ := m
    rw [addMembers, addMember_arrange, MemberPrinter.rows]
    simp only [bind_assoc, pure_bind, ih]

/-! ## What the rows hold -/

/-- The rows are those of the members, and for each kind they have what goes into a group: the entry of
the first member of each name, and the card of each member that is shown on one. -/
structure Printed (mp : MemberPrinter) (g : Graph) (indexOnly : Bool) (shown : List (Place × Place))
    (rows : List Row) : Prop where
  members : rows.map (fun r => (r.owner, r.member)) = shown
  entry : ∀ r ∈ rows, ∀ e, r.entry = some e →
    (mp.entry r.member (if indexOnly then none else some r.owner)).Gives e
  card : ∀ r ∈ rows, ∀ c, r.card = some c → (mp.card r.member).Gives c
  entries : ∀ k, ((g.rowsOf k rows).filterMap Row.entry).map some =
    (g.firstRows (g.rowsOf k rows)).map Row.entry
  cards : ∀ k, ((g.rowsOf k rows).filterMap Row.card).map some =
    ((g.rowsOf k rows).filter fun r => !indexOnly && (g.node r.member).onCard).map Row.card

/-- The rows are in groups: there is one for each kind that occurs, and it has the entries and the cards
of the rows of its kind. -/
structure Arranged (mp : MemberPrinter) (g : Graph) (indexOnly : Bool) (shown : List (Place × Place))
    (rows : List Row) (groups : List Group) : Prop extends mp.Printed g indexOnly shown rows where
  nodup_kinds : (groups.map Group.kind).Nodup
  mem_kinds : ∀ k, k ∈ groups.map Group.kind ↔ ∃ m ∈ shown, g.groupKind m.2 = k
  index : ∀ group ∈ groups, group.index = (g.rowsOf group.kind rows).filterMap Row.entry
  body : ∀ group ∈ groups, group.body = (g.rowsOf group.kind rows).filterMap Row.card

variable {indexOnly : Bool} {shown : List (Place × Place)} {rows : List Row} {s s' : Session}

theorem printed_nil (mp : MemberPrinter) (g : Graph) (indexOnly : Bool) :
    mp.Printed g indexOnly [] [] := by
  constructor <;> simp [Graph.rowsOf, Graph.firstRows]

/-- The groups of the rows. -/
theorem Printed.arranged (h : mp.Printed g indexOnly shown rows) :
    mp.Arranged g indexOnly shown rows (g.arrange rows) := by
  have hkinds : (g.arrange rows).map Group.kind = (rows.map fun r => g.groupKind r.member).eraseDups := by
    rw [Graph.arrange, List.map_map]
    exact List.map_id _
  refine ⟨h, ?_, fun k => ?_, fun group hmem => ?_, fun group hmem => ?_⟩
  · rw [hkinds]
    exact nodup_eraseDups _
  · rw [hkinds, List.mem_eraseDups, ← h.members]
    simp
  · obtain ⟨k, -, rfl⟩ := List.mem_map.mp hmem
    rfl
  · obtain ⟨k, -, rfl⟩ := List.mem_map.mp hmem
    rfl

/-- The order of the groups does not matter. -/
theorem Arranged.perm {groups groups' : List Group} (h : mp.Arranged g indexOnly shown rows groups)
    (hperm : groups'.Perm groups) : mp.Arranged g indexOnly shown rows groups' where
  toPrinted := h.toPrinted
  nodup_kinds := (hperm.map _).nodup_iff.mpr h.nodup_kinds
  mem_kinds k := by rw [(hperm.map _).mem_iff, h.mem_kinds]
  index group hgroup := h.index group (hperm.mem_iff.mp hgroup)
  body group hgroup := h.body group (hperm.mem_iff.mp hgroup)

theorem newEntry_gives {owner p : Place} {entry : Option String}
    (hrun : (mp.newEntry g indexOnly rows owner p).run.run s = (.ok entry, s')) :
    entry.isSome = !g.isListed rows p ∧
      ∀ e, entry = some e → (mp.entry p (if indexOnly then none else some owner)).Gives e := by
  unfold newEntry at hrun
  split at hrun
  · rename_i hlisted
    cases hrun
    simp [hlisted]
  · rename_i hnew
    obtain ⟨e, s₁, hgives, hrun⟩ := Work.bind_ok hrun
    cases hrun
    refine ⟨by simp [hnew], ?_⟩
    rintro _ ⟨⟩
    exact ⟨_, _, hgives⟩

theorem ownCard_gives {p : Place} {card : Option String}
    (hrun : (mp.ownCard g indexOnly p).run.run s = (.ok card, s')) :
    card.isSome = (!indexOnly && (g.node p).onCard) ∧ ∀ c, card = some c → (mp.card p).Gives c := by
  unfold ownCard at hrun
  split at hrun
  · rename_i hon
    obtain ⟨c, s₁, hgives, hrun⟩ := Work.bind_ok hrun
    cases hrun
    refine ⟨by rw [hon]; rfl, ?_⟩
    rintro _ ⟨⟩
    exact ⟨_, _, hgives⟩
  · rename_i hoff
    cases hrun
    refine ⟨by rw [Bool.eq_false_iff.mpr hoff]; rfl, ?_⟩
    rintro _ ⟨⟩

/-- Among the rows of one kind, what is printed for one more is put behind what was printed where it
is printed at all. -/
theorem filterMap_concat {print : Row → Option String} {old kept : List Row} {isKept : Bool} (row : Row)
    (hold : (old.filterMap print).map some = kept.map print) (hrow : (print row).isSome = isKept) :
    ((old ++ [row]).filterMap print).map some =
      (kept ++ if isKept then [row] else []).map print := by
  rw [List.filterMap_append, List.map_append, hold, List.map_append]
  cases hprint : print row with
  | none =>
    obtain rfl : false = isKept := by rw [← hrow, hprint]; rfl
    simp [hprint]
  | some t =>
    obtain rfl : true = isKept := by rw [← hrow, hprint]; rfl
    simp [hprint]

/-- One more row. -/
theorem Printed.concat (h : mp.Printed g indexOnly shown rows) {owner p : Place} {row : Row}
    (hrun : (mp.row g indexOnly rows owner p).run.run s = (.ok row, s')) :
    mp.Printed g indexOnly (shown ++ [(owner, p)]) (rows ++ [row]) := by
  unfold MemberPrinter.row at hrun
  obtain ⟨entry, s₁, hentry, hrun⟩ := Work.bind_ok hrun
  obtain ⟨card, s₂, hcard, hrun⟩ := Work.bind_ok hrun
  cases hrun
  obtain ⟨hlisted, hentry⟩ := newEntry_gives hentry
  obtain ⟨hon, hcard⟩ := ownCard_gives hcard
  refine ⟨by simp [h.members], ?_, ?_, fun k => ?_, fun k => ?_⟩
  · simp only [List.forall_mem_append, List.forall_mem_singleton]
    exact ⟨h.entry, hentry⟩
  · simp only [List.forall_mem_append, List.forall_mem_singleton]
    exact ⟨h.card, hcard⟩
  · rw [Graph.rowsOf_concat]
    split
    · rename_i hk
      have hfirst := filterMap_concat ⟨owner, p, entry, card⟩ (h.entries k) hlisted
      rw [Graph.firstRows, eraseDupsBy_concat, ← Graph.firstRows, hfirst, ← hk]
      cases hp : g.isListed rows p <;> rw [Graph.isListed] at hp <;> simp [hp]
    · rw [List.append_nil]
      exact h.entries k
  · rw [Graph.rowsOf_concat]
    split
    · rw [filterMap_concat _ (h.cards k) hon, List.filter_append]
      cases hp : !indexOnly && (g.node p).onCard <;> simp [hp]
    · rw [List.append_nil]
      exact h.cards k

/-- **Rows**: members are printed in turn. -/
theorem printed_rows (members : List (Place × Place)) {rows' : List Row}
    (hrun : (mp.rows g indexOnly rows members).run.run s = (.ok rows', s'))
    (h : mp.Printed g indexOnly shown rows) : mp.Printed g indexOnly (shown ++ members) rows' := by
  induction members generalizing rows shown s with
  | nil =>
    cases hrun
    rwa [List.append_nil]
  | cons m rest ih =>
    obtain ⟨owner, p⟩ := m
    obtain ⟨row, s₁, hrow, hrest⟩ := Work.bind_ok hrun
    simpa using ih hrest (h.concat hrow)

end MemberPrinter

/-! ## Titles -/

theorem Kind.mem_all (k : Kind) : k ∈ Kind.all := by
  cases k <;> decide

/-- Kinds have different titles. -/
theorem Kind.groupTitle_injective : Function.Injective Kind.groupTitle := by
  have hnodup : (Kind.all.map Kind.groupTitle).Nodup := by decide +kernel
  exact fun a b hab => List.inj_on_of_nodup_map hnodup a.mem_all b.mem_all hab

/-- Groups of different kinds that are in the order of their titles have increasing titles. -/
theorem Group.sortByTitle_increasing {groups : List Group} (hkinds : (groups.map Group.kind).Nodup) :
    ((Group.sortByTitle groups).map Group.title).Pairwise (· < ·) := by
  have hperm : (Group.sortByTitle groups).Perm groups := List.mergeSort_perm _ _
  have hle : ((Group.sortByTitle groups).map Group.title).Pairwise (· ≤ ·) := by
    refine List.pairwise_map.mpr ((List.pairwise_mergeSort ?_ ?_ groups).imp fun {a b} h => ?_)
    · intro a b c hab hbc
      exact decide_eq_true ((of_decide_eq_true hab).trans (of_decide_eq_true hbc))
    · intro a b
      simpa using le_total a.title b.title
    · exact of_decide_eq_true h
  have hnodup : ((Group.sortByTitle groups).map Group.title).Nodup := by
    have htitles : groups.map Group.title = (groups.map Group.kind).map Kind.groupTitle := by
      rw [List.map_map]
      rfl
    rw [(hperm.map _).nodup_iff, htitles]
    exact hkinds.map Kind.groupTitle_injective
  exact (hle.and hnodup).imp fun h => lt_of_le_of_ne h.1 h.2

/-! ## Members in another order -/

namespace Graph

/-- The graph with other members of a node. -/
def withMembers (g : Graph) (c : Place) (ps : List Place) : Graph :=
  { g with nodes := g.nodes.modify c fun n => { n with children := some ps } }

variable {g : Graph} {c : Place} {ps : List Place}

/-- Only the members of the one node are others. -/
theorem node_withMembers (hps : ps.Perm (g.node c).members) (p : Place) :
    ∃ children, (g.withMembers c ps).node p = { g.node p with children } ∧
      children.getD [] = if p = c then ps else (g.node p).members := by
  by_cases hp : p = c
  · subst hp
    by_cases hsize : p < g.nodes.size
    · refine ⟨some ps, ?_, by simp⟩
      simp only [node, withMembers, Array.getD_eq_getD_getElem?, Array.getElem?_modify]
      simp [hsize]
    · rw [node_of_size_le (Nat.le_of_not_lt hsize)] at hps
      refine ⟨(g.node p).children, ?_, ?_⟩
      · simp [node, withMembers, hsize]
      · rw [if_pos rfl, hps.eq_nil, node_of_size_le (Nat.le_of_not_lt hsize)]
        rfl
  · refine ⟨(g.node p).children, ?_, by rw [if_neg hp, Node.members]⟩
    simp [node, withMembers, Array.getElem?_modify, Ne.symm hp]

/-- Nothing but the order of members depends on their order. -/
structure SameButOrder (g g' : Graph) (c : Place) : Prop where
  kind : ∀ p, (g'.node p).kind = (g.node p).kind
  flags : ∀ p, (g'.node p).flags = (g.node p).flags
  name : ∀ p, (g'.node p).name = (g.node p).name
  type : ∀ p, (g'.node p).type = (g.node p).type
  isEmpty : ∀ p, (g'.node p).members.isEmpty = (g.node p).members.isEmpty
  members : ∀ p ≠ c, (g'.node p).members = (g.node p).members

theorem sameButOrder_withMembers (hps : ps.Perm (g.node c).members) :
    g.SameButOrder (g.withMembers c ps) c := by
  constructor <;> intro p <;> obtain ⟨children, hnode, hmembers⟩ := g.node_withMembers hps p
  case isEmpty =>
    rw [hnode, Node.members, hmembers]
    split
    · rename_i hp
      rw [hp, hps.isEmpty_eq]
    · rfl
  case members =>
    intro hp
    rw [hnode, Node.members, hmembers, if_neg hp]
  all_goals rw [hnode]

namespace SameButOrder

variable {g' : Graph}

theorem sortMembers_eq (h : g.SameButOrder g' c) : g'.sortMembers = g.sortMembers := by
  funext qs
  have hkey : ∀ p, (g'.node p).listKey = (g.node p).listKey := by
    intro p
    rw [Node.listKey, Node.listKey, Node.has, Node.has, h.flags, h.name]
  have hprecedes : ∀ a b, (g'.node a).precedes (g'.node b) = (g.node a).precedes (g.node b) := by
    intro a b
    rw [Bool.eq_iff_iff, Node.precedes_iff, Node.precedes_iff, hkey, hkey]
  simp only [sortMembers, hprecedes]

theorem isShown_eq (h : g.SameButOrder g' c) : g'.isShown = g.isShown := by
  funext owner p
  simp only [isShown, isEmptyImport, Node.isPublic, Node.has, Node.hasAny, h.kind, h.flags, h.type,
    h.isEmpty]

theorem hasOwnPage_eq (h : g.SameButOrder g' c) (p : Place) :
    (g'.node p).hasOwnPage = (g.node p).hasOwnPage := by
  simp only [Node.hasOwnPage, Node.has, h.kind, h.flags, h.isEmpty]

theorem addMembers_eq (h : g.SameButOrder g' c) (mp : MemberPrinter) (indexOnly : Bool) :
    mp.addMembers g' indexOnly = mp.addMembers g indexOnly := by
  funext groups members
  induction members generalizing groups with
  | nil => rfl
  | cons m rest ih =>
    simp only [MemberPrinter.addMembers, MemberPrinter.addMember, h.kind, h.name, h.hasOwnPage_eq, ih]

end SameButOrder

/-- Where the keys of the members differ and the node is no member of itself, the order of its members
makes no difference to what is shown. -/
theorem shownMembers_withMembers (hps : ps.Perm (g.node c).members)
    (hkeys : ((g.node c).members.map fun p => (g.node p).listKey).Nodup)
    (hc : c ∉ (g.node c).members) : (g.withMembers c ps).shownMembers c = g.shownMembers c := by
  have h := g.sameButOrder_withMembers hps
  obtain ⟨children, hnode, hmembers⟩ := g.node_withMembers hps c
  rw [if_pos rfl] at hmembers
  have hps' : ((g.withMembers c ps).node c).members = ps := by rw [hnode, Node.members, hmembers]
  rw [shownMembers, shownMembers, h.isShown_eq, h.kind, hps', h.sortMembers_eq,
    sortMembers_eq_of_perm hps hkeys]
  refine List.flatMap_congr fun p hp => ?_
  have hpc : p ≠ c := by
    rintro rfl
    exact hc ((List.mergeSort_perm _ _).mem_iff.mp (List.mem_of_mem_filter hp))
  rw [expandMember, expandMember, h.kind, h.members p hpc]

end Graph

/-! ## The groups of a node -/

namespace MemberPrinter

variable {g : Graph} {c : Place}

/-- A node that is no enumeration: its shown members get rows, and the rows are arranged. -/
theorem groups_eq_rows (hc : (g.node c).kind ≠ .enumDecl) (mp : MemberPrinter) (indexOnly sorted : Bool) :
    mp.groups g c indexOnly sorted = (do
      let rows ← mp.rows g indexOnly [] (g.shownMembers c)
      return g.arrangement sorted rows) := by
  unfold groups Graph.arrangement
  split
  · rename_i hempty
    have hshown : g.shownMembers c = [] := by
      simp [Graph.shownMembers, List.isEmpty_iff.mp hempty, Graph.sortMembers]
    rw [hshown]
    cases sorted <;> simp [MemberPrinter.rows, Graph.arrange, Group.sortByTitle]
  · rw [if_neg (by simpa using hc)]
    have hpass : mp.addMembers g indexOnly [] (g.shownMembers c) = (do
        let rows ← mp.rows g indexOnly [] (g.shownMembers c)
        return g.arrange rows) := mp.addMembers_arrange g indexOnly _ []
    rw [hpass]
    simp

theorem groups_withMembers {ps : List Place} (hps : ps.Perm (g.node c).members)
    (hkeys : ((g.node c).members.map fun p => (g.node p).listKey).Nodup)
    (hown : c ∉ (g.node c).members) (hc : (g.node c).kind ≠ .enumDecl) (mp : MemberPrinter)
    (indexOnly sorted : Bool) :
    mp.groups (g.withMembers c ps) c indexOnly sorted = mp.groups g c indexOnly sorted := by
  have h := g.sameButOrder_withMembers hps
  have hkind : ((g.node c).kind == .enumDecl) = false := beq_false_of_ne hc
  simp only [groups, h.isEmpty, h.kind, hkind, h.addMembers_eq,
    Graph.shownMembers_withMembers hps hkeys hown, Bool.false_eq_true, if_false]

/-- **Groups**: a node that is no enumeration has a group for each kind among its shown members. These
are its members by name, static ones first, without those that are hidden, and with the elements of a
declaration that takes a value apart in its place. A group lists the first member of each name and has a
card for each member that is shown on one, both in that order. Sorted groups have increasing titles, and
where no two members have the same key the order in which they were declared makes no difference. -/
theorem groups_exact {doc : Value} (hload : Graph.ofValue doc = .ok g)
    (hc : (g.node c).kind ≠ .enumDecl) (mp : MemberPrinter) (indexOnly sorted : Bool) :
    (∃ ordered shown, g.StablyOrdered (g.node c).members ordered ∧
      shown = (ordered.filter (g.isShown (g.node c).kind)).flatMap (g.expandMember c) ∧
      mp.groups g c indexOnly sorted = (do
        let rows ← mp.rows g indexOnly [] shown
        return g.arrangement sorted rows) ∧
      ∀ s rows s', (mp.rows g indexOnly [] shown).run.run s = (.ok rows, s') →
        mp.Arranged g indexOnly shown rows (g.arrangement sorted rows) ∧
        (sorted = true → ((g.arrangement sorted rows).map Group.title).Pairwise (· < ·))) ∧
    ∀ ps, ps.Perm (g.node c).members → ((g.node c).members.map fun p => (g.node p).listKey).Nodup →
      mp.groups (g.withMembers c ps) c indexOnly sorted = mp.groups g c indexOnly sorted := by
  refine ⟨⟨_, _, g.stablyOrdered_sortMembers _, rfl, groups_eq_rows hc mp indexOnly sorted, ?_⟩, ?_⟩
  · intro s rows s' hrun
    have harranged := (printed_rows _ hrun (mp.printed_nil g indexOnly)).arranged
    cases sorted with
    | false => exact ⟨harranged, fun h => nomatch h⟩
    | true => exact ⟨harranged.perm (List.mergeSort_perm _ _), fun _ =>
        Group.sortByTitle_increasing harranged.nodup_kinds⟩
  · intro ps hps hkeys
    have hown : c ∉ (g.node c).members := fun hmem =>
      Nat.lt_irrefl c ((Graph.sound_of_load hload).lt_of_mem_members hmem).1
    exact groups_withMembers hps hkeys hown hc mp indexOnly sorted

/-- A class with a method, a declaration that takes a value apart, and a static method with the name of
the other one. -/
def groupedDocument : Value :=
  .record [("modules", .list [.record [("kind", .int 1), ("name", .text "a.ts"), ("children", .list [
    .record [("kind", .int 3), ("name", .text "Box"), ("children", .list [
      .record [("kind", .int 9), ("name", .text "go")],
      .record [("kind", .int 16), ("name", .text "at"), ("children", .list [
        .record [("kind", .int 16), ("name", .text "y")],
        .record [("kind", .int 16), ("name", .text "x")]])],
      .record [("kind", .int 9), ("name", .text "go"), ("flags", .int 4)]])]])]])]

/-- Such a node in the graph. -/
def groupedNode (kind : Kind) (name : String) (parent : Place) (children : Option (List Place))
    (flags : Flags) : Node :=
  { Node.bare kind with name, parent := some parent, children, flags }

/-- The graph of the document. -/
def groupedGraph : Graph where
  nodes := #[
    { Node.bare .moduleFile with name := "a.ts", children := some [1] },
    groupedNode .classDecl "Box" 0 (some [2, 3, 6]) .empty,
    groupedNode .method "go" 1 none .empty,
    groupedNode .constant "at" 1 (some [4, 5]) .empty,
    groupedNode .constant "y" 3 none .empty,
    groupedNode .constant "x" 3 none .empty,
    groupedNode .method "go" 1 none (.single .staticMember)]
  modules := [0]
  index := []

/-- Prints where members are. -/
def placesPrinter : MemberPrinter where
  entry p owner := pure (toString p ++ " of " ++ toString (owner.getD 0))
  card p := pure (toString p)

theorem groupedDocument_loads : Graph.ofValue groupedDocument = .ok groupedGraph := by
  cbv

/-- The rows of the class. -/
def groupedRows : List Row :=
  [⟨1, 6, some "6 of 1", some "6"⟩, ⟨3, 4, some "4 of 3", some "4"⟩, ⟨3, 5, some "5 of 3", some "5"⟩,
    ⟨1, 2, none, some "2"⟩]

/-- Its groups. -/
def groupedGroups : List Group :=
  [{ kind := .constant, index := ["4 of 3", "5 of 3"], body := ["4", "5"], names := ["y", "x"] },
    { kind := .method, index := ["6 of 1"], body := ["6", "2"], names := ["go"] }]

theorem arrangement_groupedRows : groupedGraph.arrangement true groupedRows = groupedGroups := by
  have harrange : groupedGraph.arrange groupedRows = groupedGroups.reverse := rfl
  have horder : ¬"Methods" ≤ "Constants" := by decide
  rw [Graph.arrangement, if_pos rfl, harrange]
  simp [Group.sortByTitle, groupedGroups, Group.title, Kind.groupTitle, horder, List.mergeSort,
    List.MergeSort.Internal.splitInTwo]

/-- Declared in another order the class has the same groups: the elements under the declaration that
takes the value apart, and both methods under the entry of the static one. -/
theorem groups_exact_grouped : Graph.ofValue groupedDocument = .ok groupedGraph ∧
    (groupedGraph.node 1).kind ≠ .enumDecl ∧ [6, 3, 2].Perm (groupedGraph.node 1).members ∧
    ((groupedGraph.node 1).members.map fun p => (groupedGraph.node p).listKey).Nodup ∧
    ∀ s, (placesPrinter.groups (groupedGraph.withMembers 1 [6, 3, 2]) 1).run.run s =
      (.ok groupedGroups, s) := by
  have hkind : (groupedGraph.node 1).kind ≠ .enumDecl := by decide
  have hperm : [6, 3, 2].Perm (groupedGraph.node 1).members := by decide
  have hkeys : ((groupedGraph.node 1).members.map fun p => (groupedGraph.node p).listKey).Nodup := by
    decide
  refine ⟨groupedDocument_loads, hkind, hperm, hkeys, fun s => ?_⟩
  have hshown : groupedGraph.shownMembers 1 = [(1, 6), (3, 4), (3, 5), (1, 2)] := by cbv
  have hrows : (placesPrinter.rows groupedGraph false [] [(1, 6), (3, 4), (3, 5), (1, 2)]).run.run s =
      (.ok groupedRows, s) := by
    cbv
  have hsame := (groups_exact groupedDocument_loads hkind placesPrinter false true).2 _ hperm hkeys
  rw [hsame, groups_eq_rows hkind, hshown, Work.run_bind_ok hrows, arrangement_groupedRows]
  rfl

end MemberPrinter

end SymbolDocs
