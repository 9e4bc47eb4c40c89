import SymbolDocs.Command.Run
import SymbolDocs.Proofs.Publishing

/-!
# Which files stand directly in the output directory

A file whose name has no separator stands in the output directory itself. The names of modules,
namespaces, source files and documents written by hand become flat tokens before they enter the name of
a file. The name of any other declaration enters as it is written, and so does the id of a node whose
page name is taken; these are the ways a separator gets into a file name, and a file may then be written
elsewhere.

* `outputPath_of_flat`: where a file with a flat name stands;
* `Node.isFlat_pageName`: when the name that a node asks for is flat;
* `PagePlan.isFlat_pageOf`: when its planned name is;
* `published_names_flat_iff`: when all files of a site have flat names;
* `stray_file_outside`: a site with a file outside the output directory.
-/

namespace SymbolDocs

/-- A name without separators. -/
def IsFlat (name : String) : Prop :=
  '/' ∉ name.toList

instance (name : String) : Decidable (IsFlat name) :=
  inferInstanceAs (Decidable (_ ∉ _))

theorem isFlat_append {a b : String} : IsFlat (a ++ b) ↔ IsFlat a ∧ IsFlat b := by
  simp [IsFlat]

/-! ## Places of files -/

theorem Text.splitOn_eq_singleton {p : Char → Bool} {cs : List Char} (h : ∀ c ∈ cs, p c = false) :
    splitOn p cs = [cs] := by
  induction cs with
  | nil => rfl
  | cons c cs ih =>
    have hc := h c List.mem_cons_self
    rw [splitOn, ih fun d hd => h d (List.mem_cons_of_mem _ hd)]
    simp [hc]

namespace Path

/-- A last part that is no double dot stays the last part. -/
theorem resolveParts_concat {name : String} (hname : name ≠ "..") (parts : List String) :
    ∀ acc, resolveParts acc (parts ++ [name]) = resolveParts acc parts ++ [name] := by
  induction parts with
  | nil =>
    intro acc
    simp [resolveParts]
  | cons part parts ih =>
    intro acc
    by_cases hpart : part = ".."
    · subst hpart
      exact ih acc.tail
    · simp only [List.cons_append, resolveParts]
      exact ih (part :: acc)

theorem ofString_of_flat {name : String} (hflat : IsFlat name) (hempty : name ≠ "")
    (hdot : name ≠ ".") : ofString name = ⟨"", [name]⟩ := by
  have hno : ∀ c ∈ name.toList, (c == '/') = false := by
    intro c hc
    simpa using fun he : c = '/' => hflat (he ▸ hc)
  have hroot : rootOf name.toList = "" := by
    cases hcs : name.toList with
    | nil => rfl
    | cons c cs =>
      have hc := hno c (hcs ▸ List.mem_cons_self)
      simp [rootOf, hc]
  have hparts : partsOf name.toList = [name] := by
    rw [partsOf, Text.splitOn_eq_singleton hno]
    simp [hempty, hdot]
  rw [ofString, hroot, hparts]

end Path

/-- **A flat name stands for a file in the directory itself.** -/
theorem outputPath_of_flat {name : String} (hflat : IsFlat name) (hempty : name ≠ "")
    (hdot : name ≠ ".") (hdots : name ≠ "..") (root : Path) :
    outputPath root name = ⟨root.root, root.resolve.parts ++ [name]⟩ := by
  have hstart : name.toList.dropWhile (· == '/') = name.toList := by
    cases hcs : name.toList with
    | nil => rfl
    | cons c cs =>
      have hc : c ≠ '/' := fun he => hflat (by rw [hcs, he]; exact List.mem_cons_self)
      simp [hc]
  rw [outputPath, hstart, String.ofList_toList, Path.ofString_of_flat hflat hempty hdot]
  simp only [Path.join, Path.resolve, bne_self_eq_false, Bool.false_eq_true, if_false,
    Path.resolveParts_concat hdots]

/-! ## Flat tokens -/

theorem Page.isFlat_fileToken (name ext : String) : IsFlat (Page.fileToken name ext) := by
  rw [IsFlat, fileToken, String.toList_ofList]
  intro h
  obtain ⟨c, -, hc⟩ := List.mem_flatMap.mp h
  rw [safeChar] at hc
  split at hc
  · simp at hc
  · rename_i hsafe
    obtain rfl := List.mem_singleton.mp hc
    simp at hsafe

theorem Text.isFlat_natText (n : Nat) : IsFlat (Text.natText n) :=
  fun h => absurd (isDigit_of_mem_natText h) (by decide)

/-- A token with the extension of a page. -/
theorem Page.isFlat_completed {token : String} (h : IsFlat token) :
    IsFlat (if Text.endsWith token.toList ".html".toList then token else token ++ ".html") := by
  split
  · exact h
  · exact isFlat_append.mpr ⟨h, by decide⟩

theorem ExtraDocument.isFlat_pageName {doc : ExtraDocument} {name : String}
    (h : doc.pageName = .ok name) : IsFlat name := by
  rw [pageName] at h
  split at h
  · obtain rfl := Except.ok.inj h
    exact by decide
  · split at h
    · obtain rfl := Except.ok.inj h
      exact Page.isFlat_completed (Page.isFlat_fileToken _ _)
    · cases h

/-! ## Names of pages -/

namespace Node

/-- What of the node's name enters the name of its page has no separator: the names of modules and
namespaces enter as flat tokens. -/
def FlatName (n : Node) : Prop :=
  n.kind = .moduleFile ∨ n.kind = .namespaceDecl ∨ IsFlat n.name

/-- The text of the node's id has no separator. -/
def FlatId (n : Node) : Prop :=
  ∀ id ∈ n.id, IsFlat id.plain

theorem isFlat_modulePage (n : Node) (hasReadme : Bool) : IsFlat (n.modulePage hasReadme) := by
  have hpage := Page.isFlat_completed (Page.isFlat_fileToken n.name ".html")
  simp only [modulePage]
  generalize (if Text.endsWith (Page.fileToken n.name).toList ".html".toList then
    Page.fileToken n.name else Page.fileToken n.name ++ ".html") = page at hpage ⊢
  split
  · exact by decide
  · exact hpage

/-- The name a node asks for is flat when its own name enters it so. -/
theorem isFlat_pageName {n : Node} {hasReadme : Bool} {name : String}
    (h : n.pageName hasReadme = .ok name) : IsFlat name ↔ n.FlatName := by
  unfold pageName at h
  split at h
  · rename_i hkind
    obtain rfl := Except.ok.inj h
    exact iff_of_true (n.isFlat_modulePage hasReadme) (.inl hkind)
  · rename_i hkind
    obtain rfl := Except.ok.inj h
    have htoken := Page.isFlat_fileToken n.name ".html"
    exact iff_of_true (isFlat_append.mpr ⟨isFlat_append.mpr ⟨by decide, htoken⟩, by decide⟩)
      (.inr (.inl hkind))
  · rename_i hmodule hnamespace
    split at h
    · rename_i source _
      obtain rfl := Except.ok.inj h
      have htoken := Page.isFlat_fileToken source.name "--"
      have hext : IsFlat ".html" := by decide
      rw [isFlat_append, isFlat_append, FlatName]
      constructor
      · exact fun h => .inr (.inr h.1.2)
      · rintro (h | h | h)
        · exact absurd h hmodule
        · exact absurd h hnamespace
        · exact ⟨⟨htoken, h⟩, hext⟩
    · cases h

end Node

namespace PagePlan

/-- The stem of a page name has the separators of the name. -/
theorem isFlat_stemOf {name : String} : IsFlat (stemOf name) ↔ IsFlat name := by
  rw [stemOf]
  split
  · rename_i hpage
    obtain ⟨stem, rfl⟩ := isPageName_of_endsWith hpage
    have hcut : ((stem ++ ".html").toList.take ((stem ++ ".html").length - 5)) = stem.toList := by
      simp [String.length]
    have hext : IsFlat ".html" := by decide
    rw [hcut, String.ofList_toList, isFlat_append, and_iff_left hext]
  · rfl

/-- A suffix and a number bring in the separators of the suffix only. -/
theorem isFlat_freeNumbered (plan : PagePlan) (stem suffix : String) (fuel counter : Nat) :
    IsFlat (plan.freeNumbered stem suffix fuel counter) ↔ IsFlat stem ∧ IsFlat suffix := by
  have hnumbered : ∀ counter, IsFlat (numbered stem suffix counter) ↔ IsFlat stem ∧ IsFlat suffix := by
    intro counter
    have hdash : IsFlat "-" := by decide
    have hext : IsFlat ".html" := by decide
    simp only [numbered, isFlat_append, hdash, hext, Text.isFlat_natText, and_true]
  induction fuel generalizing counter with
  | zero => exact hnumbered counter
  | succ fuel ih =>
    rw [freeNumbered]
    split
    · exact ih (counter + 1)
    · exact hnumbered counter

theorem isFlat_disambiguate (plan : PagePlan) (name : String) (n : Node) :
    IsFlat (plan.disambiguate name n) ↔ IsFlat name ∧ n.FlatId := by
  have hchosen : ∀ suffix, IsFlat (if plan.isTaken (stemOf name ++ "-" ++ suffix ++ ".html") then
        plan.freeNumbered (stemOf name) suffix plan.names.length 2
      else stemOf name ++ "-" ++ suffix ++ ".html") ↔ IsFlat name ∧ IsFlat suffix := by
    intro suffix
    have hdash : IsFlat "-" := by decide
    have hext : IsFlat ".html" := by decide
    split
    · rw [isFlat_freeNumbered, isFlat_stemOf]
    · simp only [isFlat_append, hdash, hext, and_true, isFlat_stemOf]
  cases hid : n.id with
  | none =>
    have hdup : IsFlat "dup" := by decide
    simp only [disambiguate, hid]
    rw [hchosen, and_iff_left hdup]
    simp [Node.FlatId, hid]
  | some id =>
    have hs : IsFlat "s" := by decide
    simp only [disambiguate, hid]
    rw [hchosen, isFlat_append, and_iff_right hs]
    simp [Node.FlatId, hid]

/-- A name that is planned for a node is flat when what is taken from the node is: its name, and its id
if another page has the name it asks for. -/
def FlatFor (plan : PagePlan) (g : Graph) (p : Place) : Prop :=
  (g.node p).FlatName ∧ ((g.node p).pageName plan.hasReadme = plan.pageOf g p ∨ (g.node p).FlatId)

/-- How the names of a plan come about, as far as separators go. -/
def Flattens (plan : PagePlan) (g : Graph) : Prop :=
  ∀ e ∈ plan.names, IsFlat e.2 ↔ (g.node e.1).FlatName ∧
    ((g.node e.1).pageName plan.hasReadme = .ok e.2 ∨ (g.node e.1).FlatId)

theorem Flattens.add {plan : PagePlan} {g : Graph} (h : plan.Flattens g) {p : Place} {name : String}
    (hname : IsFlat name ↔ (g.node p).FlatName ∧
      ((g.node p).pageName plan.hasReadme = .ok name ∨ (g.node p).FlatId)) (emit : Bool) :
    (plan.add p name emit).Flattens g := by
  intro e he
  rcases List.mem_append.mp he with he | he
  · exact h e he
  · rw [List.mem_singleton.mp he]
    exact hname

end PagePlan

theorem planFrom_flattens {g : Graph} {hasReadme : Bool} (rest : List (Place × Bool))
    {plan plan' : PagePlan} {warnings : List Warning}
    (h : (planFrom g hasReadme rest plan warnings).1 = .ok plan') (hreadme : plan.hasReadme = hasReadme)
    (hplan : plan.Flattens g) : plan'.Flattens g ∧ plan'.hasReadme = hasReadme := by
  induction rest generalizing plan warnings with
  | nil =>
    cases h
    exact ⟨hplan, hreadme⟩
  | cons e rest ih =>
    obtain ⟨p, emit⟩ := e
    rw [planFrom] at h
    split at h
    · exact ih h hreadme hplan
    · split at h
      · cases h
      · rename_i name hname
        have hflat := Node.isFlat_pageName hname
        split at h
        · -- the replaced name is free, so it is not the one that was asked for
          rename_i htaken
          refine ih h hreadme (hplan.add ?_ emit)
          have hne : (g.node p).pageName plan.hasReadme ≠ .ok (plan.disambiguate name (g.node p)) := by
            rw [hreadme, hname]
            intro heq
            have hfree := plan.disambiguate_free name (g.node p)
            rw [← Except.ok.inj heq, htaken] at hfree
            cases hfree
          rw [PagePlan.isFlat_disambiguate, hflat, or_iff_right hne]
        · refine ih h hreadme (hplan.add ?_ emit)
          rw [hflat, hreadme, hname]
          simp

theorem planPages_flattens {g : Graph} {o : Options} {plan : PagePlan}
    (h : (planPages g o).1 = .ok plan) : plan.Flattens g ∧ plan.hasReadme = o.hasReadme :=
  planFrom_flattens _ h rfl fun _ he => absurd he List.not_mem_nil

/-- The name of a node's page, planned or not. -/
theorem PagePlan.isFlat_pageOf {plan : PagePlan} {g : Graph} (hplan : plan.Flattens g) {p : Place}
    {name : String} (h : plan.pageOf g p = .ok name) : IsFlat name ↔ plan.FlatFor g p := by
  rw [FlatFor, h]
  rw [pageOf] at h
  split at h
  · rename_i hname
    cases h
    exact hplan _ (mem_of_lookup hname)
  · rw [Node.isFlat_pageName h, h]
    simp

/-! ## Names of files -/

/-- The drafts of a site have flat names when those of its emitted pages are. -/
theorem Site.isFlat_draftNames {site : Site} (hplan : site.plan.Flattens site.graph)
    {drafts : List PageDraft} (h : site.draftNames = drafts.map PageDraft.named) :
    (∀ d ∈ drafts, IsFlat d.name) ↔ ∀ p ∈ site.plan.emitted, site.plan.FlatFor site.graph p := by
  have hmem : ∀ {x}, x ∈ site.draftNames ↔ ∃ d ∈ drafts, d.named = x := by
    rw [h]
    simp
  constructor
  · intro hflat p hp
    obtain ⟨d, hd, hname⟩ := hmem.mp (List.mem_append_left _ (List.mem_map_of_mem hp))
    exact (PagePlan.isFlat_pageOf hplan hname.symm).mp (hflat d hd)
  · intro hflat d hd
    rcases List.mem_append.mp (hmem.mpr ⟨d, hd, rfl⟩) with hd | hd
    · obtain ⟨p, hp, hname⟩ := List.mem_map.mp hd
      exact (PagePlan.isFlat_pageOf hplan hname).mpr (hflat p hp)
    · obtain ⟨doc, -, hname⟩ := List.mem_map.mp hd
      exact ExtraDocument.isFlat_pageName hname

theorem Site.isFlat_withIndex (drafts : List PageDraft) :
    (∀ d ∈ withIndex drafts, IsFlat d.name) ↔ ∀ d ∈ drafts, IsFlat d.name := by
  have hindex : IsFlat indexPage := by decide
  rw [withIndex]
  split
  · rfl
  · simp [or_imp, forall_and, hindex]

/-- The files of a site have flat names when it is one of routes or its pages do. -/
theorem Site.isFlat_renderFiles [Packages] {site : Site} (hplan : site.plan.Flattens site.graph)
    {fs : Files} {files : List OutputFile} {s s' : Session}
    (h : (site.renderFiles fs).run.run s = (.ok files, s')) :
    (∀ name ∈ files.map OutputFile.name, IsFlat name) ↔
      site.options.spa = true ∨ ∀ p ∈ site.plan.emitted, site.plan.FlatFor site.graph p := by
  have hindex : IsFlat indexPage := by decide
  have hstyle : IsFlat stylesheetFile := by decide
  have hlist : IsFlat sitemapFile := by decide
  obtain ⟨drafts, hdrafts, hpages, hroutes⟩ := Site.renderFiles_names h
  cases hspa : site.options.spa with
  | true =>
    refine iff_of_true ?_ (.inl rfl)
    rcases hroutes hspa with hnames | hnames
    · simp [hnames, hindex, hstyle]
    · simp [hnames, hindex, hstyle, hlist]
  | false =>
    rw [hpages hspa, List.forall_mem_append, List.forall_mem_map, isFlat_withIndex,
      isFlat_draftNames hplan hdrafts]
    simp [hstyle]

/-- A name that stands for a file: neither empty nor one of the dots that stand for directories. -/
def NamesFile (name : String) : Prop :=
  name ∉ ["", ".", ".."]

theorem IsPageName.namesFile {name : String} (h : IsPageName name) : NamesFile name := by
  intro hmem
  have hlast : name.toList.getLast? ≠ some 'l' := by
    rcases List.mem_cons.mp hmem with rfl | hmem
    · decide
    rcases List.mem_cons.mp hmem with rfl | hmem
    · decide
    rw [List.mem_singleton.mp hmem]
    decide
  exact not_isPageName hlast h

theorem Site.namesFile_renderFiles [Packages] {site : Site} (hplan : site.plan.NamesPages) {fs : Files}
    {files : List OutputFile} {s s' : Session}
    (h : (site.renderFiles fs).run.run s = (.ok files, s')) :
    ∀ name ∈ files.map OutputFile.name, NamesFile name := by
  have hindex : NamesFile indexPage := by unfold NamesFile; decide
  have hstyle : NamesFile stylesheetFile := by unfold NamesFile; decide
  have hlist : NamesFile sitemapFile := by unfold NamesFile; decide
  obtain ⟨drafts, hdrafts, hpages, hroutes⟩ := Site.renderFiles_names h
  cases hspa : site.options.spa with
  | true =>
    rcases hroutes hspa with hnames | hnames
    · simp [hnames, hindex, hstyle]
    · simp [hnames, hindex, hstyle, hlist]
  | false =>
    rw [hpages hspa, List.forall_mem_append]
    refine ⟨fun name hname => ?_, by simp [hstyle]⟩
    exact (isPageName_withIndex hplan hdrafts name hname).namesFile

theorem outputPath_of_namesFile {name : String} (hflat : IsFlat name) (hname : NamesFile name)
    (root : Path) : outputPath root name = ⟨root.root, root.resolve.parts ++ [name]⟩ := by
  simp only [NamesFile, List.mem_cons, List.not_mem_nil, or_false, not_or] at hname
  exact outputPath_of_flat hflat hname.1 hname.2.1 hname.2.2 root

section

variable {g : Graph} {o : Options} {fs : Files} {plan : PagePlan} {files : List OutputFile}

theorem name_of_mem_summary {summary : List OutputFile}
    (h : summary = [] ∨ summary.map OutputFile.name = [summaryFile]) {f : OutputFile}
    (hf : f ∈ summary) : f.name = summaryFile := by
  rcases h with rfl | h
  · cases hf
  · have hname : f.name ∈ [summaryFile] := h ▸ List.mem_map_of_mem hf
    exact List.mem_singleton.mp hname

/-- Every published file has the name of a file. -/
theorem publish_namesFile [Packages] (hplan : (planPages g o).1 = .ok plan)
    (h : (publish g o fs).1 = .ok files) : ∀ f ∈ files, NamesFile f.name := by
  obtain ⟨summary, pages, rfl, hsummary, hnone, hrender⟩ := publish_names hplan h
  intro f hf
  rcases List.mem_append.mp hf with hf | hf
  · rw [name_of_mem_summary hsummary hf, NamesFile]
    decide
  · cases hno : o.noHtml with
    | true =>
      rw [hnone hno] at hf
      cases hf
    | false =>
      obtain ⟨s', hrun⟩ := hrender hno
      exact Site.namesFile_renderFiles (planPages_namesPages hplan) hrun _ (List.mem_map_of_mem hf)

/-- When all published files have flat names; that of the summary is flat. -/
theorem publish_isFlat [Packages] (hplan : (planPages g o).1 = .ok plan)
    (h : (publish g o fs).1 = .ok files) :
    (∀ f ∈ files, IsFlat f.name) ↔
      o.noHtml = true ∨ o.spa = true ∨ ∀ p ∈ plan.emitted, plan.FlatFor g p := by
  obtain ⟨summary, pages, rfl, hsummary, hnone, hrender⟩ := publish_names hplan h
  have hflat : ∀ f ∈ summary, IsFlat f.name := by
    intro f hf
    rw [name_of_mem_summary hsummary hf]
    decide
  rw [List.forall_mem_append, and_iff_right hflat]
  cases hno : o.noHtml with
  | true => simp [hnone hno]
  | false =>
    obtain ⟨s', hrun⟩ := hrender hno
    rw [← List.forall_mem_map, Site.isFlat_renderFiles (planPages_flattens hplan).1 hrun]
    simp

end

/-- **Flat names of published files.** The names are all flat exactly when no pages are written, the
site is one of routes, or each emitted page gets a flat name: its node is a module, a namespace or has a
name without separators, and its id, if it enters, has none either. A file with a flat name is written
into the output directory itself, so two such files with different names have different paths. -/
theorem published_names_flat_iff [Packages] {g : Graph} {o : Options} {fs : Files} {plan : PagePlan}
    (hplan : (planPages g o).1 = .ok plan) {files : List OutputFile}
    (hpublish : (publish g o fs).1 = .ok files) :
    ((∀ f ∈ files, IsFlat f.name) ↔
      o.noHtml = true ∨ o.spa = true ∨ ∀ p ∈ plan.emitted, plan.FlatFor g p) ∧
    (∀ root : Path, ∀ f ∈ files, IsFlat f.name →
      outputPath root f.name = ⟨root.root, root.resolve.parts ++ [f.name]⟩) ∧
    ∀ root : Path, ∀ f ∈ files, ∀ f' ∈ files, IsFlat f.name → IsFlat f'.name →
      outputPath root f.name = outputPath root f'.name → f.name = f'.name := by
  have hpath : ∀ root : Path, ∀ f ∈ files, IsFlat f.name →
      outputPath root f.name = ⟨root.root, root.resolve.parts ++ [f.name]⟩ := fun root f hf hflat =>
    outputPath_of_namesFile hflat (publish_namesFile hplan hpublish f hf) root
  refine ⟨publish_isFlat hplan hpublish, hpath, fun root f hf f' hf' hflat hflat' heq => ?_⟩
  rw [hpath root f hf hflat, hpath root f' hf' hflat'] at heq
  have hparts := congrArg Path.parts heq
  simpa using hparts

/-! ## A file outside the output directory -/

/-- A class with a name that leads upwards. -/
def strayDocument : Value :=
  .record [("modules", .list [.record [("kind", .int 1), ("id", .int 1), ("name", .text "a.ts"),
    ("children", .list [.record [("kind", .int 3), ("id", .int 2), ("name", .text "x/../../b"),
      ("source", .record [("name", .text "a.ts")])]])]])]

/-- The graph of the document. -/
def strayGraph : Graph where
  nodes := #[
    { Node.bare .moduleFile with id := some (.int 1), name := "a.ts", children := some [1] },
    { Node.bare .classDecl with
      id := some (.int 2), name := "x/../../b", source := [⟨"a.ts", 0, .null, none, false⟩]
      parent := some 0 }]
  modules := [0]
  index := [(.int 1, 0), (.int 2, 1)]

/-- The plan of its pages. -/
def strayPlan : PagePlan :=
  ⟨[(0, "a.html"), (1, "a--x/../../b.html")], [0, 1], false⟩

/-- The site that is published. -/
def straySite : Site :=
  ⟨strayGraph, strayPlan, {}⟩

theorem strayDocument_loads : Graph.ofValue strayDocument = .ok strayGraph := by
  cbv

theorem strayGraph_planned : (planPages strayGraph {}).1 = .ok strayPlan := by
  have horder : planningOrder strayGraph {} = [(0, true), (1, true)] := by cbv
  rw [planPages, horder]
  rfl

theorem stray_published : ∃ files, (publish strayGraph {} (.empty ⟨"/", []⟩)).1 = .ok files ∧
    files.map OutputFile.name = ["a.html", "a--x/../../b.html", indexPage, stylesheetFile] := by
  obtain ⟨moduleBody, hmodule⟩ : ∃ body, (straySite.pageBody 0).run.run {} = (.ok body, {}) :=
    Site.pageBody_of_parts ⟨_, rfl⟩ rfl rfl rfl (by cbv) rfl
  obtain ⟨classBody, hclass⟩ : ∃ body, (straySite.pageBody 1).run.run {} = (.ok body, {}) :=
    Site.pageBody_of_parts ⟨_, rfl⟩ rfl rfl rfl (by cbv) rfl
  have hpages : straySite.pages.run.run {} = (.ok [⟨"a.html", moduleBody, .text "a.ts"⟩,
      ⟨"a--x/../../b.html", classBody, .text "x/../../b"⟩], {}) := by
    have hfirst : (Work.ofExcept (straySite.plan.pageOf straySite.graph 0)).run.run {} =
        (.ok "a.html", {}) := rfl
    have hsecond : (Work.ofExcept (straySite.plan.pageOf straySite.graph 1)).run.run {} =
        (.ok "a--x/../../b.html", {}) := rfl
    have hrest : (straySite.pagesOf [1]).run.run {} =
        (.ok [⟨"a--x/../../b.html", classBody, .text "x/../../b"⟩], {}) := by
      rw [Site.pagesOf, Work.run_bind_ok hsecond, Work.run_bind_ok hclass]
      rfl
    change (straySite.pagesOf [0, 1]).run.run {} = _
    rw [Site.pagesOf, Work.run_bind_ok hfirst, Work.run_bind_ok hmodule, Work.run_bind_ok hrest]
    rfl
  have hextra : (Work.ofExcept (straySite.options.extra.mapM fun s => s.drafts straySite.options
      (.empty ⟨"/", []⟩))).run.run {} = (.ok [], {}) := rfl
  have hhead : (Work.ofExcept (Site.headMarkup straySite.options (.empty ⟨"/", []⟩))).run.run {} =
      (.ok "", {}) := rfl
  have hnavigation : straySite.navigation.run.run {} = (.ok [], {}) := by
    cbv
  have hfiles : ∃ files, (straySite.renderFiles (.empty ⟨"/", []⟩)).run.run {} = (.ok files, {}) ∧
      files.map OutputFile.name = ["a.html", "a--x/../../b.html", indexPage, stylesheetFile] := by
    rw [Site.renderFiles, Work.run_bind_ok hpages]
    dsimp only
    rw [Work.run_bind_ok hextra, Work.run_bind_ok hhead, Work.run_bind_ok hnavigation]
    exact ⟨_, rfl, rfl⟩
  obtain ⟨files, hfiles, hnames⟩ := hfiles
  exact ⟨files, publish_of_renderFiles strayGraph_planned rfl rfl hfiles, hnames⟩

/-- The page of the class is written beside the output directory. -/
theorem stray_file_outside : Graph.ofValue strayDocument = .ok strayGraph ∧
    (planPages strayGraph {}).1 = .ok strayPlan ∧
    ∃ files, (publish strayGraph {} (.empty ⟨"/", []⟩)).1 = .ok files ∧
      (¬∀ f ∈ files, IsFlat f.name) ∧
      ∃ f ∈ files, outputPath ⟨"/", ["out"]⟩ f.name = ⟨"/", ["b.html"]⟩ := by
  obtain ⟨files, hfiles, hnames⟩ := stray_published
  refine ⟨strayDocument_loads, strayGraph_planned, files, hfiles, fun hflat => ?_, ?_⟩
  · obtain ⟨hiff, -⟩ := published_names_flat_iff strayGraph_planned hfiles
    rcases hiff.mp hflat with hno | hspa | hpages
    · cases hno
    · cases hspa
    · rcases (hpages 1 (by decide)).1 with hkind | hkind | hname
      · cases hkind
      · cases hkind
      · exact absurd hname (by decide)
  · have hmem : "a--x/../../b.html" ∈ files.map OutputFile.name := by simp [hnames]
    obtain ⟨f, hf, hname⟩ := List.mem_map.mp hmem
    exact ⟨f, hf, by rw [hname]; decide⟩

end SymbolDocs
