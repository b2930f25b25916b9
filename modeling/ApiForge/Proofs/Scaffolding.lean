import ApiForge.Proofs.Edits
import ApiForge.Proofs.Encoding
import ApiForge.Proofs.Foresight
import ApiForge.Proofs.MirroredSources

/-! Scaffolding and back. Where every stub has a file of its own that was not there, the stubs that are written are read
back as the configuration has it, and so are the objects of the model. A stub that is not written has found a directory
in its place. -/

namespace ApiForge

open Files (Content Entry Place Report Session Tree WriteOutcome Writer)

/-! ### Files that have been written -/

namespace Files

/-- What has been written to a path is found at the path. -/
theorem Tree.locate_of_write {t t' : Tree} {path : String} {content : Content} (h : t.write path content = .ok t') :
    t'.locate path = .ok (t.placeOf path, .file content) := by
  obtain ⟨hkeeps, hwritten⟩ := Tree.write_ok h
  obtain ⟨q, hplace, -⟩ := of_bind h
  obtain ⟨front, name, place, hsegments, hname, hfollow, -, -⟩ := writablePlace_eq_ok_iff.mp hplace
  have horigin : t'.origin path = t.origin path := by rw [origin, origin, hkeeps.workingDirectory]
  exact locate_file_iff.mpr ⟨front, name, place, hsegments, hname, horigin ▸ hkeeps.follow hfollow,
    placeOf_of_name hsegments hname hfollow, hwritten⟩

/-- What a path was written to is found by it afterwards. -/
theorem locate_of_writeFile {t t' : Tree} {path : String} {content : Content}
    (h : writeFile t path content = (t', .ok ())) : t'.locate path = .ok (t.placeOf path, .file content) := by
  obtain ⟨t₁, hmade, hwrite⟩ := exists_write_of_writeFile h
  rw [Tree.locate_of_write hwrite, hmade.placeOf_eq]

end Files

/-! ### Drafts one after the other -/

namespace Files.Writer

variable {w : Writer} {s s' : Session} {ds : List Draft}

/-- Files that no draft goes to are kept, and so is what is on record. -/
theorem writeAll_keeps (h : w.writeAll s ds = some s') :
    s.tree.Keeps (s.tree.Targets w.root (ds.map Draft.path)) s'.tree ∧
      s.report.written ⊆ s'.report.written ∧ s.report.skipped ⊆ s'.report.skipped := by
  induction ds generalizing s with
  | nil =>
      cases h
      exact ⟨(Tree.KeepsAll.refl _).mono fun _ => False.elim, List.Subset.refl _, List.Subset.refl _⟩
  | cons d ds ih =>
      obtain ⟨s₁, outcome, hwrite, hrest⟩ := writeAll_cons_eq_some_iff.mp h
      have hwrote := wrote_write w s d.path d.text d.mode
      rw [hwrite] at hwrote
      have hstep : s.tree.Keeps (· = s.tree.placeOf (Path.join w.root d.path)) s₁.tree ∧
          s.report.written ⊆ s₁.report.written ∧ s.report.skipped ⊆ s₁.report.skipped := by
        have hrefl : s.tree.Keeps (· = s.tree.placeOf (Path.join w.root d.path)) s.tree :=
          (Tree.KeepsAll.refl s.tree).mono fun _ => False.elim
        cases hwrote with
        | skipped _ _ => exact ⟨hrefl, List.Subset.refl _, List.subset_append_left _ _⟩
        | wouldWrite _ => exact ⟨hrefl, List.Subset.refl _, List.Subset.refl _⟩
        | written _ tree hfile =>
            exact ⟨(writeFile_ok hfile).1, List.subset_append_left _ _, List.Subset.refl _⟩
      obtain ⟨hkeeps, hwritten, hskipped⟩ := hstep
      obtain ⟨hkeeps', hwritten', hskipped'⟩ := ih hrest
      refine ⟨(hkeeps.mono fun q hq => ?_).trans (hkeeps'.mono fun q hq => ?_),
        List.Subset.trans hwritten hwritten', List.Subset.trans hskipped hskipped'⟩
      · exact ⟨d.path, List.mem_cons_self, hq.symm⟩
      · obtain ⟨path, hpath, hplace⟩ := hq
        exact ⟨path, List.mem_cons_of_mem d.path hpath, (hkeeps.placeOf_eq _).symm.trans hplace⟩

end Files.Writer

/-- The draft has become the file that its path leads to, or it was skipped for a directory that its path leads to. -/
inductive Draft.Placed (root : String) (d : Draft) (s : Session) : Prop where
  | written (hrecord : d.path ∈ s.report.written)
      (hfile : s.tree.locate (Path.join root d.path) = .ok (s.tree.placeOf (Path.join root d.path), .file d.content))
  | skipped (hrecord : d.path ∈ s.report.skipped) (place : Place)
      (hdirectory : s.tree.locate (Path.join root d.path) = .ok (place, .directory))

/-- What has been placed stays so while drafts for other files are written. -/
theorem Draft.Placed.through {w : Writer} {s s' : Session} {d : Draft} {ds : List Draft} (hd : d.Placed w.root s)
    (h : w.writeAll s ds = some s') (hapart : ¬s.tree.Targets w.root (ds.map Draft.path)
      (s.tree.placeOf (Path.join w.root d.path))) : d.Placed w.root s' := by
  obtain ⟨hkeeps, hwritten, hskipped⟩ := Writer.writeAll_keeps h
  cases hd with
  | written hrecord hfile =>
      refine .written (hwritten hrecord) ?_
      rw [hkeeps.placeOf_eq]
      exact hkeeps.locate_file hfile (hkeeps.files _ _ (Tree.locate_file hfile).2 hapart)
  | skipped hrecord place hdirectory => exact .skipped (hskipped hrecord) place (hkeeps.locate_directory hdirectory)

theorem Draft.Placed.readText {root : String} {d : Draft} {s : Session} (h : d.Placed root s) :
    d.path ∈ s.report.written ∧ s.tree.readText (Path.join root d.path) = .ok d.text ∨
      d.path ∈ s.report.skipped ∧ s.tree.readText (Path.join root d.path) = .error .isDirectory := by
  cases h with
  | written hrecord hfile =>
      exact Or.inl ⟨hrecord, Tree.readText_utf8Bytes (Tree.read_ok_iff.mpr ⟨_, hfile⟩)⟩
  | skipped hrecord place hdirectory =>
      refine Or.inr ⟨hrecord, ?_⟩
      rw [Tree.readText, Tree.read, hdirectory]
      rfl

/-- What the file of a path holds is read there if anything is. -/
theorem Files.Tree.readText_of_get? {t : Tree} {path : String} {d : Draft} (hthere : (t.read path).isOk = true)
    (hfile : t.get? (t.placeOf path) = some (.file d.content)) : t.readText path = .ok d.text := by
  cases hread : t.read path with
  | error fault =>
      rw [hread] at hthere
      cases hthere
  | ok content =>
      obtain ⟨q, hlocate⟩ := Tree.read_ok_iff.mp hread
      obtain ⟨rfl, hcontent⟩ := Tree.locate_file hlocate
      rw [hfile, Option.some.injEq, Entry.file.injEq] at hcontent
      rw [← hcontent] at hread
      exact Tree.readText_utf8Bytes hread

/-- The last draft is in its file, unless some draft was skipped. -/
theorem last_of_writeAll {root : String} {s s' : Session} {ds : List Draft} {d : Draft}
    (h : Writer.writeAll ⟨root, false⟩ s (ds ++ [d]) = some s') (hskipped : s'.report.skipped = []) :
    s'.tree.locate (Path.join root d.path) = .ok (s'.tree.placeOf (Path.join root d.path), .file d.content) := by
  rw [Writer.writeAll_append, Option.bind_eq_some_iff] at h
  obtain ⟨s₁, -, h⟩ := h
  obtain ⟨s₂, outcome, hwrite, hnone⟩ := Writer.writeAll_cons_eq_some_iff.mp h
  cases hnone
  have hedits := Writer.write_edits ⟨root, false⟩ s₁ d.path d.text d.mode
  have hwrote := Writer.wrote_write ⟨root, false⟩ s₁ d.path d.text d.mode
  rw [hwrite] at hedits hwrote
  cases hwrote with
  | skipped _ _ => simp at hskipped
  | wouldWrite hdry => cases hdry
  | written _ tree hfile =>
      rw [hedits.placeOf_eq]
      exact Files.locate_of_writeFile hfile

/-- Drafts for different files that were not there are all placed. -/
theorem placed_of_writeAll {root : String} {s s' : Session} {ds : List Draft}
    (h : Writer.writeAll ⟨root, false⟩ s ds = some s')
    (hapart : (ds.map fun d => s.tree.placeOf (Path.join root d.path)).Nodup)
    (hfree : ∀ d ∈ ds, s.tree.fileAt? (s.tree.placeOf (Path.join root d.path)) = none) :
    ∀ d ∈ ds, d.Placed root s' := by
  induction ds generalizing s with
  | nil => exact List.forall_mem_nil _
  | cons d ds ih =>
      obtain ⟨s₁, outcome, hwrite, hlater⟩ := Writer.writeAll_cons_eq_some_iff.mp h
      rw [List.map_cons, List.nodup_cons] at hapart
      obtain ⟨hfirst, hrest⟩ := List.forall_mem_cons.mp hfree
      have hedits := Writer.write_edits ⟨root, false⟩ s d.path d.text d.mode
      have hwrote := Writer.wrote_write ⟨root, false⟩ s d.path d.text d.mode
      rw [hwrite] at hedits hwrote
      have hplaced : d.Placed root s₁ := by
        cases hwrote with
        | skipped _ hthere =>
            obtain ⟨q, entry, hlocate⟩ := Tree.pathExists_iff.mp hthere
            cases entry with
            | directory => exact .skipped (List.mem_append_right _ (List.mem_singleton.mpr rfl)) q hlocate
            | file content =>
                obtain ⟨rfl, hfile⟩ := Tree.locate_file hlocate
                rw [Tree.fileAt?_eq_some.mpr hfile] at hfirst
                cases hfirst
        | wouldWrite hdry => cases hdry
        | written _ tree hfile =>
            refine .written (List.mem_append_right _ (List.mem_singleton.mpr rfl)) ?_
            rw [hedits.placeOf_eq]
            exact Files.locate_of_writeFile hfile
      have hother : ∀ e ∈ ds, s.tree.placeOf (Path.join root e.path) ≠ s.tree.placeOf (Path.join root d.path) :=
        fun e he heq => hapart.1 (heq ▸ List.mem_map_of_mem he)
      refine List.forall_mem_cons.mpr ⟨hplaced.through hlater ?_, ih hlater ?_ fun e he => ?_⟩
      · rintro ⟨path, hpath, hplace⟩
        obtain ⟨e, he, rfl⟩ := List.mem_map.mp hpath
        rw [hedits.placeOf_eq, hedits.placeOf_eq] at hplace
        exact hother e he hplace
      · simp only [hedits.placeOf_eq]
        exact hapart.2
      · rw [hedits.placeOf_eq, hedits.files _ (hother e he)]
        exact hrest e he

namespace Workspace

variable {t t' : Tree} {c : Config} {p : Project} {report : Report}

/-- The stub of the group at the version has been written and is read back as the configuration has it, or it was
skipped because a directory has its path. -/
inductive ReadBack (t' : Tree) (p : Project) (report : Report) (g : GroupConfig) (v : String) : Prop where
  | written (hrecord : sourcePath "" v g.name ∈ report.written) (file : Source.SourceFile)
      (hread : inspector t' (sourcePath p.root v g.name) = .ok file) (package : file.package = v)
      (structs : List.Forall₂ Generated.Mirrors (g.objects.filter (·.versions.contains v)) file.structs)
  | skipped (hrecord : sourcePath "" v g.name ∈ report.skipped)
      (hread : inspector t' (sourcePath p.root v g.name) =
        .error { activities := [.readingSource (sourcePath p.root v g.name)], cause := .file .isDirectory })

/-- The stub of a group at a version. -/
def stubDraft (g : GroupConfig) (v : String) : Draft :=
  ⟨sourcePath "" v g.name, (Generated.modelSourceFile g v).text, .scaffold⟩

theorem stubDrafts_eq (c : Config) : stubDrafts c = c.groups.flatMap fun g => g.versions.map (stubDraft g) := by
  rw [stubDrafts, sourceStubs, List.map_flatMap]
  simp only [List.map_map, Function.comp_def]
  rfl

theorem mem_stubDrafts {g : GroupConfig} {v : String} (hg : g ∈ c.groups) (hv : v ∈ g.versions) :
    stubDraft g v ∈ stubDrafts c := by
  rw [stubDrafts_eq]
  exact List.mem_flatMap.mpr ⟨g, hg, List.mem_map_of_mem hv⟩

/-- A stub that has been written is read as the configuration has it. -/
theorem inspector_stub {g : GroupConfig} {v path : String} (hvalid : Version.isValid v = true)
    (hline : '\n' ∉ g.name.toList) (hnames : ∀ o ∈ g.objects, Source.isIdentifier o.name = true)
    (htext : t.readText path = .ok (stubDraft g v).text) : ∃ file, inspector t path = .ok file ∧ file.package = v ∧
      List.Forall₂ Generated.Mirrors (g.objects.filter (·.versions.contains v)) file.structs := by
  obtain ⟨file, hparse, hpackage, hstructs⟩ := Generated.parseSource_stub hvalid hline hnames path
  refine ⟨file, ?_, hpackage, hstructs⟩
  rw [inspector, htext, stubDraft]
  dsimp only
  rw [hparse]

theorem readBack_of_placed {g : GroupConfig} {v : String} {s : Session}
    (hvalid : Version.isValid v = true) (hline : '\n' ∉ g.name.toList)
    (hnames : ∀ o ∈ g.objects, Source.isIdentifier o.name = true) (h : (stubDraft g v).Placed p.root s) :
    ReadBack s.tree p s.report g v := by
  have hread := h.readText
  have hpath : (stubDraft g v).path = sourcePath "" v g.name := by rw [stubDraft]
  rw [hpath, join_sourcePath hvalid] at hread
  rcases hread with ⟨hrecord, htext⟩ | ⟨hrecord, hfault⟩
  · obtain ⟨file, hfile, hpackage, hstructs⟩ := inspector_stub hvalid hline hnames htext
    exact .written hrecord file hfile hpackage hstructs
  · refine .skipped hrecord ?_
    rw [inspector, hfault]

/-- What a project says whose sources are stubs: no build from it fails for what a source says, and objects of a model
are as the configuration has them. -/
structure RoundTrip (t' : Tree) (c : Config) (p : Project) (report : Report) : Prop where
  sources : ∀ g ∈ c.groups, ∀ v ∈ g.versions, ReadBack t' p report g v
  failures : ∀ f, model t' c p = .error f → f.cause = .file .isDirectory ∨
    ∃ fault, f.cause = .model fault ∧ ∀ group object version, fault ≠ .missingReconciledField group object version
  objects : ∀ m, model t' c p = .ok m → List.Forall₂
    (fun g group => group.name = g.name ∧ ∀ a ∈ group.objects, ∃ o ∈ g.objects, o.Realized a) c.groups m.groups

theorem RoundTrip.of_sources (hcheck : c.check = .ok ())
    (h : ∀ g ∈ c.groups, ∀ v ∈ g.versions, ReadBack t' p report g v) : RoundTrip t' c p report := by
  have hmirrored : ∀ g ∈ c.groups, g.Mirrored p (inspector t') := by
    intro g hg v hv file hfile
    cases h g hg v hv with
    | written _ file' hread _ hstructs =>
        rw [hread] at hfile
        cases hfile
        exact hstructs
    | skipped _ hread =>
        rw [hread] at hfile
        cases hfile
  refine ⟨h, fun f hf => ?_, fun m hm => Config.realized_of_mirrored hmirrored hm⟩
  refine (Config.fault_of_mirrored hcheck hmirrored hf).imp_left ?_
  rintro ⟨g, hg, v, hv, f', hfailed, hcause⟩
  rw [hcause]
  cases h g hg v hv with
  | written _ file hread _ _ =>
      rw [hread] at hfailed
      cases hfailed
  | skipped _ hread =>
      rw [hread] at hfailed
      cases hfailed
      rfl

/-- The stubs go to different files. -/
def StubsApart (t : Tree) (c : Config) (p : Project) : Prop :=
  ((stubDrafts c).map fun d => t.placeOf (Path.join p.root d.path)).Nodup

/-- Without slashes in the names of groups, different paths lead to different files. -/
theorem stubsApart_of_slashless (hcheck : c.check = .ok ()) (hplain : ∀ g ∈ c.groups, '/' ∉ g.name.toList)
    (hpaths : ((stubDrafts c).map Draft.path).Nodup) : StubsApart t c p := by
  rw [StubsApart, List.nodup_iff_pairwise_ne, List.pairwise_map]
  rw [List.nodup_iff_pairwise_ne, List.pairwise_map] at hpaths
  refine hpaths.imp_of_mem fun {d e} hd he hne heq => hne ?_
  obtain ⟨v, file, hdpath, hddescends, hdnames⟩ := path_of_mem_stubDrafts hcheck hplain hd
  obtain ⟨v', file', hepath, hedescends, henames⟩ := path_of_mem_stubDrafts hcheck hplain he
  have hplace {path : String} (hpath : Path.Descends path) :
      t.placeOf (Path.join p.root path) = t.placeOf p.root ++ Path.names path :=
    (Path.placeFrom_join _ _ hpath.relative).trans (hpath.walk _)
  rw [hplace hddescends, hplace hedescends, List.append_cancel_left_eq, hdnames, henames] at heq
  obtain ⟨rfl, rfl⟩ : v = v' ∧ file = file' := by simpa using heq
  rw [hdpath, hepath]

/-- Stubs that have been written where no file was, each to a file of its own, say what the configuration says. It is
the files that have to differ; that their paths do is enough for names without slashes. -/
theorem stubs_read_back (h : createSources t c p false = (t', .ok report))
    (hnames : ∀ g ∈ c.groups, ∀ o ∈ g.objects, Source.isIdentifier o.name = true)
    (hlines : ∀ g ∈ c.groups, '\n' ∉ g.name.toList)
    (hapart : StubsApart t c p ∨
      (∀ g ∈ c.groups, '/' ∉ g.name.toList) ∧ ((stubDrafts c).map Draft.path).Nodup)
    (hfree : ∀ d ∈ stubDrafts c, t.fileAt? (t.placeOf (Path.join p.root d.path)) = none) :
    RoundTrip t' c p report := by
  obtain ⟨hcheck, hwrite⟩ := createSources_ok_iff.mp h
  have hapart : StubsApart t c p := by
    rcases hapart with hapart | ⟨hplain, hpaths⟩
    · exact hapart
    · exact stubsApart_of_slashless hcheck hplain hpaths
  refine .of_sources hcheck fun g hg v hv => ?_
  obtain ⟨o, ho, hvo⟩ := GroupConfig.mem_versions.mp hv
  have hvalid : Version.isValid v = true := (((Config.check_eq_ok_iff.mp hcheck).groups g hg).objects o ho).valid v hvo
  have hplaced := placed_of_writeAll hwrite hapart hfree
  exact readBack_of_placed hvalid (hlines g hg) (hnames g hg) (hplaced _ (mem_stubDrafts hg hv))

theorem names_of_mirrors {objects : List ObjectConfig} {structs : List Source.Struct}
    (h : List.Forall₂ Generated.Mirrors objects structs) : structs.map (·.name) = objects.map ObjectConfig.name := by
  induction h with
  | nil => rfl
  | cons hmirrors _ ih => rw [List.map_cons, List.map_cons, hmirrors.name, ih]

/-- Two groups with objects of all kinds, in a project that has no sources yet. -/
def releaseConfig : Config where
  apiNamespace := "helm"
  migrationOrder := some []
  groups := [
    { name := "Helm", objects := [
      { name := "ReleaseDefinition", versions := ["v0", "v1"], reconcilable := true },
      { name := "ReleaseInstance", versions := ["v1"], reconcilable := true, allowDuplicateModelNames := true }] },
    { name := "Repository", objects := [{ name := "Chart", versions := ["v0"], commands := { enabled := true } }] }]

theorem releases_read_back : ∃ t' report, createSources ⟨[], []⟩ releaseConfig ⟨"", .base⟩ false = (t', .ok report) ∧
    report.written = ["pkg/api/v0/helm.go", "pkg/api/v1/helm.go", "pkg/api/v0/repository.go"] ∧
    RoundTrip t' releaseConfig ⟨"", .base⟩ report := by
  have hcreated : (createSources ⟨[], []⟩ releaseConfig ⟨"", .base⟩ false).2.toOption =
      some ⟨["pkg/api/v0/helm.go", "pkg/api/v1/helm.go", "pkg/api/v0/repository.go"], [], []⟩ := by
    decide +kernel
  have h := eq_of_toOption hcreated
  exact ⟨_, _, h, rfl, stubs_read_back h (by decide +kernel) (by decide)
    (Or.inr ⟨by decide, by decide +kernel⟩) (by decide +kernel)⟩

def directGroup : GroupConfig where
  name := "x"
  objects := [{ name := "Chart", versions := ["v0"] }]

/-- Its sources have other paths than those of the group before, which lead to the same files. -/
def detourGroup : GroupConfig where
  name := "x/../x"
  objects := [{ name := "Release", versions := ["v0"] }]

def detourConfig : Config where
  apiNamespace := "helm"
  migrationOrder := some []
  groups := [directGroup, detourGroup]

/-- The second stub is not found to be there, since the directory that its path goes through is not, and it replaces
the first. -/
theorem later_stub_replaces_earlier : ∃ t' report file,
    createSources ⟨[], []⟩ detourConfig ⟨"", .base⟩ false = (t', .ok report) ∧
      (∀ g ∈ detourConfig.groups, (∀ o ∈ g.objects, Source.isIdentifier o.name = true) ∧ '\n' ∉ g.name.toList) ∧
      ((stubDrafts detourConfig).map Draft.path).Nodup ∧
      report.written = ["pkg/api/v0/x.go", "pkg/api/v0/x/../x.go"] ∧
      inspector t' (sourcePath "" "v0" "x") = .ok file ∧ file.structs.map (·.name) = ["Release"] := by
  have hcreated : (createSources ⟨[], []⟩ detourConfig ⟨"", .base⟩ false).2.toOption =
      some ⟨["pkg/api/v0/x.go", "pkg/api/v0/x/../x.go"], [], []⟩ := by
    decide +kernel
  have hthere : ((createSources ⟨[], []⟩ detourConfig ⟨"", .base⟩ false).1.read
      (sourcePath "" "v0" "x")).isOk = true := by
    decide +kernel
  have h := eq_of_toOption hcreated
  obtain ⟨-, hwrite⟩ := createSources_ok_iff.mp h
  generalize (createSources ⟨[], []⟩ detourConfig ⟨"", .base⟩ false).1 = t' at h hthere hwrite
  have hversions : directGroup.versions = ["v0"] ∧ detourGroup.versions = ["v0"] := by decide +kernel
  have hdrafts : stubDrafts detourConfig = [stubDraft directGroup "v0"] ++ [stubDraft detourGroup "v0"] := by
    rw [stubDrafts_eq, detourConfig, List.flatMap_cons, List.flatMap_cons, hversions.1, hversions.2]
    rfl
  rw [hdrafts] at hwrite
  have hlast := (Tree.locate_file (last_of_writeAll hwrite rfl)).2
  -- The place of the second stub is that of the first.
  have hworking := (createSources_edits ⟨[], []⟩ detourConfig ⟨"", .base⟩ false).workingDirectory
  rw [h] at hworking
  have hplace : t'.placeOf (Path.join "" (sourcePath "" "v0" detourGroup.name)) =
      t'.placeOf (sourcePath "" "v0" "x") := by
    rw [Tree.placeOf, Tree.placeOf, hworking]
    decide +kernel
  have hpath : (stubDraft detourGroup "v0").path = sourcePath "" "v0" detourGroup.name := by rw [stubDraft]
  rw [hpath, hplace] at hlast
  have htext := Tree.readText_of_get? hthere hlast
  have hvalid : Version.isValid "v0" = true := by decide
  obtain ⟨file, hfile, -, hstructs⟩ := inspector_stub hvalid (by decide) (by decide +kernel) htext
  have hobjects : detourGroup.objects.filter (·.versions.contains "v0") = detourGroup.objects := by decide
  rw [hobjects] at hstructs
  exact ⟨t', _, file, h, by decide +kernel, by decide +kernel, rfl, hfile, names_of_mirrors hstructs⟩

end Workspace

end ApiForge
