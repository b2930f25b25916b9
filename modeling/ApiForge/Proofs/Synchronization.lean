import ApiForge.Proofs.Ownership
import ApiForge.Proofs.PartialRuns

/-! What is left of generated files after synchronization. At every path that an emitter could have generated a file
for, there is the file that the run made, or none: what was there before does not count, so two projects with the same
sources come to have the same generated files. -/

namespace ApiForge

open Files (Content Entry Place Report Session Tree Writer)

/-! ### Trees whose files have names -/

namespace Files.Tree

/-- Everything has a name that a path can say, and so have the directories that it is in. -/
def Named (t : Tree) : Prop :=
  ∀ q, t.get? q ≠ none → ∀ n ∈ q, Path.IsName n ∧ '/' ∉ n.toList

theorem named_iff {t : Tree} : t.Named ↔
    ∀ e ∈ t.entries, ∀ n ∈ e.1, Path.Component.ofSegment? n = some (.name n) ∧ '/' ∉ n.toList := by
  constructor
  · exact fun h e he => h e.1 (get?_ne_none_of_mem he)
  · intro hentries q hq
    rw [get?] at hq
    split at hq
    · rename_i hroot
      rw [hroot]
      exact fun n hn => absurd hn List.not_mem_nil
    · obtain ⟨e, he⟩ := Option.ne_none_iff_exists'.mp (mt Option.map_eq_none_iff.mpr hq)
      have hplace : e.1 = q := by simpa using List.find?_some he
      exact hplace ▸ hentries e (List.mem_of_find?_eq_some he)

instance (t : Tree) : Decidable t.Named :=
  decidable_of_iff _ named_iff.symm

/-- What is lost was as it is for all that is left. -/
theorem Lost.keepsAll {t t' : Tree} (h : t.Lost t') (hworking : t'.workingDirectory = t.workingDirectory) :
    t'.KeepsAll t where
  workingDirectory := hworking.symm
  directories q hq := by
    rcases h q with hsame | hnone
    · rw [← hsame, hq]
    · rw [hq] at hnone
      cases hnone
  files q content hq _ := by
    rcases h q with hsame | hnone
    · rw [← hsame, hq]
    · rw [hq] at hnone
      cases hnone

end Files.Tree

theorem Files.Tree.mem_entries_of_mem_filesBelow {t : Tree} {place names : Place} {content : Content}
    (h : (names, content) ∈ t.filesBelow place) : (place ++ names, Entry.file content) ∈ t.entries := by
  obtain ⟨⟨q, entry⟩, he, hbelow⟩ := List.mem_filterMap.mp h
  cases entry with
  | directory => cases hbelow
  | file content' =>
      dsimp only at hbelow
      split at hbelow
      · rename_i hwithin
        obtain ⟨rest, rfl⟩ := List.isPrefixOf_iff_prefix.mp hwithin
        rw [List.drop_left, Option.some.injEq, Prod.mk.injEq] at hbelow
        rw [← hbelow.1, ← hbelow.2]
        exact he
      · cases hbelow

theorem InPlace.named {root : String} {t s : Tree} {done : List Draft} (h : InPlace root t done s)
    (hroot : done ≠ [] → t.Reaches root) (hdescends : ∀ d ∈ done, Path.Descends d.path) (hconnected : t.Connected)
    (hnamed : t.Named) : s.Named := by
  intro q hq
  by_cases hway : ∃ d ∈ done, OnWay (t.placeOf root) d.path q
  · obtain ⟨d, hd, honWay⟩ := hway
    obtain ⟨front, -, hwithin, rfl⟩ := (onWay_iff (hdescends d hd).names_ne_nil).mp honWay
    have hbase : t.get? (t.placeOf root) ≠ none := by
      rw [hconnected.get?_root (hroot (List.ne_nil_of_mem hd))]
      rintro ⟨⟩
    intro n hn
    rcases List.mem_append.mp hn with hn | hn
    · exact hnamed _ hbase n hn
    · have hn := hwithin.subset hn
      exact ⟨Path.isName_of_mem_names hn, Path.slash_not_mem_names hn⟩
  · rw [h.others q fun d hd honWay => hway ⟨d, hd, honWay⟩] at hq
    exact hnamed q hq

/-! ### Stale files -/

theorem Path.names_of_components {path : String} {ns : List String} (h : components path = ns.map .name) :
    names path = ns := by
  rw [names, h, List.filterMap_map]
  exact List.filterMap_some

/-- A path that generated files can have: below one of the directories where they are, and owned by an emitter. -/
structure GeneratedPath (path : String) : Prop where
  descends : Path.Descends path
  below : ∃ directory ∈ generatedDirectories, Path.names directory <+: Path.names path
  owned : ∃ e ∈ defaultEmitters, e.Owns path

/-- The directories are not named like generated files, so a name that is comes below them. -/
theorem last_below {directory : String} (hdirectory : directory ∈ generatedDirectories) {rest : List String}
    (h : (Path.names directory ++ rest).getLast?.any isGeneratedName = true) :
    rest.getLast?.any isGeneratedName = true := by
  have hall : ∀ d ∈ generatedDirectories, (Path.names d).getLast?.any isGeneratedName = false := by decide +kernel
  rcases List.eq_nil_or_concat' rest with rfl | ⟨others, last, rfl⟩
  · rw [List.append_nil, hall directory hdirectory] at h
    cases h
  · rw [← List.append_assoc, List.getLast?_concat] at h
    rwa [List.getLast?_concat]

/-- Below the directory, the last of the names is that of a file. -/
theorem GeneratedPath.exists_below {path : String} (h : GeneratedPath path) : ∃ directory ∈ generatedDirectories,
    ∃ rest, Path.names path = Path.names directory ++ rest ∧ rest.getLast?.any isGeneratedName = true := by
  obtain ⟨directory, hdirectory, rest, hrest⟩ := h.below
  obtain ⟨e, he, howns⟩ := h.owned
  obtain ⟨front, stem, hlast⟩ := howns.exists_stem he h.descends.names_ne_nil
  refine ⟨directory, hdirectory, rest, hrest.symm, last_below hdirectory ?_⟩
  rw [hrest, hlast, List.getLast?_concat, Option.any_some]
  exact isGeneratedName_iff.mpr ⟨stem, rfl⟩

section Stale

variable {t : Tree} {root : String} {report : Report} {owned : String → Bool} {path : String}

theorem unproduced_of_mem_staleFiles (h : path ∈ staleFiles t root report owned) :
    ∀ x ∈ report.produced, Path.same path x = false := by
  rcases mem_of_mem_sorted h with h | h
  · obtain ⟨-, hstale⟩ := List.mem_filter.mp h
    rw [Bool.and_eq_true, Bool.not_eq_true', List.any_eq_false] at hstale
    exact fun x hx => Bool.eq_false_iff.mpr (hstale.1 x hx)
  · cases h

/-- A generated file below a directory of such files, by its path and by its place. -/
theorem exists_below_of_mem_generatedBelow (hnamed : t.Named) (hroot : t.Reaches root) {directory : String}
    (hdirectory : directory ∈ generatedDirectories) (h : path ∈ generatedBelow t root directory) :
    Path.Descends path ∧ ∃ rest content, path = "/".intercalate (directory :: rest) ∧
      Path.names path = Path.names directory ++ rest ∧ rest.getLast?.any isGeneratedName = true ∧
      (t.placeOf root ++ Path.names path, Entry.file content) ∈ t.entries := by
  have hdescends := descends_generatedDirectories hdirectory
  obtain ⟨-, front, stem, hlast⟩ := last_generatedBelow hdirectory h
  obtain ⟨place, hlocate, ⟨rest, content⟩, hbelow, hgenerated, rfl⟩ := mem_generatedBelow_iff.mp h
  obtain ⟨rfl, -, -⟩ := (Tree.locate_descends hroot hdescends).mp hlocate
  have hentry := Tree.mem_entries_of_mem_filesBelow hbelow
  have hrest : ∀ n ∈ rest, Path.IsName n ∧ '/' ∉ n.toList := fun n hn =>
    hnamed _ (Tree.get?_ne_none_of_mem hentry) n (List.mem_append_right _ hn)
  have hcomponents := Path.components_below hdescends hrest
  have hnames := Path.names_of_components hcomponents
  refine ⟨⟨?_, front, _, hlast, isName_generated stem⟩, rest, content, rfl, hnames, hgenerated, ?_⟩
  · rw [hnames, hcomponents]
  · rw [hnames, ← List.append_assoc]
    exact hentry

/-- A file that can be read below a directory of generated files is found there, if it is named like one. -/
theorem mem_generatedBelow_of_read (hconnected : t.Connected) (hroot : t.Reaches root) (hpath : Path.Descends path)
    {directory : String} (hdirectory : directory ∈ generatedDirectories) {rest : List String}
    (hnames : Path.names path = Path.names directory ++ rest) (hlast : rest.getLast?.any isGeneratedName = true)
    {content : Content} (hread : t.read (Path.join root path) = .ok content) :
    "/".intercalate (directory :: rest) ∈ generatedBelow t root directory := by
  obtain ⟨-, hget⟩ := (Tree.read_descends hroot hpath).mp hread
  rw [hnames, ← List.append_assoc] at hget
  have hne : rest ≠ [] := by
    rintro rfl
    cases hlast
  have hthere : t.get? (t.placeOf root ++ Path.names directory) = some .directory :=
    hconnected.above hne (by rw [hget]; rintro ⟨⟩)
  exact mem_generatedBelow_iff.mpr ⟨_, (Tree.locate_descends hroot (descends_generatedDirectories hdirectory)).mpr
    ⟨rfl, hconnected.through (by rw [hthere]; rintro ⟨⟩), hthere⟩, (rest, content), Tree.mem_filesBelow hget, hlast, rfl⟩

/-- Stale paths lead down. -/
theorem descends_of_mem_staleFiles (hnamed : t.Named) (hroot : t.Reaches root)
    (h : path ∈ staleFiles t root report owned) : Path.Descends path := by
  obtain ⟨⟨directory, hdirectory, hbelow⟩, -⟩ := mem_staleFiles h
  exact (exists_below_of_mem_generatedBelow hnamed hroot hdirectory hbelow).1

end Stale

/-! ### After synchronization -/

namespace Workspace

/-- What a synchronization that succeeds has come to, after its run and in the end. -/
structure Refreshed (t t₁ t' : Tree) (c : Config) (p : Project) (m : Model) (report : Report) : Prop where
  completed : Completed t c p m t₁
  produced : ∀ path, path ∈ report.produced ↔ ∃ a ∈ m.artifacts p, a.path = path
  named : t₁.Named
  pruned : ∃ owned, ownedPaths defaultEmitters = .ok owned ∧
    t' = deleteFiles t₁ p.root (staleFiles t₁ p.root report owned)

variable {t t₁ t' : Tree} {c : Config} {p : Project} {m : Model} {report : Report}

theorem refreshed (hplain : c.Plain) (hdotless : c.Without '.') (hconnected : t.Connected) (hnamed : t.Named)
    {pruned : List String} (h : sync t c p false = (t', .ok (report, pruned))) :
    ∃ m t₁, Refreshed t t₁ t' c p m report := by
  obtain ⟨t₁, owned, hgenerate, howned, rfl, hpruned⟩ := sync_ok_iff.mp h
  obtain ⟨m, hcompleted⟩ := completed hplain hdotless hconnected rfl rfl hgenerate
  obtain ⟨m', hmodel, -, hwrite⟩ := generate_ok_iff.mp hgenerate
  obtain rfl : m' = m := Except.ok.inj (hmodel.symm.trans hcompleted.modelled)
  refine ⟨m', t₁, hcompleted, fun path => ?_, ?_, owned, howned, hpruned⟩
  · rw [Writer.mem_produced_iff hwrite, m'.selection_nil, List.map_map, List.mem_map]
    exact or_iff_right (fun hmem => absurd hmem List.not_mem_nil)
  · exact hcompleted.inPlace.named hcompleted.reaches hcompleted.compatible.descends hconnected hnamed

namespace Refreshed

variable {path : String} (hplain : c.Plain)

include hplain

/-- The file that the run made is kept. -/
theorem kept (h : Refreshed t t₁ t' c p m report) (hpath : GeneratedPath path) {a : Artifact}
    (ha : a ∈ m.artifacts p) (hsame : Path.same a.path path = true) :
    a.mode = .overwrite ∧ t'.read (Path.join p.root path) = .ok a.content := by
  have hdraft := List.mem_map_of_mem (f := Artifact.draft) ha
  have hdescends : Path.Descends a.path := h.completed.compatible.descends _ hdraft
  have hnames := (hdescends.same_iff hpath.descends).mp hsame
  have hbuilt := buildModel_ok h.completed.modelled
  obtain ⟨e, he, howns⟩ := hpath.owned
  have hmode : a.mode = .overwrite := by
    apply hbuilt.overwritten_of_owns hplain ((hbuilt.pathsApart_iff_filesApart hplain).mp h.completed.apart) he ha
      hdescends
    rw [Emitter.Owns, hnames]
    exact howns
  refine ⟨hmode, ?_⟩
  have hroot := h.completed.reaches (List.ne_nil_of_mem hdraft)
  have hroot₁ := h.completed.inPlace.reaches hroot
  have hread : t₁.read (Path.join p.root path) = .ok a.content := by
    have htarget := h.completed.inPlace.target _ hdraft
    have hway := h.completed.inPlace.way _ hdraft
    rw [Draft.outcome_overwrite hmode] at htarget
    rw [Tree.read_descends hroot₁ hpath.descends, h.completed.inPlace.placeOf_eq, ← hnames]
    exact ⟨hway, htarget⟩
  obtain ⟨owned, howned, hpruned⟩ := h.pruned
  obtain ⟨q, hlocate⟩ := Tree.read_ok_iff.mp hread
  obtain ⟨hplace, hfile⟩ := Tree.locate_file hlocate
  have hkeeps := deleteFiles_keeps (t := t₁) p.root (staleFiles t₁ p.root report owned)
  rw [hpruned]
  refine Tree.read_ok_iff.mpr ⟨q, hkeeps.locate_file hlocate (hkeeps.files q a.content hfile ?_)⟩
  -- A stale path that led there would be that of the artifact.
  rintro ⟨x, hx, hleads⟩
  have hxdescends := descends_of_mem_staleFiles h.named hroot₁ hx
  rw [hplace, Tree.placeOf, Tree.placeOf, Path.placeFrom_join _ _ hxdescends.relative, hxdescends.walk,
    Path.placeFrom_join _ _ hpath.descends.relative, hpath.descends.walk, List.append_cancel_left_eq, ← hnames]
    at hleads
  have hunproduced := unproduced_of_mem_staleFiles hx a.path ((h.produced _).mpr ⟨a, ha, rfl⟩)
  rw [(hxdescends.same_iff hdescends).mpr hleads] at hunproduced
  cases hunproduced

omit hplain in
/-- A file that is there in the end was there when the run was over. -/
theorem locate_before (h : Refreshed t t₁ t' c p m report) {q : Place} {content : Content}
    (hlocate : t'.locate path = .ok (q, .file content)) : t₁.locate path = .ok (q, .file content) := by
  obtain ⟨owned, -, hpruned⟩ := h.pruned
  have hlost := deleteFiles_lost (t := t₁) p.root (staleFiles t₁ p.root report owned)
  have hkeeps := deleteFiles_keeps (t := t₁) p.root (staleFiles t₁ p.root report owned)
  rw [← hpruned] at hlost hkeeps
  have hback := hlost.keepsAll hkeeps.workingDirectory
  exact hback.locate_file hlocate (hback.files q content (Tree.locate_file hlocate).2 not_false)

omit hplain in
/-- A file that the run did not make is gone. -/
theorem exists_artifact (h : Refreshed t t₁ t' c p m report) (hpath : GeneratedPath path) {content : Content}
    (hread : t'.read (Path.join p.root path) = .ok content) : ∃ a ∈ m.artifacts p, Path.same a.path path = true := by
  obtain ⟨owned, howned, hpruned⟩ := h.pruned
  obtain ⟨q, hlocate'⟩ := Tree.read_ok_iff.mp hread
  have hlocate := h.locate_before hlocate'
  have hread₁ : t₁.read (Path.join p.root path) = .ok content := Tree.read_ok_iff.mpr ⟨q, hlocate⟩
  have hroot := Tree.reaches_of_read hpath.descends.relative hread₁
  obtain ⟨directory, hdirectory, rest, hnames, hlast⟩ := hpath.exists_below
  have hrest : ∀ n ∈ rest, Path.IsName n ∧ '/' ∉ n.toList := by
    intro n hn
    have hn : n ∈ Path.names path := hnames ▸ List.mem_append_right _ hn
    exact ⟨Path.isName_of_mem_names hn, Path.slash_not_mem_names hn⟩
  have hcomponents := Path.components_below (descends_generatedDirectories hdirectory) hrest
  rw [← hnames, ← hpath.descends.components] at hcomponents
  have hbelow := mem_generatedBelow_of_read h.completed.inPlace.connected hroot hpath.descends hdirectory hnames hlast
    hread₁
  by_contra hnone
  have hfree : ∀ x ∈ report.produced, Path.components x ≠ Path.components ("/".intercalate (directory :: rest)) := by
    intro x hx hxcomponents
    obtain ⟨a, ha, rfl⟩ := (h.produced x).mp hx
    exact hnone ⟨a, ha, Path.same_iff_components.mpr (hxcomponents.trans hcomponents)⟩
  have howns : owned ("/".intercalate (Path.names ("/".intercalate (directory :: rest)))) = true := by
    obtain ⟨e, he, howns⟩ := hpath.owned
    rw [Path.names, hcomponents, ← Path.names]
    exact (ownedPaths_ok howned).mpr ⟨e, he, howns⟩
  -- So the path is stale, and what is found by it has been deleted.
  obtain ⟨x, hx, hxcomponents⟩ := exists_staleFiles hdirectory hbelow hfree howns
  obtain ⟨hxrelative, front, stem, -, hxlast⟩ := last_staleFiles howned hx
  have hfound := Path.locate_join_congr (hxcomponents.trans hcomponents) hxrelative hlocate
    ⟨front, _, hxlast, isName_generated stem⟩
  have hgone := get?_deleteFiles hx hfound
  rw [← hpruned, (Tree.locate_file hlocate').2] at hgone
  cases hgone

/-- The generated files are those that the run made. -/
theorem read_iff (h : Refreshed t t₁ t' c p m report) (hpath : GeneratedPath path) {content : Content} :
    t'.read (Path.join p.root path) = .ok content ↔
      ∃ a ∈ m.artifacts p, a.mode = .overwrite ∧ Path.same a.path path = true ∧ content = a.content := by
  constructor
  · intro hread
    obtain ⟨a, ha, hsame⟩ := h.exists_artifact hpath hread
    obtain ⟨hmode, hkept⟩ := h.kept hplain hpath ha hsame
    exact ⟨a, ha, hmode, hsame, Except.ok.inj (hread.symm.trans hkept)⟩
  · rintro ⟨a, ha, -, hsame, rfl⟩
    exact (h.kept hplain hpath ha hsame).2

end Refreshed

/-- Whatever was there before a synchronization that succeeds, at each path that generated files can have is afterwards
the artifact of that path, if the run has made one, and otherwise no file. So the files at these paths are the same for
any two trees with the same sources. -/
theorem generated_files_synchronized {t t' : Tree} {c : Config} {p : Project} {report : Report} {pruned : List String}
    (hplain : c.Plain) (hdotless : c.Without '.') (hconnected : t.Connected) (hnamed : t.Named)
    (h : sync t c p false = (t', .ok (report, pruned))) :
    ∃ m, model t c p = .ok m ∧
      (∀ path, GeneratedPath path →
        ((∃ content, t'.read (Path.join p.root path) = .ok content) ↔
          ∃ x ∈ report.produced, Path.same x path = true) ∧
        ∀ content, t'.read (Path.join p.root path) = .ok content ↔
          ∃ a ∈ m.artifacts p, a.mode = .overwrite ∧ Path.same a.path path = true ∧ content = a.content) ∧
      ∀ other other' : Tree, ∀ report' pruned', other.Connected → other.Named →
        (∀ g ∈ c.groups, ∀ v ∈ g.versions, other.read (p.source g v) = t.read (p.source g v)) →
        sync other c p false = (other', .ok (report', pruned')) →
        ∀ path, GeneratedPath path → ∀ content,
          other'.read (Path.join p.root path) = .ok content ↔ t'.read (Path.join p.root path) = .ok content := by
  obtain ⟨m, t₁, hrefreshed⟩ := refreshed hplain hdotless hconnected hnamed h
  refine ⟨m, hrefreshed.completed.modelled, fun path hpath => ⟨?_, fun content => hrefreshed.read_iff hplain hpath⟩, ?_⟩
  · constructor
    · rintro ⟨content, hread⟩
      obtain ⟨a, ha, hsame⟩ := hrefreshed.exists_artifact hpath hread
      exact ⟨a.path, (hrefreshed.produced _).mpr ⟨a, ha, rfl⟩, hsame⟩
    · rintro ⟨x, hx, hsame⟩
      obtain ⟨a, ha, rfl⟩ := (hrefreshed.produced x).mp hx
      exact ⟨a.content, (hrefreshed.kept hplain hpath ha hsame).2⟩
  · intro other other' report' pruned' hconnected' hnamed' hsources h' path hpath content
    obtain ⟨m', t₁', hrefreshed'⟩ := refreshed hplain hdotless hconnected' hnamed' h'
    have hmodel : model other c p = model t c p :=
      buildModel_congr fun g hg v hv => inspector_congr (hsources g hg v hv)
    have hsame := hrefreshed'.completed.modelled
    rw [hmodel, hrefreshed.completed.modelled] at hsame
    cases hsame
    rw [hrefreshed'.read_iff hplain hpath, hrefreshed.read_iff hplain hpath]

/-- A file of a group of old is gone, and that of the group is what the run has made. -/
theorem charts_synchronized : ∃ t' report pruned,
    sync chartsTree chartsConfig ⟨"", .base⟩ false = (t', .ok (report, pruned)) ∧
      (∀ content, t'.read "pkg/api/v0/old_gen.go" ≠ .ok content) ∧
        ∃ content, t'.read "pkg/api/v0/helm_gen.go" = .ok content := by
  have hwritten : (sync chartsTree chartsConfig ⟨"", .base⟩ false).2.toOption =
      some (⟨["pkg/api/v0/helm_gen.go", "pkg/api/v0/notifications_gen.go", "pkg/api-server/v0/versions/helm_gen.go"],
        [], []⟩, ["pkg/api/v0/old_gen.go"]) := by
    decide +kernel
  have hpath : ∀ path ∈ ["pkg/api/v0/old_gen.go", "pkg/api/v0/helm_gen.go"], GeneratedPath path := by
    have hall : ∀ path ∈ ["pkg/api/v0/old_gen.go", "pkg/api/v0/helm_gen.go"],
        (∀ s ∈ Path.segments path, Path.Component.ofSegment? s = some (.name s)) ∧
          Path.names "pkg/api" <+: Path.names path ∧
            PathTemplate.accepts (PathTemplate.parse Emitter.objects.path.toList).1
              ("/".intercalate (Path.names path)).toList = true := by
      decide +kernel
    intro path hmem
    obtain ⟨hsegments, hbelow, haccepts⟩ := hall path hmem
    exact ⟨(Path.descends_of_names hsegments).1, ⟨"pkg/api", by decide, hbelow⟩, Emitter.objects,
      List.mem_cons_self, ⟨rfl, by decide +kernel⟩, haccepts⟩
  obtain ⟨m, -, hfiles, -⟩ := generated_files_synchronized (c := chartsConfig) ⟨by decide, by decide⟩
    ⟨by decide, by decide⟩ (by decide +kernel) (by decide +kernel) (eq_of_toOption hwritten)
  have hold := (hfiles "pkg/api/v0/old_gen.go" (hpath _ (by decide))).1
  have hnew := (hfiles "pkg/api/v0/helm_gen.go" (hpath _ (by decide))).1
  refine ⟨_, _, _, eq_of_toOption hwritten, fun content hread => ?_, ?_⟩
  · have hnone : ¬∃ x ∈ (⟨["pkg/api/v0/helm_gen.go", "pkg/api/v0/notifications_gen.go",
        "pkg/api-server/v0/versions/helm_gen.go"], [], []⟩ : Report).produced,
          Path.same x "pkg/api/v0/old_gen.go" = true := by
      decide +kernel
    exact hnone (hold.mp ⟨content, hread⟩)
  · exact hnew.mpr ⟨"pkg/api/v0/helm_gen.go", by decide, by decide +kernel⟩

end Workspace

end ApiForge
