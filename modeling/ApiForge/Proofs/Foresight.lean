import ApiForge.Proofs.DryRuns
import ApiForge.Proofs.LatestObjects
import Mathlib.Data.List.Pairwise

/-! What dry runs of the commands foretell. Where stubs of two groups have one path, a dry run would write it twice; the
run that writes does so once and skips the other, and this is the one way in which names without slashes and dots make
the two reports differ. -/

namespace ApiForge

open Files (Content Place Report Session Tree Writer)

/-! ### Drafts of artifacts -/

theorem PathsApart.eq_of_same {artifacts : List Artifact} (h : PathsApart artifacts) {a b : Artifact}
    (ha : a ∈ artifacts) (hb : b ∈ artifacts) (hsame : Path.same a.path b.path = true) : a = b := by
  have : Std.Symm fun a b : Artifact => Path.same a.path b.path = false :=
    ⟨fun a b hab => Path.same_comm a.path b.path ▸ hab⟩
  by_contra hne
  exact absurd (hsame.symm.trans (List.Pairwise.forall h ha hb hne)) (by decide)

/-- Artifacts whose paths differ are not in each other's way. -/
theorem level_artifacts {artifacts : List Artifact} (hdotted : ∀ a ∈ artifacts, a.Dotted) (hapart : PathsApart artifacts) :
    Level (artifacts.map Artifact.draft) := by
  intro d hd e he hmode hwithin
  obtain ⟨a, ha, rfl⟩ := List.mem_map.mp hd
  obtain ⟨b, hb, rfl⟩ := List.mem_map.mp he
  have hnames := (hdotted b hb).eq_of_within (hdotted a ha) hmode hwithin
  have hsame := ((hdotted b hb).descends.same_iff (hdotted a ha).descends).mpr hnames
  rw [hapart.eq_of_same hb ha hsame]

/-! ### Sources and the root -/

/-- A way that leads below a root leads through it. -/
theorem Files.Tree.reaches_of_follow {t : Tree} {root path : String} {front : List String} {q : Place}
    (hrelative : Path.isAbsolute path = false)
    (h : t.follow (t.origin (Path.join root path)) (Path.joint root ++ front) = .ok q) : t.Reaches root := by
  have horigin : t.origin (Path.join root path) = t.origin root := by
    rw [Tree.origin, Tree.origin, Path.isAbsolute_join root hrelative]
  rw [horigin, Tree.follow_append_iff] at h
  obtain ⟨mid, hmid, -⟩ := h
  rw [Tree.follow_eq_foldlM, Path.filterMap_joint, ← Tree.follow_eq_foldlM] at hmid
  rw [Tree.Reaches, hmid, Tree.follow_ok hmid]
  rfl

/-- A file that is found below a root can only be found through it. -/
theorem Files.Tree.reaches_of_read {t : Tree} {root path : String} {content : Content}
    (hrelative : Path.isAbsolute path = false) (hread : t.read (Path.join root path) = .ok content) : t.Reaches root := by
  obtain ⟨q, hlocate⟩ := Tree.read_ok_iff.mp hread
  obtain ⟨front, name, place, hsegments, -, hfollow, -, -⟩ := Tree.locate_file_iff.mp hlocate
  rw [Path.segments_join root hrelative] at hsegments
  have hne : Path.segments path ≠ [] := List.cons_ne_nil _ _
  obtain ⟨dirs, last, hpath⟩ := (List.eq_nil_or_concat' (Path.segments path)).resolve_left hne
  rw [hpath, ← List.append_assoc] at hsegments
  rw [← (List.append_singleton_inj.mp hsegments).1] at hfollow
  exact reaches_of_follow hrelative hfollow

namespace Config.Built

variable {project : Project} {inspect : Inspector} {c : Config} {m : Model}

/-- Where there is an artifact, there is a source. -/
theorem exists_source (h : c.Built project inspect m) {a : Artifact} (ha : a ∈ m.artifacts project) :
    ∃ g ∈ c.groups, ∃ v, v ∈ g.versions := by
  have hversion {v : String} (hv : v ∈ c.versions) : ∃ g ∈ c.groups, ∃ v, v ∈ g.versions := by
    rw [Config.versions, Version.sort, mem_sortBy, NameSet.mem_ofList] at hv
    obtain ⟨o, ho, hv⟩ := List.mem_flatMap.mp hv
    obtain ⟨g, hg, ho⟩ := List.mem_flatMap.mp ho
    exact ⟨g, hg, v, GroupConfig.mem_versions.mpr ⟨o, ho, hv⟩⟩
  have hobject {g : Group} (hg : g ∈ m.groups) {o : ApiObject} (ho : o ∈ g.objects) :
      ∃ g ∈ c.groups, ∃ v, v ∈ g.versions :=
    hversion (h.version_mem hg (List.mem_map_of_mem ho))
  have hreconciled {g : Group} (hg : g ∈ m.groups) {r : ReconciledObject} (hr : r ∈ g.reconciled) :
      ∃ g ∈ c.groups, ∃ v, v ∈ g.versions := by
    obtain ⟨o, ho⟩ := (h.controlled hg).entries r hr
    exact hobject hg ho.mem
  obtain ⟨x, hx, -⟩ := exists_of_forall₂ h.artifacts_sites ha
  obtain ⟨he, ht, happlies⟩ := Model.mem_sites.mp hx
  obtain ⟨e, t⟩ := x
  have hwithin := Target.mem_all_iff.mp ht
  cases t with
  | version s i => exact hversion (h.partitioned.mem_versions hwithin.2.1)
  | versionGroup s g => exact hversion (h.partitioned.mem_versions hwithin.2.1)
  | reconciledObject g r => exact hreconciled hwithin.2.1 hwithin.2.2
  | group g =>
      -- Files of a group are for its commands or its reconcilers, so it has an object.
      have hkind : hasCommands (.group g) = true ∨ hasReconcilers (.group g) = true := by
        have hgranularity : e.granularity = .group := hwithin.1
        simp only [defaultEmitters, List.mem_cons, List.not_mem_nil, or_false] at he
        rcases he with rfl | rfl | rfl | rfl | rfl | rfl | rfl | rfl | rfl | rfl | rfl | rfl | rfl | rfl <;>
          first | cases hgranularity; done | exact Or.inl happlies | exact Or.inr happlies
      rcases hkind with hcommands | hreconcilers
      · rw [hasCommands, Bool.and_eq_true, Bool.not_eq_true', List.isEmpty_eq_false_iff] at hcommands
        obtain ⟨o, ho⟩ := List.exists_mem_of_ne_nil _ hcommands.2
        exact hobject hwithin.2 (Group.latest_latestObjects g |>.mem o (Group.mem_commandObjects.mp ho).1)
      · obtain ⟨r, hr⟩ := List.exists_mem_of_ne_nil _ (Generated.reconciled_ne_nil hreconcilers)
        exact hreconciled hwithin.2 hr

end Config.Built

/-! ### Stubs -/

theorem Path.descends_of_names {path : String} (h : ∀ s ∈ segments path, IsName s) :
    Descends path ∧ names path = segments path := by
  have hne : segments path ≠ [] := List.cons_ne_nil _ _
  have hfirst : ∀ s, (segments path).head? = some s → IsName s := fun s hs => h s (List.mem_of_head? hs)
  have hrelative : isAbsolute path = false := by
    rw [Bool.eq_false_iff]
    intro habsolute
    obtain ⟨rest, -, hsegments⟩ := isAbsolute_iff.mp habsolute
    exact (isName_iff.mp (hfirst "" (by rw [hsegments, List.head?_cons]))).1 rfl
  have hhere : (segments path).head? ≠ some "." := fun hhead => (isName_iff.mp (hfirst "." hhead)).2.1 rfl
  have hnames := names_eq h
  refine ⟨⟨?_, (segments path).dropLast, (segments path).getLast hne, (List.dropLast_append_getLast hne).symm,
    h _ (List.getLast_mem hne)⟩, hnames⟩
  rw [hnames, components, if_neg (by simp [hrelative]), if_neg hhere, List.nil_append, ← List.filterMap_eq_map]
  exact List.filterMap_congr h

/-- A source is so many names below the root of the project. -/
theorem descends_sourceBelow {version file : String} (hversion : Version.isValid version = true)
    (hfile : Path.IsName file) (hslash : '/' ∉ file.toList) : Path.Descends (sourceBelow version file) ∧
      Path.names (sourceBelow version file) = ["pkg", "api", version, file] := by
  have hsegments := segments_sourceBelow (Version.segment_of_isValid hversion).1 hslash
  rw [← hsegments]
  apply Path.descends_of_names
  rw [hsegments]
  exact isName_beside hversion hfile

namespace Workspace

variable {t t' : Tree} {c : Config} {p : Project}

theorem mode_of_mem_stubDrafts {d : Draft} (hd : d ∈ stubDrafts c) : d.mode = .scaffold := by
  obtain ⟨stub, -, rfl⟩ := List.mem_map.mp hd
  rfl

/-- Where the stubs go when no name of a group has a slash. -/
theorem path_of_mem_stubDrafts (hcheck : c.check = .ok ()) (hplain : ∀ g ∈ c.groups, '/' ∉ g.name.toList) {d : Draft}
    (hd : d ∈ stubDrafts c) : ∃ version file, d.path = sourceBelow version file ∧ Path.Descends d.path ∧
      Path.names d.path = ["pkg", "api", version, file] := by
  obtain ⟨stub, hstub, rfl⟩ := List.mem_map.mp hd
  obtain ⟨g, hg, hstub⟩ := List.mem_flatMap.mp hstub
  obtain ⟨v, hv, rfl⟩ := List.mem_map.mp hstub
  obtain ⟨o, ho, hv⟩ := GroupConfig.mem_versions.mp hv
  have hvalid : Version.isValid v = true := (((Config.check_eq_ok_iff.mp hcheck).groups g hg).objects o ho).valid v hv
  have hpath : sourcePath "" v g.name = sourceBelow v (Text.snakeCase g.name ++ ".go") := by
    rw [sourcePath_eq hvalid (hplain g hg), Path.join, if_pos (by simp)]
  dsimp only
  rw [hpath]
  exact ⟨v, _, rfl, descends_sourceBelow hvalid (isName_sourceFile _) (slashless_sourceFile (hplain g hg))⟩

theorem level_stubDrafts (hcheck : c.check = .ok ()) (hplain : ∀ g ∈ c.groups, '/' ∉ g.name.toList) :
    Level (stubDrafts c) := by
  intro d hd e he _ hwithin
  obtain ⟨v, file, hdpath, -, hdnames⟩ := path_of_mem_stubDrafts hcheck hplain hd
  obtain ⟨v', file', hepath, -, henames⟩ := path_of_mem_stubDrafts hcheck hplain he
  have hnames := hwithin.eq_of_length (by rw [hdnames, henames]; rfl)
  rw [hdnames, henames] at hnames
  obtain ⟨rfl, rfl⟩ : v' = v ∧ file' = file := by simpa using hnames
  rw [hdpath, hepath]

/-! ### The three commands -/

section Create

variable {real : Report}

theorem create_foretold (h : createSources t c p false = (t', .ok real)) :
    ∃ dry, createSources t c p true = (t, .ok dry) ∧
      (dry.Foretells real ↔ ∀ path ∈ real.skipped, t.pathExists (Path.join p.root path) = true) ∧
      ((∀ g ∈ c.groups, '/' ∉ g.name.toList) → t.Connected → t.Reaches p.root →
        (dry.Foretells real ↔ dry.wouldWrite.Nodup)) := by
  obtain ⟨hcheck, hwrite⟩ := createSources_ok_iff.mp h
  obtain ⟨dry, hdry, hmirrored⟩ := (Mirrored.start p.root t).exists_writeAll hwrite
  have htree := hmirrored.tree
  refine ⟨dry.report, createSources_ok_iff.mpr ⟨hcheck, htree ▸ hdry⟩, hmirrored.foretells_iff, ?_⟩
  intro hplain hconnected hroot
  have hdescends : ∀ d ∈ stubDrafts c, Path.Descends d.path := fun d hd =>
    (path_of_mem_stubDrafts hcheck hplain hd).choose_spec.choose_spec.2.1
  obtain ⟨dry', hdry', htracked⟩ := (Tracked.start hconnected hroot (stubDrafts c)).exists_writeAll hdescends
    hconnected hroot (level_stubDrafts hcheck hplain) (fun _ hd => hd) hwrite
  rw [hdry] at hdry'
  cases hdry'
  exact htracked.foretells_iff fun _ hd => mode_of_mem_stubDrafts hd

end Create

section Generate

variable {o : GenerateOptions} {real : Report}

/-- The root is there if anything is to be written. -/
theorem reaches_of_generate (h : generate t c p o = (t', .ok real)) {m : Model} (hmodel : model t c p = .ok m)
    (hplain : c.Plain) {a : Artifact} (ha : a ∈ m.selection p o.only) : t.Reaches p.root := by
  obtain ⟨e, he, -, ha⟩ := Model.mem_selection.mp ha
  have hbuilt := buildModel_ok hmodel
  have hartifact : a ∈ m.artifacts p := m.artifacts_eq p ▸ List.mem_flatMap.mpr ⟨e, mem_sortBy.mpr he, ha⟩
  obtain ⟨g, hg, v, hv⟩ := hbuilt.exists_source hartifact
  obtain ⟨m', hgenerated⟩ := generate_ok h
  obtain ⟨content, hread⟩ := hgenerated.source_read hg hv
  rw [Project.source, sourcePath_eq (hbuilt.isValid_of_mem (GroupConfig.version_mem hg hv)) (hplain.groups g hg)] at hread
  exact Tree.reaches_of_read (relative_sourceBelow _ _) hread

theorem generate_mirrored (h : generate t c p o = (t', .ok real)) (hwet : o.dryRun = false) :
    ∃ dry, generate t c p { o with dryRun := true } = (t, .ok dry) ∧
      Mirrored p.root t ⟨t', real⟩ ⟨t, dry⟩ ∧
      (c.Plain → c.Without '.' → t.Connected → dry.Foretells real ∧
        ∀ owned, staleFiles t' p.root real owned = staleFiles t p.root real owned) := by
  obtain ⟨m, hmodel, hapart, hwrite⟩ := generate_ok_iff.mp h
  rw [hwet] at hwrite
  obtain ⟨⟨tree, dry⟩, hdry, hmirrored⟩ := (Mirrored.start p.root t).exists_writeAll hwrite
  obtain rfl : tree = t := hmirrored.tree
  refine ⟨dry, generate_ok_iff.mpr ⟨m, hmodel, hapart, hdry⟩, hmirrored, fun hplain hdotless hconnected => ?_⟩
  by_cases hnone : m.selection p o.only = []
  · rw [hnone] at hwrite hdry
    cases hwrite
    cases hdry
    exact ⟨⟨rfl, rfl, rfl⟩, fun owned => rfl⟩
  · obtain ⟨a, ha⟩ := List.exists_mem_of_ne_nil _ hnone
    have hroot := reaches_of_generate h hmodel hplain ha
    have hdotted : ∀ a ∈ m.selection p o.only, a.Dotted := by
      intro a ha
      obtain ⟨e, he, -, ha⟩ := Model.mem_selection.mp ha
      exact (buildModel_ok hmodel).dotted hplain hdotless he ha
    have hdescends : ∀ d ∈ (m.selection p o.only).map Artifact.draft, Path.Descends d.path := by
      intro d hd
      obtain ⟨a, ha, rfl⟩ := List.mem_map.mp hd
      exact (hdotted a ha).descends
    obtain ⟨dry', hdry', htracked⟩ := (Tracked.start hconnected hroot _).exists_writeAll hdescends hconnected hroot
      (level_artifacts hdotted hapart) (fun _ hd => hd) hwrite
    rw [hdry] at hdry'
    cases hdry'
    -- No path is one of two artifacts, so none would be written twice.
    have hpaths : (((m.selection p o.only).map Artifact.draft).map Draft.path).Nodup := by
      rw [List.map_map]
      exact hapart.nodup_paths
    obtain ⟨paths, hwould, hsublist⟩ := wouldWrite_sublist hdry
    refine ⟨htracked.foretells ?_, fun owned => ?_⟩
    · rw [hwould, List.nil_append]
      exact hpaths.sublist hsublist
    · refine htracked.grown.staleFiles_eq hconnected hroot (fun path hpath => ?_) (fun path hpath => ?_) owned
      · exact List.mem_append_left _ (List.mem_append_left _ hpath)
      · obtain ⟨d, hd, rfl⟩ := htracked.among path hpath
        exact hdescends d hd

end Generate

theorem sync_foretold {real : Report} {pruned : List String} (h : sync t c p false = (t', .ok (real, pruned))) :
    ∃ dry stale, sync t c p true = (t, .ok (dry, stale)) ∧
      (dry.Foretells real ↔ ∀ path ∈ real.skipped, t.pathExists (Path.join p.root path) = true) ∧
      (c.Plain → c.Without '.' → t.Connected → dry.Foretells real ∧ stale = pruned) := by
  obtain ⟨t₁, owned, hgenerate, howned, rfl, -⟩ := sync_ok_iff.mp h
  obtain ⟨dry, hdry, hmirrored, hplain⟩ := generate_mirrored hgenerate rfl
  refine ⟨dry, _, sync_ok_iff.mpr ⟨t, owned, hdry, howned, rfl, rfl⟩, hmirrored.foretells_iff, ?_⟩
  intro hslashes hdots hconnected
  obtain ⟨hforetells, hstale⟩ := hplain hslashes hdots hconnected
  refine ⟨hforetells, ?_⟩
  rw [hstale, staleFiles, staleFiles, hforetells.produced_eq hmirrored.wouldWrite]

/-- Dry runs leave every file alone, and they succeed whenever the runs that write do. The reports agree exactly when
all that was skipped was there from the start. So they do for what is generated where names have neither slashes nor
dots, and the same files are stale; for stubs of sources they do as long as no path would be written twice. -/
theorem dry_runs_foretell (t : Tree) (c : Config) (p : Project) :
    ((createSources t c p true).1 = t ∧ (∀ o : GenerateOptions, o.dryRun = true → (generate t c p o).1 = t) ∧
      (sync t c p true).1 = t) ∧
    (∀ t' real, createSources t c p false = (t', .ok real) → ∃ dry, createSources t c p true = (t, .ok dry) ∧
      (dry.Foretells real ↔ ∀ path ∈ real.skipped, t.pathExists (Path.join p.root path) = true) ∧
      ((∀ g ∈ c.groups, '/' ∉ g.name.toList) → t.Connected → t.Reaches p.root →
        (dry.Foretells real ↔ dry.wouldWrite.Nodup))) ∧
    (∀ (o : GenerateOptions) t' real, o.dryRun = false → generate t c p o = (t', .ok real) →
      ∃ dry, generate t c p { o with dryRun := true } = (t, .ok dry) ∧
        (dry.Foretells real ↔ ∀ path ∈ real.skipped, t.pathExists (Path.join p.root path) = true) ∧
        (c.Plain → c.Without '.' → t.Connected → dry.Foretells real)) ∧
    ∀ t' real pruned, sync t c p false = (t', .ok (real, pruned)) →
      ∃ dry stale, sync t c p true = (t, .ok (dry, stale)) ∧
        (dry.Foretells real ↔ ∀ path ∈ real.skipped, t.pathExists (Path.join p.root path) = true) ∧
        (c.Plain → c.Without '.' → t.Connected → dry.Foretells real ∧ stale = pruned) := by
  refine ⟨⟨createSources_dry t c p, generate_dry t c p, sync_dry t c p⟩, fun t' real h => create_foretold h, ?_,
    fun t' real pruned h => sync_foretold h⟩
  intro o t' real hwet h
  obtain ⟨dry, hdry, hmirrored, hplain⟩ := generate_mirrored h hwet
  exact ⟨dry, hdry, hmirrored.foretells_iff, fun hslashes hdots hconnected => (hplain hslashes hdots hconnected).1⟩

/-- Groups whose names differ in case only, so their stubs have one path. -/
def twinConfig : Config where
  apiNamespace := "helm"
  migrationOrder := some []
  groups := [
    { name := "Helm", objects := [{ name := "Chart", versions := ["v0"] }] },
    { name := "helm", objects := [{ name := "Release", versions := ["v0"] }] }]

theorem eq_of_toOption {α : Type} {run : Tree × Except Failure α} {a : α} (h : run.2.toOption = some a) :
    run = (run.1, .ok a) := by
  obtain ⟨t, result⟩ := run
  cases result with
  | error f => cases h
  | ok b =>
      cases h
      rfl

/-- In a project without files one stub is written and the other skipped, but a dry run would write both. -/
theorem twin_stubs_foretold_twice : ∃ t' real dry,
    createSources ⟨[], []⟩ twinConfig ⟨"", .base⟩ false = (t', .ok real) ∧
      createSources ⟨[], []⟩ twinConfig ⟨"", .base⟩ true = (⟨[], []⟩, .ok dry) ∧
        dry.wouldWrite ≠ real.written ∧ dry.skipped ≠ real.skipped := by
  have hreal : (createSources ⟨[], []⟩ twinConfig ⟨"", .base⟩ false).2.toOption =
      some ⟨["pkg/api/v0/helm.go"], ["pkg/api/v0/helm.go"], []⟩ := by
    decide +kernel
  have hdry : (createSources ⟨[], []⟩ twinConfig ⟨"", .base⟩ true).2.toOption =
      some ⟨[], [], ["pkg/api/v0/helm.go", "pkg/api/v0/helm.go"]⟩ := by
    decide +kernel
  have htree := createSources_dry ⟨[], []⟩ twinConfig ⟨"", .base⟩
  exact ⟨_, _, _, eq_of_toOption hreal, (eq_of_toOption hdry).trans (by rw [htree]), by decide, by decide⟩

/-- A group with its source and with a file that was generated for a group of old. -/
def chartsConfig : Config where
  apiNamespace := "helm"
  migrationOrder := some []
  groups := [{
    name := "Helm"
    objects := [{ name := "Chart", versions := ["v0"], excludeRoute := true, excludeFromDb := true }] }]

def chartsTree : Tree where
  workingDirectory := []
  entries := [
    (["pkg"], .directory),
    (["pkg", "api"], .directory),
    (["pkg", "api", "v0"], .directory),
    (["pkg", "api", "v0", "helm.go"], .file (Text.utf8Bytes "package v0\n".toList)),
    (["pkg", "api", "v0", "old_gen.go"], .file [])]

/-- The dry runs of all three commands, and what a synchronization would prune. -/
theorem charts_foretold :
    (∃ real dry, createSources chartsTree chartsConfig ⟨"", .base⟩ true = (chartsTree, .ok dry) ∧
      (createSources chartsTree chartsConfig ⟨"", .base⟩ false).2.toOption = some real ∧ dry.Foretells real) ∧
    (∃ real dry, generate chartsTree chartsConfig ⟨"", .base⟩ { dryRun := true } = (chartsTree, .ok dry) ∧
      (generate chartsTree chartsConfig ⟨"", .base⟩ {}).2.toOption = some real ∧ dry.Foretells real) ∧
    ∃ real dry, sync chartsTree chartsConfig ⟨"", .base⟩ true = (chartsTree, .ok (dry, ["pkg/api/v0/old_gen.go"])) ∧
      (sync chartsTree chartsConfig ⟨"", .base⟩ false).2.toOption = some (real, ["pkg/api/v0/old_gen.go"]) ∧
        dry.Foretells real := by
  have hplain : chartsConfig.Plain := ⟨by decide, by decide⟩
  have hdotless : chartsConfig.Without '.' := ⟨by decide, by decide⟩
  have hconnected : chartsTree.Connected := by decide +kernel
  have hcreated : (createSources chartsTree chartsConfig ⟨"", .base⟩ false).2.toOption =
      some ⟨[], ["pkg/api/v0/helm.go"], []⟩ := by
    decide +kernel
  have hwritten : (sync chartsTree chartsConfig ⟨"", .base⟩ false).2.toOption =
      some (⟨["pkg/api/v0/helm_gen.go", "pkg/api/v0/notifications_gen.go", "pkg/api-server/v0/versions/helm_gen.go"],
        [], []⟩, ["pkg/api/v0/old_gen.go"]) := by
    decide +kernel
  obtain ⟨-, hcreate, hgenerate, hsync⟩ := dry_runs_foretell chartsTree chartsConfig ⟨"", .base⟩
  obtain ⟨t₁, owned, hgenerated, -⟩ := sync_ok_iff.mp (eq_of_toOption hwritten)
  refine ⟨?_, ?_, ?_⟩
  · obtain ⟨dry, hdry, hforetells, -⟩ := hcreate _ _ (eq_of_toOption hcreated)
    exact ⟨_, dry, hdry, hcreated, hforetells.mpr (by decide +kernel)⟩
  · obtain ⟨dry, hdry, -, hforetells⟩ := hgenerate {} _ _ rfl hgenerated
    exact ⟨_, dry, hdry, by rw [hgenerated]; rfl, hforetells hplain hdotless hconnected⟩
  · obtain ⟨dry, stale, hdry, -, hagree⟩ := hsync _ _ _ (eq_of_toOption hwritten)
    obtain ⟨hforetells, rfl⟩ := hagree hplain hdotless hconnected
    exact ⟨_, dry, hdry, hwritten, hforetells⟩

end Workspace

end ApiForge
