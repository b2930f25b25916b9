import ApiForge.Proofs.Convergence

/-! Runs of some of the stages at a time. As long as no generated file takes the place of a source, a run makes the same
files whichever runs came before it, so the runs can be put in any order and repeated. -/

namespace ApiForge

open Files (Content Place Report Session Tree Writer)

namespace Workspace

/-- One run after the other, as long as they succeed. -/
def generateEach (c : Config) (p : Project) (t : Tree) : List GenerateOptions → Option Tree
  | [] => some t
  | o :: runs =>
    match generate t c p o with
    | (t', .ok _) => generateEach c p t' runs
    | (_, .error _) => none

theorem inspector_congr {t s : Tree} {path : String} (h : s.read path = t.read path) :
    inspector s path = inspector t path := by
  rw [inspector, inspector, Tree.readText, Tree.readText, h]

/-- No source has the path of an artifact. -/
def SourcesApart (c : Config) (p : Project) (m : Model) : Prop :=
  ∀ g ∈ c.groups, ∀ v ∈ g.versions, ∀ a ∈ m.artifacts p, Path.same a.path (sourcePath "" v g.name) = false

instance (c : Config) (p : Project) (m : Model) : Decidable (SourcesApart c p m) :=
  inferInstanceAs (Decidable (∀ g ∈ c.groups, ∀ v ∈ g.versions, ∀ a ∈ m.artifacts p, _))

/-- What a run of all stages that succeeds has come to. -/
structure Completed (t : Tree) (c : Config) (p : Project) (m : Model) (final : Tree) : Prop where
  modelled : model t c p = .ok m
  sources : ∀ g ∈ c.groups, ∀ v ∈ g.versions, ∃ content, t.read (p.source g v) = .ok content
  apart : PathsApart (m.artifacts p)
  compatible : Compatible ((m.artifacts p).map Artifact.draft)
  reaches : (m.artifacts p).map Artifact.draft ≠ [] → t.Reaches p.root
  inPlace : InPlace p.root t ((m.artifacts p).map Artifact.draft) final

section Completed

variable {t final : Tree} {c : Config} {p : Project} {m : Model} (hplain : c.Plain)

include hplain

theorem completed (hdotless : c.Without '.') (hconnected : t.Connected) {o : GenerateOptions} (hall : o.only = [])
    (hwet : o.dryRun = false) {report : Report} (h : generate t c p o = (final, .ok report)) :
    ∃ m, Completed t c p m final := by
  obtain ⟨m, hmodel, hapart, hwrite⟩ := generate_ok_iff.mp h
  obtain ⟨_, hgenerated⟩ := generate_ok h
  have hreaches : (m.artifacts p).map Artifact.draft ≠ [] → t.Reaches p.root := by
    intro hne
    obtain ⟨a, ha⟩ := List.exists_mem_of_ne_nil _ fun hnil => hne (List.map_eq_nil_iff.mpr hnil)
    exact reaches_of_generate h hmodel hplain (by rwa [hall, m.selection_nil])
  rw [hall, m.selection_nil] at hapart hwrite
  rw [hwet] at hwrite
  have hdotted : ∀ a ∈ m.artifacts p, a.Dotted := by
    intro a ha
    rw [m.artifacts_eq] at ha
    obtain ⟨e, he, ha⟩ := List.mem_flatMap.mp ha
    exact (buildModel_ok hmodel).dotted hplain hdotless (mem_sortBy.mp he) ha
  have hcompatible := compatible_artifacts hdotted hapart
  have hinPlace := (InPlace.start hconnected).writeAll hreaches hcompatible (List.Subset.refl _) (List.nil_subset _)
    hwrite
  rw [List.append_nil] at hinPlace
  exact ⟨m, hmodel, fun g hg v hv => hgenerated.source_read hg hv, hapart, hcompatible, hreaches, hinPlace⟩

namespace Completed

variable {s : Tree} {done : List Draft} (hsources : SourcesApart c p m)

include hsources

/-- No artifact is written over a source, or above it. -/
theorem read_source (h : Completed t c p m final) (hs : InPlace p.root t done s)
    (hdone : done ⊆ (m.artifacts p).map Artifact.draft) {g : GroupConfig} (hg : g ∈ c.groups) {v : String}
    (hv : v ∈ g.versions) : s.read (p.source g v) = t.read (p.source g v) := by
  have hbuilt := buildModel_ok h.modelled
  have hvalid := hbuilt.isValid_of_mem (GroupConfig.version_mem hg hv)
  obtain ⟨hdescends, -⟩ :=
    descends_sourceBelow hvalid (isName_sourceFile _) (slashless_sourceFile (hplain.groups g hg))
  obtain ⟨content, hread⟩ := h.sources g hg v hv
  have hsame : ∀ a ∈ m.artifacts p, Path.same a.path (sourceBelow v (Text.snakeCase g.name ++ ".go")) = false := by
    intro a ha
    have hapart := hsources g hg v hv a ha
    rwa [sourcePath_eq hvalid (hplain.groups g hg), Path.join, if_pos (by simp)] at hapart
  rw [Project.source, sourcePath_eq hvalid (hplain.groups g hg)] at hread ⊢
  have hroot := Tree.reaches_of_read (relative_sourceBelow _ _) hread
  obtain ⟨hway, hfile⟩ := (Tree.read_descends hroot hdescends).mp hread
  rw [hread, Tree.read_descends (hs.reaches hroot) hdescends, hs.placeOf_eq]
  refine ⟨fun q hq => hs.directories q (hway q hq), ?_⟩
  rw [hs.others, hfile]
  intro d hd honWay
  rcases honWay with htarget | hthrough
  · obtain ⟨a, ha, rfl⟩ := List.mem_map.mp (hdone hd)
    rw [List.append_cancel_left_eq] at htarget
    have hpath := ((h.compatible.descends _ (hdone hd)).same_iff hdescends).mpr htarget.symm
    exact absurd (hpath.symm.trans (hsame a ha)) (by decide)
  · obtain ⟨content', hfile'⟩ := h.inPlace.files _ _ hfile
    rw [h.inPlace.way d (hdone hd) _ hthrough] at hfile'
    cases hfile'

theorem model_eq (h : Completed t c p m final) (hs : InPlace p.root t done s)
    (hdone : done ⊆ (m.artifacts p).map Artifact.draft) : model s c p = .ok m := by
  rw [← h.modelled]
  exact buildModel_congr fun g hg v hv => inspector_congr (h.read_source hplain hsources hs hdone hg hv)

/-- Each run succeeds, and puts in place what its stages make. -/
theorem exists_generate (h : Completed t c p m final) (hs : InPlace p.root t done s)
    (hdone : done ⊆ (m.artifacts p).map Artifact.draft) {o : GenerateOptions} (hwet : o.dryRun = false) :
    ∃ s' report, generate s c p o = (s', .ok report) ∧
      Writer.writeAll ⟨p.root, false⟩ { tree := s } ((m.selection p o.only).map Artifact.draft) = some ⟨s', report⟩ ∧
        InPlace p.root t ((m.selection p o.only).map Artifact.draft ++ done) s' := by
  have hselection : (m.selection p o.only).map Artifact.draft ⊆ (m.artifacts p).map Artifact.draft :=
    (List.Sublist.map _ (m.selection_sublist p o.only)).subset
  obtain ⟨⟨s', report⟩, hwrite⟩ := hs.exists_writeAll h.reaches h.compatible hselection hdone h.inPlace {}
  refine ⟨s', report, generate_ok_iff.mpr ⟨m, h.model_eq hplain hsources hs hdone, ?_, ?_⟩, hwrite,
    hs.writeAll h.reaches h.compatible hselection hdone hwrite⟩
  · exact h.apart.sublist (m.selection_sublist p o.only)
  · rw [hwet]
    exact hwrite

theorem exists_generateEach (h : Completed t c p m final) (hs : InPlace p.root t done s)
    (hdone : done ⊆ (m.artifacts p).map Artifact.draft) {runs : List GenerateOptions}
    (hwet : ∀ o ∈ runs, o.dryRun = false) : ∃ s', generateEach c p s runs = some s' ∧
      InPlace p.root t ((runs.flatMap fun o => (m.selection p o.only).map Artifact.draft) ++ done) s' := by
  induction runs generalizing s done with
  | nil => exact ⟨s, rfl, hs⟩
  | cons o runs ih =>
      rw [List.forall_mem_cons] at hwet
      obtain ⟨s₁, report, hgenerate, -, hs₁⟩ := h.exists_generate hplain hsources hs hdone hwet.1
      have hselection : (m.selection p o.only).map Artifact.draft ⊆ (m.artifacts p).map Artifact.draft :=
        (List.Sublist.map _ (m.selection_sublist p o.only)).subset
      obtain ⟨s', hrest, hs'⟩ := ih hs₁ (List.append_subset.mpr ⟨hselection, hdone⟩) hwet.2
      refine ⟨s', ?_, hs'.congr_mem fun d => ?_⟩
      · rw [generateEach, hgenerate]
        exact hrest
      · simp only [List.flatMap_cons, List.mem_append]
        tauto

end Completed

end Completed

/-- Runs that take their turn at the stages make what all stages make. -/
theorem mem_runs_iff {p : Project} {m : Model} {runs : List GenerateOptions}
    (hcover : ∀ stage : Stage, ∃ o ∈ runs, o.only = [] ∨ stage ∈ o.only) {d : Draft} :
    d ∈ (runs.flatMap fun o => (m.selection p o.only).map Artifact.draft) ↔ d ∈ (m.artifacts p).map Artifact.draft := by
  constructor
  · intro hd
    obtain ⟨o, -, hd⟩ := List.mem_flatMap.mp hd
    exact (List.Sublist.map _ (m.selection_sublist p o.only)).subset hd
  · intro hd
    obtain ⟨a, ha, rfl⟩ := List.mem_map.mp hd
    rw [m.artifacts_eq] at ha
    obtain ⟨e, he, ha⟩ := List.mem_flatMap.mp ha
    obtain ⟨o, ho, hstage⟩ := hcover e.stage
    exact List.mem_flatMap.mpr ⟨o, ho, List.mem_map_of_mem (Model.mem_selection.mpr ⟨e, mem_sortBy.mp he, hstage, ha⟩)⟩

/-- From wherever a run of all stages succeeds, runs of some of them each succeed in any order and however often they
are repeated, and once no stage is left out the files are those of the one run. To generate again changes nothing, and
skips exactly what is not to be overwritten. -/
theorem partial_runs_converge {t final : Tree} {c : Config} {p : Project} {m : Model} {o : GenerateOptions}
    {report : Report} (hplain : c.Plain) (hdotless : c.Without '.') (hconnected : t.Connected)
    (hmodel : model t c p = .ok m) (hsources : SourcesApart c p m) (hall : o.only = []) (hwet : o.dryRun = false)
    (h : generate t c p o = (final, .ok report)) :
    (∀ runs : List GenerateOptions, (∀ o ∈ runs, o.dryRun = false) →
      (∀ stage : Stage, ∃ o ∈ runs, o.only = [] ∨ stage ∈ o.only) →
      ∃ t', generateEach c p t runs = some t' ∧ ∀ q, t'.get? q = final.get? q) ∧
    ∃ t' report', generate final c p o = (t', .ok report') ∧ (∀ q, t'.get? q = final.get? q) ∧
      report'.skipped = ((m.artifacts p).filter (·.mode = .scaffold)).map Artifact.path ∧
        report'.written = ((m.artifacts p).filter (·.mode = .overwrite)).map Artifact.path := by
  obtain ⟨m', hcompleted⟩ := completed hplain hdotless hconnected hall hwet h
  obtain rfl : m' = m := Except.ok.inj (hcompleted.modelled.symm.trans hmodel)
  constructor
  · intro runs hwets hcover
    obtain ⟨t', hruns, ht'⟩ := hcompleted.exists_generateEach hplain hsources (InPlace.start hconnected)
      (List.nil_subset _) hwets
    rw [List.append_nil] at ht'
    exact ⟨t', hruns, hcompleted.inPlace.get?_eq ht' fun d => mem_runs_iff hcover⟩
  · have hsubset := List.Subset.refl ((m'.artifacts p).map Artifact.draft)
    obtain ⟨t', report', hgenerate, hwrite, ht'⟩ :=
      hcompleted.exists_generate hplain hsources hcompleted.inPlace hsubset hwet
    rw [hall, m'.selection_nil] at hwrite ht'
    obtain ⟨hskipped, hwritten⟩ :=
      hcompleted.inPlace.writeAll_again hcompleted.reaches hcompleted.compatible hsubset hwrite
    have hpaths (mode : WriteMode) :
        (((m'.artifacts p).map Artifact.draft).filter (·.mode = mode)).map Draft.path =
          ((m'.artifacts p).filter (·.mode = mode)).map Artifact.path := by
      rw [List.filter_map, List.map_map]
      rfl
    refine ⟨t', report', hgenerate, hcompleted.inPlace.get?_eq ht' fun d => by simp, ?_, ?_⟩
    · rw [← hpaths]
      exact hskipped
    · rw [← hpaths]
      exact hwritten

/-- A group with an object that is reconciled, in a project that builds on the base. -/
def controlledConfig : Config where
  apiNamespace := "helm"
  migrationOrder := some []
  groups := [{
    name := "Helm"
    objects := [{
      name := "Chart", versions := ["v0"], reconcilable := true, excludeRoute := true, excludeFromDb := true }] }]

def controlledProject : Project := ⟨"", .extension "charts.dev"⟩

/-- Some stages and then the others, one of them twice. -/
def controlledRuns : List GenerateOptions :=
  [{ only := [.controller] }, { only := [.client, .tptctl, .database, .handlers] },
    { only := [.controller, .routes, .apiModel], keepGoing := true }]

theorem controlled_runs_converge : ∃ final report t',
    generate chartsTree controlledConfig controlledProject {} = (final, .ok report) ∧
      generateEach controlledConfig controlledProject chartsTree controlledRuns = some t' ∧
        (∀ q, t'.get? q = final.get? q) ∧
          ∃ again report', generate final controlledConfig controlledProject {} = (again, .ok report') ∧
            (∀ q, again.get? q = final.get? q) ∧ report'.skipped = ["internal/helm/chart.go"] := by
  have hmade : ((model chartsTree controlledConfig controlledProject).toOption.map fun m =>
      (decide (SourcesApart controlledConfig controlledProject m),
        ((m.artifacts controlledProject).filter (·.mode = .scaffold)).map Artifact.path)) =
      some (true, ["internal/helm/chart.go"]) := by
    decide +kernel
  have hwritten : (generate chartsTree controlledConfig controlledProject {}).2.toOption =
      some ⟨["pkg/api/v0/helm_gen.go", "pkg/api/v0/notifications_gen.go", "pkg/api-server/v0/versions/helm_gen.go",
        "cmd/helm-controller/main_gen.go", "internal/helm/reconcilers_gen.go", "internal/helm/chart.go",
        "cmd/helm-controller/image/Dockerfile"], [], []⟩ := by
    decide +kernel
  cases hmodel : model chartsTree controlledConfig controlledProject with
  | error f =>
      rw [hmodel] at hmade
      cases hmade
  | ok m =>
      rw [hmodel] at hmade
      obtain ⟨hsources, hscaffolds⟩ := Prod.mk.inj (Option.some.inj hmade)
      obtain ⟨hpartial, again, report', hagain, hsame, hskipped, -⟩ := partial_runs_converge
        (c := controlledConfig) ⟨by decide, by decide⟩ ⟨by decide, by decide⟩ (by decide +kernel) hmodel
        (of_decide_eq_true hsources) rfl rfl (eq_of_toOption hwritten)
      obtain ⟨t', hruns, hend⟩ := hpartial controlledRuns (by decide) (by intro stage; cases stage <;> decide)
      exact ⟨_, _, t', eq_of_toOption hwritten, hruns, hend, again, report', hagain, hsame, hskipped.trans hscaffolds⟩

end Workspace

end ApiForge
