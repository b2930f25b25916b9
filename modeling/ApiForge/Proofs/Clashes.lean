import ApiForge.Proofs.Directories

/-! When two artifacts of a built model have one path. Files are named after groups and objects in snake case, beside
files of fixed names, and names that differ can be the same in snake case; so there are models whose artifacts clash, and
the conditions under which they do not are spelled out here. -/

namespace ApiForge

open Generated (routedGroups)

/-- The names of groups and objects still differ where files and directories are named after them. -/
@[mk_iff]
structure Model.FilesApart (m : Model) : Prop where
  /-- Beside the objects of a version are the notifications. -/
  parts : ∀ s ∈ m.slices, ("notifications" :: s.groups.map fun g => Text.snakeCase g.name).Nodup
  /-- Beside the routes of a version is the list of all of them. -/
  routes : ∀ s ∈ m.slices, "routes" ∉ (routedGroups s).map fun g => Text.snakeCase g.name
  commands : ((m.groups.filter fun g => hasCommands (.group g)).map fun g => Text.snakeCase g.name).Nodup
  programs : ((m.groups.filter Group.hasReconcilers).map fun g => g.names.controller).Nodup
  packages : ((m.groups.filter Group.hasReconcilers).map fun g => Path.Component.ofSegment? g.names.package).Nodup
  /-- Beside what does the reconciling are the reconcilers. -/
  reconciled : ∀ g ∈ m.groups, ("reconcilers_gen" :: g.reconciled.map fun r => Text.snakeCase r.name).Nodup

instance (m : Model) : Decidable m.FilesApart :=
  decidable_of_iff _ m.filesApart_iff.symm

/-! ### Names of files -/

section Names

theorem ended_inj {a b text : String} :
    (.ok (a ++ text).toList : Except String (List Char)) = .ok (b ++ text).toList ↔ a = b := by
  rw [Except.ok.injEq, String.toList_append, String.toList_append, List.append_cancel_right_eq, String.toList_inj]

theorem fileName_part {e : Emitter} (he : e ∈ partEmitters) (s : VersionSlice) (g : GroupSlice) :
    e.fileName (.versionGroup s g) = .ok (Text.snakeCase g.name ++ "_gen.go").toList := by
  have hfile : (layout.lookup e.name).map Prod.snd = some (ended "group" "_gen.go") := by
    simp only [partEmitters, List.mem_cons, List.not_mem_nil, or_false] at he
    rcases he with rfl | rfl | rfl | rfl | rfl <;> rfl
  exact Emitter.fileName_of_ended (kind_of_part he).mem hfile rfl

theorem fileName_notifications (t : Target) :
    Emitter.notifications.fileName t = .ok ("notifications" ++ "_gen.go").toList :=
  Emitter.fileName_of_word (by simp [defaultEmitters]) rfl t

theorem fileName_registry (t : Target) : Emitter.registry.fileName t = .ok ("routes" ++ "_gen.go").toList :=
  Emitter.fileName_of_word (by simp [defaultEmitters]) rfl t

theorem fileName_commands (g : Group) :
    Emitter.commands.fileName (.group g) = .ok (Text.snakeCase g.name ++ "_gen.go").toList :=
  Emitter.fileName_of_ended (by simp [defaultEmitters]) rfl rfl

theorem fileName_output (g : Group) :
    Emitter.output.fileName (.group g) = .ok (Text.snakeCase g.name ++ "_output.go").toList :=
  Emitter.fileName_of_ended (by simp [defaultEmitters]) rfl rfl

theorem fileName_program {e : Emitter} (he : e ∈ programEmitters) (t t' : Target) : e.fileName t = e.fileName t' := by
  have hmem := (kind_of_program he).mem
  simp only [programEmitters, List.mem_cons, List.not_mem_nil, or_false] at he
  rcases he with rfl | rfl
  · exact (Emitter.fileName_of_word hmem rfl t).trans (Emitter.fileName_of_word hmem rfl t').symm
  · exact (Emitter.fileName_of_word hmem rfl t).trans (Emitter.fileName_of_word hmem rfl t').symm

theorem fileName_reconcilers (t : Target) :
    Emitter.reconcilers.fileName t = .ok ("reconcilers_gen" ++ ".go").toList :=
  Emitter.fileName_of_word (by simp [defaultEmitters]) rfl t

theorem fileName_stub (g : Group) (r : ReconciledObject) :
    Emitter.stub.fileName (.reconciledObject g r) = .ok (Text.snakeCase r.name ++ ".go").toList :=
  Emitter.fileName_of_ended (by simp [defaultEmitters]) rfl rfl

/-- Names of generated files and of those for output differ in the end. -/
theorem generated_ne_output (a b : String) : a ++ "_gen.go" ≠ b ++ "_output.go" := by
  intro heq
  have hback := congrArg (fun name => name.toList.reverse.take 4) heq
  simp only [String.toList_append, List.reverse_append] at hback
  simp at hback

theorem fileName_commands_ne_output (g g' : Group) :
    Emitter.commands.fileName (.group g) ≠ Emitter.output.fileName (.group g') := by
  rw [fileName_commands, fileName_output, Ne, Except.ok.injEq, String.toList_inj]
  exact generated_ne_output _ _

end Names

/-! ### Files side by side -/

/-- Files side by side have different names. -/
def Model.BesideApart (m : Model) : Prop :=
  ∀ x ∈ m.sites, ∀ y ∈ m.sites, Beside x y → x.1.fileName x.2 = y.1.fileName y.2 → x = y

theorem Model.mem_sites_within {m : Model} {e : Emitter} {t : Target} (he : e ∈ defaultEmitters)
    (ht : t.Within m e.granularity) (happlies : e.applies t = true) : (e, t) ∈ m.sites :=
  Model.mem_sites.mpr ⟨he, Target.mem_all_iff.mpr ht, happlies⟩

theorem Model.within_of_site {m : Model} {e : Emitter} {t : Target} (h : (e, t) ∈ m.sites) :
    t.Within m e.granularity ∧ e.applies t = true := by
  obtain ⟨-, ht, happlies⟩ := Model.mem_sites.mp h
  exact ⟨Target.mem_all_iff.mp ht, happlies⟩

theorem nodup_cons_map_iff {α β : Type} {xs : List α} {f : α → β} {y : β} (hxs : xs.Nodup) :
    (y :: xs.map f).Nodup ↔ (∀ a ∈ xs, f a ≠ y) ∧ ∀ a ∈ xs, ∀ b ∈ xs, f a = f b → a = b := by
  rw [List.nodup_cons, List.nodup_map_iff_inj_on hxs, List.mem_map]
  simp

theorem hasReconcilers_iff {g : Group} : g.hasReconcilers = true ↔ g.reconciled ≠ [] := by
  rw [Group.hasReconcilers, Bool.not_eq_true', List.isEmpty_eq_false_iff]

section Groups

variable {m : Model} (hfiles : m.FilesApart) {g g' : Group} (hg : g ∈ m.groups) (hr : g.reconciled ≠ [])
  (hg' : g' ∈ m.groups) (hr' : g'.reconciled ≠ [])
include hfiles hg hr hg' hr'

/-- Groups whose programs are in one directory are one group. -/
theorem Model.FilesApart.eq_of_controller (hsame : g.names.controller = g'.names.controller) : g = g' :=
  List.inj_on_of_nodup_map hfiles.programs (List.mem_filter.mpr ⟨hg, hasReconcilers_iff.mpr hr⟩)
    (List.mem_filter.mpr ⟨hg', hasReconcilers_iff.mpr hr'⟩) hsame

/-- Groups whose reconcilers are in one directory are one group. -/
theorem Model.FilesApart.eq_of_package
    (hsame : Path.Component.ofSegment? g.names.package = Path.Component.ofSegment? g'.names.package) : g = g' :=
  List.inj_on_of_nodup_map hfiles.packages (List.mem_filter.mpr ⟨hg, hasReconcilers_iff.mpr hr⟩)
    (List.mem_filter.mpr ⟨hg', hasReconcilers_iff.mpr hr'⟩) hsame

end Groups

theorem Model.FilesApart.besideApart {m : Model} (hfiles : m.FilesApart) : m.BesideApart := by
  intro x hx y hy hbeside hname
  have hwithin := (Model.within_of_site hx).1
  have hwithin' := (Model.within_of_site hy).1
  have happlies := (Model.within_of_site hx).2
  have happlies' := (Model.within_of_site hy).2
  cases hbeside with
  | @parts e s g g' he =>
      rw [fileName_part he, fileName_part he, ended_inj] at hname
      rw [List.inj_on_of_nodup_map (List.nodup_cons.mp (hfiles.parts s hwithin.2.1)).2 hwithin.2.2 hwithin'.2.2 hname]
  | @notifications s g i =>
      rw [fileName_part (by simp [partEmitters]), fileName_notifications, ended_inj] at hname
      exact absurd (List.mem_map.mpr ⟨g, hwithin.2.2, hname⟩) (List.nodup_cons.mp (hfiles.parts s hwithin.2.1)).1
  | @registry s g i =>
      rw [fileName_part (by simp [partEmitters]), fileName_registry, ended_inj] at hname
      exact absurd (List.mem_map.mpr ⟨g, List.mem_filter.mpr ⟨hwithin.2.2, happlies⟩, hname⟩)
        (hfiles.routes s hwithin.2.1)
  | @commands e e' g g' he he' =>
      have hgroup (hg : hasCommands (.group g) = true) (hg' : hasCommands (.group g') = true)
          (hsnake : Text.snakeCase g.name = Text.snakeCase g'.name) : g = g' :=
        List.inj_on_of_nodup_map hfiles.commands (List.mem_filter.mpr ⟨hwithin.2, hg⟩)
          (List.mem_filter.mpr ⟨hwithin'.2, hg'⟩) hsnake
      simp only [commandEmitters, List.mem_cons, List.not_mem_nil, or_false] at he he'
      rcases he with rfl | rfl <;> rcases he' with rfl | rfl
      · rw [fileName_commands, fileName_commands, ended_inj] at hname
        rw [hgroup happlies happlies' hname]
      · exact absurd hname (fileName_commands_ne_output g g')
      · exact absurd hname.symm (fileName_commands_ne_output g' g)
      · rw [fileName_output, fileName_output, ended_inj] at hname
        rw [hgroup happlies happlies' hname]
  | @programs e g g' he hsame =>
      simp only [programEmitters, List.mem_cons, List.not_mem_nil, or_false] at he
      have happlied : e.applies = hasReconcilers := by
        rcases he with rfl | rfl <;> rfl
      rw [happlied] at happlies happlies'
      rw [hfiles.eq_of_controller hwithin.2 (hasReconcilers_iff.mp happlies) hwithin'.2
        (hasReconcilers_iff.mp happlies') hsame]
  | @reconcilers g g' hsame =>
      rw [hfiles.eq_of_package hwithin.2 (hasReconcilers_iff.mp happlies) hwithin'.2 (hasReconcilers_iff.mp happlies')
        hsame]
  | @stub g g' r hsame =>
      rw [fileName_reconcilers, fileName_stub, ended_inj] at hname
      exact absurd (List.mem_map.mpr ⟨r, hwithin'.2.2, hname.symm⟩)
        (List.nodup_cons.mp (hfiles.reconciled g' hwithin'.2.1)).1
  | @stubs g g' r r' hsame =>
      cases hfiles.eq_of_package hwithin.2.1 (List.ne_nil_of_mem hwithin.2.2) hwithin'.2.1
        (List.ne_nil_of_mem hwithin'.2.2) hsame
      rw [fileName_stub, fileName_stub, ended_inj] at hname
      rw [List.inj_on_of_nodup_map (List.nodup_cons.mp (hfiles.reconciled g hwithin.2.1)).2 hwithin.2.2 hwithin'.2.2
        hname]

namespace Config.Built

variable {project : Project} {inspect : Inspector} {c : Config} {m : Model}

theorem nodup_reconciled_names (h : c.Built project inspect m) {g : Group} (hg : g ∈ m.groups) :
    (g.reconciled.map ReconciledObject.name).Nodup := by
  obtain ⟨d, -, hbuilt, -⟩ := h.configured hg
  rw [hbuilt.reconciled, reconciledOf_names]
  exact nodup_distinct _

theorem nodup_reconciled (h : c.Built project inspect m) {g : Group} (hg : g ∈ m.groups) : g.reconciled.Nodup :=
  (h.nodup_reconciled_names hg).of_map

section Apart

variable (h : c.Built project inspect m) (hapart : m.BesideApart)
include h hapart

theorem parts_apart {s : VersionSlice} (hs : s ∈ m.slices) :
    ("notifications" :: s.groups.map fun g => Text.snakeCase g.name).Nodup := by
  have hsite {g : GroupSlice} (hg : g ∈ s.groups) : (Emitter.objects, Target.versionGroup s g) ∈ m.sites :=
    Model.mem_sites_within (by simp [defaultEmitters]) ⟨rfl, hs, hg⟩ rfl
  rw [nodup_cons_map_iff (h.nodup_part_names hs).of_map]
  constructor
  · intro g hg hname
    obtain ⟨i, -, hi, -⟩ := h.partitioned.index?_eq (h.partitioned.mem_versions hs)
    have heq := hapart _ (hsite hg) (.notifications, .version s i)
      (Model.mem_sites_within (by simp [defaultEmitters]) ⟨rfl, hs, hi⟩ rfl) .notifications
      (by rw [fileName_part (by simp [partEmitters]), fileName_notifications, hname])
    cases (Prod.mk.inj heq).2
  · intro g hg g' hg' hname
    have heq := hapart _ (hsite hg) _ (hsite hg') (.parts (by simp [partEmitters]))
      (by rw [fileName_part (by simp [partEmitters]), fileName_part (by simp [partEmitters]), hname])
    cases (Prod.mk.inj heq).2
    rfl

theorem routes_apart {s : VersionSlice} (hs : s ∈ m.slices) :
    "routes" ∉ (routedGroups s).map fun g => Text.snakeCase g.name := by
  intro hmem
  obtain ⟨g, hg, hname⟩ := List.mem_map.mp hmem
  obtain ⟨i, -, hi, -⟩ := h.partitioned.index?_eq (h.partitioned.mem_versions hs)
  have hroutes : i.routeNames ≠ [] := (h.routeNames_ne_nil_iff hs hi).mpr ⟨g, Generated.mem_routedGroups.mp hg⟩
  have heq := hapart (.routes, .versionGroup s g)
    (Model.mem_sites_within (by simp [defaultEmitters]) ⟨rfl, hs, (List.mem_filter.mp hg).1⟩ (List.mem_filter.mp hg).2)
    (.registry, .version s i)
    (Model.mem_sites_within (by simp [defaultEmitters]) ⟨rfl, hs, hi⟩ (by simpa [Emitter.registry, hasRoutes] using hroutes))
    .registry (by rw [fileName_part (by simp [partEmitters]), fileName_registry, hname])
  cases (Prod.mk.inj heq).2

theorem commands_apart :
    ((m.groups.filter fun g => hasCommands (.group g)).map fun g => Text.snakeCase g.name).Nodup := by
  rw [List.nodup_map_iff_inj_on (h.nodup_names.of_map.filter _)]
  intro g hg g' hg' hname
  have hsite {g : Group} (hg : g ∈ m.groups.filter fun g => hasCommands (.group g)) :
      (Emitter.commands, Target.group g) ∈ m.sites :=
    Model.mem_sites_within (by simp [defaultEmitters]) ⟨rfl, (List.mem_filter.mp hg).1⟩ (List.mem_filter.mp hg).2
  have heq := hapart _ (hsite hg) _ (hsite hg') (.commands (by simp [commandEmitters]) (by simp [commandEmitters]))
    (by rw [fileName_commands, fileName_commands, hname])
  cases (Prod.mk.inj heq).2
  rfl

theorem programs_apart : ((m.groups.filter Group.hasReconcilers).map fun g => g.names.controller).Nodup := by
  rw [List.nodup_map_iff_inj_on (h.nodup_names.of_map.filter _)]
  intro g hg g' hg' hname
  have hsite {g : Group} (hg : g ∈ m.groups.filter Group.hasReconcilers) :
      (Emitter.controller, Target.group g) ∈ m.sites :=
    Model.mem_sites_within (by simp [defaultEmitters]) ⟨rfl, (List.mem_filter.mp hg).1⟩ (List.mem_filter.mp hg).2
  have heq := hapart _ (hsite hg) _ (hsite hg') (.programs (by simp [programEmitters]) hname)
    (fileName_program (by simp [programEmitters]) _ _)
  cases (Prod.mk.inj heq).2
  rfl

theorem packages_apart :
    ((m.groups.filter Group.hasReconcilers).map fun g => Path.Component.ofSegment? g.names.package).Nodup := by
  rw [List.nodup_map_iff_inj_on (h.nodup_names.of_map.filter _)]
  intro g hg g' hg' hname
  have hsite {g : Group} (hg : g ∈ m.groups.filter Group.hasReconcilers) :
      (Emitter.reconcilers, Target.group g) ∈ m.sites :=
    Model.mem_sites_within (by simp [defaultEmitters]) ⟨rfl, (List.mem_filter.mp hg).1⟩ (List.mem_filter.mp hg).2
  have heq := hapart _ (hsite hg) _ (hsite hg') (.reconcilers hname)
    (by rw [fileName_reconcilers, fileName_reconcilers])
  cases (Prod.mk.inj heq).2
  rfl

theorem reconciled_apart {g : Group} (hg : g ∈ m.groups) :
    ("reconcilers_gen" :: g.reconciled.map fun r => Text.snakeCase r.name).Nodup := by
  have hsite {r : ReconciledObject} (hr : r ∈ g.reconciled) : (Emitter.stub, Target.reconciledObject g r) ∈ m.sites :=
    Model.mem_sites_within (by simp [defaultEmitters]) ⟨rfl, hg, hr⟩ rfl
  rw [nodup_cons_map_iff (h.nodup_reconciled hg)]
  constructor
  · intro r hr hname
    have heq := hapart (.reconcilers, .group g)
      (Model.mem_sites_within (by simp [defaultEmitters]) ⟨rfl, hg⟩ (hasReconcilers_iff.mpr (List.ne_nil_of_mem hr)))
      _ (hsite hr) (.stub rfl) (by rw [fileName_reconcilers, fileName_stub, hname])
    cases (Prod.mk.inj heq).2
  · intro r hr r' hr' hname
    have heq := hapart _ (hsite hr) _ (hsite hr') (.stubs rfl) (by rw [fileName_stub, fileName_stub, hname])
    cases (Prod.mk.inj heq).2
    rfl

end Apart

theorem pathsApart_iff_filesApart (h : c.Built project inspect m) (hplain : c.Plain) :
    PathsApart (m.artifacts project) ↔ m.FilesApart := by
  rw [h.pathsApart_iff hplain]
  refine ⟨fun hapart => ?_, Model.FilesApart.besideApart⟩
  exact {
    parts := fun s hs => h.parts_apart hapart hs
    routes := fun s hs => h.routes_apart hapart hs
    commands := h.commands_apart hapart
    programs := h.programs_apart hapart
    packages := h.packages_apart hapart
    reconciled := fun g hg => h.reconciled_apart hapart hg }

/-- All emitters make what they are to make, so what stops a run is in the writing. -/
theorem run_stopped (h : c.Built project inspect m) {w : Files.Writer} {s s' : Files.Session} {f : Failure}
    (hrun : Pipeline.builtIn.run project m w s = (s', .error f)) : Stopped w (m.artifacts project) f := by
  have hmade : ∀ e ∈ Pipeline.builtIn.emitters, e.artifacts project m = .ok (e.made project m) := by
    rw [builtIn_emitters]
    exact fun e he => h.artifacts_eq_made he project
  rw [m.artifacts_eq]
  exact Pipeline.run_stopped rfl hmade hrun

theorem filesApart_of_run (h : c.Built project inspect m) (hplain : c.Plain) {w : Files.Writer}
    {s s' : Files.Session} {n : Nat} (hrun : Pipeline.builtIn.run project m w s = (s', .ok n)) : m.FilesApart := by
  have hapart := Pipeline.run_apart hrun
  rw [← m.artifacts_eq] at hapart
  exact (h.pathsApart_iff_filesApart hplain).mp hapart

end Config.Built

theorem Stopped.exists_refused {w : Files.Writer} {artifacts : List Artifact} {f : Failure}
    (h : Stopped w artifacts f) (hapart : PathsApart artifacts) :
    ∃ a ∈ artifacts, ∃ g s, (w.write s a.path a.document.text a.mode).2 = .error g ∧
      f = g.during (.writingArtifact a.emitter a.path) := by
  cases h with
  | @clash a b order same failure =>
      have hab := List.pairwise_iff_forall_sublist.mp hapart order
      rw [same] at hab
      cases hab
  | @refused a g mem s write failure => exact ⟨a, mem, g, s, write, failure⟩

/-- Nothing stops a run that writes nothing. -/
theorem Config.Built.exists_dry_run {project : Project} {inspect : Inspector} {c : Config} {m : Model}
    (h : c.Built project inspect m) (hplain : c.Plain) (hfiles : m.FilesApart) (root : String) (s : Files.Session) :
    ∃ s' n, Pipeline.builtIn.run project m ⟨root, true⟩ s = (s', .ok n) := by
  cases hrun : Pipeline.builtIn.run project m ⟨root, true⟩ s with
  | mk s' result =>
      cases result with
      | ok n => exact ⟨s', n, rfl⟩
      | error f =>
          obtain ⟨a, -, g, s, hrefused, -⟩ :=
            (h.run_stopped hrun).exists_refused ((h.pathsApart_iff_filesApart hplain).mpr hfiles)
          have hwrote := Files.Writer.wrote_write ⟨root, true⟩ s a.path a.document.text a.mode
          cases hresult : Files.Writer.write ⟨root, true⟩ s a.path a.document.text a.mode with
          | mk s'' outcome =>
              rw [hresult] at hwrote hrefused
              cases hrefused
              cases hwrote with
              | failed hdry => cases hdry

/-- The artifacts of what is built from names without slashes have different paths exactly when the names differ where
files are named after them. Then a run of all emitters stops for a file that cannot be written and for nothing else, and
otherwise no run comes to the end. -/
theorem built_artifacts_apart_iff {project : Project} {inspect : Inspector} {c : Config} {m : Model}
    (h : buildModel project inspect c = .ok m) (hplain : c.Plain) :
    (PathsApart (m.artifacts project) ↔ m.FilesApart) ∧
      ∀ w s s' result, Pipeline.builtIn.run project m w s = (s', result) →
        match result with
        | .ok _ => m.FilesApart
        | .error f => m.FilesApart → ∃ a ∈ m.artifacts project, ∃ g s,
            (w.write s a.path a.document.text a.mode).2 = .error g ∧
              f = g.during (.writingArtifact a.emitter a.path) := by
  have hbuilt := buildModel_ok h
  have hiff := hbuilt.pathsApart_iff_filesApart hplain
  refine ⟨hiff, fun w s s' result hrun => ?_⟩
  cases result with
  | ok n => exact hbuilt.filesApart_of_run hplain hrun
  | error f =>
      intro hfiles
      exact (hbuilt.run_stopped hrun).exists_refused (hiff.mpr hfiles)

/-- A group that is called as the file of the notifications is: its constants and the notifications have one path, and
a run in an empty tree stops there. -/
theorem notifications_clash :
    let config : Config := {
      apiNamespace := "alerts"
      migrationOrder := some []
      groups := [{ name := "Notifications", objects := [{ name := "Alert", versions := ["v0"] }] }] }
    ∃ m, buildModel ⟨"", .base⟩ (fun path => .ok ⟨path, "", []⟩) config = .ok m ∧
      ¬PathsApart (m.artifacts ⟨"", .base⟩) ∧
      (Pipeline.builtIn.run ⟨"", .base⟩ m ⟨"", false⟩ ⟨⟨[], []⟩, {}⟩).2 =
        .error { cause := .pathClash "api-object" "notifications" "pkg/api/v0/notifications_gen.go" } := by
  intro config
  obtain ⟨m, hm, heq⟩ : ∃ m, buildModel ⟨"", .base⟩ (fun path => .ok ⟨path, "", []⟩) config = .ok m ∧
      (((m.artifacts ⟨"", .base⟩).map Artifact.path).take 2,
        (Pipeline.builtIn.run ⟨"", .base⟩ m ⟨"", false⟩ ⟨⟨[], []⟩, {}⟩).2) =
      (["pkg/api/v0/notifications_gen.go", "pkg/api/v0/notifications_gen.go"],
        .error { cause := .pathClash "api-object" "notifications" "pkg/api/v0/notifications_gen.go" }) :=
    exists_ok_of_map (by decide +kernel)
  obtain ⟨hpaths, hrun⟩ := Prod.mk.inj heq
  refine ⟨m, hm, fun hapart => ?_, hrun⟩
  have hnodup := hapart.nodup_paths.sublist (List.take_sublist 2 _)
  rw [hpaths] at hnodup
  exact absurd hnodup (by decide)

/-- A chart that is reconciled and served, beside a group with commands only. -/
theorem charts_apart :
    let project := Project.ofModule "" "example.com/charts"
    let config : Config := {
      apiNamespace := "charts"
      groups := [
        { name := "Helm", objects := [
          { name := "Release", versions := ["v1", "v0"], reconcilable := true, excludeRoute := true },
          { name := "Chart", versions := ["v0"], commands := { enabled := true } }] },
        { name := "HelmRepository", objects := [
          { name := "Mirror", versions := ["v0"], reconcilable := true, commands := { enabled := true } }] }] }
    ∃ m, buildModel project (fun path => .ok ⟨path, "", []⟩) config = .ok m ∧ m.FilesApart ∧
      PathsApart (m.artifacts project) := by
  intro project config
  obtain ⟨m, hm, hfiles⟩ : ∃ m, buildModel project (fun path => .ok ⟨path, "", []⟩) config = .ok m ∧
      decide m.FilesApart = true :=
    exists_ok_of_map (by decide +kernel)
  have hplain : config.Plain := ⟨by decide, by decide⟩
  exact ⟨m, hm, of_decide_eq_true hfiles, (built_artifacts_apart_iff hm hplain).1.mpr (of_decide_eq_true hfiles)⟩

end ApiForge
