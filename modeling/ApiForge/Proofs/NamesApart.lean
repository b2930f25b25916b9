import ApiForge.Proofs.Clashes
import ApiForge.Proofs.DeclaredOnce
import ApiForge.Proofs.LatestObjects
import ApiForge.Proofs.Names
import ApiForge.Proofs.Repetition

/-! When generated code declares a name twice. The names of objects are checked when a model is built, those of groups and
of commands are not, so there are models whose code has a name twice; the conditions under which it does not are spelled
out here. -/

namespace ApiForge

open Code (File)
open Generated

/-- What groups, objects and commands are called still differs where names are made of it. -/
@[mk_iff]
structure Model.NamesApart (m : Model) : Prop where
  /-- No object is at a version twice. -/
  entries : ∀ s ∈ m.slices, ∀ g ∈ s.groups, g.objects.Nodup
  domains : ∀ s ∈ m.slices, (s.groups.map fun g => g.names.domain).Nodup
  streams : ∀ s ∈ m.slices, ∀ g ∈ s.groups, ∀ o ∈ s.objects, o.names.objectType ≠ g.names.stream
  /-- The routes of all groups are added under the name that the routes of a group `Add` have. -/
  routes : ∀ s ∈ m.slices, ∀ g ∈ routedGroups s, g.names.domain ≠ "Add"
  /-- The commands of all groups and versions are in one package. -/
  commands : ((m.groups.filter fun g => hasCommands (.group g)).flatMap fun g =>
    g.commandObjects.map fun o => o.names.plural).Nodup
  reconciled : ∀ g ∈ m.groups, (g.reconciled.map fun r => Text.camelCase r.name).Nodup
  /-- The program of a controller imports the reconcilers beside packages with names of their own. -/
  programs : ∀ g ∈ m.groups, g.hasReconcilers = true → g.names.package ∉ ["flag", "fmt", "os", "nats", "controller"]

instance (m : Model) : Decidable m.NamesApart :=
  decidable_of_iff _ m.namesApart_iff.symm

namespace Config.Built

variable {project : Project} {inspect : Inspector} {c : Config} {m : Model}

/-! ### Objects of a built model -/

theorem part_names (h : c.Built project inspect m) {s : VersionSlice} (hs : s ∈ m.slices) {g : GroupSlice}
    (hg : g ∈ s.groups) : g.names = .ofGroup g.name := by
  obtain ⟨group, hgroup, hpart⟩ := h.exists_group_of_part hs hg
  obtain ⟨d, -, hbuilt, -⟩ := h.configured hgroup
  rw [hpart.names, hbuilt.names, hpart.name, hbuilt.name]

theorem objects_apart (h : c.Built project inspect m) {s : VersionSlice} (hs : s ∈ m.slices) {g g' : GroupSlice}
    (hg : g ∈ s.groups) (hg' : g' ∈ s.groups) {o o' : ApiObject} (ho : o ∈ g.objects) (ho' : o' ∈ g'.objects)
    (hne : g ≠ g' ∨ o ≠ o') : o.Apart o' := by
  obtain ⟨group, hgroup, hpart, hmem, hversion⟩ := h.mem_part hs hg ho
  obtain ⟨group', hgroup', hpart', hmem', hversion'⟩ := h.mem_part hs hg' ho'
  have hversions : o.version = o'.version := hversion.trans hversion'.symm
  have hkeys : (group.name, o.typeName) ≠ (group'.name, o'.typeName) := by
    intro heq
    obtain ⟨hname, htype⟩ := Prod.mk.inj heq
    rcases hne with hne | hne
    · exact hne (h.part_eq hs hg hg' (by rw [hpart.name, hpart'.name, hname]))
    · obtain rfl := h.group_eq hgroup hgroup' hname
      obtain ⟨d, -, hbuilt, hdistinct⟩ := h.configured hgroup
      exact hne (hbuilt.eq_of_key_eq hdistinct hmem hmem' (Prod.ext htype hversions))
  exact ⟨h.disjoint group hgroup o hmem group' hgroup' o' hmem' hversions hkeys,
    (h.types_ne group hgroup o hmem group' hgroup' o' hmem' hversions hkeys).1⟩

theorem derived_objects (h : c.Built project inspect m) {s : VersionSlice} (hs : s ∈ m.slices) {g : GroupSlice}
    (hg : g ∈ s.groups) : Derived g.objects where
  names o ho := by
    obtain ⟨group, hgroup, -, hmem, -⟩ := h.mem_part hs hg ho
    exact h.derivedNames group hgroup o hmem
  apart _ ho _ ho' hne := h.objects_apart hs hg hg ho ho' (Or.inr hne)

theorem stream_notMem_iff (h : c.Built project inspect m) {s : VersionSlice} (hs : s ∈ m.slices) {g g' : GroupSlice}
    (hg : g ∈ s.groups) (hg' : g' ∈ s.groups) {o : ApiObject} (ho : o ∈ g'.objects) :
    g.names.stream ∉ o.names.constants ↔ o.names.objectType ≠ g.names.stream := by
  rw [h.part_names hs hg, (h.derived_objects hs hg').names o ho, stream_mem_constants_iff]

/-- What reconciles an object is called after it. -/
theorem stub_names (h : c.Built project inspect m) {g : Group} {r : ReconciledObject} {f : File}
    (hf : Emitter.stub.Writes project m (.reconciledObject g r) f) :
    f.methods = [] ∧ ∃ o : ApiObject, f.names = reconcileNames o ∧ o.names.variableName = Text.camelCase r.name := by
  obtain ⟨hg, hr, hfile⟩ := h.writes_stub_iff.mp hf
  obtain ⟨reconciler, hstub⟩ := stubFile_ok hfile
  obtain ⟨o, hlast⟩ := (h.controlled hg).entries r hr
  have hreconciler := hstub.reconciler
  rw [reconcilerOf, hlast.found] at hreconciler
  obtain rfl := Except.ok.inj hreconciler
  refine ⟨hstub.methods, o, hstub.names, ?_⟩
  rw [h.derivedNames g hg o hlast.mem, ← hlast.typeName]
  rfl

theorem reconcilers_names (h : c.Built project inspect m) {g : Group} {f : File}
    (hf : Emitter.reconcilers.Writes project m (.group g) f) :
    f.methods = [] ∧ f.names = g.reconciled.map fun r => r.name ++ "Reconciler" := by
  obtain ⟨hg, -, hfile⟩ := (h.writes_group_iff (by simp [defaultEmitters]) rfl rfl).mp hf
  obtain ⟨rs, hreconcilers⟩ := reconcilersFile_ok hfile
  refine ⟨hreconcilers.methods, hreconcilers.names.trans ?_⟩
  have hnames : List.Forall₂ (· = ·) (g.reconciled.map fun r => r.name ++ "Reconciler")
      (rs.map fun reconciler => reconciler.object.names.reconciler) := by
    rw [List.forall₂_map_left_iff, List.forall₂_map_right_iff]
    refine (h.lastEntries hg hreconcilers.reconcilers).imp fun r reconciler hlast => ?_
    rw [h.derivedNames g hg _ hlast.mem, ← hlast.typeName]
    rfl
  rw [List.forall₂_eq_eq_eq] at hnames
  exact hnames.symm

/-- Commands whose plurals differ are different in all their names. -/
theorem disjoint_commandNames (h : c.Built project inspect m) {g g' : Group} (hg : g ∈ m.groups) (hg' : g' ∈ m.groups)
    {o o' : ApiObject} (ho : o ∈ g.commandObjects) (ho' : o' ∈ g'.commandObjects)
    (hne : o.names.plural ≠ o'.names.plural) : (commandNames o).Disjoint (commandNames o') := by
  have hplural {g : Group} (hg : g ∈ m.groups) {o : ApiObject} (ho : o ∈ g.commandObjects) :
      o.names.plural = Text.plural o.typeName := by
    rw [h.derivedNames g hg o (g.latest_latestObjects.mem o (Group.mem_commandObjects.mp ho).1)]
    rfl
  refine Generated.disjoint_commandNames (fun htype => hne ?_) hne
  rw [hplural hg ho, hplural hg' ho', htype]

theorem package_underscore (h : c.Built project inspect m) {g : Group} (hg : g ∈ m.groups) :
    '_' ∉ g.names.package.toList := by
  obtain ⟨d, -, hbuilt, -⟩ := h.configured hg
  rw [hbuilt.names]
  simp [GroupNames.ofGroup, Text.packageCase]

end Config.Built

/-! ### Names that meet -/

namespace Model.FilesDeclareOnce

variable {project : Project} {inspect : Inspector} {c : Config} {m : Model} (h : c.Built project inspect m)
  (honce : m.FilesDeclareOnce project)
include h honce

theorem entries {s : VersionSlice} (hs : s ∈ m.slices) {g : GroupSlice} (hg : g ∈ s.groups) :
    g.objects.Nodup ∧ ∀ o ∈ g.objects, g.names.stream ∉ o.names.constants :=
  (nodup_names_objectsFile_iff (h.derived_objects hs hg)).mp
    (honce.within .objects (by simp [defaultEmitters]) _ _ (h.writes_objects hs hg)).1

theorem objects {s : VersionSlice} (hs : s ∈ m.slices) {g g' : GroupSlice} (hg : g ∈ s.groups) (hg' : g' ∈ s.groups)
    (hne : g ≠ g') : g.names.stream ≠ g'.names.stream ∧
      (∀ o ∈ g.objects, g'.names.stream ∉ o.names.constants) ∧ ∀ o ∈ g'.objects, g.names.stream ∉ o.names.constants :=
  (disjoint_names_objectsFile_iff fun _ ho _ ho' => h.objects_apart hs hg hg' ho ho' (Or.inl hne)).mp
    (honce.between (.objects, .versionGroup s g) (.objects, .versionGroup s g') (.parts (by simp [partEmitters]))
      (fun heq => by cases (Prod.mk.inj heq).2; exact hne rfl) _ _ (h.writes_objects hs hg) (h.writes_objects hs hg')).1

theorem domains {s : VersionSlice} (hs : s ∈ m.slices) : (s.groups.map fun g => g.names.domain).Nodup := by
  rw [List.nodup_map_iff_inj_on (h.nodup_part_names hs).of_map]
  intro g hg g' hg' hdomain
  by_contra hne
  apply (honce.objects h hs hg hg' hne).1
  rw [h.part_names hs hg, h.part_names hs hg', stream_inj, ← h.part_names hs hg, ← h.part_names hs hg', hdomain]

theorem streams {s : VersionSlice} (hs : s ∈ m.slices) {g : GroupSlice} (hg : g ∈ s.groups) {o : ApiObject}
    (ho : o ∈ s.objects) : o.names.objectType ≠ g.names.stream := by
  obtain ⟨g', hg', hmem⟩ := List.mem_flatMap.mp ho
  rw [← h.stream_notMem_iff hs hg hg' hmem]
  by_cases heq : g = g'
  · exact heq ▸ (honce.entries h hs hg').2 o hmem
  · exact (honce.objects h hs hg hg' heq).2.2 o hmem

theorem routes {s : VersionSlice} (hs : s ∈ m.slices) {g : GroupSlice} (hg : g ∈ routedGroups s) :
    g.names.domain ≠ "Add" := by
  obtain ⟨hmem, hrouted⟩ := List.mem_filter.mp hg
  obtain ⟨i, -, hi, -⟩ := h.partitioned.index?_eq (h.partitioned.mem_versions hs)
  have hnames : i.routeNames ≠ [] := (h.routeNames_ne_nil_iff hs hi).mpr ⟨g, mem_routedGroups.mp hg⟩
  have hregistry : hasRoutes (.version s i) = true := by
    simpa [hasRoutes] using hnames
  have hroutes : Emitter.routes.Writes project m (.versionGroup s g) (routesFile project s.version g) :=
    (h.writes_part_iff (by simp [defaultEmitters]) rfl rfl).mpr ⟨hs, hmem, hrouted, rfl⟩
  have hall : Emitter.registry.Writes project m (.version s i) (registryFile project s i) :=
    (h.writes_version_iff (by simp [defaultEmitters]) rfl rfl).mpr ⟨hs, hi, hregistry, rfl⟩
  have hne : (Emitter.routes, Target.versionGroup s g) ≠ (Emitter.registry, Target.version s i) := by
    intro heq
    cases (Prod.mk.inj heq).2
  exact disjoint_names_registryFile_iff.mp (honce.between _ _ .registry hne _ _ hroutes hall).1

theorem commands : ((m.groups.filter fun g => hasCommands (.group g)).flatMap fun g =>
    g.commandObjects.map fun o => o.names.plural).Nodup := by
  have houtput {g : Group} (hg : g ∈ m.groups.filter fun g => hasCommands (.group g)) :
      Emitter.output.Writes project m (.group g) (outputFile project g) :=
    (h.writes_command_iff (by simp [defaultEmitters]) rfl rfl).mpr
      ⟨(List.mem_filter.mp hg).1, (List.mem_filter.mp hg).2, rfl⟩
  -- What prints the output of a command is called after the plural alone.
  have hnames (g : Group) : (outputFile project g).names =
      (g.commandObjects.map fun o => o.names.plural).map fun plural => "output" ++ plural ++ "Cmd" := by
    rw [names_outputFile, List.map_map]
    rfl
  refine nodup_flatMap_of_apart (h.nodup_names.of_map.filter _) (fun g hg => ?_) fun g hg g' hg' hne => ?_
  · have hnodup := (honce.within .output (by simp [defaultEmitters]) _ _ (houtput hg)).1
    rw [hnames] at hnodup
    exact hnodup.of_map
  · have hdisjoint := (honce.between (.output, .group g) (.output, .group g')
      (.commands (by simp [commandEmitters]) (by simp [commandEmitters]))
      (fun heq => by cases (Prod.mk.inj heq).2; exact hne rfl) _ _ (houtput hg) (houtput hg')).1
    rw [hnames, hnames] at hdisjoint
    exact fun plural hplural hplural' => hdisjoint (List.mem_map_of_mem hplural) (List.mem_map_of_mem hplural')

theorem reconciled {g : Group} (hg : g ∈ m.groups) : (g.reconciled.map fun r => Text.camelCase r.name).Nodup := by
  rw [List.nodup_map_iff_inj_on (h.nodup_reconciled hg)]
  intro r hr r' hr' hname
  by_contra hne
  have hstub {r : ReconciledObject} (hr : r ∈ g.reconciled) :
      ∃ f, Emitter.stub.Writes project m (.reconciledObject g r) f := by
    obtain ⟨f, hf⟩ := exists_stubFile (h.controlled hg) hr project
    exact ⟨f, h.writes_stub_iff.mpr ⟨hg, hr, hf⟩⟩
  obtain ⟨f, hf⟩ := hstub hr
  obtain ⟨f', hf'⟩ := hstub hr'
  obtain ⟨-, o, hnames, hvariable⟩ := h.stub_names hf
  obtain ⟨-, o', hnames', hvariable'⟩ := h.stub_names hf'
  have hdisjoint := (honce.between _ _ (.stubs rfl) (fun heq => by cases (Prod.mk.inj heq).2; exact hne rfl) _ _ hf hf').1
  rw [hnames, hnames', disjoint_reconcileNames_iff, hvariable, hvariable'] at hdisjoint
  exact hdisjoint hname

theorem programs {g : Group} (hg : g ∈ m.groups) (hreconcilers : g.hasReconcilers = true) :
    g.names.package ∉ ["flag", "fmt", "os", "nats", "controller"] := by
  obtain ⟨f, hf⟩ := exists_controllerFile (h.controlled hg) (hasReconcilers_iff.mp hreconcilers) project
  obtain ⟨rs, version, hcontroller⟩ := controllerFile_ok hf
  have hnodup := honce.imported .controller (by simp [defaultEmitters]) _ _
    ((h.writes_group_iff (by simp [defaultEmitters]) rfl rfl).mpr ⟨hg, hreconcilers, hf⟩)
  exact (hcontroller.importNames_iff (h.package_underscore hg)).mp hnodup

end Model.FilesDeclareOnce

/-! ### Names apart -/

namespace Model.NamesApart

variable {project : Project} {inspect : Inspector} {c : Config} {m : Model} (h : c.Built project inspect m)
  (hnames : m.NamesApart)
include h hnames

theorem imported {e : Emitter} (he : e ∈ defaultEmitters) {t : Target} {f : File} (hf : e.Writes project m t f) :
    f.importNames.Nodup := by
  cases h.hasFile he hf with
  | objects => exact importNames_objectsFile .. ▸ by decide
  | notifications => exact List.nodup_nil
  | taggedFields => exact importNames_taggedFieldsFile .. ▸ by decide
  | routes => exact importNames_routesFile .. ▸ by decide
  | registry => exact importNames_registryFile .. ▸ by decide
  | handlers => exact importNames_handlersFile ..
  | database => exact importNames_databaseFile .. ▸ by decide
  | client => exact importNames_clientFile .. ▸ by decide
  | commands => exact importNames_commandsFile ..
  | output => exact importNames_outputFile ..
  | controller hg hreconcilers hfile =>
      exact (hfile.importNames_iff (h.package_underscore hg)).mpr (hnames.programs _ hg hreconcilers)
  | reconcilers _ hfile => exact hfile.importNames
  | stub _ _ hfile => exact hfile.importNames

omit h in
theorem plurals {g : Group} (hg : g ∈ m.groups) (hcommands : hasCommands (.group g) = true) :
    (g.commandObjects.map fun o => o.names.plural).Nodup :=
  (List.nodup_flatMap.mp hnames.commands).1 g (List.mem_filter.mpr ⟨hg, hcommands⟩)

theorem within {e : Emitter} (he : e ∈ defaultEmitters) {t : Target} {f : File} (hf : e.Writes project m t f) :
    f.names.Nodup ∧ f.methods.Nodup := by
  cases h.hasFile he hf with
  | @objects s g hs hg =>
      have hentries := hnames.entries s hs g hg
      have hderived := h.derived_objects hs hg
      refine ⟨(nodup_names_objectsFile_iff hderived).mpr ⟨hentries, fun o ho => ?_⟩,
        nodup_methods_objectsFile hderived hentries⟩
      rw [h.stream_notMem_iff hs hg hg ho]
      exact hnames.streams s hs g hg o (List.mem_flatMap.mpr ⟨g, hg, ho⟩)
  | notifications => exact ⟨names_notificationsFile _ ▸ by decide, List.nodup_nil⟩
  | taggedFields => exact ⟨nodup_names_taggedFieldsFile .., List.nodup_nil⟩
  | routes => exact ⟨List.nodup_singleton _, List.nodup_nil⟩
  | registry => exact ⟨names_registryFile .. ▸ by decide, List.nodup_nil⟩
  | @handlers s g hs hg =>
      rw [names_handlersFile]
      exact ⟨List.nodup_nil, nodup_methods_handlersFile _ _ (h.derived_objects hs hg) (hnames.entries s hs g hg)⟩
  | database => exact ⟨List.nodup_singleton _, List.nodup_nil⟩
  | @client s g hs hg =>
      rw [methods_clientFile]
      exact ⟨nodup_names_clientFile _ _ (h.derived_objects hs hg) (hnames.entries s hs g hg), List.nodup_nil⟩
  | @commands g hg hcommands =>
      have hplurals := hnames.plurals hg hcommands
      rw [names_commandsFile, methods_commandsFile]
      refine ⟨nodup_flatMap_of_apart hplurals.of_map (fun o _ => nodup_commandNames o) fun o ho o' ho' hne => ?_,
        List.nodup_nil⟩
      exact h.disjoint_commandNames hg hg ho ho' fun heq => hne (List.inj_on_of_nodup_map hplurals ho ho' heq)
  | @output g hg hcommands =>
      have hplurals := hnames.plurals hg hcommands
      rw [names_outputFile, methods_outputFile]
      refine ⟨hplurals.of_map.map_on fun o ho o' ho' heq => ?_, List.nodup_nil⟩
      exact List.inj_on_of_nodup_map hplurals ho ho' (outputFunctionName_inj.mp heq)
  | controller _ _ hfile =>
      rw [hfile.names, hfile.methods]
      exact ⟨by decide, List.nodup_nil⟩
  | @reconcilers g rs f hg hfile =>
      obtain ⟨hmethods, hreconcilers⟩ := h.reconcilers_names hf
      rw [hmethods, hreconcilers]
      have hobjects : (g.reconciled.map ReconciledObject.name).Nodup := h.nodup_reconciled_names hg
      refine ⟨(h.nodup_reconciled hg).map_on fun r hr r' hr' heq => ?_, List.nodup_nil⟩
      exact List.inj_on_of_nodup_map hobjects hr hr' ((String.append_left_inj _).mp heq)
  | stub _ _ hfile =>
      rw [hfile.names, hfile.methods]
      exact ⟨nodup_reconcileNames _, List.nodup_nil⟩

/-- Groups of one version declare different names in files of one kind. -/
theorem parts {s : VersionSlice} {g g' : GroupSlice} (hne : g ≠ g') {e : Emitter} (he : e ∈ defaultEmitters) {f f' : File}
    (hf : e.Writes project m (.versionGroup s g) f) (hf' : e.Writes project m (.versionGroup s g') f') :
    f.names.Disjoint f'.names ∧ f.methods.Disjoint f'.methods := by
  obtain ⟨⟨-, hs, hg⟩, -, -⟩ := (h.writes_iff he).mp hf
  obtain ⟨⟨-, -, hg'⟩, -, -⟩ := (h.writes_iff he).mp hf'
  have hobjects : ∀ o ∈ g.objects, ∀ o' ∈ g'.objects, o.Apart o' := fun _ ho _ ho' =>
    h.objects_apart hs hg hg' ho ho' (Or.inl hne)
  have hdomain : g.names.domain ≠ g'.names.domain := fun heq =>
    hne (List.inj_on_of_nodup_map (hnames.domains s hs) hg hg' heq)
  cases h.hasFile he hf with
  | objects =>
      obtain ⟨-, -, -, rfl⟩ := (h.writes_part_iff he rfl rfl).mp hf'
      refine ⟨(disjoint_names_objectsFile_iff hobjects).mpr ⟨?_, fun o ho => ?_, fun o ho => ?_⟩,
        disjoint_methods_objectsFile hobjects⟩
      · rwa [h.part_names hs hg, h.part_names hs hg', Ne, stream_inj, ← h.part_names hs hg, ← h.part_names hs hg']
      · rw [h.stream_notMem_iff hs hg' hg ho]
        exact hnames.streams s hs g' hg' o (List.mem_flatMap.mpr ⟨g, hg, ho⟩)
      · rw [h.stream_notMem_iff hs hg hg' ho]
        exact hnames.streams s hs g hg o (List.mem_flatMap.mpr ⟨g', hg', ho⟩)
  | taggedFields =>
      obtain ⟨-, -, -, rfl⟩ := (h.writes_part_iff he rfl rfl).mp hf'
      exact ⟨disjoint_names_taggedFieldsFile hdomain, List.disjoint_nil_left _⟩
  | routes =>
      obtain ⟨-, -, -, rfl⟩ := (h.writes_part_iff he rfl rfl).mp hf'
      exact ⟨disjoint_names_routesFile_iff.mpr hdomain, List.disjoint_nil_left _⟩
  | handlers =>
      obtain ⟨-, -, -, rfl⟩ := (h.writes_part_iff he rfl rfl).mp hf'
      rw [names_handlersFile]
      exact ⟨List.disjoint_nil_left _, disjoint_methods_handlersFile _ _ hobjects⟩
  | client =>
      obtain ⟨-, -, -, rfl⟩ := (h.writes_part_iff he rfl rfl).mp hf'
      rw [methods_clientFile]
      exact ⟨disjoint_names_clientFile _ _ hobjects, List.disjoint_nil_left _⟩

omit h in
theorem plurals_ne {g g' : Group} (hg : g ∈ m.groups) (hcommands : hasCommands (.group g) = true) (hg' : g' ∈ m.groups)
    (hcommands' : hasCommands (.group g') = true) (hne : g ≠ g') {o o' : ApiObject} (ho : o ∈ g.commandObjects)
    (ho' : o' ∈ g'.commandObjects) : o.names.plural ≠ o'.names.plural := by
  intro heq
  have : Std.Symm (Function.onFun List.Disjoint fun g : Group => g.commandObjects.map fun o => o.names.plural) :=
    ⟨fun _ _ hab => List.Disjoint.symm hab⟩
  have hdisjoint := (List.nodup_flatMap.mp hnames.commands).2.forall (List.mem_filter.mpr ⟨hg, hcommands⟩)
    (List.mem_filter.mpr ⟨hg', hcommands'⟩) hne
  exact hdisjoint (List.mem_map_of_mem ho) (heq ▸ List.mem_map_of_mem ho')

/-- No command is called as another one or as what prints the output of one. -/
theorem commands_between {e e' : Emitter} (he : e ∈ commandEmitters) (he' : e' ∈ commandEmitters) {g g' : Group}
    (hne : (e, Target.group g) ≠ (e', .group g')) {f f' : File} (hf : e.Writes project m (.group g) f)
    (hf' : e'.Writes project m (.group g') f') : f.names.Disjoint f'.names ∧ f.methods.Disjoint f'.methods := by
  have hcommands {g : Group} {f : File} (hf : Emitter.commands.Writes project m (.group g) f) :=
    (h.writes_command_iff (by simp [defaultEmitters]) rfl rfl).mp hf
  have houtput {g : Group} {f : File} (hf : Emitter.output.Writes project m (.group g) f) :=
    (h.writes_command_iff (by simp [defaultEmitters]) rfl rfl).mp hf
  have hdiffer (g g' : Group) : (commandsFile project g).names.Disjoint (outputFile project g').names := by
    rw [names_commandsFile, names_outputFile]
    intro name hname hname'
    obtain ⟨o, -, hname⟩ := List.mem_flatMap.mp hname
    obtain ⟨o', -, rfl⟩ := List.mem_map.mp hname'
    exact disjoint_commandNames_output o o' hname
  simp only [commandEmitters, List.mem_cons, List.not_mem_nil, or_false] at he he'
  rcases he with rfl | rfl <;> rcases he' with rfl | rfl
  · obtain ⟨hg, happlies, rfl⟩ := hcommands hf
    obtain ⟨hg', happlies', rfl⟩ := hcommands hf'
    rw [names_commandsFile, names_commandsFile, methods_commandsFile]
    refine ⟨disjoint_flatMap fun o ho o' ho' => ?_, List.disjoint_nil_left _⟩
    exact h.disjoint_commandNames hg hg' ho ho'
      (hnames.plurals_ne hg happlies hg' happlies' (fun heq => hne (by rw [heq])) ho ho')
  · obtain ⟨-, -, rfl⟩ := hcommands hf
    obtain ⟨-, -, rfl⟩ := houtput hf'
    rw [methods_commandsFile]
    exact ⟨hdiffer g g', List.disjoint_nil_left _⟩
  · obtain ⟨-, -, rfl⟩ := houtput hf
    obtain ⟨-, -, rfl⟩ := hcommands hf'
    rw [methods_outputFile]
    exact ⟨(hdiffer g' g).symm, List.disjoint_nil_left _⟩
  · obtain ⟨hg, happlies, rfl⟩ := houtput hf
    obtain ⟨hg', happlies', rfl⟩ := houtput hf'
    rw [names_outputFile, names_outputFile, methods_outputFile]
    refine ⟨fun name hname hname' => ?_, List.disjoint_nil_left _⟩
    obtain ⟨o, ho, rfl⟩ := List.mem_map.mp hname
    obtain ⟨o', ho', heq⟩ := List.mem_map.mp hname'
    exact hnames.plurals_ne hg happlies hg' happlies' (fun heq => hne (by rw [heq])) ho ho'
      (outputFunctionName_inj.mp heq.symm)

theorem between (hfiles : m.FilesApart) {x y : Emitter × Target} (hbeside : Beside x y) (hne : x ≠ y) {f f' : File}
    (hf : x.1.Writes project m x.2 f) (hf' : y.1.Writes project m y.2 f') :
    f.names.Disjoint f'.names ∧ f.methods.Disjoint f'.methods := by
  cases hbeside with
  | parts he =>
      exact hnames.parts h (fun heq => hne (by rw [heq])) (kind_of_part he).mem hf hf'
  | notifications =>
      obtain ⟨hs, hg, -, rfl⟩ := (h.writes_part_iff (by simp [defaultEmitters]) rfl rfl).mp hf
      obtain ⟨-, -, -, rfl⟩ := (h.writes_version_iff (by simp [defaultEmitters]) rfl rfl).mp hf'
      exact ⟨disjoint_names_notificationsFile _ (h.derived_objects hs hg) (h.part_names hs hg),
        List.disjoint_nil_right _⟩
  | registry =>
      obtain ⟨hs, hg, hrouted, rfl⟩ := (h.writes_part_iff (by simp [defaultEmitters]) rfl rfl).mp hf
      obtain ⟨-, -, -, rfl⟩ := (h.writes_version_iff (by simp [defaultEmitters]) rfl rfl).mp hf'
      exact ⟨disjoint_names_registryFile_iff.mpr (hnames.routes _ hs _ (List.mem_filter.mpr ⟨hg, hrouted⟩)),
        List.disjoint_nil_left _⟩
  | commands he he' => exact hnames.commands_between h he he' hne hf hf'
  | @programs e g g' he hsame =>
      obtain ⟨⟨-, hg⟩, happlies, -⟩ := (h.writes_iff (kind_of_program he).mem).mp hf
      obtain ⟨⟨-, hg'⟩, happlies', -⟩ := (h.writes_iff (kind_of_program he).mem).mp hf'
      have happlied : e.applies = hasReconcilers := by
        simp only [programEmitters, List.mem_cons, List.not_mem_nil, or_false] at he
        rcases he with rfl | rfl <;> rfl
      rw [happlied] at happlies happlies'
      cases hfiles.eq_of_controller hg (hasReconcilers_iff.mp happlies) hg' (hasReconcilers_iff.mp happlies') hsame
      exact absurd rfl hne
  | reconcilers hsame =>
      obtain ⟨hg, happlies, -⟩ := (h.writes_group_iff (by simp [defaultEmitters]) rfl rfl).mp hf
      obtain ⟨hg', happlies', -⟩ := (h.writes_group_iff (by simp [defaultEmitters]) rfl rfl).mp hf'
      cases hfiles.eq_of_package hg (hasReconcilers_iff.mp happlies) hg' (hasReconcilers_iff.mp happlies') hsame
      exact absurd rfl hne
  | stub =>
      obtain ⟨hmethods, hreconcilers⟩ := h.reconcilers_names hf
      obtain ⟨-, o, hstub, -⟩ := h.stub_names hf'
      rw [hmethods, hreconcilers, hstub]
      refine ⟨fun name hname hname' => ?_, List.disjoint_nil_left _⟩
      obtain ⟨r, -, rfl⟩ := List.mem_map.mp hname
      exact reconciler_notMem_reconcileNames r.name o hname'
  | @stubs g g' r r' hsame =>
      obtain ⟨hg, hr, -⟩ := h.writes_stub_iff.mp hf
      obtain ⟨hg', hr', -⟩ := h.writes_stub_iff.mp hf'
      cases hfiles.eq_of_package hg (List.ne_nil_of_mem hr) hg' (List.ne_nil_of_mem hr') hsame
      obtain ⟨hmethods, o, hstub, hvariable⟩ := h.stub_names hf
      obtain ⟨-, o', hstub', hvariable'⟩ := h.stub_names hf'
      rw [hmethods, hstub, hstub', disjoint_reconcileNames_iff, hvariable, hvariable']
      refine ⟨fun heq => hne ?_, List.disjoint_nil_left _⟩
      rw [List.inj_on_of_nodup_map (hnames.reconciled g hg) hr hr' heq]

end Model.NamesApart

theorem Config.Built.declaredOnce_iff_namesApart {project : Project} {inspect : Inspector} {c : Config} {m : Model}
    (h : c.Built project inspect m) (hplain : c.Plain) (hfiles : m.FilesApart) :
    DeclaredOnce (m.artifacts project) ↔ m.NamesApart := by
  rw [h.declaredOnce_iff hplain]
  constructor
  · intro honce
    exact {
      entries := fun s hs g hg => (honce.entries h hs hg).1
      domains := fun s hs => honce.domains h hs
      streams := fun s hs g hg o ho => honce.streams h hs hg ho
      routes := fun s hs g hg => honce.routes h hs hg
      commands := honce.commands h
      reconciled := fun g hg => honce.reconciled h hg
      programs := fun g hg hreconcilers => honce.programs h hg hreconcilers }
  · intro hnames
    exact {
      within := fun e he t f hf => hnames.within h he hf
      between := fun x y hbeside hne f f' hf hf' => hnames.between h hfiles hbeside hne hf hf'
      imported := fun e he t f hf => hnames.imported h he hf }

/-- Where a run of all emitters comes to the end, its code declares every name once exactly when the names differ that
names are made of. -/
theorem written_code_declared_once_iff {project : Project} {inspect : Inspector} {c : Config} {m : Model}
    (h : buildModel project inspect c = .ok m) (hplain : c.Plain) {w : Files.Writer} {s s' : Files.Session} {n : Nat}
    (hrun : Pipeline.builtIn.run project m w s = (s', .ok n)) : DeclaredOnce (m.artifacts project) ↔ m.NamesApart :=
  (buildModel_ok h).declaredOnce_iff_namesApart hplain ((buildModel_ok h).filesApart_of_run hplain hrun)

/-- A chart that has moved from one group to another with its second version: both groups have a command that gets
charts. -/
theorem moved_chart_declared_twice :
    let config : Config := {
      apiNamespace := "charts"
      migrationOrder := some []
      groups := [
        { name := "Helm", objects := [{ name := "Chart", versions := ["v0"], commands := { enabled := true } }] },
        { name := "Repository", objects := [
          { name := "Chart", versions := ["v1"], commands := { enabled := true } }] }] }
    ∃ m, buildModel ⟨"", .base⟩ (fun path => .ok ⟨path, "", []⟩) config = .ok m ∧
      (∃ s n, Pipeline.builtIn.run ⟨"", .base⟩ m ⟨"", true⟩ ⟨⟨[], []⟩, {}⟩ = (s, .ok n)) ∧
      m.groups.map (fun g => (commandsFile ⟨"", .base⟩ g).names) = [["GetChartsCmd"], ["GetChartsCmd"]] ∧
      ¬DeclaredOnce (m.artifacts ⟨"", .base⟩) := by
  intro config
  obtain ⟨m, hm, heq⟩ : ∃ m, buildModel ⟨"", .base⟩ (fun path => .ok ⟨path, "", []⟩) config = .ok m ∧
      (decide m.FilesApart, m.groups.map fun g => (commandsFile ⟨"", .base⟩ g).names, decide m.NamesApart) =
      (true, [["GetChartsCmd"], ["GetChartsCmd"]], false) :=
    exists_ok_of_map (by decide +kernel)
  obtain ⟨hfiles, heq⟩ := Prod.mk.inj heq
  obtain ⟨hcommands, hnames⟩ := Prod.mk.inj heq
  have hbuilt := buildModel_ok hm
  have hplain : config.Plain := ⟨by decide, by decide⟩
  have hfiles := of_decide_eq_true hfiles
  refine ⟨m, hm, hbuilt.exists_dry_run hplain hfiles _ _, hcommands, fun honce => ?_⟩
  exact of_decide_eq_false hnames ((hbuilt.declaredOnce_iff_namesApart hplain hfiles).mp honce)

/-- A chart that is reconciled and served, beside a group with commands only. -/
theorem mirrors_declared_once :
    let project := Project.ofModule "" "example.com/charts"
    let config : Config := {
      apiNamespace := "charts"
      groups := [
        { name := "Helm", objects := [
          { name := "Release", versions := ["v1", "v0"], reconcilable := true, excludeRoute := true },
          { name := "Chart", versions := ["v0"], commands := { enabled := true } }] },
        { name := "HelmRepository", objects := [
          { name := "Mirror", versions := ["v0"], reconcilable := true, commands := { enabled := true } }] }] }
    ∃ m, buildModel project (fun path => .ok ⟨path, "", []⟩) config = .ok m ∧
      (∃ s n, Pipeline.builtIn.run project m ⟨"", true⟩ ⟨⟨[], []⟩, {}⟩ = (s, .ok n)) ∧ m.NamesApart ∧
      DeclaredOnce (m.artifacts project) := by
  intro project config
  obtain ⟨m, hm, heq⟩ : ∃ m, buildModel project (fun path => .ok ⟨path, "", []⟩) config = .ok m ∧
      (decide m.FilesApart, decide m.NamesApart) = (true, true) :=
    exists_ok_of_map (by decide +kernel)
  obtain ⟨hfiles, hnames⟩ := Prod.mk.inj heq
  have hplain : config.Plain := ⟨by decide, by decide⟩
  obtain ⟨s, n, hrun⟩ := (buildModel_ok hm).exists_dry_run hplain (of_decide_eq_true hfiles) "" ⟨⟨[], []⟩, {}⟩
  have hnames := of_decide_eq_true hnames
  exact ⟨m, hm, ⟨s, n, hrun⟩, hnames, (written_code_declared_once_iff hm hplain hrun).mpr hnames⟩

end ApiForge
