import ApiForge.Proofs.Contents
import ApiForge.Proofs.Imports
import ApiForge.Proofs.LatestObjects
import ApiForge.Proofs.References
import ApiForge.Proofs.Repetition
import ApiForge.Proofs.Slices

/-! What generated files refer to is there. Routes, handlers and clients are generated for the same groups of a version;
commands and controllers go to the files of the latest version of an object, which is one that its group has. -/

namespace ApiForge

open Code (File Import Reference)
open Generated

/-! ### References -/

namespace Code.File

/-- The file declares what the reference names. -/
def Provides (f : File) (r : Reference) : Prop :=
  match r.receiver? with
  | none => r.name ∈ f.names
  | some x => (x.type, r.name) ∈ f.methods

/-- `f` refers to `r` in a package that it imports, and `f'` declares it. -/
structure Links (f : File) (r : Reference) (i : Import) (f' : File) : Prop where
  named : r.package? = some i.name
  imported : i ∈ f.imports.flatten
  provided : f'.Provides r

/-- `f` refers to `r` in its own package, and `f'` declares it there. -/
structure Shares (f : File) (r : Reference) (f' : File) : Prop where
  unnamed : r.package? = none
  package : f'.package = f.package
  provided : f'.Provides r

end Code.File

/-! ### Files -/

/-- `f` is the file of the emitter for what a group has at a version. -/
def Emitter.WritesAt (e : Emitter) (p : Project) (m : Model) (g : Group) (version : String) (f : File) : Prop :=
  ∃ s part, s.version = version ∧ part.PartOf g version ∧ e.Writes p m (.versionGroup s part) f

/-- The group has something to serve at the version. -/
def GroupSlice.Served (g : GroupSlice) : Prop :=
  ∃ o ∈ g.objects, o.excludeRoute = false

theorem hasRoutes_iff (s : VersionSlice) {g : GroupSlice} : hasRoutes (.versionGroup s g) = true ↔ g.Served := by
  simp [hasRoutes, GroupSlice.Served, routable]

namespace Config.Built

variable {project : Project} {inspect : Inspector} {c : Config} {m : Model}

/-- What a group has at the version of one of its objects has a file of each emitter that applies to it. -/
theorem exists_writesAt (h : c.Built project inspect m) {e : Emitter} (he : e ∈ defaultEmitters)
    (hgranularity : e.granularity = .versionGroup) {file : Project → String → GroupSlice → File}
    (hrender : e.render = forVersionGroup file) {g : Group} (hg : g ∈ m.groups) {o : ApiObject} (ho : o ∈ g.objects)
    (happlies : ∀ s part, o ∈ part.objects → e.applies (.versionGroup s part) = true) :
    ∃ part, part.PartOf g o.version ∧ o ∈ part.objects ∧
      e.WritesAt project m g o.version (file project o.version part) := by
  obtain ⟨s, hs, hversion, part, hpart, hpartOf, hmem⟩ := h.exists_part hg ho
  rw [hversion] at hpartOf
  refine ⟨part, hpartOf, hmem, s, part, hversion, hpartOf, ?_⟩
  rw [h.writes_part_iff he hgranularity hrender, hversion]
  exact ⟨hs, hpart, happlies s part hmem, rfl⟩

end Config.Built

/-! ### What files provide -/

namespace Generated

theorem provides_objectsFile {version : String} {g : GroupSlice} {o : ApiObject} (ho : o ∈ g.objects)
    {package? : Option String} {r : Reference} (h : NamesObject package? o r) : (objectsFile version g).Provides r := by
  cases h with
  | constant hname =>
      exact (names_objectsFile version g).mem_iff.mpr
        (List.mem_cons_of_mem _ (List.mem_flatMap.mpr ⟨o, ho, hname⟩))
  | @method value name hname =>
      have hmem : ("*" ++ o.typeName, name) ∈ (objectsFile version g).methods := by
        rw [methods_objectsFile]
        exact List.mem_flatMap.mpr ⟨o, ho, List.mem_map_of_mem hname⟩
      exact hmem

theorem provides_stream (version : String) (g : GroupSlice) (package? : Option String) :
    (objectsFile version g).Provides { package? := package?, name := g.names.stream } :=
  (names_objectsFile version g).mem_iff.mpr List.mem_cons_self

theorem provides_handlersFile {p : Project} {version : String} {g : GroupSlice} {o : ApiObject}
    (ho : o ∈ routable g.objects) {name : String} (hname : name ∈ o.names.handlers.all) :
    (handlersFile p version g).Provides (handlerReference name) := by
  have hmem : ("Handler", name) ∈ (handlersFile p version g).methods := by
    rw [methods_handlersFile]
    exact List.mem_flatMap.mpr ⟨o, ho, List.mem_map_of_mem hname⟩
  exact hmem

theorem provides_routesFile_iff {p : Project} {version : String} {g : GroupSlice} {r : Reference} :
    (routesFile p version g).Provides r ↔ r.receiver? = none ∧ r.name = routesFunctionName g.names.domain := by
  unfold File.Provides
  split
  · rename_i hreceiver
    rw [names_routesFile, List.mem_singleton, and_iff_right hreceiver]
  · rename_i x hreceiver
    rw [hreceiver]
    exact iff_of_false List.not_mem_nil fun hboth => nomatch hboth.1

/-- A client has the functions that the commands call. -/
theorem calledNames_subset (o : ApiObject) : calledNames o ⊆ clientNames o := by
  intro name hname
  unfold calledNames clientNames at *
  cases hfield : o.nameField <;> simp [hfield] at hname ⊢ <;> tauto

theorem provides_clientFile {p : Project} {version : String} {g : GroupSlice} {o : ApiObject}
    (ho : o ∈ routable g.objects) {name : String} (hname : name ∈ calledNames o) {package? : Option String} :
    (clientFile p version g).Provides { package? := package?, name := name } := by
  have hmem : name ∈ (clientFile p version g).names := by
    rw [names_clientFile]
    exact List.mem_flatMap.mpr ⟨o, ho, calledNames_subset o hname⟩
  exact hmem

end Generated

/-! ### Links -/

/-- Whatever a generated file refers to in another is declared there. -/
structure Model.Linked (m : Model) (p : Project) : Prop where
  served : ∀ e ∈ [Emitter.routes, .handlers, .client], ∀ s g,
    (∃ f, e.Writes p m (.versionGroup s g) f) ↔ s ∈ m.slices ∧ g ∈ s.groups ∧ g.Served
  routes : ∀ s g f, Emitter.routes.Writes p m (.versionGroup s g) f → ∀ r ∈ f.references,
    (∃ f', Emitter.handlers.Writes p m (.versionGroup s g) f' ∧
        f.Links r ⟨"handlers", handlersPackage p s.version⟩ f') ∨
      ∃ f', Emitter.objects.Writes p m (.versionGroup s g) f' ∧ f.Links r ⟨"api", apiPackage p s.version⟩ f'
  registered : ∀ s, (∃ i f, Emitter.registry.Writes p m (.version s i) f) ↔
    s ∈ m.slices ∧ ∃ g ∈ s.groups, g.Served
  registry : ∀ s i f, Emitter.registry.Writes p m (.version s i) f → ∀ r,
    r ∈ f.references ↔ ∃ g f', Emitter.routes.Writes p m (.versionGroup s g) f' ∧ f.Shares r f'
  commands : ∀ g f, Emitter.commands.Writes p m (.group g) f → ∀ r ∈ f.references,
    (∃ f', Emitter.output.Writes p m (.group g) f' ∧ f.Shares r f') ∨
      ∃ o ∈ g.commandObjects, o ∈ g.objects ∧
        (∀ o' ∈ g.objects, o'.typeName = o.typeName → Version.le o'.version o.version = true) ∧
          r.name ∈ calledNames o ∧ ∃ f', Emitter.client.WritesAt p m g o.version f' ∧ f.Links r (clientImport p o.version) f'
  controllers : ∀ g f, Emitter.controller.Writes p m (.group g) f → ∀ r ∈ f.references,
    (∃ f', Emitter.reconcilers.Writes p m (.group g) f' ∧
        f.Links r ⟨g.names.package, controllerPackage p g.names.package⟩ f') ∨
      ∃ version f', Emitter.objects.WritesAt p m g version f' ∧ f.Links r (apiImport p version) f'
  /-- The reconcilers of a group are those of its reconciled objects, one for each. -/
  reconcilers : ∀ g f, Emitter.reconcilers.Writes p m (.group g) f → List.Forall₂
    (fun o d => d.names = [o.name ++ "Reconciler"] ∧ ∀ r ∈ d.references,
      (∃ f', Emitter.stub.Writes p m (.reconciledObject g o) f' ∧ f.Shares r f') ∨
        ∃ version f', Emitter.objects.WritesAt p m g version f' ∧ f.Links r (apiImport p version) f')
    g.reconciled f.declarations
  notifications : ∀ s i f, Emitter.notifications.Writes p m (.version s i) f → ∀ r ∈ f.references,
    ∃ g f', Emitter.objects.Writes p m (.versionGroup s g) f' ∧ f.Shares r f'
  objects : ∀ e ∈ [Emitter.taggedFields, .handlers, .client], ∀ s g f, e.Writes p m (.versionGroup s g) f →
    ∀ r ∈ f.references, ∃ f', Emitter.objects.Writes p m (.versionGroup s g) f' ∧
      f.Links r ⟨"api", apiPackage p s.version⟩ f'
  nothing : ∀ e ∈ [Emitter.objects, .database, .output, .stub], ∀ t f, e.Writes p m t f → f.references = []

namespace Config.Built

variable {project : Project} {inspect : Inspector} {c : Config} {m : Model}

theorem linked_served (h : c.Built project inspect m) {e : Emitter} (he : e ∈ [Emitter.routes, .handlers, .client])
    (s : VersionSlice) (g : GroupSlice) :
    (∃ f, e.Writes project m (.versionGroup s g) f) ↔ s ∈ m.slices ∧ g ∈ s.groups ∧ g.Served := by
  have hiff {e : Emitter} (he : e ∈ defaultEmitters) (hgranularity : e.granularity = .versionGroup)
      (happlies : e.applies = hasRoutes) {file : Project → String → GroupSlice → File}
      (hrender : e.render = forVersionGroup file) :
      (∃ f, e.Writes project m (.versionGroup s g) f) ↔ s ∈ m.slices ∧ g ∈ s.groups ∧ g.Served := by
    simp only [h.writes_part_iff he hgranularity hrender, happlies, hasRoutes_iff]
    simp
  simp only [List.mem_cons, List.not_mem_nil, or_false] at he
  rcases he with rfl | rfl | rfl <;> exact hiff (by simp [defaultEmitters]) rfl rfl rfl

theorem linked_routes (h : c.Built project inspect m) {s : VersionSlice} {g : GroupSlice} {f : File}
    (hf : Emitter.routes.Writes project m (.versionGroup s g) f) {r : Reference} (hr : r ∈ f.references) :
    (∃ f', Emitter.handlers.Writes project m (.versionGroup s g) f' ∧
        f.Links r ⟨"handlers", handlersPackage project s.version⟩ f') ∨
      ∃ f', Emitter.objects.Writes project m (.versionGroup s g) f' ∧
        f.Links r ⟨"api", apiPackage project s.version⟩ f' := by
  obtain ⟨hs, hg, happlies, rfl⟩ := (h.writes_part_iff (by simp [defaultEmitters]) rfl rfl).mp hf
  obtain ⟨o, ho, ⟨name, hname, rfl⟩ | ⟨name, hname, rfl⟩⟩ := mem_references_routesFile.mp hr
  · refine Or.inr ⟨_, h.writes_objects hs hg, rfl, by simp [routesFile], ?_⟩
    refine provides_objectsFile (mem_routable.mp ho).1 (.constant ?_)
    simp only [List.mem_cons, List.not_mem_nil, or_false] at hname
    rcases hname with rfl | rfl <;> simp [ObjectNames.constants]
  · exact Or.inl ⟨_, (h.writes_part_iff (by simp [defaultEmitters]) rfl rfl).mpr ⟨hs, hg, happlies, rfl⟩, rfl,
      by simp [routesFile], provides_handlersFile ho hname⟩

theorem linked_registered (h : c.Built project inspect m) (s : VersionSlice) :
    (∃ i f, Emitter.registry.Writes project m (.version s i) f) ↔ s ∈ m.slices ∧ ∃ g ∈ s.groups, g.Served := by
  have happlies (i : VersionIndex) : Emitter.registry.applies (.version s i) = true ↔ i.routeNames ≠ [] := by
    simp [Emitter.registry, hasRoutes]
  simp only [h.writes_version_iff (e := .registry) (by simp [defaultEmitters]) rfl rfl, happlies]
  constructor
  · rintro ⟨i, f, hs, hi, hnames, -⟩
    exact ⟨hs, (h.routeNames_ne_nil_iff hs hi).mp hnames⟩
  · rintro ⟨hs, hserved⟩
    obtain ⟨i, -, hi, -⟩ := h.partitioned.index?_eq (h.partitioned.mem_versions hs)
    exact ⟨i, _, hs, hi, (h.routeNames_ne_nil_iff hs hi).mpr hserved, rfl⟩

theorem linked_registry (h : c.Built project inspect m) {s : VersionSlice} {i : VersionIndex} {f : File}
    (hf : Emitter.registry.Writes project m (.version s i) f) (r : Reference) :
    r ∈ f.references ↔ ∃ g f', Emitter.routes.Writes project m (.versionGroup s g) f' ∧ f.Shares r f' := by
  obtain ⟨hs, -, -, rfl⟩ := (h.writes_version_iff (by simp [defaultEmitters]) rfl rfl).mp hf
  rw [references_registryFile, List.mem_map]
  have hrouted {g : GroupSlice} : g ∈ routedGroups s ↔ g ∈ s.groups ∧ g.Served :=
    mem_routedGroups
  constructor
  · rintro ⟨g, hg, rfl⟩
    obtain ⟨hg, hserved⟩ := hrouted.mp hg
    have happlies : hasRoutes (.versionGroup s g) = true := (hasRoutes_iff s).mpr hserved
    exact ⟨g, _, (h.writes_part_iff (by simp [defaultEmitters]) rfl rfl).mpr ⟨hs, hg, happlies, rfl⟩,
      rfl, rfl, provides_routesFile_iff.mpr ⟨rfl, rfl⟩⟩
  · rintro ⟨g, f', hf', hpackage, -, hprovides⟩
    obtain ⟨-, hg, happlies, rfl⟩ := (h.writes_part_iff (by simp [defaultEmitters]) rfl rfl).mp hf'
    obtain ⟨hreceiver, hname⟩ := provides_routesFile_iff.mp hprovides
    refine ⟨g, hrouted.mpr ⟨hg, (hasRoutes_iff s).mp happlies⟩, ?_⟩
    rcases r with ⟨package?, receiver?, name⟩
    simp_all

theorem linked_commands (h : c.Built project inspect m) {g : Group} {f : File}
    (hf : Emitter.commands.Writes project m (.group g) f) {r : Reference} (hr : r ∈ f.references) :
    (∃ f', Emitter.output.Writes project m (.group g) f' ∧ f.Shares r f') ∨
      ∃ o ∈ g.commandObjects, o ∈ g.objects ∧
        (∀ o' ∈ g.objects, o'.typeName = o.typeName → Version.le o'.version o.version = true) ∧
          r.name ∈ calledNames o ∧ ∃ f', Emitter.client.WritesAt project m g o.version f' ∧
            f.Links r (clientImport project o.version) f' := by
  obtain ⟨hg, happlies, rfl⟩ := (h.writes_command_iff (by simp [defaultEmitters]) rfl rfl).mp hf
  rw [references_commandsFile] at hr
  obtain ⟨o, ho, hr⟩ := List.mem_flatMap.mp hr
  rcases mem_references_objectCommands.mp hr with rfl | ⟨name, hname, rfl⟩
  · have hwrites : Emitter.output.Writes project m (.group g) (outputFile project g) :=
      (h.writes_command_iff (by simp [defaultEmitters]) rfl rfl).mpr ⟨hg, happlies, rfl⟩
    refine Or.inl ⟨_, hwrites, rfl, rfl, ?_⟩
    have hmem : outputFunctionName o ∈ (outputFile project g).names := by
      rw [names_outputFile]
      exact List.mem_map_of_mem ho
    exact hmem
  · obtain ⟨hlatest, -, hroute⟩ := Group.mem_commandObjects.mp ho
    have hmem := g.latest_latestObjects.mem o hlatest
    obtain ⟨part, -, hpart, hwrites⟩ := h.exists_writesAt (e := .client) (by simp [defaultEmitters]) rfl rfl hg hmem
      fun s part hpart => (hasRoutes_iff s).mpr ⟨o, hpart, hroute⟩
    refine Or.inr ⟨o, ho, hmem, g.latest_latestObjects.last o hlatest, hname, _, hwrites, rfl, ?_,
      provides_clientFile (mem_routable.mpr ⟨hpart, hroute⟩) hname⟩
    have himport : clientImport project o.version ∈ commandImports project g.commandObjects :=
      Code.Import.mem_sorted.mpr (List.mem_append_right _ (List.mem_flatMap.mpr ⟨o, ho, by simp⟩))
    exact List.mem_append_left _ himport

/-! ### Controllers -/

/-- What a file says of an object of a group, where it imports the objects of its version, is declared there. -/
theorem exists_objects (h : c.Built project inspect m) {g : Group} (hg : g ∈ m.groups) {o : ApiObject}
    (ho : o ∈ g.objects) {f : File} (himport : apiImport project o.version ∈ f.imports.flatten) {r : Reference}
    (hr : NamesObject (some (apiAlias o.version)) o r ∨
      r = { package? := some (apiAlias o.version), name := g.names.stream }) :
    ∃ version f', Emitter.objects.WritesAt project m g version f' ∧ f.Links r (apiImport project version) f' := by
  obtain ⟨part, hpartOf, hpart, hwrites⟩ := h.exists_writesAt (e := .objects) (by simp [defaultEmitters]) rfl rfl hg ho
    fun _ _ _ => rfl
  refine ⟨o.version, _, hwrites, ?_, himport, ?_⟩
  · rcases hr with hr | rfl
    · cases hr <;> rfl
    · rfl
  · rcases hr with hr | rfl
    · exact provides_objectsFile hpart hr
    · rw [← hpartOf.names]
      exact provides_stream o.version part _

theorem linked_controllers (h : c.Built project inspect m) {g : Group} {f : File}
    (hf : Emitter.controller.Writes project m (.group g) f) {r : Reference} (hr : r ∈ f.references) :
    (∃ f', Emitter.reconcilers.Writes project m (.group g) f' ∧
        f.Links r ⟨g.names.package, controllerPackage project g.names.package⟩ f') ∨
      ∃ version f', Emitter.objects.WritesAt project m g version f' ∧ f.Links r (apiImport project version) f' := by
  obtain ⟨hg, happlies, hfile⟩ := (h.writes_group_iff (by simp [defaultEmitters]) rfl rfl).mp hf
  obtain ⟨rs, version, hcontroller⟩ := controllerFile_ok hfile
  have hentries := h.lastEntries hg hcontroller.reconcilers
  have himport {reconciler : Reconciler} (hmem : reconciler ∈ rs) :
      apiImport project reconciler.object.version ∈ f.imports.flatten := by
    rw [hcontroller.imports, List.flatten_singleton, Code.Import.mem_sorted]
    exact List.mem_append_right _ (List.mem_map_of_mem hmem)
  have hobject {reconciler : Reconciler} (hmem : reconciler ∈ rs) : reconciler.object ∈ g.objects := by
    obtain ⟨o, -, hlast⟩ := exists_of_forall₂ hentries hmem
    exact hlast.mem
  rw [File.references, hcontroller.declarations, List.flatMap_cons, List.flatMap_singleton, references_helpFunction,
    List.append_nil] at hr
  rcases mem_references_mainFunction hr with rfl | ⟨reconciler, hmem, rfl | hnames⟩
  · -- The stream is that of the latest of the versions.
    have hversion : version ∈ rs.map (·.object.version) := by
      have hlatest := hcontroller.latest
      have hne : rs.map (·.object.version) ≠ [] := fun hnil => by
        rw [hnil] at hlatest
        cases hlatest
      obtain ⟨v, hv, hsome⟩ := exists_latestVersion hne
      rw [Option.some.inj (hlatest.symm.trans hsome)]
      exact hv
    obtain ⟨reconciler, hmem, rfl⟩ := List.mem_map.mp hversion
    exact Or.inr (h.exists_objects hg (hobject hmem) (himport hmem) (Or.inr rfl))
  · obtain ⟨f', hf'⟩ := exists_reconcilersFile (h.controlled hg) (reconciled_ne_nil happlies) project
    obtain ⟨rs', hfile'⟩ := reconcilersFile_ok hf'
    cases hcontroller.reconcilers.symm.trans hfile'.reconcilers
    refine Or.inl ⟨f', (h.writes_group_iff (by simp [defaultEmitters]) rfl rfl).mpr ⟨hg, happlies, hf'⟩, rfl, ?_, ?_⟩
    · rw [hcontroller.imports, List.flatten_singleton, Code.Import.mem_sorted]
      simp
    · have hname : reconciler.object.names.reconciler ∈ f'.names := by
        rw [hfile'.names]
        exact List.mem_map_of_mem hmem
      exact hname
  · exact Or.inr (h.exists_objects hg (hobject hmem) (himport hmem) (Or.inl hnames))

theorem linked_reconcilers (h : c.Built project inspect m) {g : Group} {f : File}
    (hf : Emitter.reconcilers.Writes project m (.group g) f) : List.Forall₂
      (fun o d => d.names = [o.name ++ "Reconciler"] ∧ ∀ r ∈ d.references,
        (∃ f', Emitter.stub.Writes project m (.reconciledObject g o) f' ∧ f.Shares r f') ∨
          ∃ version f', Emitter.objects.WritesAt project m g version f' ∧ f.Links r (apiImport project version) f')
      g.reconciled f.declarations := by
  obtain ⟨hg, -, hfile⟩ := (h.writes_group_iff (by simp [defaultEmitters]) rfl rfl).mp hf
  obtain ⟨rs, hreconcilers⟩ := reconcilersFile_ok hfile
  have hentries := h.lastEntries hg hreconcilers.reconcilers
  have himport {reconciler : Reconciler} (hmem : reconciler ∈ rs) :
      apiImport project reconciler.object.version ∈ f.imports.flatten := by
    rw [hreconcilers.imports, List.flatten_singleton, Code.Import.mem_sorted]
    exact List.mem_append_right _ (List.mem_map_of_mem hmem)
  have hfound := forall₂_of_mapM (show g.reconciled.mapM (reconcilerOf g) = .ok rs from hreconcilers.reconcilers)
  rw [hreconcilers.declarations, List.forall₂_map_right_iff]
  refine List.forall₂_iff_zip.mpr ⟨hfound.length_eq, fun {o reconciler} hzip => ?_⟩
  obtain ⟨ho, hmem⟩ := List.of_mem_zip hzip
  have hlast := List.forall₂_zip hentries hzip
  constructor
  · have hname : (reconcilerFunction reconciler).names = [reconciler.object.names.reconciler] := rfl
    rw [hname, h.derivedNames g hg _ hlast.mem, ← hlast.typeName]
    rfl
  · intro r hr
    rcases mem_references_reconcilerFunction hr with ⟨name, hname, rfl⟩ | hnames
    · obtain ⟨f', hf'⟩ := exists_stubFile (h.controlled hg) ho project
      obtain ⟨reconciler', hstub⟩ := stubFile_ok hf'
      cases (List.forall₂_zip hfound hzip).symm.trans hstub.reconciler
      refine Or.inl ⟨f', h.writes_stub_iff.mpr ⟨hg, ho, hf'⟩, rfl, ?_, ?_⟩
      · rw [hstub.package, hreconcilers.package]
      · have hprovided : name ∈ f'.names := by
          rw [hstub.names]
          exact hname
        exact hprovided
    · exact Or.inr (h.exists_objects hg hlast.mem (himport hmem) (Or.inl hnames))

/-! ### Files that go to the objects only -/

theorem linked_notifications (h : c.Built project inspect m) {s : VersionSlice} {i : VersionIndex} {f : File}
    (hf : Emitter.notifications.Writes project m (.version s i) f) {r : Reference} (hr : r ∈ f.references) :
    ∃ g f', Emitter.objects.Writes project m (.versionGroup s g) f' ∧ f.Shares r f' := by
  obtain ⟨hs, -, -, rfl⟩ := (h.writes_version_iff (by simp [defaultEmitters]) rfl rfl).mp hf
  rcases mem_references_notificationsFile hr with ⟨g, hg, rfl⟩ | ⟨o, ho, hnames⟩
  · exact ⟨g, _, h.writes_objects hs hg, rfl, rfl, provides_stream s.version g none⟩
  · obtain ⟨g, hg, hmem⟩ := List.mem_flatMap.mp ho
    refine ⟨g, _, h.writes_objects hs hg, ?_, rfl, provides_objectsFile hmem hnames⟩
    cases hnames <;> rfl

theorem linked_objects (h : c.Built project inspect m) {e : Emitter} (he : e ∈ [Emitter.taggedFields, .handlers, .client])
    {s : VersionSlice} {g : GroupSlice} {f : File} (hf : e.Writes project m (.versionGroup s g) f) {r : Reference}
    (hr : r ∈ f.references) : ∃ f', Emitter.objects.Writes project m (.versionGroup s g) f' ∧
      f.Links r ⟨"api", apiPackage project s.version⟩ f' := by
  -- Each of them imports the objects and says nothing of other files but of these.
  have hlink (hs : s ∈ m.slices) (hg : g ∈ s.groups) (himport : ⟨"api", apiPackage project s.version⟩ ∈ f.imports.flatten)
      {o : ApiObject} (ho : o ∈ g.objects) (hnames : NamesObject (some "api") o r) :
      ∃ f', Emitter.objects.Writes project m (.versionGroup s g) f' ∧
        f.Links r ⟨"api", apiPackage project s.version⟩ f' := by
    refine ⟨_, h.writes_objects hs hg, ?_, himport, provides_objectsFile ho hnames⟩
    cases hnames <;> rfl
  simp only [List.mem_cons, List.not_mem_nil, or_false] at he
  rcases he with rfl | rfl | rfl
  · obtain ⟨hs, hg, -, rfl⟩ := (h.writes_part_iff (by simp [defaultEmitters]) rfl rfl).mp hf
    obtain ⟨o, ho, hnames⟩ := mem_references_taggedFieldsFile hr
    exact hlink hs hg (by simp [taggedFieldsFile]) ho hnames
  · obtain ⟨hs, hg, -, rfl⟩ := (h.writes_part_iff (by simp [defaultEmitters]) rfl rfl).mp hf
    obtain ⟨o, ho, hnames⟩ := mem_references_handlersFile hr
    exact hlink hs hg (by simp [handlersFile, handlerImports, Code.Import.mem_sorted]) (mem_routable.mp ho).1 hnames
  · obtain ⟨hs, hg, -, rfl⟩ := (h.writes_part_iff (by simp [defaultEmitters]) rfl rfl).mp hf
    obtain ⟨o, ho, hnames⟩ := mem_references_clientFile hr
    exact hlink hs hg (by simp [clientFile]) (mem_routable.mp ho).1 hnames

theorem linked_nothing (h : c.Built project inspect m) {e : Emitter}
    (he : e ∈ [Emitter.objects, .database, .output, .stub]) {t : Target} {f : File} (hf : e.Writes project m t f) :
    f.references = [] := by
  obtain ⟨a, -, hmakes, -⟩ := id hf
  have ht := hmakes.target
  simp only [List.mem_cons, List.not_mem_nil, or_false] at he
  rcases he with rfl | rfl | rfl | rfl
  · obtain ⟨s, -, g, -, rfl⟩ := Target.exists_versionGroup ht
    obtain ⟨-, -, -, rfl⟩ := (h.writes_part_iff (by simp [defaultEmitters]) rfl rfl).mp hf
    exact references_objectsFile s.version g
  · obtain ⟨s, -, i, -, rfl⟩ := Target.exists_version ht
    obtain ⟨-, -, -, rfl⟩ := (h.writes_version_iff (by simp [defaultEmitters]) rfl rfl).mp hf
    exact references_databaseFile project i
  · obtain ⟨g, -, rfl⟩ := Target.exists_group ht
    obtain ⟨-, -, rfl⟩ := (h.writes_command_iff (by simp [defaultEmitters]) rfl rfl).mp hf
    exact references_outputFile project g
  · obtain ⟨g, -, r, -, rfl⟩ := Target.exists_reconciledObject ht
    obtain ⟨-, -, hfile⟩ := h.writes_stub_iff.mp hf
    obtain ⟨reconciler, hstub⟩ := stubFile_ok hfile
    rw [File.references, hstub.declarations]
    simp [references_reconcileFunction]

end Config.Built

/-- What generated files take from each other is there, whatever is built. -/
theorem built_files_linked {project : Project} {inspect : Inspector} {c : Config} {m : Model}
    (h : buildModel project inspect c = .ok m) : m.Linked project := by
  have hbuilt := buildModel_ok h
  exact {
    served := fun e he s g => hbuilt.linked_served he s g
    routes := fun s g f hf r hr => hbuilt.linked_routes hf hr
    registered := hbuilt.linked_registered
    registry := fun s i f hf r => hbuilt.linked_registry hf r
    commands := fun g f hf r hr => hbuilt.linked_commands hf hr
    controllers := fun g f hf r hr => hbuilt.linked_controllers hf hr
    reconcilers := fun g f hf => hbuilt.linked_reconcilers hf
    notifications := fun s i f hf r hr => hbuilt.linked_notifications hf hr
    objects := fun e he s g f hf r hr => hbuilt.linked_objects he hf hr
    nothing := fun e he t f hf => hbuilt.linked_nothing he hf }

/-- A chart that is served and has commands, at two versions, beside a release that is reconciled and not served. -/
theorem charts_linked :
    let project := Project.ofModule "" "example.com/charts"
    let config : Config := {
      apiNamespace := "charts"
      groups := [{ name := "Helm", objects := [
        { name := "Release", versions := ["v0"], reconcilable := true, excludeRoute := true },
        { name := "Chart", versions := ["v1", "v0"], nameField := true, commands := { enabled := true } }] }] }
    ∃ m, buildModel project (fun path => .ok ⟨path, "", []⟩) config = .ok m ∧
      m.groups.map (fun g => (commandsFile project g).references.map fun r => (r.package?, r.name)) = [
        [(some "client_v1", "GetCharts"), (none, "outputChartsCmd"), (some "client_v1", "GetChartByName"),
          (some "client_v1", "DeleteChart")]] ∧ m.Linked project := by
  intro project config
  obtain ⟨m, hm, hreferences⟩ : ∃ m, buildModel project (fun path => .ok ⟨path, "", []⟩) config = .ok m ∧
      m.groups.map (fun g => (commandsFile project g).references.map fun r => (r.package?, r.name)) = [
        [(some "client_v1", "GetCharts"), (none, "outputChartsCmd"), (some "client_v1", "GetChartByName"),
          (some "client_v1", "DeleteChart")]] :=
    exists_ok_of_map (by decide +kernel)
  exact ⟨m, hm, hreferences, built_files_linked hm⟩

end ApiForge
