import ApiForge.Emission.Defaults
import ApiForge.Proofs.Identifiers
import Mathlib.Data.List.Perm.Basic

/-! The names that generated files declare: per object for the objects of the file, and the few that a file has of its
own. -/

namespace ApiForge.Generated

open Code (Declaration File Import)

/-! ### Files of a version -/

/-- The methods of every object. -/
def objectMethodNames : List String :=
  ["GetSubjects", "NotificationPayload", "DecodeNotifObject", "GetId", "Type", "Version"]

/-- The names of the subjects and the paths of an object, in the order of its file. -/
def routeConstants (o : ApiObject) : List String :=
  [o.names.subject.constant, o.names.createSubject.constant, o.names.updateSubject.constant,
    o.names.deleteSubject.constant, o.names.pathConst, o.names.versionsPathConst]

theorem names_objectConstants (g : GroupSlice) : (objectConstants g).flatten.map Code.Constant.name =
    g.objects.map (·.names.objectType) ++ g.names.stream :: g.objects.flatMap routeConstants := by
  have hgroups : (objectConstants g).flatten.map Code.Constant.name =
      (objectConstants g).flatMap (·.map Code.Constant.name) :=
    List.map_flatten
  rw [hgroups, objectConstants, List.flatMap_append, List.flatMap_cons, List.flatMap_assoc, List.map_map,
    List.append_assoc]
  rfl

theorem names_objectsFile (version : String) (g : GroupSlice) :
    (objectsFile version g).names.Perm (g.names.stream :: g.objects.flatMap (·.names.constants)) := by
  have hmethods : (g.objects.flatMap (objectMethods version)).flatMap Declaration.names = [] := by
    rw [List.flatMap_assoc]
    exact List.flatMap_eq_nil_iff.mpr fun o _ => rfl
  have hconstants : (objectsFile version g).names = (objectConstants g).flatten.map Code.Constant.name := by
    rw [File.names, objectsFile, List.flatMap_cons, hmethods, List.append_nil]
    rfl
  rw [hconstants, names_objectConstants]
  -- The types of all objects come first, and the paths of each object last.
  refine List.perm_middle.trans (List.Perm.cons _ ?_)
  refine (List.map_append_flatMap_perm ..).trans (List.Perm.flatMap_left _ fun o _ => List.Perm.cons _ ?_)
  exact @List.perm_append_comm _ [_, _, _, _] [_, _]

theorem methods_objectsFile (version : String) (g : GroupSlice) :
    (objectsFile version g).methods =
      g.objects.flatMap fun o => objectMethodNames.map fun name => ("*" ++ o.typeName, name) := by
  rw [File.methods, objectsFile, List.flatMap_cons, List.flatMap_assoc]
  rfl

theorem names_notificationsFile (s : VersionSlice) : (notificationsFile s).names = ["AllStreams", "ReconciledSubjects"] :=
  rfl

theorem names_taggedFieldsFile (p : Project) (version : String) (g : GroupSlice) :
    (taggedFieldsFile p version g).names = [g.names.domain ++ "TaggedFields", "Add" ++ g.names.domain ++ "Versions"] :=
  rfl

theorem names_routesFile (p : Project) (version : String) (g : GroupSlice) :
    (routesFile p version g).names = [routesFunctionName g.names.domain] :=
  rfl

theorem names_registryFile (p : Project) (s : VersionSlice) (i : VersionIndex) :
    (registryFile p s i).names = ["RoutedObjects", "AddRoutes"] :=
  rfl

theorem names_handlersFile (p : Project) (version : String) (g : GroupSlice) :
    (handlersFile p version g).names = [] := by
  rw [File.names, handlersFile, List.flatMap_assoc]
  exact List.flatMap_eq_nil_iff.mpr fun o _ => rfl

theorem methods_handlersFile (p : Project) (version : String) (g : GroupSlice) :
    (handlersFile p version g).methods =
      (routable g.objects).flatMap fun o => o.names.handlers.all.map ("Handler", ·) := by
  rw [File.methods, handlersFile, List.flatMap_assoc]
  rfl

/-- The client functions of an object. -/
def clientNames (o : ApiObject) : List String :=
  [o.names.client.getAll, o.names.client.getById] ++ (if o.nameField then [o.names.client.getByName] else []) ++
    [o.names.client.create, o.names.client.update, o.names.client.delete]

theorem names_clientFunctions (o : ApiObject) : (clientFunctions o).flatMap Declaration.names = clientNames o := by
  cases h : o.nameField <;> simp [clientFunctions, clientNames, h] <;> rfl

theorem names_clientFile (p : Project) (version : String) (g : GroupSlice) :
    (clientFile p version g).names = (routable g.objects).flatMap clientNames := by
  rw [File.names, clientFile, List.flatMap_assoc]
  exact List.flatMap_congr fun o _ => names_clientFunctions o

theorem methods_clientFile (p : Project) (version : String) (g : GroupSlice) : (clientFile p version g).methods = [] := by
  rw [File.methods, clientFile, List.flatMap_assoc]
  refine List.flatMap_eq_nil_iff.mpr fun o _ => ?_
  unfold clientFunctions
  split <;> rfl

/-! ### Commands -/

/-- The commands of an object and what belongs to them. -/
def commandNames (o : ApiObject) : List String :=
  [getCommandName o] ++ (if o.has .tptctlConfigPath then [configPathName o, createCommandName o] else []) ++
    (if o.nameField then [deleteCommandName o] else [])

theorem names_objectCommands (o : ApiObject) : (objectCommands o).flatMap Declaration.names = commandNames o := by
  unfold objectCommands commandNames
  split <;> split <;> rfl

theorem names_commandsFile (p : Project) (g : Group) :
    (commandsFile p g).names = g.commandObjects.flatMap commandNames := by
  rw [File.names, commandsFile, List.flatMap_assoc]
  exact List.flatMap_congr fun o _ => names_objectCommands o

theorem names_outputFile (p : Project) (g : Group) : (outputFile p g).names = g.commandObjects.map outputFunctionName := by
  rw [File.names, outputFile, List.flatMap_map]
  exact List.map_eq_flatMap.symm

theorem methods_commandsFile (p : Project) (g : Group) : (commandsFile p g).methods = [] := by
  rw [File.methods, commandsFile, List.flatMap_assoc]
  refine List.flatMap_eq_nil_iff.mpr fun o _ => ?_
  unfold objectCommands
  split <;> split <;> rfl

theorem methods_outputFile (p : Project) (g : Group) : (outputFile p g).methods = [] := by
  rw [File.methods, outputFile, List.flatMap_map]
  exact List.flatMap_eq_nil_iff.mpr fun o _ => rfl

/-! ### Controllers -/

/-- What the program of a controller is made of, for the version whose stream it listens to. -/
structure ControllerFile (p : Project) (g : Group) (rs : List Reconciler) (version : String) (f : File) : Prop where
  reconcilers : reconcilersOf g = .ok rs
  latest : latestVersion? (rs.map (·.object.version)) = some version
  imports : f.imports = [Import.sorted (
    [.plain "flag", .plain "fmt", .plain "os", ⟨"nats", "github.com/nats-io/nats.go"⟩, controllerLibrary,
      ⟨g.names.package, controllerPackage p g.names.package⟩] ++ apiImports p rs)]
  declarations : f.declarations =
    [mainFunction g.names (importedName (apiAlias version) g.names.stream) rs, helpFunction g.names.controller]

theorem controllerFile_ok {p : Project} {g : Group} {f : File} (h : controllerFile p g = .ok f) :
    ∃ rs version, ControllerFile p g rs version f := by
  unfold controllerFile at h
  cases hrs : reconcilersOf g with
  | error e =>
      rw [hrs] at h
      cases h
  | ok rs =>
      rw [hrs] at h
      simp only [bind, Except.bind] at h
      cases hversion : latestVersion? (rs.map (·.object.version)) with
      | none =>
          rw [hversion] at h
          cases h
      | some version =>
          rw [hversion] at h
          cases h
          exact ⟨rs, version, hrs, hversion, rfl, rfl⟩

/-- What the reconcilers of a group are made of. -/
structure ReconcilersFile (p : Project) (g : Group) (rs : List Reconciler) (f : File) : Prop where
  reconcilers : reconcilersOf g = .ok rs
  package : f.package = g.names.package
  imports : f.imports = [Import.sorted ([.plain "fmt", controllerLibrary, notifications] ++ apiImports p rs)]
  declarations : f.declarations = rs.map reconcilerFunction

theorem reconcilersFile_ok {p : Project} {g : Group} {f : File} (h : reconcilersFile p g = .ok f) :
    ∃ rs, ReconcilersFile p g rs f := by
  unfold reconcilersFile at h
  cases hrs : reconcilersOf g with
  | error e =>
      rw [hrs] at h
      cases h
  | ok rs =>
      rw [hrs] at h
      cases h
      exact ⟨rs, hrs, rfl, rfl, rfl⟩

/-- What the reconciling of an object is made of. -/
structure StubFile (p : Project) (g : Group) (object : ReconciledObject) (r : Reconciler) (f : File) : Prop where
  reconciler : reconcilerOf g object = .ok r
  package : f.package = g.names.package
  imports : f.imports = [Import.sorted
    [⟨"logr", "github.com/go-logr/logr"⟩, controllerLibrary, apiImport p r.object.version]]
  declarations : f.declarations = [
    reconcileFunction r "Created" "created", reconcileFunction r "Updated" "updated",
    reconcileFunction r "Deleted" "deleted"]

theorem stubFile_ok {p : Project} {g : Group} {object : ReconciledObject} {f : File}
    (h : stubFile p g object = .ok f) : ∃ r, StubFile p g object r f := by
  unfold stubFile at h
  cases hr : reconcilerOf g object with
  | error e =>
      rw [hr] at h
      cases h
  | ok r =>
      rw [hr] at h
      cases h
      exact ⟨r, hr, rfl, rfl, rfl⟩

theorem ControllerFile.names {p : Project} {g : Group} {rs : List Reconciler} {version : String} {f : File}
    (h : ControllerFile p g rs version f) : f.names = ["main", "showHelpAndExit"] := by
  rw [File.names, h.declarations]
  rfl

theorem ControllerFile.methods {p : Project} {g : Group} {rs : List Reconciler} {version : String} {f : File}
    (h : ControllerFile p g rs version f) : f.methods = [] := by
  rw [File.methods, h.declarations]
  rfl

theorem ReconcilersFile.names {p : Project} {g : Group} {rs : List Reconciler} {f : File}
    (h : ReconcilersFile p g rs f) : f.names = rs.map fun r => r.object.names.reconciler := by
  rw [File.names, h.declarations, List.flatMap_map]
  exact List.map_eq_flatMap.symm

theorem ReconcilersFile.methods {p : Project} {g : Group} {rs : List Reconciler} {f : File}
    (h : ReconcilersFile p g rs f) : f.methods = [] := by
  rw [File.methods, h.declarations, List.flatMap_map]
  exact List.flatMap_eq_nil_iff.mpr fun r _ => rfl

/-- The functions that reconcile an object. -/
def reconcileNames (o : ApiObject) : List String :=
  ["Created", "Updated", "Deleted"].map (reconcileFunctionName o)

theorem StubFile.names {p : Project} {g : Group} {object : ReconciledObject} {r : Reconciler} {f : File}
    (h : StubFile p g object r f) : f.names = reconcileNames r.object := by
  rw [File.names, h.declarations]
  rfl

theorem StubFile.methods {p : Project} {g : Group} {object : ReconciledObject} {r : Reconciler} {f : File}
    (h : StubFile p g object r f) : f.methods = [] := by
  rw [File.methods, h.declarations]
  rfl

end ApiForge.Generated
