import ApiForge.Model.Migration
import ApiForge.Project

/-! The model of a configuration and its sources. The first contradiction ends the build, and there is no model in
part. -/

namespace ApiForge

open Source (Marker SourceFile)

/-- The source file of a group at a version, as seen from `root`. -/
def sourcePath (root version group : String) : String :=
  Path.join (Path.join (Path.join (Path.join root "pkg") "api") version) (Text.snakeCase group ++ ".go")

/-- Where sources come from: the declarations of the file at a path, or why there are none. -/
abbrev Inspector := String → Except Failure SourceFile

namespace GroupConfig

/-- The versions of an object in the order of its entries. -/
def objectVersions (o : ObjectConfig) : List String :=
  dropRepeats (Version.sort o.versions)

/-- Each object at each of its versions, merged with its source. -/
def objectEntries (g : GroupConfig) (sources : NameMap SourceFile) : List ApiObject :=
  g.objects.flatMap fun o => (objectVersions o).map fun version =>
    match (sources.get? version).bind (·.find? o.name) with
    | some s => (ApiObject.ofConfig o version).merge s
    | none => ApiObject.ofConfig o version

end GroupConfig

/-- For each marker the types of object that it is on for at some version. -/
def markedNames (objects : List ApiObject) : List (Marker × NameSet) :=
  Marker.all.map fun m => (m, NameSet.ofList ((objects.filter (·.has m)).map ApiObject.typeName))

/-- What is on for an object at one version is on for it at all. -/
def shareMarkers (objects : List ApiObject) : List ApiObject :=
  objects.map fun o => o.mark fun m => objects.any fun p => p.typeName == o.typeName && p.has m

/-- Tells the definitions whose instance is among the objects. -/
def pairInstances (objects : List ApiObject) : List ApiObject :=
  objects.map fun o => { o with
    definedInstance := ApiObject.isDefinition o.typeName &&
      (ApiObject.instanceName? o.typeName).any (objects.map ApiObject.typeName).contains }

def tagsOf (objects : List ApiObject) : NameMap TagIndex :=
  objects.foldl
    (fun tags o => tags.insert o.version (((tags.get? o.version).getD []).insert o.typeName o.fieldTags)) []

/-- Adds one version of an object to the reconciled objects. -/
def addReconciled : List ReconciledObject → ApiObject → List ReconciledObject
  | [], o => [⟨o.typeName, [o.version], o.disableNotificationPersistence⟩]
  | r :: rs, o =>
    if r.name = o.typeName then
      { r with
        versions := r.versions ++ [o.version]
        disableNotificationPersistence := r.disableNotificationPersistence || o.disableNotificationPersistence } :: rs
    else r :: addReconciled rs o

def reconciledOf (objects : List ApiObject) : List ReconciledObject :=
  ((objects.filter (·.has .reconciler)).foldl addReconciled []).map fun r =>
    { r with versions := Version.sort r.versions }

/-- The contradictions within one group. Extensions may do without the field that records reconciliation. -/
def groupFault? (extension : Bool) (group : String) (names : GroupNames) (objects : List ApiObject) :
    Option ModelFault :=
  match objects.find? (·.typeName == names.domain) with
  | some o => some (.namingConflict group o.typeName)
  | none =>
    match objects.find? fun o => o.has .reconciler && !o.reconciledField && !extension with
    | some o => some (.missingReconciledField group o.typeName o.version)
    | none => none

/-- The sources of a group, by version. -/
def inspectSources (project : Project) (inspect : Inspector) (g : GroupConfig) :
    List String → Except Failure (NameMap SourceFile)
  | [] => .ok []
  | version :: rest => do
    let file ← during (.inspectingGroup g.name version) (inspect (sourcePath project.root version g.name))
    return (← inspectSources project inspect g rest).insert version file

def buildGroup (project : Project) (inspect : Inspector) (g : GroupConfig) : Except Failure Group := do
  let sources ← inspectSources project inspect g g.versions
  let objects := pairInstances (shareMarkers (g.objectEntries sources))
  let names := GroupNames.ofGroup g.name
  match groupFault? project.isExtension g.name names objects with
  | some fault => failWith (.model fault)
  | none => return {
      name := g.name
      names := names
      objects := objects
      reconciled := reconciledOf objects
      marked := markedNames objects
      tags := tagsOf objects }

def buildGroups (project : Project) (inspect : Inspector) : List GroupConfig → Except Failure (List Group)
  | [] => .ok []
  | g :: rest => do
    let group ← buildGroup project inspect g
    return group :: (← buildGroups project inspect rest)

/-- An identifier of a package at a version, and the object that generates it. -/
structure IdentifierUse where
  version : String
  scope : Scope
  identifier : String
  owner : String
  deriving DecidableEq, Repr

/-- The uses in the order of the groups and their objects. -/
def identifierUses (groups : List Group) : List IdentifierUse :=
  groups.flatMap fun g => g.objects.flatMap fun o => o.names.identifiers.map fun id =>
    ⟨o.version, id.1, id.2, g.name ++ "." ++ o.typeName⟩

def IdentifierUse.sameName (a b : IdentifierUse) : Bool :=
  a.identifier == b.identifier && a.version == b.version && a.scope == b.scope

/-- The first use of an identifier that another object, among the uses in `earlier` or after them, had before. -/
def collision? (earlier : List IdentifierUse) : List IdentifierUse → Option ModelFault
  | [] => none
  | use :: rest =>
    match earlier.find? use.sameName with
    | some first =>
      if first.owner = use.owner then collision? earlier rest
      else some (.collision use.version use.identifier first.owner use.owner)
    | none => collision? (earlier ++ [use]) rest

/-- The order that is in force: the configured one, or in the base project the built-in one. -/
def migrationOrderOf (project : Project) (config : Config) : List MigrationOrder :=
  match config.migrationOrder with
  | some orders => orders
  | none => if project.isExtension then [] else defaultMigrationOrder

def buildModel (project : Project) (inspect : Inspector) (config : Config) : Except Failure Model := do
  match config.check with
  | .error fault => failWith (.config fault)
  | .ok () =>
    let groups ← buildGroups project inspect config.groups
    match collision? [] (identifierUses groups) with
    | some fault => failWith (.model fault)
    | none =>
      match applyOrders (migrationOrderOf project config) (indexOf groups) with
      | (_, some fault) => failWith (.model fault)
      | (index, none) => return {
          apiNamespace := config.apiNamespace
          imageRepo := config.imageRepo
          docs := config.docs
          groups := groups
          index := index
          slices := slicesOf groups }

/-! ### The sources that a build reads -/

/-- The paths up to the first whose source cannot be had. -/
def readUntilFailure (inspect : Inspector) : List String → List String
  | [] => []
  | path :: rest =>
    match inspect path with
    | .ok _ => path :: readUntilFailure inspect rest
    | .error _ => [path]

def inspectedByGroups (project : Project) (inspect : Inspector) : List GroupConfig → List String
  | [] => []
  | g :: rest =>
    readUntilFailure inspect (g.versions.map (sourcePath project.root · g.name)) ++
      match buildGroup project inspect g with
      | .ok _ => inspectedByGroups project inspect rest
      | .error _ => []

/-- The sources that a build reads, in order, whether it succeeds or not. -/
def inspectedPaths (project : Project) (inspect : Inspector) (config : Config) : List String :=
  match config.check with
  | .error _ => []
  | .ok () => inspectedByGroups project inspect config.groups

end ApiForge
