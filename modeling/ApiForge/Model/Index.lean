import ApiForge.Model.Group

/-! The finished model: the groups, and the same objects by version. -/

namespace ApiForge

open Source (TagMap)

/-- The names of the objects of one version that are served, migrated and reconciled, each list in alphabetical
order; the migration order may change the second. -/
structure VersionIndex where
  version : String
  routeNames : List String
  databaseNames : List String
  reconciledNames : List String
  deriving DecidableEq, Repr

/-- The objects of one group at one version. -/
structure GroupSlice where
  name : String
  names : GroupNames
  objects : List ApiObject
  tags : TagIndex
  deriving DecidableEq, Repr

/-- The objects of one version by group, of the groups that have some. -/
structure VersionSlice where
  version : String
  groups : List GroupSlice
  deriving DecidableEq, Repr

structure Model where
  apiNamespace : String
  imageRepo : String
  docs : ApiDocs
  groups : List Group
  /-- Ascending by version. -/
  index : List VersionIndex
  /-- Ascending by version. -/
  slices : List VersionSlice
  deriving DecidableEq, Repr

def VersionSlice.objects (s : VersionSlice) : List ApiObject :=
  s.groups.flatMap GroupSlice.objects

namespace Model

/-- Every object at every version. -/
def objects (m : Model) : List ApiObject :=
  m.groups.flatMap Group.objects

def object? (m : Model) (typeName version : String) : Option ApiObject :=
  m.objects.find? fun o => o.typeName == typeName && o.version == version

def index? (m : Model) (version : String) : Option VersionIndex :=
  m.index.find? (·.version == version)

end Model

/-! ### The objects by version

One pass over the groups collects both views; they are put in the order of the versions afterwards. -/

/-- What has been collected, by version. -/
structure Collection where
  index : NameMap VersionIndex := []
  slices : NameMap (List GroupSlice) := []
  deriving DecidableEq

def VersionIndex.empty (version : String) : VersionIndex :=
  { version := version, routeNames := [], databaseNames := [], reconciledNames := [] }

/-- Lists an object in the order of its coming. -/
def VersionIndex.add (v : VersionIndex) (o : ApiObject) : VersionIndex :=
  { v with
    routeNames := if o.excludeRoute then v.routeNames else v.routeNames ++ [o.typeName]
    databaseNames := if o.excludeFromDb then v.databaseNames else v.databaseNames ++ [o.typeName]
    reconciledNames := if o.has .reconciler then v.reconciledNames ++ [o.typeName] else v.reconciledNames }

def VersionIndex.sorted (v : VersionIndex) : VersionIndex :=
  { v with
    routeNames := sortNames v.routeNames
    databaseNames := sortNames v.databaseNames
    reconciledNames := sortNames v.reconciledNames }

/-- The part of a group that an object begins. -/
def Group.beginSlice (g : Group) (o : ApiObject) : GroupSlice :=
  { name := g.name, names := g.names, objects := [o], tags := (g.tags.get? o.version).getD [] }

/-- Adds an object of a group to the last slice, or to a new one if the last is another group's. -/
def Group.addToSlices (g : Group) (o : ApiObject) : List GroupSlice → List GroupSlice
  | [] => [g.beginSlice o]
  | [s] => if s.name = g.name then [{ s with objects := s.objects ++ [o] }] else [s, g.beginSlice o]
  | s :: t :: rest => s :: g.addToSlices o (t :: rest)

def Collection.add (g : Group) (c : Collection) (o : ApiObject) : Collection where
  index := c.index.insert o.version (((c.index.get? o.version).getD (.empty o.version)).add o)
  slices := c.slices.insert o.version (g.addToSlices o ((c.slices.get? o.version).getD []))

def collect (groups : List Group) : Collection :=
  groups.foldl (fun c g => g.objects.foldl (Collection.add g) c) {}

def indexOf (groups : List Group) : List VersionIndex :=
  sortBy (fun a b => Version.le a.version b.version) ((collect groups).index.map fun e => e.2.sorted)

def slicesOf (groups : List Group) : List VersionSlice :=
  sortBy (fun a b => Version.le a.version b.version) ((collect groups).slices.map fun e => ⟨e.1, e.2⟩)

end ApiForge
