import ApiForge.Fault
import ApiForge.Model.Object

/-! A group of objects that one controller looks after. -/

namespace ApiForge

open Source (Marker TagMap)

/-- An object with a reconciler, over all of its versions. -/
structure ReconciledObject where
  name : String
  /-- Ascending. -/
  versions : List String
  disableNotificationPersistence : Bool
  deriving DecidableEq, Repr

def ReconciledObject.latestVersion? (r : ReconciledObject) : Option String :=
  r.versions.getLast?

/-- The tags of the fields of each object, under its type name. -/
abbrev TagIndex := NameMap (NameMap TagMap)

instance : DecidableEq TagIndex :=
  inferInstanceAs (DecidableEq (List (String × NameMap TagMap)))

structure Group where
  name : String
  names : GroupNames
  /-- An entry for each version of each object, in the order of the configuration, versions ascending. -/
  objects : List ApiObject
  reconciled : List ReconciledObject
  /-- For each marker the objects that it is on for. -/
  marked : List (Marker × NameSet)
  /-- The tags of the group's objects, by version. -/
  tags : NameMap TagIndex
  deriving DecidableEq, Repr

namespace Group

/-- The objects that a marker is on for. -/
def withMarker (g : Group) (m : Marker) : NameSet :=
  (g.marked.lookup m).getD []

/-- The versions that the group has objects in, ascending. -/
def versions (g : Group) : List String :=
  Version.sort (distinct (g.objects.map ApiObject.version))

def objectsIn (g : Group) (version : String) : List ApiObject :=
  g.objects.filter (·.version == version)

/-- Puts `o` into the list: in the place of an older version, or at the end when its type is new. -/
def keepLatest : List ApiObject → ApiObject → List ApiObject
  | [], o => [o]
  | l :: ls, o =>
    if l.typeName = o.typeName then
      (if Version.compare o.version l.version = .gt then o else l) :: ls
    else l :: keepLatest ls o

/-- The latest version of each object, in the order of the configuration. -/
def latestObjects (g : Group) : List ApiObject :=
  g.objects.foldl keepLatest []

def hasCommands (g : Group) : Bool :=
  !(g.withMarker .tptctlEnabled).isEmpty

def hasReconcilers (g : Group) : Bool :=
  !g.reconciled.isEmpty

/-- The latest version of each object that the command line tool offers and a client can reach. -/
def commandObjects (g : Group) : List ApiObject :=
  g.latestObjects.filter fun o => o.has .tptctlEnabled && !o.excludeRoute

/-- The latest version of a reconciled object. -/
def latestOf (g : Group) (r : ReconciledObject) : Except RenderFault ApiObject :=
  match r.latestVersion? with
  | none => .error (.withoutVersions r.name)
  | some version =>
    match (g.objectsIn version).find? (·.typeName == r.name) with
    | none => .error (.withoutEntry r.name version g.name)
    | some o => .ok o

end Group

end ApiForge
