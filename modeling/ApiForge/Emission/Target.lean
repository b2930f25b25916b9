import ApiForge.Model.Index

/-! What one generated file is about: a version, a group at one version, a group, or a reconciled object. -/

namespace ApiForge

inductive Granularity where
  | version
  | versionGroup
  | group
  | reconciledObject
  deriving DecidableEq, Repr

inductive Target where
  | version (slice : VersionSlice) (index : VersionIndex)
  | versionGroup (slice : VersionSlice) (group : GroupSlice)
  | group (group : Group)
  | reconciledObject (group : Group) (object : ReconciledObject)
  deriving DecidableEq, Repr

namespace Target

/-- The targets of a model, in its order. -/
def all (m : Model) : Granularity → List Target
  | .version => m.slices.filterMap fun s => (m.index? s.version).map (.version s)
  | .versionGroup => m.slices.flatMap fun s => s.groups.map (.versionGroup s)
  | .group => m.groups.map .group
  | .reconciledObject => m.groups.flatMap fun g => g.reconciled.map (.reconciledObject g)

/-- The name of the target's group and the names derived from it. -/
def group? : Target → Option (String × GroupNames)
  | .version _ _ => none
  | .versionGroup _ g => some (g.name, g.names)
  | .group g | .reconciledObject g _ => some (g.name, g.names)

def version? : Target → Option String
  | .version s _ | .versionGroup s _ => some s.version
  | .group _ => none
  | .reconciledObject _ o => o.latestVersion?

def object? : Target → Option String
  | .reconciledObject _ o => some o.name
  | _ => none

/-- The values of the placeholders in path templates. -/
def placeholder? (t : Target) (key : String) : Option String :=
  if key = "version" then t.version?
  else if key = "group" then t.group?.map fun g => Text.snakeCase g.1
  else if key = "object" then t.object?.map Text.snakeCase
  else if key = "controller" then t.group?.map (·.2.controller)
  else if key = "package" then t.group?.map (·.2.package)
  else none

def describe : Target → String
  | .version s _ => s.version
  | .versionGroup s g => g.name ++ " (" ++ s.version ++ ")"
  | .group g => g.name
  | .reconciledObject g o => g.name ++ "." ++ o.name

end Target

end ApiForge
