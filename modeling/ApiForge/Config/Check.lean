import ApiForge.Config.Basic
import ApiForge.Text.Blank

/-! The rules that a configuration of the right shape still has to keep. The first rule broken, in the order of the
document, is the one reported. -/

namespace ApiForge

inductive ConfigFault where
  | missingApiNamespace
  | emptyGroupName (index : Nat)
  | duplicateGroup (group : String)
  | emptyObjectName (group : String)
  | duplicateObject (group object : String)
  | noVersions (group object : String)
  | invalidVersion (group object version : String)
  | invalidMigrationOrder (before after : String)
  deriving DecidableEq, Repr

def ConfigFault.message : ConfigFault → String
  | .missingApiNamespace => "config error: ApiNamespace is required and must not be empty"
  | .emptyGroupName index => "config error: ApiObjectGroups[" ++ toString index ++ "] has an empty Name"
  | .duplicateGroup group => "config error: API object group '" ++ group ++ "' is declared more than once"
  | .emptyObjectName group => "config error: group '" ++ group ++ "' contains an object with an empty Name"
  | .duplicateObject group object =>
    "config error: object '" ++ object ++ "' is declared more than once in group '" ++ group ++ "'"
  | .noVersions group object =>
    "config error: object '" ++ object ++ "' in group '" ++ group ++ "' lists no Versions"
  | .invalidVersion group object version =>
    "config error: object '" ++ object ++ "' in group '" ++ group ++ "' has invalid version '" ++ version ++
      "' (expected e.g. v0, v1, v1alpha1)"
  | .invalidMigrationOrder before after =>
    "config error: invalid DatabaseMigrationOrder entry (Before: '" ++ before ++ "', After: '" ++ after ++
      "'); both names are required and must differ"

/-- The rules for the objects of `group`, of which those named in `seen` came before. -/
def checkObjects (group : String) (seen : List String) : List ObjectConfig → Except ConfigFault Unit
  | [] => .ok ()
  | o :: rest =>
    if Text.isBlankText o.name then .error (.emptyObjectName group)
    else if o.name ∈ seen then .error (.duplicateObject group o.name)
    else if o.versions = [] then .error (.noVersions group o.name)
    else
      match o.versions.find? (!Version.isValid ·) with
      | some version => .error (.invalidVersion group o.name version)
      | none => checkObjects group (o.name :: seen) rest

/-- The rules for the groups from number `index` on, of which those named in `seen` came before. -/
def checkGroups (index : Nat) (seen : List String) : List GroupConfig → Except ConfigFault Unit
  | [] => .ok ()
  | g :: rest =>
    if Text.isBlankText g.name then .error (.emptyGroupName index)
    else if g.name ∈ seen then .error (.duplicateGroup g.name)
    else
      match checkObjects g.name [] g.objects with
      | .error fault => .error fault
      | .ok () => checkGroups (index + 1) (g.name :: seen) rest

def MigrationOrder.isWellFormed (o : MigrationOrder) : Bool :=
  o.before != "" && o.after != "" && o.before != o.after

def checkMigrationOrder (orders : List MigrationOrder) : Except ConfigFault Unit :=
  match orders.find? (!·.isWellFormed) with
  | some o => .error (.invalidMigrationOrder o.before o.after)
  | none => .ok ()

def Config.check (c : Config) : Except ConfigFault Unit :=
  if Text.isBlankText c.apiNamespace then .error .missingApiNamespace
  else
    match checkGroups 0 [] c.groups with
    | .error fault => .error fault
    | .ok () => checkMigrationOrder (c.migrationOrder.getD [])

end ApiForge
