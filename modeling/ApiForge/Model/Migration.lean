import ApiForge.Fault
import ApiForge.Model.Index

/-! The order in which objects are migrated in the database. An order that is not kept is established by swapping
its two objects; the others stay where they are. -/

namespace ApiForge

/-- What the base project needs: control planes refer to the runtimes they run on. -/
def defaultMigrationOrder : List MigrationOrder := [
  { before := "KubernetesRuntimeDefinition", after := "ControlPlaneDefinition" },
  { before := "KubernetesRuntimeInstance", after := "ControlPlaneInstance" }]

/-- The list with the entries at `i` and `j` in each other's place. -/
def swapEntries (names : List String) (i j : Nat) : List String :=
  match names[i]?, names[j]? with
  | some a, some b => (names.set i b).set j a
  | _, _ => names

/-- The names of an order that are missing from a list. -/
def MigrationOrder.missingFrom (o : MigrationOrder) (names : List String) : List String :=
  [o.before, o.after].filter (!names.contains ·)

/-- The list with the order established. -/
def MigrationOrder.arrange (o : MigrationOrder) (names : List String) : List String :=
  if names.idxOf o.after < names.idxOf o.before then swapEntries names (names.idxOf o.before) (names.idxOf o.after)
  else names

/-- Changes the first entry of a version. -/
def updateVersion (version : String) (change : VersionIndex → VersionIndex) : List VersionIndex → List VersionIndex
  | [] => []
  | v :: vs => if v.version = version then change v :: vs else v :: updateVersion version change vs

/-- Establishes one order in the version it is for. -/
def MigrationOrder.apply (o : MigrationOrder) (index : List VersionIndex) : Except ModelFault (List VersionIndex) :=
  match index.find? (·.version == o.version) with
  | none => .error (.missingMigrationTargets o.version [o.before, o.after])
  | some v =>
    match o.missingFrom v.databaseNames with
    | [] => .ok (updateVersion o.version (fun v => { v with databaseNames := o.arrange v.databaseNames }) index)
    | missing => .error (.missingMigrationTargets o.version missing)

/-- Establishes the orders one after the other, up to the first that cannot be. The lists are as the orders before
it have left them. -/
def applyOrders : List MigrationOrder → List VersionIndex → List VersionIndex × Option ModelFault
  | [], index => (index, none)
  | o :: rest, index =>
    match o.apply index with
    | .error fault => (index, some fault)
    | .ok index => applyOrders rest index

end ApiForge
