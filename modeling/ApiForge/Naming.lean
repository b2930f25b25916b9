import ApiForge.Json
import ApiForge.Text.Plural
import ApiForge.Text.Words

/-! Every name that generated code uses, computed from the name of a group or from the type name and the version of
an object. A route constant, the handler it points at and the client function that calls it agree because all
three are read from here. -/

namespace ApiForge

open Text

/-- The names derived from a group of objects. -/
structure GroupNames where
  /-- `KubernetesRuntime` -/
  domain : String
  /-- `kubernetes-runtime-controller` -/
  controller : String
  /-- `kubernetes-runtime` -/
  shortName : String
  /-- `kubernetesruntime` -/
  package : String
  /-- `KubernetesRuntimeStreamName` -/
  stream : String
  /-- `kubernetes_runtime.go` -/
  sourceFile : String
  deriving DecidableEq, Repr

namespace GroupNames

def ofGroup (group : String) : GroupNames where
  domain := pascalCase group
  controller := kebabCase group ++ "-controller"
  shortName := kebabCase group
  package := packageCase group
  stream := pascalCase group ++ "StreamName"
  sourceFile := snakeCase group ++ ".go"

def fields (n : GroupNames) : List (String × Json) := [
  ("controller_domain", .string n.domain),
  ("controller_name", .string n.controller),
  ("controller_short_name", .string n.shortName),
  ("controller_package_name", .string n.package),
  ("stream_name", .string n.stream),
  ("source_file", .string n.sourceFile)]

end GroupNames

/-- A notification subject: the constant that stands for it, and its value. -/
structure Subject where
  constant : String
  value : String
  deriving DecidableEq, Repr

namespace Subject

/-- The subject of an object for one `operation`, whose constant is told apart by `label`. -/
def ofObject (typeName label operation : String) : Subject where
  constant := typeName ++ label ++ "Subject"
  value := camelCase typeName ++ "." ++ operation

def toJson (s : Subject) : Json :=
  .object [("constant", .string s.constant), ("value", .string s.value)]

end Subject

/-- The names of the request handlers of one object. -/
structure HandlerNames where
  getVersions : String
  add : String
  getAll : String
  getOne : String
  update : String
  replace : String
  delete : String
  deriving DecidableEq, Repr

namespace HandlerNames

/-- All names end in `ending`, which tells middleware from handlers. -/
def ofType (typeName ending : String) : HandlerNames where
  getVersions := "Get" ++ typeName ++ "Versions" ++ ending
  add := "Add" ++ typeName ++ ending
  getAll := "Get" ++ plural typeName ++ ending
  getOne := "Get" ++ typeName ++ ending
  update := "Update" ++ typeName ++ ending
  replace := "Replace" ++ typeName ++ ending
  delete := "Delete" ++ typeName ++ ending

def all (h : HandlerNames) : List String :=
  [h.getVersions, h.add, h.getAll, h.getOne, h.update, h.replace, h.delete]

def toJson (h : HandlerNames) : Json :=
  .object [
    ("get_versions", .string h.getVersions), ("add", .string h.add), ("get_all", .string h.getAll),
    ("get_one", .string h.getOne), ("update", .string h.update), ("replace", .string h.replace),
    ("delete", .string h.delete)]

end HandlerNames

/-- The names of the client functions of one object. -/
structure ClientNames where
  getAll : String
  getById : String
  getByName : String
  create : String
  update : String
  delete : String
  deriving DecidableEq, Repr

namespace ClientNames

def ofType (typeName : String) : ClientNames where
  getAll := "Get" ++ plural typeName
  getById := "Get" ++ typeName ++ "ByID"
  getByName := "Get" ++ typeName ++ "ByName"
  create := "Create" ++ typeName
  update := "Update" ++ typeName
  delete := "Delete" ++ typeName

def all (c : ClientNames) : List String :=
  [c.getAll, c.getById, c.getByName, c.create, c.update, c.delete]

def toJson (c : ClientNames) : Json :=
  .object [
    ("get_all", .string c.getAll), ("get_by_id", .string c.getById), ("get_by_name", .string c.getByName),
    ("create", .string c.create), ("update", .string c.update), ("delete", .string c.delete)]

end ClientNames

/-- The package that a generated name lives in. Within one version a name has to be unique in its package only. -/
inductive Scope where
  | api
  | handlers
  | client
  deriving DecidableEq, Repr

def Scope.text : Scope → String
  | .api => "api"
  | .handlers => "handlers"
  | .client => "client"

/-- The names derived from one object at one version. -/
structure ObjectNames where
  /-- `ObjectTypeWorkloadDefinition` -/
  objectType : String
  /-- `WorkloadDefinitions` -/
  plural : String
  /-- `/v0/workload-definitions` -/
  path : String
  /-- `PathWorkloadDefinitions` -/
  pathConst : String
  /-- `/workload-definitions/versions` -/
  versionsPath : String
  /-- `PathWorkloadDefinitionVersions` -/
  versionsPathConst : String
  subject : Subject
  createSubject : Subject
  updateSubject : Subject
  deleteSubject : Subject
  handlers : HandlerNames
  middleware : HandlerNames
  client : ClientNames
  /-- `workloadDefinition`, for local variables -/
  variableName : String
  /-- `WorkloadDefinitionReconciler` -/
  reconciler : String
  /-- `workload-definition` -/
  command : String
  /-- `workload-definitions` -/
  commandPlural : String
  deriving DecidableEq, Repr

namespace ObjectNames

def ofObject (typeName version : String) : ObjectNames where
  objectType := "ObjectType" ++ typeName
  plural := Text.plural typeName
  path := "/" ++ version ++ "/" ++ kebabCase (Text.plural typeName)
  pathConst := "Path" ++ Text.plural typeName
  versionsPath := "/" ++ kebabCase (Text.plural typeName) ++ "/versions"
  versionsPathConst := "Path" ++ typeName ++ "Versions"
  subject := .ofObject typeName "" "*"
  createSubject := .ofObject typeName "Create" "create"
  updateSubject := .ofObject typeName "Update" "update"
  deleteSubject := .ofObject typeName "Delete" "delete"
  handlers := .ofType typeName ""
  middleware := .ofType typeName "Middleware"
  client := .ofType typeName
  variableName := camelCase typeName
  reconciler := typeName ++ "Reconciler"
  command := kebabCase typeName
  commandPlural := kebabCase (Text.plural typeName)

/-- The package-level identifiers that the object contributes. -/
def identifiers (n : ObjectNames) : List (Scope × String) :=
  [n.objectType, n.pathConst, n.versionsPathConst, n.subject.constant, n.createSubject.constant,
    n.updateSubject.constant, n.deleteSubject.constant].map (Scope.api, ·) ++
  (n.handlers.all ++ n.middleware.all).map (Scope.handlers, ·) ++
  n.client.all.map (Scope.client, ·)

def toJson (n : ObjectNames) : Json :=
  .object [
    ("object_type", .string n.objectType), ("plural", .string n.plural), ("path", .string n.path),
    ("path_const", .string n.pathConst), ("versions_path", .string n.versionsPath),
    ("versions_path_const", .string n.versionsPathConst), ("subject", n.subject.toJson),
    ("create_subject", n.createSubject.toJson), ("update_subject", n.updateSubject.toJson),
    ("delete_subject", n.deleteSubject.toJson), ("handlers", n.handlers.toJson),
    ("middleware", n.middleware.toJson), ("client", n.client.toJson), ("variable", .string n.variableName),
    ("reconciler", .string n.reconciler), ("tptctl_command", .string n.command),
    ("tptctl_command_plural", .string n.commandPlural)]

end ObjectNames

end ApiForge
