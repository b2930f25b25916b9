import ApiForge.Json
import ApiForge.Version

/-! The configuration: groups of API objects, the objects of each group, and the flags that decide what is generated
for an object. -/

namespace ApiForge

/-- What the generated API documentation says about the API. -/
structure ApiDocs where
  title : String := ""
  description : String := ""
  tosLink : String := ""
  contactName : String := ""
  contactUrl : String := ""
  contactEmail : String := ""
  deriving DecidableEq, Repr

/-- What the command line tool offers for an object. -/
structure CommandConfig where
  enabled : Bool := false
  configPath : Bool := false
  deriving DecidableEq, Repr

structure ObjectConfig where
  name : String
  versions : List String := []
  reconcilable : Bool := false
  disableNotificationPersistence : Bool := false
  excludeRoute : Bool := false
  excludeFromDb : Bool := false
  allowCustomMiddleware : Bool := false
  allowDuplicateModelNames : Bool := false
  loadAssociationsFromDb : Bool := false
  /-- The object is unique by name even if its source has no field that says so. -/
  nameField : Bool := false
  commands : CommandConfig := {}
  deriving DecidableEq, Repr

structure GroupConfig where
  name : String
  objects : List ObjectConfig := []
  deriving DecidableEq, Repr

/-- In the database of `version`, `before` has to be migrated ahead of `after`. -/
structure MigrationOrder where
  before : String
  after : String
  version : String := baseVersion
  deriving DecidableEq, Repr

structure Config where
  apiNamespace : String := ""
  imageRepo : String := ""
  docs : ApiDocs := {}
  /-- Replaces the built-in migration order. -/
  migrationOrder : Option (List MigrationOrder) := none
  groups : List GroupConfig := []
  deriving DecidableEq, Repr

namespace GroupConfig

/-- The versions of the group's objects, ascending. -/
def versions (g : GroupConfig) : List String :=
  Version.sort (distinct (g.objects.flatMap ObjectConfig.versions))

end GroupConfig

namespace Config

/-- All versions of all objects, ascending. Versions that tie are in the order of their characters. -/
def versions (c : Config) : List String :=
  Version.sort (NameSet.ofList ((c.groups.flatMap GroupConfig.objects).flatMap ObjectConfig.versions))

end Config

/-! ### Configurations as structured values -/

def ApiDocs.toJson (d : ApiDocs) : Json :=
  .object [
    ("Title", .string d.title), ("Description", .string d.description), ("TosLink", .string d.tosLink),
    ("ContactName", .string d.contactName), ("ContactUrl", .string d.contactUrl),
    ("ContactEmail", .string d.contactEmail)]

def CommandConfig.toJson (c : CommandConfig) : Json :=
  .object [("Enabled", .bool c.enabled), ("ConfigPath", .bool c.configPath)]

def ObjectConfig.toJson (o : ObjectConfig) : Json :=
  .object [
    ("Name", .string o.name), ("Versions", .strings o.versions), ("Reconcilable", .bool o.reconcilable),
    ("DisableNotificationPersistence", .bool o.disableNotificationPersistence),
    ("ExcludeRoute", .bool o.excludeRoute), ("ExcludeFromDb", .bool o.excludeFromDb),
    ("AllowCustomMiddleware", .bool o.allowCustomMiddleware),
    ("AllowDuplicateModelNames", .bool o.allowDuplicateModelNames),
    ("LoadAssociationsFromDb", .bool o.loadAssociationsFromDb), ("NameField", .bool o.nameField),
    ("Tptctl", o.commands.toJson)]

def GroupConfig.toJson (g : GroupConfig) : Json :=
  .object [("Name", .string g.name), ("Objects", .array (g.objects.map ObjectConfig.toJson))]

def MigrationOrder.toJson (o : MigrationOrder) : Json :=
  .object [("Before", .string o.before), ("After", .string o.after), ("Version", .string o.version)]

/-- The migration order is left out when there is none. -/
def Config.toJson (c : Config) : Json :=
  .object ([
    ("ApiNamespace", .string c.apiNamespace), ("ImageRepo", .string c.imageRepo), ("ApiDocs", c.docs.toJson)] ++
    (c.migrationOrder.map fun orders =>
      ("DatabaseMigrationOrder", Json.array (orders.map MigrationOrder.toJson))).toList ++
    [("ApiObjectGroups", .array (c.groups.map GroupConfig.toJson))])

end ApiForge
