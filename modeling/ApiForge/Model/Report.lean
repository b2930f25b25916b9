import ApiForge.Model.Index

/-! The model as a structured value. -/

namespace ApiForge

open Source (TagMap)

def tagsJson (tags : TagMap) : Json :=
  .object (tags.map fun t => (t.1, .string t.2))

def fieldTagsJson (fields : NameMap TagMap) : Json :=
  .object (fields.map fun f => (f.1, tagsJson f.2))

def TagIndex.toJson (index : TagIndex) : Json :=
  .object (index.map fun e => (e.1, fieldTagsJson e.2))

def ApiObject.toJson (o : ApiObject) : Json :=
  .object [
    ("type_name", .string o.typeName), ("version", .string o.version), ("name_field", .bool o.nameField),
    ("reconciler", .bool (o.has .reconciler)), ("reconciled_field", .bool o.reconciledField),
    ("defined_instance", .bool o.definedInstance), ("tptctl_commands", .bool (o.has .tptctlEnabled)),
    ("tptctl_config_path", .bool (o.has .tptctlConfigPath)),
    ("allow_duplicate_names", .bool (o.has .allowDuplicateNames)),
    ("allow_custom_middleware", .bool (o.has .addCustomMiddleware)),
    ("db_load_associations", .bool (o.has .dbLoadAssociations)), ("exclude_route", .bool o.excludeRoute),
    ("exclude_from_db", .bool o.excludeFromDb),
    ("disable_notification_persistence", .bool o.disableNotificationPersistence),
    ("field_tags", fieldTagsJson o.fieldTags), ("symbols", o.names.toJson)]

def ReconciledObject.toJson (r : ReconciledObject) : Json :=
  .object [
    ("name", .string r.name), ("versions", .strings r.versions),
    ("disable_notification_persistence", .bool r.disableNotificationPersistence)]

def Group.toJson (g : Group) : Json :=
  .object ([("name", .string g.name)] ++ g.names.fields ++ [
    ("objects", .array (g.objects.map ApiObject.toJson)),
    ("reconciled_objects", .array (g.reconciled.map ReconciledObject.toJson)),
    ("tptctl_objects", .strings (g.withMarker .tptctlEnabled)),
    ("tptctl_config_path_objects", .strings (g.withMarker .tptctlConfigPath)),
    ("allow_duplicate_names_objects", .strings (g.withMarker .allowDuplicateNames)),
    ("custom_middleware_objects", .strings (g.withMarker .addCustomMiddleware)),
    ("db_load_associations_objects", .strings (g.withMarker .dbLoadAssociations)),
    ("struct_tags", .object (g.tags.map fun t => (t.1, TagIndex.toJson t.2)))])

def VersionIndex.toJson (v : VersionIndex) : Json :=
  .object [
    ("version", .string v.version), ("route_names", .strings v.routeNames),
    ("database_init_names", .strings v.databaseNames), ("reconciled_names", .strings v.reconciledNames)]

def GroupSlice.toJson (g : GroupSlice) : Json :=
  .object ([("name", .string g.name)] ++ g.names.fields ++ [
    ("objects", .array (g.objects.map ApiObject.toJson)), ("struct_tags", TagIndex.toJson g.tags)])

def VersionSlice.toJson (s : VersionSlice) : Json :=
  .object [("version", .string s.version), ("groups", .array (s.groups.map GroupSlice.toJson))]

namespace Model

def indexJson (m : Model) : Json :=
  .object [("versions", .array (m.index.map VersionIndex.toJson))]

def slicesJson (m : Model) : Json :=
  .object [("versions", .array (m.slices.map VersionSlice.toJson))]

def toJson (m : Model) : Json :=
  .object [
    ("api_namespace", .string m.apiNamespace), ("image_repo", .string m.imageRepo), ("api_docs", m.docs.toJson),
    ("groups", .array (m.groups.map Group.toJson)), ("version_config", m.indexJson), ("versioned", m.slicesJson)]

end Model

end ApiForge
