import ApiForge.Config.Basic

/-! Configurations from structured values. What is decoded is the same for every document format; the formats differ
in what they take for a text, a flag, a list or a record. A record with an unknown or a repeated field is refused,
as is one without a field that has no default. -/

namespace ApiForge

/-- What the values of a document format stand for; `none` where a value is of another kind. -/
structure Format (ν : Type) where
  text? : ν → Option String
  flag? : ν → Option Bool
  items? : ν → Option (List ν)
  /-- The fields of a record whose field names are given in their order. -/
  fields? : List String → ν → Option (List (String × ν))
  /-- For a value that may be missing: `some none` when it is, `some (some v)` when it is there. -/
  optional? : ν → Option (Option ν)

namespace Format

variable {ν α : Type}

/-- The fields of a record, when all are among `names` and none is given twice. -/
def record? (f : Format ν) (names : List String) (v : ν) : Option (List (String × ν)) := do
  let fields ← f.fields? names v
  let given := fields.map Prod.fst
  if given.all names.contains ∧ distinct given = given then some fields else none

/-- The field `name`, or the default when the record lacks it. -/
def field? (fields : List (String × ν)) (name : String) (decode : ν → Option α) (default : Option α) : Option α :=
  match fields.lookup name with
  | some v => decode v
  | none => default

def list? (f : Format ν) (decode : ν → Option α) (v : ν) : Option (List α) := do
  (← f.items? v).mapM decode

def docs? (f : Format ν) (v : ν) : Option ApiDocs := do
  let r ← f.record? ["Title", "Description", "TosLink", "ContactName", "ContactUrl", "ContactEmail"] v
  let text (name : String) : Option String := field? r name f.text? (some "")
  return {
    title := ← text "Title"
    description := ← text "Description"
    tosLink := ← text "TosLink"
    contactName := ← text "ContactName"
    contactUrl := ← text "ContactUrl"
    contactEmail := ← text "ContactEmail" }

def commands? (f : Format ν) (v : ν) : Option CommandConfig := do
  let r ← f.record? ["Enabled", "ConfigPath"] v
  return {
    enabled := ← field? r "Enabled" f.flag? (some false)
    configPath := ← field? r "ConfigPath" f.flag? (some false) }

def objectFields : List String := [
  "Name", "Versions", "Reconcilable", "DisableNotificationPersistence", "ExcludeRoute", "ExcludeFromDb",
  "AllowCustomMiddleware", "AllowDuplicateModelNames", "LoadAssociationsFromDb", "NameField", "Tptctl"]

def object? (f : Format ν) (v : ν) : Option ObjectConfig := do
  let r ← f.record? objectFields v
  let flag (name : String) : Option Bool := field? r name f.flag? (some false)
  return {
    name := ← field? r "Name" f.text? none
    versions := ← field? r "Versions" (f.list? f.text?) (some [])
    reconcilable := ← flag "Reconcilable"
    disableNotificationPersistence := ← flag "DisableNotificationPersistence"
    excludeRoute := ← flag "ExcludeRoute"
    excludeFromDb := ← flag "ExcludeFromDb"
    allowCustomMiddleware := ← flag "AllowCustomMiddleware"
    allowDuplicateModelNames := ← flag "AllowDuplicateModelNames"
    loadAssociationsFromDb := ← flag "LoadAssociationsFromDb"
    nameField := ← flag "NameField"
    commands := ← field? r "Tptctl" f.commands? (some {}) }

def group? (f : Format ν) (v : ν) : Option GroupConfig := do
  let r ← f.record? ["Name", "Objects"] v
  return {
    name := ← field? r "Name" f.text? none
    objects := ← field? r "Objects" (f.list? f.object?) (some []) }

def migrationOrder? (f : Format ν) (v : ν) : Option MigrationOrder := do
  let r ← f.record? ["Before", "After", "Version"] v
  return {
    before := ← field? r "Before" f.text? none
    after := ← field? r "After" f.text? none
    version := ← field? r "Version" f.text? (some baseVersion) }

def migrationOrders? (f : Format ν) (v : ν) : Option (Option (List MigrationOrder)) := do
  match ← f.optional? v with
  | none => return none
  | some v => return some (← f.list? f.migrationOrder? v)

def config? (f : Format ν) (v : ν) : Option Config := do
  let r ← f.record? ["ApiNamespace", "ImageRepo", "ApiDocs", "DatabaseMigrationOrder", "ApiObjectGroups"] v
  return {
    apiNamespace := ← field? r "ApiNamespace" f.text? (some "")
    imageRepo := ← field? r "ImageRepo" f.text? (some "")
    docs := ← field? r "ApiDocs" f.docs? (some {})
    migrationOrder := ← field? r "DatabaseMigrationOrder" f.migrationOrders? (some none)
    groups := ← field? r "ApiObjectGroups" (f.list? f.group?) (some []) }

end Format

/-- A list stands for the record whose fields it gives in their order. -/
def Json.format : Format Json where
  text?
    | .string s => some s
    | _ => none
  flag?
    | .bool b => some b
    | _ => none
  items?
    | .array vs => some vs
    | _ => none
  fields? names
    | .object fields => some fields
    | .array vs => if vs.length ≤ names.length then some (names.zip vs) else none
    | _ => none
  optional?
    | .null => some none
    | v => some (some v)

end ApiForge
