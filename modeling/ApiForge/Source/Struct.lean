import ApiForge.Json
import ApiForge.Source.Marker
import ApiForge.Source.Tag
import ApiForge.Text.Casing

/-! What a model source declares: its package and its structs, with their fields, the tags on the fields and the
markers in the comment above the struct. -/

namespace ApiForge.Source

/-- Fields, or embedded types, that make an object unique by name. -/
def nameFields : List String := ["Name", "Definition", "Instance"]

/-- The field that records whether an object has been reconciled. -/
def reconciledFieldName : String := "Reconciled"

/-- The embedded type that carries that field. -/
def reconciliationType : String := "Reconciliation"

/-- A field of a struct; a list of names before one type is one field for each name. -/
structure Field where
  /-- Of an embedded type, its last segment. -/
  name : String
  embedded : Bool
  /-- The text of the type. -/
  typeText : String
  tags : TagMap
  deriving DecidableEq, Repr

namespace Field

/-- The name starts with a capital letter. -/
def exported (f : Field) : Bool :=
  f.name.toList.head?.any Text.isUppercase

def toJson (f : Field) : Json :=
  .object [
    ("name", .string f.name), ("embedded", .bool f.embedded), ("type_expr", .string f.typeText),
    ("exported", .bool f.exported),
    ("tags", .object (f.tags.map fun tag => (tag.1, .string tag.2)))]

end Field

/-- A struct declaration. -/
structure Struct where
  name : String
  line : Nat
  markers : List Marker
  fields : List Field
  deriving DecidableEq, Repr

namespace Struct

/-- The fields that make the object unique by name. -/
def namingFields (s : Struct) : List String :=
  (s.fields.map Field.name).filter nameFields.contains

def hasNameField (s : Struct) : Bool :=
  !s.namingFields.isEmpty

def hasReconciledField (s : Struct) : Bool :=
  s.fields.any fun f => f.name == reconciledFieldName || f.embedded && f.name == reconciliationType

/-- The tags of each field; of two fields with one name the last counts. -/
def fieldTags (s : Struct) : NameMap TagMap :=
  NameMap.ofList (s.fields.map fun f => (f.name, f.tags))

def toJson (s : Struct) : Json :=
  .object [
    ("name", .string s.name), ("line", .ofNat s.line), ("markers", .strings (s.markers.map Marker.text)),
    ("name_fields", .strings s.namingFields), ("reconciled_field", .bool s.hasReconciledField),
    ("fields", .array (s.fields.map Field.toJson))]

end Struct

/-- What one file declares. -/
structure SourceFile where
  path : String
  package : String
  /-- In the order of their declarations. -/
  structs : List Struct
  deriving DecidableEq, Repr

namespace SourceFile

def find? (file : SourceFile) (name : String) : Option Struct :=
  file.structs.find? (·.name == name)

def toJson (file : SourceFile) : Json :=
  .object [
    ("path", .string file.path), ("package", .string file.package),
    ("types", .array (file.structs.map Struct.toJson))]

end SourceFile

end ApiForge.Source
