import ApiForge.Code.File
import ApiForge.Model.Object

/-! Stubs of the model sources, for the fields of the objects to be written into. They carry the markers that say the
same as the configuration, so that merging a stub with the configuration changes nothing. -/

namespace ApiForge.Generated

open Code
open Source (Marker)

/-- The types that a stub embeds. -/
def embeddedTypes (o : ObjectConfig) : List String :=
  (if o.reconcilable then ["Reconciliation"] else []) ++
  (if ApiObject.isDefinition o.name then ["Definition"]
    else if ApiObject.isInstance o.name then ["Instance"] else [])

/-- The object gets its name from no embedded type. -/
def needsName (o : ObjectConfig) : Bool :=
  !ApiObject.isDefinition o.name && !ApiObject.isInstance o.name

def squashTag : String :=
  "mapstructure:\",squash\""

def rawTag (tag : String) : String :=
  "\x60" ++ tag ++ "\x60"

def stubFields (o : ObjectConfig) : Lines :=
  ["Common " ++ rawTag ("swaggerignore:\"true\" " ++ squashTag)] ++
  (embeddedTypes o).map (fun e => e ++ " " ++ rawTag squashTag) ++
  given (needsName o) [
    "", s!"// The unique name of the {Text.kebabCase o.name}.",
    "Name *string " ++ rawTag "json:\"Name,omitempty\" query:\"name\" gorm:\"not null\" validate:\"required\""]

def objectStub (o : ObjectConfig) : Declaration :=
  .struct ([s!"{o.name} is a {Text.kebabCase o.name} managed by threeport."] ++
    o.markers.map fun m => "+" ++ m.sentinel) o.name (stubFields o)

/-- The stub of the model source of a group at one version. -/
def modelSourceFile (g : GroupConfig) (version : String) : File where
  header := [
    s!"originally generated by 'threeport-sdk create' for the {g.name} API",
    "object group but will not be regenerated - intended for modification"]
  package := version
  declarations := (g.objects.filter (·.versions.contains version)).map objectStub

end ApiForge.Generated
