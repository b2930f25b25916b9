import ApiForge.Generated.Package

/-! The tags of the fields of a group's objects at one version. Fields without tags are left out, objects without
tagged fields are not. -/

namespace ApiForge.Generated

open Code
open Source (TagMap)

def tagLines (tags : TagMap) : Lines :=
  tags.map fun t => Text.quote t.1 ++ ": " ++ Text.quote t.2 ++ ","

/-- The fields of an object that have tags. -/
def taggedFields (index : TagIndex) (typeName : String) : NameMap TagMap :=
  ((index.get? typeName).getD []).filter fun f => !f.2.isEmpty

def taggedObjectLines (index : TagIndex) (o : ApiObject) : Lines :=
  enclose (Text.quote o.typeName ++ ": \x7b")
    ((taggedFields index o.typeName).flatMap fun f => enclose (Text.quote f.1 ++ ": \x7b") (tagLines f.2) "\x7d,")
    "\x7d,"

def taggedFieldsName (domain : String) : String :=
  domain ++ "TaggedFields"

def taggedFieldsValue (version : String) (g : GroupSlice) : Declaration :=
  .value [
      s!"{taggedFieldsName g.names.domain} holds the struct tags of the {g.name} objects in",
      s!"API version {version}, keyed by object, field and tag key."]
    (taggedFieldsName g.names.domain)
    (composite "map[string]map[string]map[string]string" (g.objects.flatMap (taggedObjectLines g.tags)))

def addVersionsFunction (version : String) (g : GroupSlice) : Declaration :=
  .function [
      s!"Add{g.names.domain}Versions registers the {g.name} objects with REST API",
      s!"version {version}."]
    s!"Add{g.names.domain}Versions" { parameters := ["register VersionRegistrar"] }
    (g.objects.map fun o =>
      "register(string(" ++ apiName o.names.objectType ++ s!"), {Text.quote version}, " ++
        s!"{taggedFieldsName g.names.domain}[{Text.quote o.typeName}])")

def taggedFieldsFile (p : Project) (version : String) (g : GroupSlice) : File where
  header := regenerated
  package := "versions"
  imports := [[⟨"api", apiPackage p version⟩]]
  declarations := [taggedFieldsValue version g, addVersionsFunction version g]

end ApiForge.Generated
