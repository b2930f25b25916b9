import ApiForge.Generated.Package

/-! The objects of one version that are migrated in the database, in the order of their migration. -/

namespace ApiForge.Generated

open Code

def databaseFile (p : Project) (index : VersionIndex) : File where
  header := regenerated
  package := "database"
  imports := [[⟨"api", apiPackage p index.version⟩]]
  declarations := [
    .function [
        s!"GetDbInterfaces returns the {index.version} objects to migrate, in migration",
        "order."]
      "GetDbInterfaces" { result := "[]interface\x7b\x7d" }
      (composite "return []interface\x7b\x7d" (index.databaseNames.map fun n => s!"&api.{n}\x7b\x7d,"))]

end ApiForge.Generated
