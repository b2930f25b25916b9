import ApiForge.Code.File
import ApiForge.Model.Index
import ApiForge.Project

/-! The packages that generated code lives in and the ones it uses, and what is common to all generated files. -/

namespace ApiForge.Generated

open Code (Import Line Reference)

/-- At the top of files that are generated anew in every run. -/
def regenerated : List String :=
  ["generated by 'threeport-sdk gen' - do not edit"]

/-- At the top of files that are generated once. -/
def generatedOnce : List String :=
  ["originally generated by 'threeport-sdk gen' but will not be regenerated", "- intended for modification"]

/-! ### Packages of the project -/

def apiPackage (p : Project) (version : String) : String :=
  p.importPath ("pkg/api/" ++ version)

def handlersPackage (p : Project) (version : String) : String :=
  p.importPath ("pkg/api-server/" ++ version ++ "/handlers")

def clientPackage (p : Project) (version : String) : String :=
  p.importPath ("pkg/client/" ++ version)

def controllerPackage (p : Project) (package : String) : String :=
  p.importPath ("internal/" ++ package)

/-! ### Packages of the base library -/

def notifications : Import :=
  ⟨"notifications", baseImportPath "pkg/notifications/v0"⟩

def serverLibrary : Import :=
  ⟨"iapi", baseImportPath "pkg/api-server/v0"⟩

def clientLibrary : Import :=
  ⟨"client", baseImportPath "pkg/client/lib/v0"⟩

def commandLibrary : Import :=
  ⟨"cli", baseImportPath "pkg/cli/v0"⟩

def controllerLibrary : Import :=
  ⟨"controller", baseImportPath "pkg/controller/v0"⟩

/-! ### Aliases

A file that belongs to no version of its own calls the packages of a version by names that carry the version. -/

def apiAlias (version : String) : String :=
  "api_" ++ version

def clientAlias (version : String) : String :=
  "client_" ++ version

def apiImport (p : Project) (version : String) : Import :=
  ⟨apiAlias version, apiPackage p version⟩

def clientImport (p : Project) (version : String) : Import :=
  ⟨clientAlias version, clientPackage p version⟩

/-! ### Names that other files declare -/

/-- A name of the file's own package. -/
def ownName (name : String) : Line :=
  Reference.line { name := name }

/-- A name of the package that the file calls `package`. -/
def importedName (package name : String) : Line :=
  Reference.line { package? := some package, name := name }

/-- A name of the objects of the version that a file belongs to. -/
def apiName (name : String) : Line :=
  importedName "api" name

/-- A method of an object, whose type is of the file's own package or of the one that the file calls `package?`. -/
def objectMethod (package? : Option String) (typeName value name : String) : Line :=
  Reference.line { package? := package?, receiver? := some ⟨value, "*" ++ typeName⟩, name := name }

end ApiForge.Generated
