import ApiForge.Config.Check
import ApiForge.Source.Fault

/-! Why an operation failed, and what was being done when it did. -/

namespace ApiForge

/-- What the file system refuses. -/
inductive FileFault where
  | notFound
  | isDirectory
  | notDirectory
  | alreadyExists
  /-- The bytes are no text. -/
  | invalidText
  deriving DecidableEq, Repr

def FileFault.message : FileFault → String
  | .notFound => "io:NotFound"
  | .isDirectory => "io:IsADirectory"
  | .notDirectory => "io:NotADirectory"
  | .alreadyExists => "io:AlreadyExists"
  | .invalidText => "io:InvalidData"

/-- How a configuration and the model sources contradict each other. -/
inductive ModelFault where
  | namingConflict (group object : String)
  /-- Two objects, each named with its group, would generate one identifier in one package. -/
  | collision (version identifier first second : String)
  | missingReconciledField (group object version : String)
  /-- The migration order speaks of objects that are not in the database of the version. -/
  | missingMigrationTargets (version : String) (missing : List String)
  deriving DecidableEq, Repr

def ModelFault.message : ModelFault → String
  | .namingConflict group object =>
    "API object " ++ object ++ " has the same name as its group " ++ group ++ "; rename the object or the group"
  | .collision version identifier first second =>
    first ++ " and " ++ second ++ " both generate " ++ identifier ++ " in " ++ version
  | .missingReconciledField group object version =>
    "API object " ++ object ++ " (" ++ version ++ ", group " ++ group ++
      ") is reconciled but its source declares no Reconciled field; " ++
      "add \x60Reconciled *bool\x60 or embed Reconciliation"
  | .missingMigrationTargets version missing =>
    "database migration ordering for " ++ version ++ " references " ++ ", ".intercalate missing ++ " which " ++
      (if missing.length = 1 then "is" else "are") ++ " not migrated in " ++ version

/-- What is wrong with a path template, or with its use for a target. -/
inductive TemplateFault where
  | unterminated (template : String)
  | undefinedPlaceholder (key template target : String)
  deriving DecidableEq, Repr

def TemplateFault.message : TemplateFault → String
  | .unterminated template => "Unterminated placeholder in path template '" ++ template ++ "'"
  | .undefinedPlaceholder key template target =>
    "Placeholder '\x7b" ++ key ++ "\x7d' in '" ++ template ++ "' is not defined for " ++ target

/-- Why there is no file to generate for a target. -/
inductive RenderFault where
  | unsupportedTarget (target : String)
  | withoutVersions (object : String)
  | withoutEntry (object version group : String)
  | withoutReconcilers (group : String)
  | other (text : String)
  deriving DecidableEq, Repr

def RenderFault.message : RenderFault → String
  | .unsupportedTarget target => "Emitter does not support target " ++ target
  | .withoutVersions object => "Reconciled object " ++ object ++ " has no versions"
  | .withoutEntry object version group =>
    "Reconciled object " ++ object ++ " has no " ++ version ++ " entry in group " ++ group
  | .withoutReconcilers group => "Group " ++ group ++ " has no reconcilers"
  | .other text => text

/-- The root of a failure. -/
inductive Cause where
  | config (fault : ConfigFault)
  | model (fault : ModelFault)
  | source (path : String) (error : Source.SyntaxError)
  | file (fault : FileFault)
  /-- The text is not in the document format. -/
  | malformedDocument
  /-- The document does not have the shape of a configuration. -/
  | wrongShape
  | missingSource (path : String)
  | noModuleDirective (path : String)
  | template (fault : TemplateFault)
  | render (fault : RenderFault)
  | pathClash (first second path : String)
  | failedEmitters (names : List String)
  deriving DecidableEq, Repr

/-- What is said about the cause; a document that cannot be read goes without. -/
def Cause.message? : Cause → Option String
  | .config fault => some fault.message
  | .model fault => some fault.message
  | .source path error => some (error.message path)
  | .file fault => some fault.message
  | .malformedDocument | .wrongShape => none
  | .missingSource path => some ("no source at " ++ path)
  | .noModuleDirective path => some ("No module directive in " ++ path)
  | .template fault => some fault.message
  | .render fault => some fault.message
  | .pathClash first second path =>
    some ("Emitters " ++ first ++ " and " ++ second ++ " both produce " ++ path)
  | .failedEmitters names =>
    some (toString names.length ++ " emitter(s) failed: " ++ ", ".intercalate names)

/-- What was being done when something failed. -/
inductive Activity where
  | readingConfig (path : String)
  | checkingConfig (path : String)
  | loadingConfig (path : String)
  | readingModuleFile (path : String)
  | readingSource (path : String)
  | inspectingGroup (group version : String)
  | creatingDirectory (path : String)
  | writingFile (path : String)
  | deletingFile (path : String)
  | rendering (emitter target path : String)
  | writingArtifact (emitter path : String)
  deriving DecidableEq, Repr

def Activity.text : Activity → String
  | .readingConfig path => "Failed to read SDK config: " ++ path
  | .checkingConfig path => "Invalid SDK config: " ++ path
  | .loadingConfig path => "Could not load " ++ path
  | .readingModuleFile path => "Failed to read " ++ path ++ " (pass --extension-module to skip detection)"
  | .readingSource path => "Failed to read model source " ++ path
  | .inspectingGroup group version => "Failed to inspect group " ++ group ++ " (" ++ version ++ ")"
  | .creatingDirectory path => "Failed to create directory " ++ path
  | .writingFile path => "Failed to write " ++ path
  | .deletingFile path => "Failed to delete " ++ path
  | .rendering emitter target path => "Emitter " ++ emitter ++ " failed for " ++ target ++ " (" ++ path ++ ")"
  | .writingArtifact emitter path => "Emitter " ++ emitter ++ " could not write " ++ path

/-- A cause and the activities around it, the outermost first. -/
structure Failure where
  activities : List Activity := []
  cause : Cause
  deriving DecidableEq, Repr

namespace Failure

def during (activity : Activity) (f : Failure) : Failure :=
  { f with activities := activity :: f.activities }

def message? (f : Failure) : Option String :=
  match f.activities.map Activity.text ++ f.cause.message?.toList with
  | [] => none
  | parts => some (": ".intercalate parts)

end Failure

/-- Says what was being done if it failed. -/
def during {α : Type} (activity : Activity) : Except Failure α → Except Failure α
  | .ok a => .ok a
  | .error f => .error (f.during activity)

def failWith {α : Type} (cause : Cause) : Except Failure α :=
  .error { cause := cause }

end ApiForge
