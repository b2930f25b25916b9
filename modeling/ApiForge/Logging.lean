import ApiForge.Text.Casing

/-! What is logged, and how. Environment variables decide; the command line can only ask for more. -/

namespace ApiForge

inductive LogFormat where
  /-- For people. -/
  | pretty
  /-- For programs. -/
  | json
  deriving DecidableEq, Repr

structure LogConfig where
  level : String := "warn"
  format : LogFormat := .pretty
  /-- Filters for single targets, separated by commas. -/
  targets : Option String := none
  /-- Events name the place in the source that they come from. -/
  location : Bool := false
  deriving DecidableEq, Repr

namespace LogConfig

/-- The format with a name in any case; an unknown name stands for the one for people. -/
def formatOfName (name : String) : LogFormat :=
  if Text.lower name.toList = "json".toList then .json else .pretty

def isYes (text : String) : Bool :=
  ["1", "true", "yes"].contains (String.ofList (Text.lower text.toList))

/-- What environment variables ask for. -/
def ofEnvironment (lookup : String → Option String) : LogConfig :=
  let default : LogConfig := {}
  { level := (lookup "THREEPORT_SDK_LOG_LEVEL").getD default.level
    format := ((lookup "THREEPORT_SDK_LOG_FORMAT").map formatOfName).getD default.format
    targets := lookup "THREEPORT_SDK_LOG_TARGETS"
    location := ((lookup "THREEPORT_SDK_LOG_INCLUDE_LOCATION").map isYes).getD default.location }

/-- Takes the level that the number of times stands for that more was asked for. -/
def withVerbosity (c : LogConfig) : Nat → LogConfig
  | 0 => c
  | 1 => { c with level := "debug" }
  | _ => { c with level := "trace" }

end LogConfig

end ApiForge
