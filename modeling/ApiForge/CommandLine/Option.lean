/-! The words of a command line: what can be asked for, and the options of each request. -/

namespace ApiForge.CommandLine

/-- How far the request is named: not at all, in part, or in full. -/
inductive Level where
  | program
  | create
  | createApiObjects
  | generate
  | sync
  | inspect
  | version
  deriving DecidableEq, Repr

/-- The words that name a request further. -/
def Level.words : Level → List (String × Level)
  | .program =>
    [("create", .create), ("gen", .generate), ("sync", .sync), ("inspect", .inspect), ("version", .version)]
  | .create => [("api-objects", .createApiObjects)]
  | _ => []

inductive Opt where
  | help
  | projectRoot
  | extensionModule
  | verbose
  | config
  | only
  | dryRun
  | keepGoing
  deriving DecidableEq, Repr

namespace Opt

/-- The name behind two dashes. -/
def name : Opt → String
  | .help => "help"
  | .projectRoot => "project-root"
  | .extensionModule => "extension-module"
  | .verbose => "verbose"
  | .config => "config"
  | .only => "only"
  | .dryRun => "dry-run"
  | .keepGoing => "keep-going"

/-- The letter behind one dash. -/
def letter? : Opt → Option Char
  | .help => some 'h'
  | .verbose => some 'v'
  | .config => some 'c'
  | _ => none

def takesValue : Opt → Bool
  | .projectRoot | .extensionModule | .config | .only => true
  | _ => false

/-- Every word that follows is a value, up to the next option. -/
def takesMany (o : Opt) : Bool :=
  o == .only

end Opt

/-- The options that may stand anywhere. -/
def globalOptions : List Opt :=
  [.help, .projectRoot, .extensionModule, .verbose]

def Level.options (l : Level) : List Opt :=
  globalOptions ++
    match l with
    | .createApiObjects | .sync => [.config, .dryRun]
    | .generate => [.config, .only, .dryRun, .keepGoing]
    | .inspect => [.config]
    | .program | .create | .version => []

/-- Why a command line asks for nothing that can be done. -/
inductive UsageFault where
  | helpWanted
  /-- Neither a request nor an option is there. -/
  | nothingGiven
  | requestMissing
  | unknownRequest
  /-- There is no such option, or a word that belongs to none. -/
  | unknownOption
  /-- A value is missing, empty, or not one of those that are possible. -/
  | badValue
  | unwantedValue
  | givenTwice
  | configMissing
  deriving DecidableEq, Repr

end ApiForge.CommandLine
