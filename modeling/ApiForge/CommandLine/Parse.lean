import ApiForge.CommandLine.Option
import ApiForge.Emission.Emitter

/-! Command lines as requests. The words that name a request and its options may be mixed; an option counts for the
level at which it stands. -/

namespace ApiForge.CommandLine

inductive Request where
  | createApiObjects (config : String) (dryRun : Bool)
  | generate (config : String) (only : List Stage) (dryRun keepGoing : Bool)
  | sync (config : String) (dryRun : Bool)
  | inspect (config : String)
  | version
  deriving DecidableEq, Repr

/-- The options that may stand anywhere, as far as they are given. -/
structure Globals where
  projectRoot : Option String := none
  extensionModule : Option String := none
  /-- How often more output was asked for. -/
  verbosity : Option Nat := none
  deriving DecidableEq, Repr

/-- Options of an inner level count before those around it. -/
def Globals.within (inner outer : Globals) : Globals where
  projectRoot := inner.projectRoot <|> outer.projectRoot
  extensionModule := inner.extensionModule <|> outer.extensionModule
  verbosity := inner.verbosity <|> outer.verbosity

/-- The options of one level. -/
structure Given where
  globals : Globals := {}
  config : Option String := none
  only : List Stage := []
  dryRun : Bool := false
  keepGoing : Bool := false
  deriving DecidableEq, Repr

structure Invocation where
  projectRoot : String := "."
  extensionModule : Option String := none
  verbosity : Nat := 0
  request : Request
  deriving DecidableEq, Repr

/-! ### Values -/

/-- A path that is given for the first time. -/
def path (before : Option String) (value : String) : Except UsageFault (Option String) :=
  if before.isSome then .error .givenTwice
  else if value = "" then .error .badValue
  else .ok (some value)

/-- A flag that is given for the first time. -/
def flag (before : Bool) : Except UsageFault Bool :=
  if before then .error .givenTwice else .ok true

/-- A text cut at its commas. -/
def cutAtCommas : List Char → List Char × List (List Char)
  | [] => ([], [])
  | c :: cs =>
    let (first, more) := cutAtCommas cs
    if c = ',' then ([], first :: more) else (c :: first, more)

def stages (values : List String) : Except UsageFault (List Stage) :=
  let names := values.flatMap fun value =>
    let (first, more) := cutAtCommas value.toList
    (first :: more).map String.ofList
  match names.mapM Stage.ofName? with
  | none => .error .badValue
  | some stages => .ok stages

/-- The highest verbosity that is told apart. -/
def highestVerbosity : Nat := 255

/-- Takes an option with its values into account. -/
def Given.set (g : Given) (o : Opt) (values : List String) : Except UsageFault Given :=
  let outer := g.globals
  match o, values with
  | .help, _ => .error .helpWanted
  | .verbose, _ =>
    .ok { g with globals := { outer with verbosity := some (min highestVerbosity (outer.verbosity.getD 0 + 1)) } }
  | .dryRun, _ => do return { g with dryRun := ← flag g.dryRun }
  | .keepGoing, _ => do return { g with keepGoing := ← flag g.keepGoing }
  | _, [] => .error .badValue
  | .projectRoot, value :: _ =>
    do return { g with globals := { outer with projectRoot := ← path outer.projectRoot value } }
  | .extensionModule, value :: _ =>
    if outer.extensionModule.isSome then .error .givenTwice
    else .ok { g with globals := { outer with extensionModule := some value } }
  | .config, value :: _ => do return { g with config := ← path g.config value }
  | .only, values => do return { g with only := g.only ++ (← stages values) }

/-! ### Words -/

/-- An option whose values may still be coming. -/
structure Pending where
  option : Opt
  values : List String := []
  deriving DecidableEq, Repr

/-- What has been read of a level. -/
structure State where
  given : Given := {}
  pending : Option Pending := none
  /-- Two dashes came alone: nothing behind them is an option. -/
  literal : Bool := false
  deriving DecidableEq, Repr

namespace State

/-- The next word is a value unless it is an option. -/
def awaitsValue (s : State) : Bool :=
  s.pending.any fun p => p.option.takesMany || p.values.isEmpty

/-- Takes the values of the last option into account. -/
def settle (s : State) : Except UsageFault State :=
  match s.pending with
  | none => .ok s
  | some p => do return { s with given := ← s.given.set p.option p.values, pending := none }

def give (s : State) (o : Opt) (values : List String) : Except UsageFault State := do
  let s ← s.settle
  return { s with given := ← s.given.set o values }

/-- The values of the option are the next words. -/
def await (s : State) (o : Opt) : Except UsageFault State := do
  return { ← s.settle with pending := some { option := o } }

def addValue (s : State) (value : String) : State :=
  { s with pending := s.pending.map fun p => { p with values := p.values ++ [value] } }

/-- An option by its name, perhaps with a value behind an equals sign. -/
def named (s : State) (l : Level) (text : List Char) : Except UsageFault State :=
  let name := text.takeWhile (· != '=')
  let value := text.drop (name.length + 1)
  let attached := name.length < text.length
  match l.options.find? fun o => o.name.toList = name with
  | none => .error .unknownOption
  | some o =>
    if o.takesValue then (if attached then s.give o [String.ofList value] else s.await o)
    else if attached then .error .unwantedValue
    else s.give o []

/-- Options by their letters, the last perhaps with a value. -/
def lettered (l : Level) (s : State) : List Char → Except UsageFault State
  | [] => .ok s
  | c :: cs =>
    match l.options.find? fun o => o.letter? = some c with
    | none => .error .unknownOption
    | some o =>
      if o.takesValue then
        match cs with
        | [] => s.await o
        | '=' :: value => s.give o [String.ofList value]
        | value => s.give o [String.ofList value]
      else do lettered l (← s.give o []) cs

/-- An option, or `none` for a word that is no option. -/
def option? (s : State) (l : Level) (word : String) : Option (Except UsageFault State) :=
  match word.toList with
  | ['-', '-'] => some (.ok { s with literal := true })
  | '-' :: '-' :: text => some (s.named l text)
  | ['-'] => none
  | '-' :: letters => some (lettered l s letters)
  | _ => none

end State

/-- A word that is neither an option nor a value, and names nothing unless it stands behind two dashes. -/
def strayWord (l : Level) (literal : Bool) (word : String) : UsageFault :=
  if l.words = [] ∨ literal ∧ (word = "help" ∨ (l.words.lookup word).isSome) then .unknownOption
  else .unknownRequest

/-- The words behind a request for help, which may name what it is about. -/
def helpAbout (l : Level) : List String → UsageFault
  | [] => .helpWanted
  | word :: rest =>
    match l.words.lookup word with
    | some inner => helpAbout inner rest
    | none => if word = "help" ∧ l.words ≠ [] ∧ rest = [] then .helpWanted else .unknownRequest

/-- What is asked for at the end of a level that is not named further. -/
def Level.request (l : Level) (g : Given) : Except UsageFault Request :=
  let config : Except UsageFault String :=
    match g.config with
    | none => .error .configMissing
    | some path => .ok path
  match l with
  | .program | .create => .error (if g.globals = {} then .nothingGiven else .requestMissing)
  | .createApiObjects => do return .createApiObjects (← config) g.dryRun
  | .generate => do return .generate (← config) g.only g.dryRun g.keepGoing
  | .sync => do return .sync (← config) g.dryRun
  | .inspect => do return .inspect (← config)
  | .version => .ok .version

/-- Reads the words of a level and of those within it. Faults of an inner level come first, except those of options
that were complete before it. -/
def read (l : Level) (s : State) : List String → Except UsageFault (Request × Globals)
  | [] => do
    let s ← s.settle
    return (← l.request s.given, s.given.globals)
  | word :: rest =>
    if s.literal then .error (strayWord l true word)
    else
      match if s.awaitsValue then none else l.words.lookup word with
      | some inner => do
        let (request, globals) ← read inner {} rest
        let s ← s.settle
        return (request, globals.within s.given.globals)
      | none =>
        if !s.awaitsValue && word == "help" && l.words != [] then .error (helpAbout l rest)
        else
          match s.option? l word with
          | some next => do read l (← next) rest
          | none => if s.awaitsValue then read l (s.addValue word) rest else .error (strayWord l false word)

/-- What a command line asks for, without the name of the program. -/
def parse (words : List String) : Except UsageFault Invocation := do
  let (request, globals) ← read .program {} words
  let default : Invocation := { request := request }
  return {
    projectRoot := globals.projectRoot.getD default.projectRoot
    extensionModule := globals.extensionModule
    verbosity := globals.verbosity.getD default.verbosity
    request := request }

end ApiForge.CommandLine
