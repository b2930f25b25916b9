import ApiForge.Generated.Handlers

/-! The commands of a group for the command line tool, and the functions that print what they find. The latter are
generated once. -/

namespace ApiForge.Generated

open Code

def pluralVariable (o : ApiObject) : String :=
  Text.camelCase o.names.plural

/-! ### Statements that the commands share -/

/-- Reports an error and ends the program. -/
def exitWhen (condition : Line) (message : String) : Lines :=
  when condition [s!"cli.Error({inQuotes message}, err)", "os.Exit(1)"]

/-- What a command is called, how it is used and explained, and what it does. -/
structure Command where
  usage : String
  sample : String
  short : String
  /-- The command takes exactly one argument. -/
  oneArgument : Bool := false
  body : Lines
  deriving DecidableEq, Repr

def Command.lines (c : Command) : Lines :=
  composite "&cobra.Command" (
    [s!"Use:          {inQuotes c.usage},", s!"Example:      {inQuotes c.sample},",
      s!"Short:        {inQuotes c.short},", "Long:         " ++ inQuotes (c.short ++ ".") ++ ","] ++
    given c.oneArgument ["Args:         cobra.ExactArgs(1),"] ++
    ["SilenceUsage: true,", "PreRun:       CommandPreRunFunc,"] ++
    enclose "Run: func(cmd *cobra.Command, args []string) \x7b"
      (["apiClient, _, apiEndpoint, _ := getClientContext(cmd)", ""] ++ c.body) "\x7d,")

/-! ### The commands of an object -/

def outputFunctionName (o : ApiObject) : String :=
  s!"output{o.names.plural}Cmd"

def getCommandName (o : ApiObject) : String :=
  s!"Get{o.names.plural}Cmd"

def createCommandName (o : ApiObject) : String :=
  s!"Create{o.typeName}Cmd"

def deleteCommandName (o : ApiObject) : String :=
  s!"Delete{o.typeName}Cmd"

def configPathName (o : ApiObject) : String :=
  s!"create{o.typeName}ConfigPath"

/-- A call of a client function of the object. -/
def clientCall (o : ApiObject) (function : String) (arguments : List String) : Line :=
  let all := ["apiClient", "apiEndpoint"] ++ arguments
  importedName (clientAlias o.version) function ++ "(" ++ ", ".intercalate all ++ ")"

def getCommand (o : ApiObject) : List Declaration :=
  let objects := pluralVariable o
  let named := o.names.commandPlural
  [.value [s!"{getCommandName o} represents the {named} command"] (getCommandName o)
      (Command.lines {
        usage := named
        sample := s!"  tptctl get {named}"
        short := s!"Get {named} from the system"
        body :=
          [objects ++ ", err := " ++ clientCall o o.names.client.getAll []] ++
          exitWhen "err != nil" s!"failed to retrieve {named}" ++ [""] ++
          when s!"len(*{objects}) == 0" [s!"cli.Info(\"No {named} currently managed by threeport\")", "return"] ++
          [""] ++
          exitWhen ("err := " ++ ownName (outputFunctionName o) ++ s!"({objects}); err != nil")
            "failed to produce output" }),
    .initialization (
      [s!"GetCmd.AddCommand({getCommandName o})"] ++
      call s!"{getCommandName o}.Flags().StringVarP" [
        "&cliArgs.ControlPlaneName,",
        "\"control-plane-name\", \"i\", \"\", \"Optional. Name of control plane. Will default to current control " ++
          "plane if not provided.\","])]

def createCommand (o : ApiObject) : List Declaration :=
  let object := o.names.variableName
  let named := o.names.command
  [.storage (configPathName o) "string",
    .value [s!"{createCommandName o} represents the {named} command"] (createCommandName o)
      (Command.lines {
        usage := named
        sample := s!"  tptctl create {named} --config /path/to/config.yaml"
        short := s!"Create a new {named}"
        body :=
          [s!"configContent, err := os.ReadFile({configPathName o})"] ++
          exitWhen "err != nil" "failed to read config file" ++
          [s!"var {object} {apiAlias o.version}.{o.typeName}"] ++
          exitWhen s!"err := yaml.UnmarshalStrict(configContent, &{object}); err != nil"
            "failed to unmarshal config file yaml content" ++
          [""] ++ ["created, err := " ++ clientCall o o.names.client.create ["&" ++ object]] ++
          exitWhen "err != nil" s!"failed to create {named}" ++
          ["", s!"cli.Complete(fmt.Sprintf(\"{named} with ID %d created\", *created.ID))"] }),
    .initialization (
      [s!"CreateCmd.AddCommand({createCommandName o})"] ++
      call s!"{createCommandName o}.Flags().StringVarP" [
        s!"&{configPathName o},", s!"\"config\", \"c\", \"\", \"Path to file with {named} config.\","] ++
      [s!"{createCommandName o}.MarkFlagRequired(\"config\")"])]

def deleteCommand (o : ApiObject) : List Declaration :=
  let object := o.names.variableName
  let named := o.names.command
  [.value [s!"{deleteCommandName o} represents the {named} command"] (deleteCommandName o)
      (Command.lines {
        usage := s!"{named} NAME"
        sample := s!"  tptctl delete {named} my-{named}"
        short := s!"Delete an existing {named}"
        oneArgument := true
        body :=
          [object ++ ", err := " ++ clientCall o o.names.client.getByName ["args[0]"]] ++
          exitWhen "err != nil" s!"failed to find {named}" ++ [""] ++
          exitWhen ("_, err := " ++ clientCall o o.names.client.delete ["*" ++ object ++ ".ID"] ++ "; err != nil")
            s!"failed to delete {named}" ++
          ["", s!"cli.Complete(fmt.Sprintf(\"{named} %s deleted\", args[0]))"] }),
    .initialization [s!"DeleteCmd.AddCommand({deleteCommandName o})"]]

/-- Objects are created from a file and deleted by name; both are offered only where it makes sense. -/
def objectCommands (o : ApiObject) : List Declaration :=
  banner o.typeName :: getCommand o ++
  (if o.has .tptctlConfigPath then createCommand o else []) ++ (if o.nameField then deleteCommand o else [])

/-! ### The files -/

def commandImports (p : Project) (objects : List ApiObject) : List Import :=
  Import.sorted (
    [.plain "os", ⟨"cobra", "github.com/spf13/cobra"⟩, commandLibrary] ++
    objects.flatMap fun o =>
      [clientImport p o.version] ++
      (if o.has .tptctlConfigPath then [apiImport p o.version, ⟨"yaml", "gopkg.in/yaml.v2"⟩] else []) ++
      (if o.has .tptctlConfigPath || o.nameField then [.plain "fmt"] else []))

def commandsFile (p : Project) (g : Group) : File where
  header := regenerated
  package := "cmd"
  imports := [commandImports p g.commandObjects]
  declarations := g.commandObjects.flatMap objectCommands

def outputFunction (o : ApiObject) : Declaration :=
  .function [
      s!"{outputFunctionName o} produces the tabular output for the",
      s!"'tptctl get {o.names.commandPlural}' command."]
    (outputFunctionName o)
    { parameters := [s!"{pluralVariable o} *[]{apiAlias o.version}.{o.typeName}"], result := "error" }
    (["writer := tabwriter.NewWriter(os.Stdout, 4, 4, 4, ' ', 0)", "fmt.Fprintln(writer, \"ID\\t CREATED\")"] ++
    block s!"for _, {o.names.variableName} := range *{pluralVariable o}" [
      s!"fmt.Fprintf(writer, \"%d\\t %v\\n\", *{o.names.variableName}.ID, {o.names.variableName}.CreatedAt)"] ++
    ["return writer.Flush()"])

def outputFile (p : Project) (g : Group) : File where
  header := generatedOnce
  package := "cmd"
  imports := [Import.sorted (
    [.plain "fmt", .plain "os", .plain "text/tabwriter"] ++ g.commandObjects.map fun o => apiImport p o.version)]
  declarations := g.commandObjects.map outputFunction

end ApiForge.Generated
