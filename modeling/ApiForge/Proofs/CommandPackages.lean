import ApiForge.Proofs.HandlerPackages
import Mathlib

/-! What the commands of an object take from packages, by the markers of the object and its name field. -/

namespace ApiForge.Generated

open Code Source

section Commands

variable {o : ApiObject} {xs : List Outline}

instance {front : Line} {usage sample short : String} {oneArgument : Bool} {body : Lines}
    [h : Sketched o (enclose (front ++ ("&cobra.Command" ++ "\x7b")) ([s!"Use:          {inQuotes usage},",
      s!"Example:      {inQuotes sample},", s!"Short:        {inQuotes short},",
      "Long:         " ++ inQuotes (short ++ ".") ++ ","] ++ given oneArgument ["Args:         cobra.ExactArgs(1),"] ++
      ["SilenceUsage: true,", "PreRun:       CommandPreRunFunc,"] ++
      enclose "Run: func(cmd *cobra.Command, args []string) \x7b"
        (["apiClient, _, apiEndpoint, _ := getClientContext(cmd)", ""] ++ body) "\x7d,") "\x7d") xs] :
    Sketched o (onto front (Command.lines ⟨usage, sample, short, oneArgument, body⟩)) xs :=
  h

end Commands

/-- What commands take fields from without importing it. -/
def commandBound : List (List Char) :=
  [['c', 'l', 'i', 'A', 'r', 'g', 's'], ['c', 'r', 'e', 'a', 't', 'e', 'd']]

section Commands

set_option maxRecDepth 2048
set_option synthInstance.maxSize 4000
set_option synthInstance.maxHeartbeats 400000

variable {o : ApiObject} {vars : List String}

theorem uses_getCommand (ho : Named o) (hplural : Admitted vars (pluralVariable o)) :
    Uses commandBound vars (declarationLines (getCommand o)) ["cobra", "cli", "os", clientAlias o.version] := by
  delta getCommand
  dsimp only
  delta exitWhen outputFunctionName getCommandName
  exact uses_of_sketched ho (.inl (by decide)) (.inr hplural) (by decide)

theorem uses_createCommand (ho : Named o) (hvariable : Admitted vars o.names.variableName) :
    Uses commandBound vars (declarationLines (createCommand o))
      ["cobra", "cli", "os", "fmt", "yaml", apiAlias o.version, clientAlias o.version] := by
  delta createCommand
  dsimp only
  delta exitWhen configPathName createCommandName
  exact uses_of_sketched ho (.inr hvariable) (.inl (by decide)) (by decide)

theorem uses_deleteCommand (ho : Named o) (hvariable : Admitted vars o.names.variableName) :
    Uses commandBound vars (declarationLines (deleteCommand o)) ["cobra", "cli", "os", "fmt", clientAlias o.version] := by
  delta deleteCommand
  dsimp only
  delta exitWhen deleteCommandName
  exact uses_of_sketched ho (.inr hvariable) (.inl (by decide)) (by decide)

/-- What the commands of an object need. -/
def commandPackages (o : ApiObject) : List String :=
  ["os", "cobra", "cli", clientAlias o.version] ++
    (if o.has .tptctlConfigPath then [apiAlias o.version, "yaml"] else []) ++
    if o.has .tptctlConfigPath || o.nameField then ["fmt"] else []

/-- The commands in front of those that are offered where it makes sense only. -/
theorem uses_bannerAndGet (ho : Named o) (hplural : Admitted vars (pluralVariable o)) :
    Uses commandBound vars (declarationLines (banner o.typeName :: getCommand o))
      ([] ++ ["cobra", "cli", "os", clientAlias o.version]) :=
  (uses_banner ho).cons (uses_getCommand ho hplural)

theorem uses_offeredCreate (ho : Named o)
    (hvariable : o.has .tptctlConfigPath = true → Admitted vars o.names.variableName) :
    Uses commandBound vars (declarationLines (if o.has .tptctlConfigPath then createCommand o else []))
      (if o.has .tptctlConfigPath then
        ["cobra", "cli", "os", "fmt", "yaml", apiAlias o.version, clientAlias o.version] else []) := by
  split_ifs with hconfig
  · exact uses_createCommand ho (hvariable hconfig)
  · exact uses_noDeclarations

theorem uses_offeredDelete (ho : Named o) (hvariable : o.nameField = true → Admitted vars o.names.variableName) :
    Uses commandBound vars (declarationLines (if o.nameField then deleteCommand o else []))
      (if o.nameField then ["cobra", "cli", "os", "fmt", clientAlias o.version] else []) := by
  split_ifs with hname
  · exact uses_deleteCommand ho (hvariable hname)
  · exact uses_noDeclarations

theorem uses_objectCommands (ho : Named o) (hplural : Admitted vars (pluralVariable o))
    (hvariable : o.has .tptctlConfigPath = true ∨ o.nameField = true → Admitted vars o.names.variableName) :
    Uses commandBound vars (declarationLines (objectCommands o)) (commandPackages o) := by
  have huses := uses_append (uses_append (uses_bannerAndGet ho hplural)
    (uses_offeredCreate ho fun hconfig => hvariable (.inl hconfig)))
    (uses_offeredDelete ho fun hname => hvariable (.inr hname))
  refine huses.congr ?_ ?_ <;> unfold commandPackages <;> cases o.has .tptctlConfigPath <;> cases o.nameField <;>
    simp [List.subset_def]

end Commands

end ApiForge.Generated
