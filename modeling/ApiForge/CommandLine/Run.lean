import ApiForge.CommandLine.Parse
import ApiForge.Model.Report
import ApiForge.Workspace

/-! Requests carried out on files, and the lines that are printed for them. -/

namespace ApiForge.CommandLine

open Files (Report Tree)

/-- The name and the version of the program. -/
def programVersion : String := "threeport-sdk 0.1.0"

/-- A line for each file of a report. -/
def reportLines (r : Report) : List String :=
  r.written.map ("✅ Generated " ++ ·) ++ r.wouldWrite.map ("📝 Would write " ++ ·) ++
    r.skipped.map ("⚠️  Skipping existing " ++ ·)

def countLine (r : Report) (dryRun : Bool) : String :=
  toString r.produced.length ++ " file(s) " ++ if dryRun then "planned" else "generated"

def staleLines (paths : List String) (dryRun : Bool) : List String :=
  paths.map ((if dryRun then "🗑️ Would delete stale " else "🗑️ Deleted stale ") ++ ·)

/-- The configuration and the project that a request is about. -/
def subject (t : Tree) (i : Invocation) (config : String) : Except Failure (Config × Project) := do
  let loaded ← during (.loadingConfig config) (Workspace.loadConfig t config)
  return (loaded, ← Workspace.detectProject t i.projectRoot i.extensionModule)

/-- Carries out a request that changes files. -/
def onSubject {α : Type} (t : Tree) (i : Invocation) (config : String)
    (work : Config → Project → Tree × Except Failure α) (lines : α → List String) :
    Tree × Except Failure (List String) :=
  match subject t i config with
  | .error f => (t, .error f)
  | .ok (c, p) =>
    let (t, worked) := work c p
    (t, worked.map lines)

/-- Carries out a request; gives the files as they are then, and the lines to print. -/
def run (t : Tree) (i : Invocation) : Tree × Except Failure (List String) :=
  match i.request with
  | .createApiObjects config dryRun =>
    onSubject t i config (fun c p => Workspace.createSources t c p dryRun) reportLines
  | .generate config only dryRun keepGoing =>
    onSubject t i config (fun c p => Workspace.generate t c p ⟨only, dryRun, keepGoing⟩)
      fun r => reportLines r ++ [countLine r dryRun]
  | .sync config dryRun =>
    onSubject t i config (fun c p => Workspace.sync t c p dryRun)
      fun r => reportLines r.1 ++ staleLines r.2 dryRun
  | .inspect config =>
    onSubject t i config (fun c p => (t, Workspace.model t c p)) fun m => [m.toJson.pretty]
  | .version => (t, .ok [programVersion])

end ApiForge.CommandLine
