import ApiForge.Config.Yaml
import ApiForge.Emission.Run
import ApiForge.Emission.Stale
import ApiForge.Generated.ModelSource
import ApiForge.Model.Build
import ApiForge.Source.Declaration

/-! What is done with the files of a project: its configuration and its sources are read, stubs of sources and
generated files are written, and generated files that have become stale are deleted. -/

namespace ApiForge

open Files (Report Session Tree Writer)

namespace Workspace

/-! ### Reading -/

/-- The configuration in a file. -/
def loadConfig (t : Tree) (path : String) : Except Failure Config :=
  match t.readText path with
  | .error fault => .error { activities := [.readingConfig path], cause := .file fault }
  | .ok text => during (.checkingConfig path) (Config.parse text)

/-- The project at a root; what its module is called is given, or its module file says so. -/
def detectProject (t : Tree) (root : String) (module : Option String) : Except Failure Project :=
  match module with
  | some path => .ok (.ofModule root path)
  | none =>
    let file := Path.join root "go.mod"
    match t.readText file with
    | .error fault => .error { activities := [.readingModuleFile file], cause := .file fault }
    | .ok text =>
      match moduleDirective? text with
      | none => failWith (.noModuleDirective file)
      | some path => .ok (.ofModule root path)

/-- Finds sources among the files. -/
def inspector (t : Tree) : Inspector := fun path =>
  match t.readText path with
  | .error fault => .error { activities := [.readingSource path], cause := .file fault }
  | .ok text =>
    match Source.parseSource path text with
    | .error e => failWith (.source path e)
    | .ok file => .ok file

def model (t : Tree) (config : Config) (p : Project) : Except Failure Model :=
  buildModel p (inspector t) config

/-! ### Writing -/

/-- The stubs of the sources of all groups and versions: a path and a text each. -/
def sourceStubs (config : Config) : List (String × String) :=
  config.groups.flatMap fun g =>
    g.versions.map fun version =>
      (sourcePath "" version g.name, (Generated.modelSourceFile g version).text)

/-- Writes stubs where there are no sources, up to the first that cannot be written. -/
def writeStubs (w : Writer) (s : Session) : List (String × String) → Session × Except Failure Unit
  | [] => (s, .ok ())
  | (path, text) :: rest =>
    match w.write s path text .scaffold with
    | (s, .error f) => (s, .error f)
    | (s, .ok _) => writeStubs w s rest

/-- Writes stubs of the sources that the configuration asks for. -/
def createSources (t : Tree) (config : Config) (p : Project) (dryRun : Bool) : Tree × Except Failure Report :=
  match config.check with
  | .error fault => (t, failWith (.config fault))
  | .ok () =>
    let (s, written) := writeStubs { root := p.root, dryRun := dryRun } { tree := t } (sourceStubs config)
    (s.tree, written.map fun _ => s.report)

structure GenerateOptions where
  /-- The stages to run, or none for all. -/
  only : List Stage := []
  dryRun : Bool := false
  keepGoing : Bool := false
  deriving DecidableEq, Repr

/-- Writes all that the built-in emitters produce for the project. -/
def generate (t : Tree) (config : Config) (p : Project) (o : GenerateOptions) : Tree × Except Failure Report :=
  match model t config p with
  | .error f => (t, .error f)
  | .ok m =>
    let pipeline : Pipeline := { Pipeline.builtIn.only o.only with keepGoing := o.keepGoing }
    let (s, counted) := pipeline.run p m { root := p.root, dryRun := o.dryRun } { tree := t }
    (s.tree, counted.map fun _ => s.report)

/-- Writes all that is generated, and then deletes what is stale; gives the paths of the files that were. -/
def sync (t : Tree) (config : Config) (p : Project) (dryRun : Bool) :
    Tree × Except Failure (Report × List String) :=
  match generate t config p { dryRun := dryRun } with
  | (t, .error f) => (t, .error f)
  | (t, .ok report) =>
    let (t, pruned) := pruneStale t p.root report defaultEmitters dryRun
    (t, pruned.map fun paths => (report, paths))

end Workspace

end ApiForge
