import ApiForge.Emission.Emitter
import ApiForge.Files.Writer

/-! Generated files that no run produces any more. Only files that one of the emitters could have written count, so
files of other tools are safe even when they look generated. -/

namespace ApiForge

open Files (Place Report Tree)

/-- Where generated files are, as seen from the root of the project. -/
def generatedDirectories : List String :=
  ["pkg/api", "pkg/api-server", "pkg/client", "cmd", "internal"]

/-- What the names of generated files end in. -/
def generatedSuffix : String := "_gen.go"

def isGeneratedName (name : String) : Bool :=
  generatedSuffix.toList.isSuffixOf name.toList

/-- Whether a path belongs to a file that one of the emitters overwrites. -/
def ownedPaths (emitters : List Emitter) : Except TemplateFault (String → Bool) := do
  let matchers ← (emitters.filter fun e => e.mode = .overwrite && isGeneratedName e.path).mapM
    fun e => PathTemplate.matcher e.path
  return fun path => matchers.any (· path)

/-- The generated files below one of the directories, as seen from the root of the project. -/
def generatedBelow (t : Tree) (root directory : String) : List String :=
  match t.locate (Path.join root directory) with
  | .ok (place, .directory) =>
    ((t.filesBelow place).filter fun f => f.1.getLast?.any isGeneratedName).map fun f =>
      "/".intercalate (directory :: f.1)
  | _ => []

/-- Puts a path in order, unless it is there. -/
def insertPath (path : String) : List String → List String
  | [] => [path]
  | p :: ps =>
    match Path.compare path p with
    | .lt => path :: p :: ps
    | .eq => p :: ps
    | .gt => p :: insertPath path ps

/-- The stale files, sorted: generated files that belong to an emitter and are not in the report. -/
def staleFiles (t : Tree) (root : String) (report : Report) (owned : String → Bool) : List String :=
  (((generatedDirectories.flatMap (generatedBelow t root)).filter fun path =>
    !report.produced.any (Path.same path) && owned ("/".intercalate (Path.names path)))).foldl
      (fun sorted path => insertPath path sorted) []

/-- Deletes a file. -/
def deleteFile (t : Tree) (path : String) : Tree :=
  match t.locate path with
  | .ok (place, .file _) => t.unlink place
  | _ => t

/-- Deletes the stale files, unless it is a dry run; gives their paths. -/
def pruneStale (t : Tree) (root : String) (report : Report) (emitters : List Emitter) (dryRun : Bool) :
    Tree × Except Failure (List String) :=
  match ownedPaths emitters with
  | .error fault => (t, failWith (.template fault))
  | .ok owned =>
    let stale := staleFiles t root report owned
    (if dryRun then t else stale.foldl (fun t path => deleteFile t (Path.join root path)) t, .ok stale)

end ApiForge
