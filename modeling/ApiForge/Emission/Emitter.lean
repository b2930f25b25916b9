import ApiForge.Code.File
import ApiForge.Emission.Target
import ApiForge.PathTemplate
import ApiForge.Project

/-! Emitters, each of which describes one kind of generated file, and the artifacts that they make of a model. -/

namespace ApiForge

/-- The parts of the generated code, in the order in which they are generated. -/
inductive Stage where
  | apiModel
  | routes
  | handlers
  | database
  | client
  | tptctl
  | controller
  deriving DecidableEq, Repr

namespace Stage

def all : List Stage :=
  [.apiModel, .routes, .handlers, .database, .client, .tptctl, .controller]

def name : Stage → String
  | .apiModel => "api-model"
  | .routes => "routes"
  | .handlers => "handlers"
  | .database => "database"
  | .client => "client"
  | .tptctl => "tptctl"
  | .controller => "controller"

def ofName? (name : String) : Option Stage :=
  all.find? (·.name == name)

def position (s : Stage) : Nat :=
  all.idxOf s

end Stage

/-- What happens to a file that is there already: it is generated anew, or it belongs to its developer. -/
inductive WriteMode where
  | overwrite
  | scaffold
  deriving DecidableEq, Repr

/-- What a generated file holds. -/
inductive Document where
  | code (file : Code.File)
  | plain (text : String)
  deriving DecidableEq, Repr

def Document.text : Document → String
  | .code file => file.text
  | .plain text => text

structure Emitter where
  name : String
  stage : Stage
  granularity : Granularity
  mode : WriteMode
  /-- The template of the paths of its files, as seen from the root of the project. -/
  path : String
  applies : Target → Bool
  render : Project → Model → Target → Except RenderFault Document

/-- A generated file that is not written yet. -/
structure Artifact where
  emitter : String
  path : String
  mode : WriteMode
  document : Document
  deriving DecidableEq, Repr

namespace Emitter

def artifact (e : Emitter) (p : Project) (m : Model) (t : Target) : Except Failure Artifact :=
  match PathTemplate.expand e.path t.describe t.placeholder? with
  | .error fault => failWith (.template fault)
  | .ok path =>
    match e.render p m t with
    | .error fault => .error { activities := [.rendering e.name t.describe path], cause := .render fault }
    | .ok document => .ok ⟨e.name, path, e.mode, document⟩

/-- The files of every target that the emitter applies to. -/
def artifacts (e : Emitter) (p : Project) (m : Model) : Except Failure (List Artifact) :=
  ((Target.all m e.granularity).filter e.applies).mapM (e.artifact p m)

end Emitter

end ApiForge
