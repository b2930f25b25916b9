import ApiForge.Emission.Pipeline
import ApiForge.Files.Writer

/-! Running a pipeline: every artifact is written once, and two emitters cannot write to one path. -/

namespace ApiForge

open Files (Session Writer)

/-- The paths that have been taken, each with the emitter that took it first. -/
abbrev Owners := List (String × String)

def Owners.find? (owners : Owners) (path : String) : Option String :=
  (owners.filter fun o => Path.same o.1 path).head?.map Prod.snd

/-- Where a run stands. -/
structure Progress where
  session : Session
  owners : Owners := []

/-- Writes artifacts up to the first that cannot be. -/
def writeArtifacts (w : Writer) (s : Progress) : List Artifact → Progress × Except Failure Unit
  | [] => (s, .ok ())
  | a :: rest =>
    match s.owners.find? a.path with
    | some owner => (s, failWith (.pathClash owner a.emitter a.path))
    | none =>
      let taken := s.owners ++ [(a.path, a.emitter)]
      match w.write s.session a.path a.document.text a.mode with
      | (session, .error f) => (⟨session, taken⟩, .error (f.during (.writingArtifact a.emitter a.path)))
      | (session, .ok _) => writeArtifacts w ⟨session, taken⟩ rest

/-- Runs one emitter; gives the number of its artifacts. -/
def Emitter.run (e : Emitter) (p : Project) (m : Model) (w : Writer) (s : Progress) :
    Progress × Except Failure Nat :=
  match e.artifacts p m with
  | .error f => (s, .error f)
  | .ok artifacts =>
    let written := writeArtifacts w s artifacts
    (written.1, written.2.map fun _ => artifacts.length)

/-- Runs emitters until one fails. -/
def runUntilFailure (p : Project) (m : Model) (w : Writer) (s : Progress) (count : Nat) :
    List Emitter → Progress × Except Failure Nat
  | [] => (s, .ok count)
  | e :: rest =>
    match e.run p m w s with
    | (s, .error f) => (s, .error f)
    | (s, .ok n) => runUntilFailure p m w s (count + n) rest

/-- Runs all emitters; gives the number of artifacts, and the names of the emitters that failed. -/
def runAll (p : Project) (m : Model) (w : Writer) (s : Progress) : List Emitter → Progress × Nat × List String
  | [] => (s, 0, [])
  | e :: rest =>
    match e.run p m w s with
    | (s, .error _) =>
      let (s, count, failed) := runAll p m w s rest
      (s, count, e.name :: failed)
    | (s, .ok n) =>
      let (s, count, failed) := runAll p m w s rest
      (s, n + count, failed)

/-- Writes every artifact of the model; gives their number. -/
def Pipeline.run (pipeline : Pipeline) (p : Project) (m : Model) (w : Writer) (s : Session) :
    Session × Except Failure Nat :=
  if pipeline.keepGoing then
    match runAll p m w ⟨s, []⟩ pipeline.emitters with
    | (s, count, []) => (s.session, .ok count)
    | (s, _, failed) => (s.session, failWith (.failedEmitters failed))
  else
    match runUntilFailure p m w ⟨s, []⟩ 0 pipeline.emitters with
    | (s, counted) => (s.session, counted)

end ApiForge
