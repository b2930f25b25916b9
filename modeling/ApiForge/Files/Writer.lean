import ApiForge.Emission.Emitter
import ApiForge.Files.Access
import ApiForge.Json

/-! Writing below the root of a project, with a record of what was done. A dry run records what would be written and
leaves the files alone. -/

namespace ApiForge.Files

/-- The paths of a run, as seen from the root of the project. -/
structure Report where
  written : List String := []
  /-- Files that belong to their developer and were left alone. -/
  skipped : List String := []
  wouldWrite : List String := []
  deriving DecidableEq, Repr

namespace Report

/-- Everything that the run stands for, whether it wrote it or not. -/
def produced (r : Report) : List String :=
  r.written ++ r.wouldWrite ++ r.skipped

def isEmpty (r : Report) : Bool :=
  r.produced.isEmpty

def toJson (r : Report) : Json :=
  .object [("written", .strings r.written), ("skipped", .strings r.skipped), ("would_write", .strings r.wouldWrite)]

end Report

structure Writer where
  root : String
  dryRun : Bool := false
  deriving DecidableEq, Repr

/-- The files and the record of a run under way. -/
structure Session where
  tree : Tree
  report : Report := {}
  deriving DecidableEq, Repr

inductive WriteOutcome where
  | written
  | skipped
  | wouldWrite
  deriving DecidableEq, Repr

/-- Writes a text to a path as seen from the root. -/
def Writer.write (w : Writer) (s : Session) (path text : String) (mode : WriteMode) :
    Session × Except Failure WriteOutcome :=
  let target := Path.join w.root path
  if mode = .scaffold ∧ s.tree.pathExists target then
    ({ s with report := { s.report with skipped := s.report.skipped ++ [path] } }, .ok .skipped)
  else if w.dryRun then
    ({ s with report := { s.report with wouldWrite := s.report.wouldWrite ++ [path] } }, .ok .wouldWrite)
  else
    match writeText s.tree target text (mode = .overwrite) with
    | (tree, .error f) => ({ s with tree := tree }, .error f)
    | (tree, .ok _) => (⟨tree, { s.report with written := s.report.written ++ [path] }⟩, .ok .written)

end ApiForge.Files
