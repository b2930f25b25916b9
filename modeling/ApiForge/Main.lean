import ApiForge.CommandLine.Run

/-! The program. The paths of the files that it may look at come from the standard input, one a line. It reads these
files, carries the request out on them, writes the files that are new or changed, and deletes those that are gone. -/

namespace ApiForge

open Files (Place Tree)

/-- The lines of a stream up to its end. -/
partial def readLines (stream : IO.FS.Stream) : IO (List String) := do
  let line ← stream.getLine
  if line.isEmpty then return []
  else
    let text := if line.endsWith "\n" then (line.dropEnd 1).toString else line
    return text :: (← readLines stream)

/-- The place that a path stands for, by its components alone. -/
def placeOf (workingDirectory : Place) (path : String) : Place :=
  (Path.components path).foldl
    (fun place component =>
      match component with
      | .name text => place ++ [text]
      | .parent => place.dropLast
      | .root | .here => place)
    (if Path.isAbsolute path then [] else workingDirectory)

def placePath (place : Place) : String :=
  "/" ++ "/".intercalate place

/-- Makes the directories on the way to a place. -/
def makeWay (t : Tree) (place : Place) : Tree :=
  (List.range place.length).foldl
    (fun t n => if n = 0 then t else t.put (place.take n) .directory) t

/-- The files with certain paths. -/
def readTree (paths : List String) : IO Tree := do
  let workingDirectory := Path.names (toString (← IO.currentDir))
  let start := (makeWay ⟨[], workingDirectory⟩ workingDirectory).put workingDirectory .directory
  paths.foldlM
    (fun t path => do
      let place := placeOf workingDirectory path
      let content ← IO.FS.readBinFile (placePath place)
      return (makeWay t place).put place (.file content.toList)) start

/-- Makes the files what they are after a request. -/
def writeTree (before after : Tree) : IO Unit := do
  for (place, entry) in after.entries do
    if before.get? place != some entry then
      match entry with
      | .directory => IO.FS.createDirAll (placePath place)
      | .file content => IO.FS.writeBinFile (placePath place) ⟨content.toArray⟩
  for (place, _) in before.entries do
    if (after.get? place).isNone then
      IO.FS.removeFile (placePath place)

def usage : String :=
  "Usage: threeport-sdk [OPTIONS] <create api-objects|gen|sync|inspect|version> [OPTIONS] < PATHS"

/-- Carries out what the words of a command line ask for. -/
def runProgram (words : List String) : IO UInt32 := do
  match CommandLine.parse words with
  | .error fault =>
    IO.eprintln usage
    return if fault = .helpWanted then 0 else 2
  | .ok invocation =>
    let paths ← if invocation.request = .version then pure [] else readLines (← IO.getStdin)
    let before ← readTree paths
    let (after, result) := CommandLine.run before invocation
    writeTree before after
    match result with
    | .ok lines =>
      for line in lines do
        IO.println line
      return 0
    | .error f =>
      IO.eprintln ("Error: " ++ f.message?.getD "malformed configuration")
      return 1

end ApiForge

def main (words : List String) : IO UInt32 :=
  ApiForge.runProgram words
