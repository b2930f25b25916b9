import ApiForge.Fault
import ApiForge.Files.Tree
import ApiForge.Path
import ApiForge.Text.Utf8

/-! What a program can do with the files of a tree, by their paths. A path is followed segment by segment, so each
directory on the way has to be there, even where the path goes back up. -/

namespace ApiForge.Files

namespace Tree

/-- Where a path starts. -/
def origin (t : Tree) (path : String) : Place :=
  if Path.isAbsolute path then [] else t.workingDirectory

/-- Follows segments through directories. -/
def follow (t : Tree) (place : Place) : List String → Except FileFault Place
  | [] => .ok place
  | segment :: rest =>
    match Path.Component.ofSegment? segment with
    | some (.name name) =>
      match t.get? (place ++ [name]) with
      | some .directory => follow t (place ++ [name]) rest
      | some (.file _) => .error .notDirectory
      | none => .error .notFound
    | some .parent => follow t place.dropLast rest
    | _ => follow t place rest

/-- The segments in front of the last one, the last one, and whether a slash comes after it. -/
def splitPath (path : String) : List String × String × Bool :=
  let segments := Path.segments path
  let kept := (segments.reverse.dropWhile (· == "")).reverse
  (kept.dropLast, kept.getLast?.getD "", kept.length < segments.length)

/-- What stands at a path, and where; a path with a slash after it leads to a directory. -/
def locate (t : Tree) (path : String) : Except FileFault (Place × Entry) :=
  if path = "" then .error .notFound
  else do
    let (front, last, slash) := splitPath path
    let place ← t.follow (t.origin path) front
    match Path.Component.ofSegment? last with
    | some (.name name) =>
      match t.get? (place ++ [name]) with
      | none => .error .notFound
      | some (.file content) =>
        if slash then .error .notDirectory else return (place ++ [name], .file content)
      | some .directory => return (place ++ [name], .directory)
    | some .parent => return (place.dropLast, .directory)
    | _ => return (place, .directory)

def pathExists (t : Tree) (path : String) : Bool :=
  (t.locate path).isOk

def isDirectory (t : Tree) (path : String) : Bool :=
  match t.locate path with
  | .ok (_, .directory) => true
  | _ => false

def read (t : Tree) (path : String) : Except FileFault Content := do
  match ← t.locate path with
  | (_, .file content) => return content
  | (_, .directory) => .error .isDirectory

/-- The text of a file, if its bytes are one. -/
def readText (t : Tree) (path : String) : Except FileFault String := do
  let content ← t.read path
  let text := Text.decodeUtf8 content
  if Text.utf8Bytes text = content then return String.ofList text else .error .invalidText

/-- Where a file with this path would be written, unless a directory is there. -/
def writablePlace (t : Tree) (path : String) : Except FileFault Place :=
  if path = "" then .error .notFound
  else do
    let (front, last, slash) := splitPath path
    let place ← t.follow (t.origin path) front
    match Path.Component.ofSegment? last with
    | some (.name name) =>
      if slash || t.get? (place ++ [name]) == some .directory then .error .isDirectory
      else return place ++ [name]
    | _ => .error .isDirectory

/-- Sets the content of a file, which is made if it is not there. -/
def write (t : Tree) (path : String) (content : Content) : Except FileFault Tree := do
  return t.put (← t.writablePlace path) (.file content)

/-- Follows segments and makes the directories that are missing. Those that were made stay, even if a file is in the
way of the rest. Once `made`, the way is known to be there up to the file. -/
def makeFrom (t : Tree) (made : Bool) (place : Place) : List String → Tree × Option FileFault
  | [] => (t, none)
  | segment :: rest =>
    match Path.Component.ofSegment? segment with
    | some (.name name) =>
      match t.get? (place ++ [name]) with
      | some .directory => makeFrom t made (place ++ [name]) rest
      | some (.file _) =>
        (t, some (if made || rest.all (fun s => (Path.Component.ofSegment? s).isNone) then .alreadyExists
          else .notDirectory))
      | none => makeFrom (t.put (place ++ [name]) .directory) true (place ++ [name]) rest
    | some .parent => makeFrom t made place.dropLast rest
    | _ => makeFrom t made place rest

/-- Makes a directory and those on the way to it. -/
def makeDirectories (t : Tree) (path : String) : Tree × Option FileFault :=
  t.makeFrom false (t.origin path) (Path.segments path)

end Tree

/-- Writes a file and makes the directories on the way to it. -/
def writeFile (t : Tree) (path : String) (content : Content) : Tree × Except Failure Unit :=
  let parent := (Path.parent? path).getD ""
  match t.makeDirectories parent with
  | (t, some fault) => (t, .error { activities := [.creatingDirectory parent], cause := .file fault })
  | (t, none) =>
    match t.write path content with
    | .error fault => (t, .error { activities := [.writingFile path], cause := .file fault })
    | .ok t => (t, .ok ())

/-- Writes a text to a file unless it is there and is not to be overwritten; tells whether it did. -/
def writeText (t : Tree) (path text : String) (overwrite : Bool) : Tree × Except Failure Bool :=
  if !overwrite && t.pathExists path then (t, .ok false)
  else
    let written := writeFile t path (Text.utf8Bytes text.toList)
    (written.1, written.2.map fun _ => true)

end ApiForge.Files
