/-! File paths as texts. Slashes separate the segments of a path, and a path that starts with a slash is absolute.
What a path means are its components: repeated slashes, a slash at the end and dots after the first segment do not
count, so `a//b/` and `a/./b` are one path, but `./a` and `a` are two. -/

namespace ApiForge.Path

/-- A text cut at its slashes: the piece before the first slash, and the pieces after each slash. -/
def cut : List Char → List Char × List (List Char)
  | [] => ([], [])
  | c :: cs =>
    let rest := cut cs
    if c = '/' then ([], rest.1 :: rest.2) else (c :: rest.1, rest.2)

/-- The pieces between slashes, of which there is one more than there are slashes. -/
def segments (path : String) : List String :=
  let pieces := cut path.toList
  (pieces.1 :: pieces.2).map String.ofList

inductive Component where
  | root
  /-- A dot in front of a relative path. -/
  | here
  | parent
  | name (text : String)
  deriving DecidableEq, Repr

namespace Component

/-- What a segment after the first stands for, if anything. -/
def ofSegment? (segment : String) : Option Component :=
  if segment = "" ∨ segment = "." then none
  else if segment = ".." then some .parent
  else some (.name segment)

/-- Components are ordered by kind, and names among themselves by their characters. -/
def key : Component → Nat × String
  | .root => (0, "")
  | .here => (1, "")
  | .parent => (2, "")
  | .name text => (3, text)

def compare (a b : Component) : Ordering :=
  (Ord.compare a.key.1 b.key.1).then (Ord.compare a.key.2 b.key.2)

end Component

def isAbsolute (path : String) : Bool :=
  path.toList.head? == some '/'

def components (path : String) : List Component :=
  let first : List Component :=
    if isAbsolute path then [.root] else if (segments path).head? = some "." then [.here] else []
  first ++ (segments path).filterMap Component.ofSegment?

/-- The two texts mean the same path. -/
def same (a b : String) : Bool :=
  components a == components b

/-- Paths are ordered by their components, so a directory comes before what it holds. -/
def compare (a b : String) : Ordering :=
  List.compareLex Component.compare (components a) (components b)

def le (a b : String) : Bool :=
  (compare a b).isLE

/-- The path of `path` as seen from `base`; an absolute path is the same from everywhere. -/
def join (base path : String) : String :=
  if isAbsolute path || base == "" then path
  else if base.toList.getLast? == some '/' then base ++ path
  else base ++ "/" ++ path

/-- The names in a path, joined by slashes. -/
def names (path : String) : List String :=
  (components path).filterMap fun
    | .name text => some text
    | _ => none

def dropMeaningless (segments : List String) : List String :=
  (segments.reverse.dropWhile fun s => (Component.ofSegment? s).isNone).reverse

/-- The path without its last component, as it is written; `none` for the root and for the empty path. -/
def parent? (path : String) : Option String :=
  let first := (segments path).headD ""
  match dropMeaningless ((segments path).drop 1) with
  | [] => if first = "" then none else some ""
  | rest =>
    match dropMeaningless rest.dropLast with
    | [] => some (if isAbsolute path then "/" else first)
    | kept => some ("/".intercalate (first :: kept))

end ApiForge.Path
