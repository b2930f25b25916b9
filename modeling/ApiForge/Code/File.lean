import ApiForge.Code.Layout

/-! Go files: a comment at the top, the package, the imports and the declarations. What a file declares, what it imports
and what it refers to can be read off it without reading its text. -/

namespace ApiForge.Code

structure Import where
  /-- What the file calls the package; empty where it goes by its own name. -/
  name : String
  path : String
  deriving DecidableEq, Repr

namespace Import

/-- The import of a package under its own name. -/
def plain (path : String) : Import :=
  ⟨"", path⟩

/-- What the package is called in the file. -/
def localName (i : Import) : String :=
  if i.name = "" then String.ofList (i.path.toList.reverse.takeWhile (· != '/')).reverse else i.name

def line (i : Import) : Line :=
  if i.name = "" then inQuotes i.path else i.name ++ " " ++ inQuotes i.path

/-- Imports are ordered by the names given to them, then by their paths. -/
def before (a b : Import) : Bool :=
  a.name < b.name || a.name == b.name && a.path < b.path

def insert (i : Import) : List Import → List Import
  | [] => [i]
  | j :: js => if i = j then j :: js else if i.before j then i :: j :: js else j :: insert i js

/-- The imports in order, each once. -/
def sorted (imports : List Import) : List Import :=
  imports.foldl (fun done i => insert i done) []

end Import

structure Constant where
  name : String
  /-- Empty for a constant without a type of its own. -/
  type : String
  value : String
  deriving DecidableEq, Repr

def Constant.line (c : Constant) : Line :=
  c.name ++ (if c.type = "" then "" else " " ++ c.type) ++ " = " ++ c.value

/-- The parameters and the result of a function. -/
structure Signature where
  parameters : List String := []
  /-- The parameters stand on lines of their own. -/
  spread : Bool := false
  result : String := ""
  deriving DecidableEq, Repr

/-- A function with the signature, after what stands in front of its parameters. -/
def Signature.lines (s : Signature) (head : String) (body : Lines) : Lines :=
  let result := if s.result = "" then "" else " " ++ s.result
  if s.spread then
    enclose (head ++ "(") (plainLines (s.parameters.map (· ++ ","))) (")" ++ result ++ " \x7b") ++ nest body ++ ["\x7d"]
  else block (head ++ "(" ++ ", ".intercalate s.parameters ++ ")" ++ result) body

inductive Declaration where
  /-- A comment that stands for itself. -/
  | remark (lines : List String)
  /-- Constants, with blank lines between the groups. -/
  | constants (groups : List (List Constant))
  | value (doc : List String) (name : String) (lines : Lines)
  /-- A variable without a value. -/
  | storage (name type : String)
  | function (doc : List String) (name : String) (signature : Signature) (body : Lines)
  /-- A function of the values of a type, which goes by the name of `self` in the body. -/
  | method (doc : List String) (self type name : String) (signature : Signature) (body : Lines)
  /-- What is done when the program starts. -/
  | initialization (body : Lines)
  | struct (doc : List String) (name : String) (fields : Lines)
  deriving DecidableEq, Repr

namespace Declaration

def lines : Declaration → Lines
  | remark lines => plainLines lines
  | constants groups => enclose "const (" (spaced (groups.map (·.map Constant.line))) ")"
  | value doc name lines => comment doc ++ onto ("var " ++ name ++ " = ") lines
  | storage name type => ["var " ++ name ++ " " ++ type]
  | function doc name signature body => comment doc ++ signature.lines ("func " ++ name) body
  | method doc self type name signature body =>
    comment doc ++ signature.lines ("func (" ++ self ++ " " ++ type ++ ") " ++ name) body
  | initialization body => block "func init()" body
  | struct doc name fields => comment doc ++ block ("type " ++ name ++ " struct") fields

/-- The names that the declaration adds to its package. -/
def names : Declaration → List String
  | constants groups => groups.flatten.map Constant.name
  | value _ name _ | storage name _ | function _ name _ _ | struct _ name _ => [name]
  | remark _ | method .. | initialization _ => []

/-- The method that the declaration adds to a type, after the type. -/
def methods : Declaration → List (String × String)
  | method _ _ type name _ _ => [(type, name)]
  | _ => []

/-- What the declaration takes from other generated files. -/
def references (d : Declaration) : List Reference :=
  Code.references d.lines

end Declaration

structure File where
  /-- The comment at the top. -/
  header : List String
  package : String
  /-- With blank lines between the groups. -/
  imports : List (List Import) := []
  declarations : List Declaration
  /-- The text ends with a line end. -/
  finalBreak : Bool := false
  deriving DecidableEq, Repr

namespace File

def importLines : List (List Import) → Lines
  | [] => []
  | groups => "" :: enclose "import (" (spaced (groups.map (·.map Import.line))) ")"

def lines (f : File) : Lines :=
  comment f.header ++ ["", "package " ++ f.package] ++ importLines f.imports ++
    f.declarations.flatMap (fun d => ("" : Line) :: d.lines) ++ given f.finalBreak [""]

def text (f : File) : String :=
  Code.text f.lines

/-- The names that the file adds to its package. -/
def names (f : File) : List String :=
  f.declarations.flatMap Declaration.names

/-- The methods that the file adds to the types of its package. -/
def methods (f : File) : List (String × String) :=
  f.declarations.flatMap Declaration.methods

/-- What the file takes from other generated files. -/
def references (f : File) : List Reference :=
  f.declarations.flatMap Declaration.references

end File

end ApiForge.Code
