import ApiForge.Json
import ApiForge.Path
import ApiForge.Text.Blank

/-! The project that code is generated for: the base project, or an extension that is built on top of it. Packages of
the project itself are imported from its own module, packages of the base library always from the base module. -/

namespace ApiForge

/-- The module path of the base project. -/
def baseModule : String := "github.com/threeport/threeport"

inductive ProjectKind where
  | base
  | extension (modulePath : String)
  deriving DecidableEq, Repr

structure Project where
  root : String
  kind : ProjectKind
  deriving DecidableEq, Repr

namespace Project

/-- The project at `root` whose module path is `modulePath`. -/
def ofModule (root modulePath : String) : Project where
  root := root
  kind := if modulePath = baseModule then .base else .extension modulePath

def isExtension (p : Project) : Bool :=
  match p.kind with
  | .base => false
  | .extension _ => true

def modulePath (p : Project) : String :=
  match p.kind with
  | .base => baseModule
  | .extension path => path

def trimSlashes (package : String) : String :=
  let front := package.toList.dropWhile (· == '/')
  String.ofList (front.reverse.dropWhile (· == '/')).reverse

/-- The import path of one of the project's packages. -/
def importPath (p : Project) (package : String) : String :=
  p.modulePath ++ "/" ++ trimSlashes package

def toJson (p : Project) : Json :=
  .object [
    ("project_root", .string p.root),
    ("kind", .object (match p.kind with
      | .base => [("kind", .string "base")]
      | .extension path => [("kind", .string "extension"), ("module_path", .string path)]))]

end Project

/-- The import path of a package of the base library. -/
def baseImportPath (package : String) : String :=
  baseModule ++ "/" ++ Project.trimSlashes package

/-! ### The module directive

A line that says `module` and then a path, which may be in quotes. Blanks around the words may be line ends. -/

/-- What follows the word `module` at the front of `cs`. -/
def afterModuleWord? : List Char → Option (List Char)
  | 'm' :: 'o' :: 'd' :: 'u' :: 'l' :: 'e' :: rest => some rest
  | _ => none

def dropQuote : List Char → List Char
  | '"' :: cs => cs
  | cs => cs

def isModulePathChar (c : Char) : Bool :=
  c != '"' && !Text.isBlank c

/-- Only blanks are left of the line; more lines of blanks do no harm. -/
def endsLine (cs : List Char) : Bool :=
  let blanks := cs.takeWhile Text.isBlank
  blanks.length = cs.length || blanks.contains '\n'

/-- The path that a directive at the front of `cs` gives, blanks before it allowed. -/
def directiveAt? (cs : List Char) : Option String := do
  let rest ← afterModuleWord? (cs.dropWhile Text.isBlank)
  let path := dropQuote (rest.dropWhile Text.isBlank)
  let spelled := path.takeWhile isModulePathChar
  if rest.head?.any Text.isBlank && spelled != [] && endsLine (dropQuote (path.dropWhile isModulePathChar)) then
    some (String.ofList spelled)
  else none

/-- What stands after each line end of `cs`. -/
def lineStarts : List Char → List (List Char)
  | [] => []
  | c :: cs => if c = '\n' then cs :: lineStarts cs else lineStarts cs

/-- The path of the first module directive. -/
def moduleDirective? (text : String) : Option String :=
  (text.toList :: lineStarts text.toList).findSome? directiveAt?

end ApiForge
