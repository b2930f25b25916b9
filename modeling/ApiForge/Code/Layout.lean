/-! Text laid out in lines, with one tab for each level of nesting. Where a line writes a name that another generated
file declares, it keeps what the name refers to, so what a file takes from others can be read off its lines. -/

namespace ApiForge.Code

/-- A value that a method is called on. -/
structure Receiver where
  value : String
  type : String
  deriving DecidableEq, Repr

/-- A name that another generated file declares. -/
structure Reference where
  /-- What the file calls the package; `none` for its own. -/
  package? : Option String := none
  /-- For the name of a method. -/
  receiver? : Option Receiver := none
  name : String
  deriving DecidableEq, Repr

def Reference.text (r : Reference) : String :=
  match r.receiver?.map Receiver.value with
  | some value => value ++ "." ++ r.name
  | none =>
    match r.package? with
    | some package => package ++ "." ++ r.name
    | none => r.name

/-- What a line is made of. -/
inductive Piece where
  | plain (text : String)
  | reference (r : Reference)
  deriving DecidableEq, Repr

namespace Piece

def text : Piece → String
  | plain text => text
  | reference r => r.text

def reference? : Piece → Option Reference
  | plain _ => none
  | reference r => some r

end Piece

/-- A line without its line end. -/
structure Line where
  pieces : List Piece
  deriving DecidableEq, Repr

namespace Line

instance : Coe String Line :=
  ⟨fun text => ⟨[.plain text]⟩⟩

instance : Append Line :=
  ⟨fun front back => ⟨front.pieces ++ back.pieces⟩⟩

def text (line : Line) : String :=
  String.join (line.pieces.map Piece.text)

def references (line : Line) : List Reference :=
  line.pieces.filterMap Piece.reference?

end Line

/-- The name alone. -/
def Reference.line (r : Reference) : Line :=
  ⟨[.reference r]⟩

abbrev Lines := List Line

/-- Lines that refer to nothing. -/
def plainLines (texts : List String) : Lines :=
  texts.map fun text => ⟨[.plain text]⟩

instance : HAppend (List String) Lines Lines :=
  ⟨fun texts lines => plainLines texts ++ lines⟩

instance : HAppend Lines (List String) Lines :=
  ⟨fun lines texts => lines ++ plainLines texts⟩

/-- One level deeper; blank lines stay blank. -/
def nest (lines : Lines) : Lines :=
  lines.map fun line => if line.text = "" then line else "\t" ++ line

/-- Lines one level deeper between an opening and a closing one. -/
def enclose (opening : Line) (body : Lines) (closing : Line) : Lines :=
  opening :: nest body ++ [closing]

def block (head : Line) (body : Lines) : Lines :=
  enclose (head ++ " \x7b") body "\x7d"

/-- A block that is carried out when the condition holds. -/
def when (condition : Line) (body : Lines) : Lines :=
  block ("if " ++ condition) body

/-- A value of a composite type, with an element or field a line. -/
def composite (type : Line) (elements : Lines) : Lines :=
  enclose (type ++ "\x7b") elements "\x7d"

/-- A call with an argument a line, after what stands in front of the bracket. -/
def call (function : Line) (arguments : Lines) : Lines :=
  enclose (function ++ "(") arguments ")"

/-- The text in quotes, as it is. -/
def inQuotes (text : String) : String :=
  "\"" ++ text ++ "\""

/-- Puts `front` in front of the first line. -/
def onto (front : Line) : Lines → Lines
  | [] => [front]
  | line :: lines => (front ++ line) :: lines

/-- Lines that are there only under a condition. -/
def given (condition : Bool) (lines : Lines) : Lines :=
  if condition then lines else []

/-- The groups with a blank line between each two. -/
def spaced : List Lines → Lines
  | [] => []
  | [group] => group
  | group :: next :: groups => group ++ ("" : Line) :: spaced (next :: groups)

def comment (lines : List String) : Lines :=
  plainLines (lines.map ("// " ++ ·))

def text (lines : Lines) : String :=
  "\n".intercalate (lines.map Line.text)

def references (lines : Lines) : List Reference :=
  lines.flatMap Line.references

end ApiForge.Code
