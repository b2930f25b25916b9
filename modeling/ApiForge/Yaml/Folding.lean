/-! Line folding in plain and quoted scalars. Blanks around line ends do not count; one line end becomes a space, of
several the first is dropped. -/

namespace ApiForge.Yaml

/-- A piece of a scalar. -/
inductive Piece where
  | char (c : Char)
  | blank (c : Char)
  /-- A line end, by the text that it stands for. -/
  | lineEnd (text : List Char)
  /-- A line end after a backslash, which joins its lines. -/
  | joint
  deriving DecidableEq, Repr

/-- Blanks and line ends between two characters. -/
structure Gap where
  joined : Bool := false
  /-- The blanks before the first line end. -/
  blanks : List Char := []
  lineEnds : List (List Char) := []
  deriving DecidableEq, Repr

namespace Gap

def addBlank (g : Gap) (c : Char) : Gap :=
  if g.joined || !g.lineEnds.isEmpty then g else { g with blanks := g.blanks ++ [c] }

def addLineEnd (g : Gap) (text : List Char) : Gap :=
  { g with lineEnds := g.lineEnds ++ [text] }

/-- What the gap stands for. -/
def text (g : Gap) : List Char :=
  if g.joined then g.lineEnds.flatten
  else
    match g.lineEnds with
    | [] => g.blanks
    | [first] => if first = ['\n'] then [' '] else first
    | first :: more => if first = ['\n'] then more.flatten else first ++ more.flatten

end Gap

/-- The text of the pieces after a gap. -/
def foldPieces : Gap → List Piece → List Char
  | g, [] => g.text
  | g, .char c :: ps => g.text ++ c :: foldPieces {} ps
  | g, .joint :: ps => g.text ++ foldPieces { joined := true } ps
  | g, .blank c :: ps => foldPieces (g.addBlank c) ps
  | g, .lineEnd text :: ps => foldPieces (g.addLineEnd text) ps

/-- The pieces without the blanks and line ends after the last character. -/
def dropGap (pieces : List Piece) : List Piece :=
  let isGap : Piece → Bool
    | .blank _ | .lineEnd _ => true
    | _ => false
  (pieces.reverse.dropWhile isGap).reverse

def folded (pieces : List Piece) : List Char :=
  foldPieces {} pieces

end ApiForge.Yaml
