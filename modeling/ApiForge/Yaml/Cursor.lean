/-! A place in a YAML text: what is left of it, and how far it is from the beginning and from the start of its line. -/

namespace ApiForge.Yaml

def isSpaceOrTab (c : Char) : Bool :=
  c == ' ' || c == '\t'

def isBreak (c : Char) : Bool :=
  c == '\n' || c == '\r' || c == '\u0085' || c == '\u2028' || c == '\u2029'

/-- The characters of the names of anchors, tag handles and directives. -/
def isNameChar (c : Char) : Bool :=
  c.isAlphanum || c == '_' || c == '-'

/-- The characters that a text may hold: no controls but tabs and line ends, and no noncharacters. -/
def isAllowed (c : Char) : Bool :=
  let n := c.toNat
  c == '\t' || c == '\n' || c == '\r' || n == 0x85 || (decide (0x20 ≤ n) && decide (n ≤ 0x7E)) ||
    (decide (0xA0 ≤ n) && n != 0xFFFE && n != 0xFFFF)

structure Cursor where
  rest : List Char
  index : Nat := 0
  line : Nat := 0
  column : Nat := 0
  deriving DecidableEq, Repr

namespace Cursor

/-- Past `n` characters of one line. -/
def skip (c : Cursor) (n : Nat) : Cursor :=
  { c with rest := c.rest.drop n, index := c.index + n, column := c.column + n }

/-- Past the line end that stands here, if there is one, and the text that it stands for. -/
def takeBreak (c : Cursor) : List Char × Cursor :=
  let next (rest : List Char) (n : Nat) : Cursor := { rest := rest, index := c.index + n, line := c.line + 1 }
  match c.rest with
  | '\r' :: '\n' :: rest => (['\n'], next rest 2)
  | d :: rest =>
    if d == '\u2028' || d == '\u2029' then ([d], next rest 1)
    else if isBreak d then (['\n'], next rest 1)
    else ([], c)
  | [] => ([], c)

/-- The characters up to the first that is not in a class without line ends, and the place behind them. -/
def takeWhile (c : Cursor) (p : Char → Bool) : List Char × Cursor :=
  let taken := c.rest.takeWhile p
  (taken, c.skip taken.length)

def skipWhile (c : Cursor) (p : Char → Bool) : Cursor :=
  (c.takeWhile p).2

/-- What stands `n` characters further on. -/
def peek (c : Cursor) (n : Nat) : Option Char :=
  c.rest[n]?

/-- A space, a tab, a line end or the end of the text stands `n` characters further on. -/
def isBlankAt (c : Cursor) (n : Nat) : Bool :=
  match c.peek n with
  | none => true
  | some d => isSpaceOrTab d || isBreak d

/-- A line that starts or ends a document starts here. -/
def atDocumentMark (c : Cursor) : Bool :=
  c.column == 0 && (c.rest.take 3 == ['-', '-', '-'] || c.rest.take 3 == ['.', '.', '.']) && c.isBlankAt 3

/-- Past the rest of a line on which nothing but a comment may stand. -/
def endLine? (c : Cursor) : Option Cursor :=
  let c := c.skipWhile isSpaceOrTab
  let c := if c.peek 0 == some '#' then c.skipWhile (!isBreak ·) else c
  match c.rest with
  | [] => some c
  | d :: _ => if isBreak d then some c.takeBreak.2 else none

end Cursor

end ApiForge.Yaml
