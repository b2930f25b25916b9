import ApiForge.Yaml.Cursor
import ApiForge.Yaml.Folding

/-! The scalars of YAML: plain, in quotes, and as blocks of lines. Each is read from the place where it starts; there
is no result when it is malformed. -/

namespace ApiForge.Yaml

/-! ### In quotes -/

def hexValue? (c : Char) : Option Nat :=
  if c.isDigit then some (c.toNat - '0'.toNat)
  else if 'a' ≤ c ∧ c ≤ 'f' then some (c.toNat - 'a'.toNat + 10)
  else if 'A' ≤ c ∧ c ≤ 'F' then some (c.toNat - 'A'.toNat + 10)
  else none

/-- The number that exactly `n` hexadecimal digits at the front spell. -/
def hexNumber? (n : Nat) (cs : List Char) : Option Nat :=
  if (cs.take n).length = n then
    (cs.take n).foldlM (fun value c => (hexValue? c).map (16 * value + ·)) 0
  else none

/-- The character with a number, unless it is a surrogate or too large. -/
def scalarChar? (n : Nat) : Option Char :=
  if n.isValidChar then some (Char.ofNat n) else none

def simpleEscape? : Char → Option Char
  | '0' => some '\x00'
  | 'a' => some '\x07'
  | 'b' => some '\x08'
  | 't' | '\t' => some '\t'
  | 'n' => some '\n'
  | 'v' => some '\x0b'
  | 'f' => some '\x0c'
  | 'r' => some '\r'
  | 'e' => some '\x1b'
  | ' ' => some ' '
  | '"' => some '"'
  | '/' => some '/'
  | '\\' => some '\\'
  | 'N' => some '\u0085'
  | '_' => some '\u00a0'
  | 'L' => some '\u2028'
  | 'P' => some '\u2029'
  | _ => none

/-- How many digits follow the letter of a numeric escape. -/
def escapeDigits? : Char → Option Nat
  | 'x' => some 2
  | 'u' => some 4
  | 'U' => some 8
  | _ => none

/-- The character that the text after a backslash stands for, and how long that text is. -/
def escape? : List Char → Option (Char × Nat)
  | [] => none
  | c :: cs =>
    match simpleEscape? c, escapeDigits? c with
    | some d, _ => some (d, 1)
    | none, some n => do return (← scalarChar? (← hexNumber? n cs), n + 1)
    | none, none => none

/-- The pieces of a scalar up to the closing quote, and the place behind it. -/
def quotedPieces (quote : Char) : Nat → Cursor → Option (List Piece × Cursor)
  | 0, _ => none
  | fuel + 1, c =>
    let go (p : Piece) (c : Cursor) : Option (List Piece × Cursor) := do
      let (ps, c) ← quotedPieces quote fuel c
      return (p :: ps, c)
    if c.atDocumentMark then none
    else
      match c.rest with
      | [] => none
      | d :: rest =>
        if d = quote then
          if quote = '\'' ∧ rest.head? = some '\'' then go (.char '\'') (c.skip 2) else some ([], c.skip 1)
        else if isSpaceOrTab d then go (.blank d) (c.skip 1)
        else if isBreak d then go (.lineEnd c.takeBreak.1) c.takeBreak.2
        else if d = '\\' ∧ quote = '"' then
          if rest.head?.any isBreak then go .joint (c.skip 1).takeBreak.2
          else do
            let (e, n) ← escape? rest
            go (.char e) (c.skip (n + 1))
        else go (.char d) (c.skip 1)

/-- A scalar that starts with a quote. -/
def quoted? (c : Cursor) : Option (List Char × Cursor) := do
  let quote ← c.peek 0
  let (pieces, c) ← quotedPieces quote (c.rest.length + 1) (c.skip 1)
  return (folded pieces, c)

/-! ### Plain -/

/-- The characters that end a plain scalar within brackets. -/
def isFlowIndicator (c : Char) : Bool :=
  [',', '[', ']', '\x7b', '\x7d'].contains c

/-- What the reading of a plain scalar depends on. -/
structure PlainContext where
  /-- The scalar stands within brackets. -/
  flow : Bool
  /-- Outside of brackets, the lines of the scalar start at least here. -/
  indent : Int
  deriving DecidableEq, Repr

/-- A plain scalar that goes on behind a gap, with or without a line end in it, cannot go on here. -/
def PlainContext.stopsAt (k : PlainContext) (c : Cursor) : Bool :=
  c.atDocumentMark || c.peek 0 == some '#' || !k.flow && decide ((c.column : Int) < k.indent)

/-- The pieces of a plain scalar, trailing blanks and line ends included, and the place behind them. The gap that
the place is in, if any, is given by whether it has a line end. -/
def plainPieces (k : PlainContext) : Nat → Option Bool → Cursor → Option (List Piece × Cursor)
  | 0, _, _ => none
  | fuel + 1, gap, c =>
    let go (p : Piece) (gap : Option Bool) (c : Cursor) : Option (List Piece × Cursor) := do
      let (ps, c) ← plainPieces k fuel gap c
      return (p :: ps, c)
    match c.rest with
    | [] => some ([], c)
    | d :: rest =>
      if isSpaceOrTab d then
        if d = '\t' ∧ gap = some true ∧ (c.column : Int) < k.indent then none
        else go (.blank d) (some (gap.getD false)) (c.skip 1)
      else if isBreak d then go (.lineEnd c.takeBreak.1) (some true) c.takeBreak.2
      else if gap.isSome && k.stopsAt c then some ([], c)
      else if k.flow && d == ':' && rest.head?.any (fun e => e == '?' || isFlowIndicator e) then none
      else if (d == ':' && c.isBlankAt 1) || (k.flow && isFlowIndicator d) then some ([], c)
      else go (.char d) none (c.skip 1)

/-- A plain scalar, the place behind it and the blanks that follow, and whether there is a line end among them. -/
def plain? (k : PlainContext) (c : Cursor) : Option (List Char × Cursor × Bool) := do
  let (pieces, c) ← plainPieces k (c.rest.length + 1) none c
  let kept := dropGap pieces
  let ended := (pieces.drop kept.length).any fun
    | .lineEnd _ => true
    | _ => false
  return (folded kept, c, ended)

/-! ### Blocks -/

/-- What happens to the line ends after the last line of a block. -/
inductive Chomping where
  | strip
  | clip
  | keep
  deriving DecidableEq, Repr

structure BlockHeader where
  chomping : Chomping := .clip
  /-- How much further the lines are indented than what is around them, if it is said. -/
  increment : Option Nat := none
  deriving DecidableEq, Repr

def chomping? : Char → Option Chomping
  | '+' => some .keep
  | '-' => some .strip
  | _ => none

def increment? (c : Char) : Option Nat :=
  if c.isDigit then some (c.toNat - '0'.toNat) else none

/-- The header behind the indicator: how to chomp and how much to indent, in any order. -/
def blockHeader? (c : Cursor) : Option (BlockHeader × Cursor) :=
  let header (chomping : Option Chomping) (increment : Option Nat) (n : Nat) : Option (BlockHeader × Cursor) :=
    if increment = some 0 then none else some (⟨chomping.getD .clip, increment⟩, c.skip n)
  match (c.peek 0).bind chomping?, (c.peek 0).bind increment? with
  | some chomp, _ =>
    match (c.peek 1).bind increment? with
    | some n => header (some chomp) (some n) 2
    | none => header (some chomp) none 1
  | none, some n =>
    match (c.peek 1).bind chomping? with
    | some chomp => header (some chomp) (some n) 2
    | none => header none (some n) 1
  | none, none => header none none 0

/-- Blank lines in front of a line of a block: their line ends, the widest of their indentations or of the line's,
and the place where the line starts. Without an indentation all leading spaces belong to it. -/
def blankLines (indent : Option Nat) : Nat → Nat → Cursor → Option (List Char × Nat × Cursor)
  | 0, _, _ => none
  | fuel + 1, widest, c =>
    let inside (c : Cursor) : Bool := indent.all fun n => decide (c.column < n)
    let room :=
      match indent with
      | none => c.rest.length
      | some n => n - c.column
    let spaces := ((c.rest.take room).takeWhile (· == ' ')).length
    let c := c.skip spaces
    let widest := max widest c.column
    match c.rest with
    | [] => some ([], widest, c)
    | d :: _ =>
      if inside c && d == '\t' then none
      else if isBreak d then do
        let (ends, widest, after) ← blankLines indent fuel widest c.takeBreak.2
        return (c.takeBreak.1 ++ ends, widest, after)
      else some ([], widest, c)

/-- What is known in front of a line of a block. -/
structure BlockState where
  text : List Char := []
  /-- The end of the line before. -/
  lastEnd : List Char := []
  /-- The blank lines since. -/
  blankEnds : List Char
  /-- The line before starts with a blank. -/
  afterBlank : Bool := false
  deriving DecidableEq, Repr

/-- How the line before and the blank lines are joined to the next one, which may start with a blank. In a folded
block a line end between lines that start with no blank becomes a space, unless blank lines follow it. -/
def BlockState.joint (s : BlockState) (literal startsBlank : Bool) : List Char :=
  if !literal && s.lastEnd == ['\n'] && !s.afterBlank && !startsBlank then
    (if s.blankEnds = [] then [' '] else []) ++ s.blankEnds
  else s.lastEnd ++ s.blankEnds

/-- The lines of a block that are indented by `indent`. -/
def blockLines (literal : Bool) (indent : Nat) : Nat → BlockState → Cursor → Option (BlockState × Cursor)
  | 0, _, _ => none
  | fuel + 1, s, c =>
    if c.column = indent ∧ c.rest ≠ [] then do
      let startsBlank := c.rest.head?.any isSpaceOrTab
      let (line, c) := c.takeWhile (!isBreak ·)
      let (lastEnd, c) := c.takeBreak
      let (blankEnds, _, c) ← blankLines (some indent) (c.rest.length + 1) 0 c
      blockLines literal indent fuel
        ⟨s.text ++ s.joint literal startsBlank ++ line, lastEnd, blankEnds, startsBlank⟩ c
    else some (s, c)

def BlockState.chomped (s : BlockState) : Chomping → List Char
  | .strip => s.text
  | .clip => s.text ++ s.lastEnd
  | .keep => s.text ++ s.lastEnd ++ s.blankEnds

/-- A block scalar whose indicator stands here, within a collection that is indented by `parent`. -/
def block? (literal : Bool) (parent : Int) (c : Cursor) : Option (List Char × Cursor) := do
  let (header, c) ← blockHeader? (c.skip 1)
  let c ← c.endLine?
  let given := header.increment.map fun n => if 0 ≤ parent then parent.toNat + n else n
  let (blankEnds, widest, c) ← blankLines given (c.rest.length + 1) 0 c
  let indent := given.getD (max widest (max (parent + 1).toNat 1))
  let (s, c) ← blockLines literal indent (c.rest.length + 1) { blankEnds := blankEnds } c
  return (s.chomped header.chomping, c)

end ApiForge.Yaml
