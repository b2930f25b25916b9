import ApiForge.Yaml.Token

/-! YAML texts as tokens. A key need not be announced: whatever could be one is remembered until a colon shows that
it was, and then the tokens for it are put in front of it. -/

namespace ApiForge.Yaml

/-- A place where a key may have started. -/
structure PossibleKey where
  /-- How many tokens came before. -/
  position : Nat
  cursor : Cursor
  /-- Only a key can stand here. -/
  required : Bool

/-- The longest text between the start of a key and its colon. -/
def longestKey : Nat := 1024

/-- A key does not go over the end of its line, so no colon can make this place one any more. -/
def PossibleKey.isStale (k : PossibleKey) (c : Cursor) : Bool :=
  decide (k.cursor.line < c.line) || decide (k.cursor.index + longestKey < c.index)

structure Lexer where
  cursor : Cursor
  /-- The last token first. -/
  tokens : List Token := []
  /-- The indentation of the innermost block collection, below zero outside of all. -/
  indent : Int := -1
  /-- The indentations around it, the innermost first. -/
  outer : List Int := []
  /-- A key that is not announced may start here. -/
  keyAllowed : Bool := true
  /-- The possible key of each level of brackets, the innermost first. -/
  keys : List (Option PossibleKey) := [none]

namespace Lexer

/-- Within brackets indentation does not count. -/
def flow (l : Lexer) : Bool :=
  decide (1 < l.keys.length)

def push (l : Lexer) (t : Token) : Lexer :=
  { l with tokens := t :: l.tokens }

/-- Takes `n` characters for a token. -/
def take (l : Lexer) (n : Nat) (t : Token) : Lexer :=
  { l with cursor := l.cursor.skip n }.push t

/-- Puts tokens in front of the one at a position. -/
def insertAt (l : Lexer) (position : Nat) (ts : List Token) : Lexer :=
  let later := l.tokens.length - position
  { l with tokens := l.tokens.take later ++ ts.reverse ++ l.tokens.drop later }

/-! ### Possible keys -/

/-- Forgets possible keys that no colon can follow any more. -/
def dropStaleKeys (l : Lexer) : Option Lexer := do
  let keys ← l.keys.mapM fun
    | none => some none
    | some k => if !k.isStale l.cursor then some (some k) else if k.required then none else some none
  return { l with keys := keys }

/-- Forgets the possible key of the innermost level. -/
def dropKey (l : Lexer) : Option Lexer :=
  match l.keys with
  | some k :: outer => if k.required then none else some { l with keys := none :: outer }
  | _ => some l

/-- Remembers this place as a possible key, if one is allowed here. -/
def saveKey (l : Lexer) : Option Lexer :=
  if l.keyAllowed then do
    let l ← l.dropKey
    let required := !l.flow && l.indent == (l.cursor.column : Int)
    return { l with keys := some ⟨l.tokens.length, l.cursor, required⟩ :: l.keys.tail }
  else some l

/-! ### Indentation -/

/-- Closes the block collections that are indented further than a column. -/
def closeBlocks (l : Lexer) (column : Int) : Lexer :=
  let closed := (l.indent :: l.outer).takeWhile (column < ·)
  if l.flow || closed == [] then l
  else
    let kept := (l.indent :: l.outer).drop closed.length
    { l with
      tokens := closed.map (fun _ => Token.blockEnd) ++ l.tokens
      indent := kept.headD (-1)
      outer := kept.tail }

/-- Opens a block collection at a column, in front of the token at a position, unless the column belongs to the
innermost one. -/
def openBlock (l : Lexer) (column position : Nat) (start : Token) : Lexer :=
  if !l.flow && decide (l.indent < (column : Int)) then
    { l with indent := column, outer := l.indent :: l.outer }.insertAt position [start]
  else l

def openBlockHere (l : Lexer) (start : Token) : Lexer :=
  l.openBlock l.cursor.column l.tokens.length start

/-! ### Between tokens -/

/-- Past blanks, comments and line ends. Where a key may start, tabs are no blanks. -/
def skipBlanks : Nat → Lexer → Lexer
  | 0, l => l
  | fuel + 1, l =>
    let c := if l.cursor.column == 0 && l.cursor.peek 0 == some '\uFEFF' then l.cursor.skip 1 else l.cursor
    let c := c.skipWhile fun d => d == ' ' || d == '\t' && (l.flow || !l.keyAllowed)
    let c := if c.peek 0 == some '#' then c.skipWhile (!isBreak ·) else c
    if (c.peek 0).any isBreak then
      skipBlanks fuel { l with cursor := c.takeBreak.2, keyAllowed := !l.flow || l.keyAllowed }
    else { l with cursor := c }

/-! ### Tokens -/

/-- Ends what is open, for something that stands outside of all collections. -/
def leaveBlocks (l : Lexer) : Option Lexer := do
  let l ← (l.closeBlocks (-1)).dropKey
  return { l with keyAllowed := false }

/-- A scalar, or something that belongs to a node, which could be a key. -/
def node (l : Lexer) (read : Cursor → Option (Token × Cursor)) : Option Lexer := do
  let l ← l.saveKey
  let (token, c) ← read l.cursor
  return { l with cursor := c, keyAllowed := false }.push token

def openFlow (l : Lexer) (start : Token) : Option Lexer := do
  let l ← l.saveKey
  return { l with keys := none :: l.keys, keyAllowed := true }.take 1 start

def closeFlow (l : Lexer) (finish : Token) : Option Lexer := do
  let l ← l.dropKey
  return { l with keys := if l.flow then l.keys.tail else l.keys, keyAllowed := false }.take 1 finish

def flowEntry (l : Lexer) : Option Lexer := do
  let l ← l.dropKey
  return { l with keyAllowed := true }.take 1 .flowEntry

def blockEntry (l : Lexer) : Option Lexer :=
  if !l.flow && !l.keyAllowed then none
  else do
    let l ← (l.openBlockHere .blockSequenceStart).dropKey
    return { l with keyAllowed := true }.take 1 .blockEntry

def announcedKey (l : Lexer) : Option Lexer :=
  if !l.flow && !l.keyAllowed then none
  else do
    let l ← (l.openBlockHere .blockMappingStart).dropKey
    return { l with keyAllowed := !l.flow }.take 1 .key

/-- A colon: what was a possible key is one. -/
def value (l : Lexer) : Option Lexer :=
  match l.keys with
  | some k :: outer =>
    let l := (l.insertAt k.position [.key]).openBlock k.cursor.column k.position .blockMappingStart
    some ({ l with keys := none :: outer, keyAllowed := false }.take 1 .value)
  | _ =>
    if !l.flow && !l.keyAllowed then none
    else
      let l := l.openBlockHere .blockMappingStart
      some ({ l with keyAllowed := !l.flow }.take 1 .value)

def blockScalar (l : Lexer) (literal : Bool) : Option Lexer := do
  let l ← l.dropKey
  let (text, c) ← block? literal l.indent l.cursor
  let style : Style := if literal then .literal else .folded
  return { l with cursor := c, keyAllowed := true }.push (.scalar style (String.ofList text))

def plainScalar (l : Lexer) : Option Lexer := do
  let l ← l.saveKey
  let (text, c, ended) ← plain? ⟨l.flow, l.indent + 1⟩ l.cursor
  return { l with cursor := c, keyAllowed := ended }.push (.scalar .plain (String.ofList text))

/-- The characters that no plain scalar starts with. -/
def isIndicator (c : Char) : Bool :=
  ['-', '?', ':', ',', '[', ']', '\x7b', '\x7d', '#', '&', '*', '!', '|', '>', '\'', '"', '%', '@', '\x60'].contains c

/-- A plain scalar starts here; a dash, a question mark and a colon may start one if no blank follows them. -/
def startsPlain (l : Lexer) (c : Char) : Bool :=
  !(isSpaceOrTab c || isIndicator c) ||
    c == '-' && !(l.cursor.peek 1).any isSpaceOrTab ||
    !l.flow && (c == '?' || c == ':') && !l.cursor.isBlankAt 1

/-- The next token, at a character that is no blank. -/
def next (l : Lexer) (c : Char) : Option Lexer :=
  let cursor := l.cursor
  if cursor.column == 0 && c == '%' then do
    let l ← l.leaveBlocks
    let (token, after) ← directive? (cursor.skip 1)
    return { l with cursor := after }.push token
  else if cursor.atDocumentMark then do
    let l ← l.leaveBlocks
    return l.take 3 (if c = '-' then .documentStart else .documentEnd)
  else if c == '[' then l.openFlow .flowSequenceStart
  else if c == '\x7b' then l.openFlow .flowMappingStart
  else if c == ']' then l.closeFlow .flowSequenceEnd
  else if c == '\x7d' then l.closeFlow .flowMappingEnd
  else if c == ',' then l.flowEntry
  else if c == '-' && cursor.isBlankAt 1 then l.blockEntry
  else if c == '?' && (l.flow || cursor.isBlankAt 1) then l.announcedKey
  else if c == ':' && (l.flow || cursor.isBlankAt 1) then l.value
  else if c == '*' then
    l.node fun cursor => (anchorName? (cursor.skip 1)).map fun r => (.reference r.1, r.2)
  else if c == '&' then
    l.node fun cursor => (anchorName? (cursor.skip 1)).map fun r => (.anchor r.1, r.2)
  else if c == '!' then l.node (tag? l.flow)
  else if c == '|' && !l.flow then l.blockScalar true
  else if c == '>' && !l.flow then l.blockScalar false
  else if c == '\'' || c == '"' then
    l.node fun cursor => (quoted? cursor).map fun r => (.scalar .quoted (String.ofList r.1), r.2)
  else if l.startsPlain c then l.plainScalar
  else none

/-- The tokens from here to the end of the text. -/
def run : Nat → Lexer → Option (List Token)
  | 0, _ => none
  | fuel + 1, l => do
    let l ← (l.skipBlanks (l.cursor.rest.length + 1)).dropStaleKeys
    let l := l.closeBlocks l.cursor.column
    match l.cursor.peek 0 with
    | none => return (← l.leaveBlocks).tokens.reverse
    | some c => run fuel (← l.next c)

end Lexer

/-- The tokens of a text; a byte order mark in front of it does not count. -/
def tokenize (text : List Char) : Option (List Token) :=
  let text := if text.head? = some '\uFEFF' then text.tail else text
  if text.all isAllowed then Lexer.run (text.length + 1) { cursor := { rest := text } } else none

end ApiForge.Yaml
