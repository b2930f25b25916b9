import ApiForge.Source.Escape
import ApiForge.Text.Graphic

/-! The words of a source file: tokens with the position they start at, and comments with the lines they cover. A
token keeps its text, so a source can be put together again from its tokens, its comments and the blanks between
them; only the semicolons inserted at line ends have no text. -/

namespace ApiForge.Source

/-- A place in a text; lines and columns count from one. -/
structure Position where
  line : Nat
  column : Nat
  deriving DecidableEq, Repr

namespace Position

def start : Position := ⟨1, 1⟩

def step (p : Position) (c : Char) : Position :=
  if c = '\n' then ⟨p.line + 1, 1⟩ else ⟨p.line, p.column + 1⟩

/-- The place right after `text`, when it starts at `p`. -/
def advance (p : Position) (text : List Char) : Position :=
  text.foldl step p

end Position

def keywords : List String := [
  "break", "case", "chan", "const", "continue", "default", "defer", "else", "fallthrough", "for", "func", "go",
  "goto", "if", "import", "interface", "map", "package", "range", "return", "select", "struct", "switch", "type",
  "var"]

/-- The keywords that a statement may end with. -/
def closingKeywords : List String := ["break", "continue", "fallthrough", "return"]

def tripleOperators : List String := ["<<=", ">>=", "&^=", "..."]

def doubleOperators : List String := [
  "&&", "||", "<-", "++", "--", "==", "!=", "<=", ">=", ":=", "+=", "-=", "*=", "/=", "%=", "&=", "|=", "^=",
  "<<", ">>", "&^"]

def singleOperators : List Char := [
  '+', '-', '*', '/', '%', '&', '|', '^', '<', '>', '=', '!', '(', ')', '[', ']', '\x7b', '\x7d', ',', '.', ':',
  '~']

inductive TokenKind where
  | identifier
  | keyword
  | number
  | rune
  /-- A string literal and the text it denotes. -/
  | string (value : String)
  /-- An operator, a bracket or another sign. -/
  | operator
  | semicolon
  /-- A semicolon inserted at the end of a line. -/
  | newline
  deriving DecidableEq, Repr

structure Token where
  kind : TokenKind
  text : String
  pos : Position
  deriving DecidableEq, Repr

namespace Token

def isOperator (t : Token) (text : String) : Bool :=
  t.kind == .operator && t.text == text

def isKeyword (t : Token) (text : String) : Bool :=
  t.kind == .keyword && t.text == text

/-- An identifier or a keyword. -/
def isName (t : Token) : Bool :=
  t.kind == .identifier || t.kind == .keyword

/-- A semicolon, written or inserted. -/
def isTerminator (t : Token) : Bool :=
  t.kind == .semicolon || t.kind == .newline

def isString (t : Token) : Bool :=
  match t.kind with
  | .string _ => true
  | _ => false

/-- Two tokens of this kind need a space between them. -/
def isWord (t : Token) : Bool :=
  match t.kind with
  | .identifier | .keyword | .number | .rune | .string _ => true
  | .operator | .semicolon | .newline => false

/-- A line that ends behind this token ends a statement. -/
def endsStatement (t : Token) : Bool :=
  match t.kind with
  | .identifier | .number | .rune | .string _ => true
  | .keyword => closingKeywords.contains t.text
  | .operator => [")", "]", "\x7d", "++", "--"].contains t.text
  | .semicolon | .newline => false

/-- How messages name a token. -/
def describe (t : Token) : String :=
  match t.kind with
  | .newline => "newline"
  | _ => "'" ++ t.text ++ "'"

end Token

inductive CommentStyle where
  /-- From two slashes to the end of the line. -/
  | line
  /-- Between `/*` and `*/`. -/
  | block
  deriving DecidableEq, Repr

structure Comment where
  style : CommentStyle
  /-- What stands between the delimiters. -/
  text : String
  line : Nat
  endLine : Nat
  /-- No token stands before the comment on its first line. -/
  ownLine : Bool
  deriving DecidableEq, Repr

/-- The comment with its delimiters. -/
def Comment.source (c : Comment) : String :=
  match c.style with
  | .line => "//" ++ c.text
  | .block => "/*" ++ c.text ++ "*/"

/-- What is wrong with the characters of a source. -/
inductive LexicalFault where
  | commentNotTerminated
  | stringNotTerminated
  | rawStringNotTerminated
  | runeNotTerminated
  | emptyRune
  | escape (fault : EscapeFault)
  | unexpectedCharacter (c : Char)
  deriving DecidableEq, Repr

def LexicalFault.message : LexicalFault → String
  | .commentNotTerminated => "comment not terminated"
  | .stringNotTerminated => "string literal not terminated"
  | .rawStringNotTerminated => "raw string literal not terminated"
  | .runeNotTerminated => "rune literal not terminated"
  | .emptyRune => "empty rune literal"
  | .escape fault => fault.message
  | .unexpectedCharacter c => "unexpected character " ++ Text.showChar c

end ApiForge.Source
