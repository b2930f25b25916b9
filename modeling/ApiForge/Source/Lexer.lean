import ApiForge.Source.Token

/-! Reading a source character by character. A source is cut into pieces, each as long as it can be, and then a
semicolon is inserted at every line end that ends a statement. -/

namespace ApiForge.Source

def isBlankChar (c : Char) : Bool :=
  c == ' ' || c == '\t' || c == '\r' || c == '\n' || c == '\uFEFF'

def isIdentifierStart (c : Char) : Bool :=
  c == '_' || Text.isLetter c

def isIdentifierPart (c : Char) : Bool :=
  c == '_' || Text.isLetterOrNumber c

def isNumberPart (c : Char) : Bool :=
  c.isAlphanum || c == '_' || c == '.'

def isExponentMark (c : Char) : Bool :=
  c == 'e' || c == 'E' || c == 'p' || c == 'P'

/-- The rest of a number behind `previous`; a sign belongs to it behind an exponent mark only. -/
def numberTail (previous : Char) : List Char → List Char
  | [] => []
  | c :: cs =>
    if isNumberPart c then c :: numberTail c cs
    else if (c = '+' ∨ c = '-') ∧ isExponentMark previous then c :: numberTail c cs
    else []

/-- The characters in front of the next `*/`. -/
def blockBody? : List Char → Option (List Char)
  | [] => none
  | '*' :: '/' :: _ => some []
  | c :: cs => (blockBody? cs).map (c :: ·)

/-- The characters in front of the quotation mark that ends a string on its line. -/
def stringBody? : List Char → Option (List Char)
  | [] => none
  | '"' :: _ => some []
  | '\n' :: _ => none
  | ['\\'] => none
  | '\\' :: '\n' :: _ => none
  | '\\' :: c :: cs => (stringBody? cs).map ('\\' :: c :: ·)
  | c :: cs => (stringBody? cs).map (c :: ·)

/-- The characters in front of the backquote that ends a raw string. -/
def rawBody? : List Char → Option (List Char)
  | [] => none
  | '\x60' :: _ => some []
  | c :: cs => (rawBody? cs).map (c :: ·)

/-- The characters in front of the apostrophe that ends a rune. -/
def runeBody? : List Char → Option (List Char)
  | [] => none
  | '\'' :: _ => some []
  | '\n' :: _ => none
  | ['\\'] => none
  | '\\' :: c :: cs => (runeBody? cs).map ('\\' :: c :: ·)
  | c :: cs => (runeBody? cs).map (c :: ·)

/-- What a lexeme is. -/
inductive LexemeKind where
  | blank
  | comment (style : CommentStyle)
  | token (kind : TokenKind)
  deriving DecidableEq, Repr

/-- A lexeme without its first character. -/
structure LexemeTail where
  kind : LexemeKind
  tail : List Char

/-- The identifier or keyword that starts with `c`. -/
def wordLexeme (c : Char) (cs : List Char) : LexemeTail :=
  let tail := cs.takeWhile isIdentifierPart
  ⟨.token (if keywords.contains (String.ofList (c :: tail)) then .keyword else .identifier), tail⟩

/-- The longest operator that starts with `c`. -/
def operatorLexeme (c : Char) (cs : List Char) : Except LexicalFault LexemeTail :=
  if tripleOperators.contains (String.ofList (c :: cs.take 2)) then .ok ⟨.token .operator, cs.take 2⟩
  else if doubleOperators.contains (String.ofList (c :: cs.take 1)) then .ok ⟨.token .operator, cs.take 1⟩
  else if singleOperators.contains c then .ok ⟨.token .operator, []⟩
  else .error (.unexpectedCharacter c)

def lineCommentLexeme (cs : List Char) : LexemeTail :=
  ⟨.comment .line, '/' :: cs.takeWhile (· != '\n')⟩

def blockCommentLexeme (cs : List Char) : Except LexicalFault LexemeTail :=
  match blockBody? cs with
  | none => .error .commentNotTerminated
  | some body => .ok ⟨.comment .block, '*' :: body ++ ['*', '/']⟩

def stringLexeme (cs : List Char) : Except LexicalFault LexemeTail :=
  match stringBody? cs with
  | none => .error .stringNotTerminated
  | some body =>
    match unescape body with
    | .error fault => .error (.escape fault)
    | .ok value => .ok ⟨.token (.string (String.ofList value)), body ++ ['"']⟩

/-- A raw string denotes its body without carriage returns. -/
def rawStringLexeme (cs : List Char) : Except LexicalFault LexemeTail :=
  match rawBody? cs with
  | none => .error .rawStringNotTerminated
  | some body => .ok ⟨.token (.string (String.ofList (body.filter (· != '\r')))), body ++ ['\x60']⟩

def runeLexeme (cs : List Char) : Except LexicalFault LexemeTail :=
  match runeBody? cs with
  | none => .error .runeNotTerminated
  | some [] => .error .emptyRune
  | some body => .ok ⟨.token .rune, body ++ ['\'']⟩

def startsNumber (c : Char) (cs : List Char) : Bool :=
  c.isDigit || c == '.' && (cs.head?.any Char.isDigit)

/-- The lexeme at the front of `c :: cs`. -/
def lexeme (c : Char) (cs : List Char) : Except LexicalFault LexemeTail :=
  if isBlankChar c then .ok ⟨.blank, []⟩
  else if c = '/' ∧ cs.head? = some '/' then .ok (lineCommentLexeme cs.tail)
  else if c = '/' ∧ cs.head? = some '*' then blockCommentLexeme cs.tail
  else if c = '"' then stringLexeme cs
  else if c = '\x60' then rawStringLexeme cs
  else if c = '\'' then runeLexeme cs
  else if c = ';' then .ok ⟨.token .semicolon, []⟩
  else if isIdentifierStart c then .ok (wordLexeme c cs)
  else if startsNumber c cs then .ok ⟨.token .number, numberTail c cs⟩
  else operatorLexeme c cs

/-- A piece of a source. -/
inductive Piece where
  | token (token : Token)
  | comment (comment : Comment) (pos : Position)
  | blank (c : Char) (pos : Position)
  deriving DecidableEq, Repr

/-- The text without its delimiters. -/
def commentBody (style : CommentStyle) (text : List Char) : List Char :=
  match style with
  | .line => text.drop 2
  | .block => (text.drop 2).take (text.length - 4)

/-- The piece with the text `text` at `pos`; `lineUsed` when a token stands before it on its line. -/
def pieceOf (kind : LexemeKind) (text : List Char) (pos : Position) (lineUsed : Bool) : Piece :=
  match kind with
  | .blank => .blank (text.headD ' ') pos
  | .token kind => .token ⟨kind, String.ofList text, pos⟩
  | .comment style =>
    .comment ⟨style, String.ofList (commentBody style text), pos.line, (pos.advance text).line, !lineUsed⟩ pos

/-- A token stands on the line behind the piece, if one did in front of it. -/
def lineUsedAfter (kind : LexemeKind) (text : List Char) (lineUsed : Bool) : Bool :=
  match kind with
  | .token _ => true
  | .blank | .comment _ => if text.contains '\n' then false else lineUsed

/-- A lexical fault and where its lexeme starts. -/
abbrev LexicalError := Position × LexicalFault

/-- The pieces of a source, in order. -/
def pieces (pos : Position) (lineUsed : Bool) : List Char → Except LexicalError (List Piece)
  | [] => .ok []
  | c :: cs =>
    match lexeme c cs with
    | .error fault => .error (pos, fault)
    | .ok ⟨kind, tail⟩ =>
      let text := c :: tail
      (pieces (pos.advance text) (lineUsedAfter kind text lineUsed) (cs.drop tail.length)).map
        (pieceOf kind text pos lineUsed :: ·)
termination_by cs => cs.length
decreasing_by simp only [List.length_drop, List.length_cons]; omega

/-- The piece ends the line it stands on. -/
def Piece.endsLine : Piece → Option Position
  | .token _ => none
  | .blank c pos => if c = '\n' then some pos else none
  | .comment c pos => if c.endLine > c.line then some pos else none

def newlineAt (pos : Position) : Token :=
  ⟨.newline, "", pos⟩

/-- The tokens of the pieces, with a semicolon wherever a line ends behind a token that ends a statement. The last
token so far is `last`, and the source ends at `stop`. -/
def insertSemicolons (stop : Position) (last : Option Token) : List Piece → List Token
  | [] => if last.any Token.endsStatement then [newlineAt stop] else []
  | .token t :: rest => t :: insertSemicolons stop (some t) rest
  | piece :: rest =>
    match piece.endsLine with
    | none => insertSemicolons stop last rest
    | some pos =>
      if last.any Token.endsStatement then newlineAt pos :: insertSemicolons stop none rest
      else insertSemicolons stop last rest

/-- A source as its tokens, its comments and the place where it ends. -/
structure Lexed where
  tokens : List Token
  comments : List Comment
  stop : Position
  deriving DecidableEq, Repr

def Piece.comment? : Piece → Option Comment
  | .comment c _ => some c
  | _ => none

def tokenize (source : String) : Except LexicalError Lexed :=
  (pieces .start false source.toList).map fun ps =>
    let stop := Position.start.advance source.toList
    ⟨insertSemicolons stop none ps, ps.filterMap Piece.comment?, stop⟩

end ApiForge.Source
