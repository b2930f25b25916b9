import ApiForge.Source.Bracket
import ApiForge.Source.Lexer
import ApiForge.Source.Struct

/-! The declarations of a source file. Only struct types are read in depth; imports, variables, constants,
functions and other types are skipped up to their end, which still refuses brackets that do not fit. -/

namespace ApiForge.Source

/-- Reading gives a part of a source, mostly with the tokens behind it. -/
abbrev Reading := Except SyntaxError

/-- The place of the next token, or of the end of the source. -/
def nextPos (stop : Position) (ts : List Token) : Position :=
  match ts with
  | [] => stop
  | t :: _ => t.pos

def unexpected (stop : Position) (what : Expectation) (ts : List Token) : SyntaxError :=
  ⟨nextPos stop ts, .expected what ts.head?⟩

def nextIsOperator (ts : List Token) (text : String) : Bool :=
  ts.head?.any (·.isOperator text)

def skipTerminators (ts : List Token) : List Token :=
  ts.dropWhile Token.isTerminator

def expectIdentifier (stop : Position) (what : Expectation) (ts : List Token) : Reading (Token × List Token) :=
  match ts with
  | t :: rest => if t.kind = .identifier then .ok (t, rest) else .error (unexpected stop what ts)
  | [] => .error (unexpected stop what [])

/-- A declaration ends with a semicolon or with the source. -/
def endDeclaration (stop : Position) (ts : List Token) : Reading (List Token) :=
  match ts with
  | [] => .ok []
  | t :: rest => if t.isTerminator then .ok rest else .error (unexpected stop .declarationEnd ts)

/-- Skips a declaration with its final semicolon, while the brackets of `stack` are open. -/
def skipDeclaration (stop : Position) (stack : List Token) : List Token → Reading (List Token)
  | [] => if stack = [] then .ok [] else .error (endedInside stop stack)
  | t :: rest =>
    if t.isTerminator ∧ stack = [] then .ok rest
    else
      match track stack t with
      | .error e => .error e
      | .ok stack' => skipDeclaration stop stack' rest

/-- Skips a type up to the semicolon, the end of the source or, in a group, the closing parenthesis behind it. -/
def skipType (stop : Position) (grouped : Bool) (stack : List Token) : List Token → Reading (List Token)
  | [] => if stack = [] then .ok [] else .error (endedInside stop stack)
  | t :: rest =>
    if stack = [] ∧ (t.isTerminator ∨ grouped ∧ t.isOperator ")") then .ok (t :: rest)
    else
      match track stack t with
      | .error e => .error e
      | .ok stack' => skipType stop grouped stack' rest

/-- The tokens from an opening bracket to the one that closes it. -/
def bracketed (stop : Position) (stack : List Token) : List Token → Reading (List Token × List Token)
  | [] => .error (endedInside stop stack)
  | t :: rest =>
    match track stack t with
    | .error e => .error e
    | .ok [] => .ok ([t], rest)
    | .ok (opener :: outer) => (bracketed stop (opener :: outer) rest).map fun r => (t :: r.1, r.2)

/-- The tokens of a field's type: up to a semicolon, a tag or the closing brace outside all brackets. -/
def fieldType (stop : Position) (stack : List Token) : List Token → Reading (List Token × List Token)
  | [] => .error (endedInside stop stack)
  | t :: rest =>
    if stack = [] ∧ (t.isTerminator ∨ t.isString ∨ t.isOperator "\x7d") then .ok ([], t :: rest)
    else
      match track stack t with
      | .error e => .error e
      | .ok stack' => (fieldType stop stack' rest).map fun r => (t :: r.1, r.2)

/-- A space stands between the neighbours `a` and `b` of a type: between two words, behind a comma or a semicolon,
and between a closing parenthesis and a word. -/
def spaced (a b : Token) : Bool :=
  a.isWord && b.isWord || a.isOperator "," || a.isTerminator || a.isOperator ")" && b.isWord

def typeToken (t : Token) : String :=
  if t.isTerminator then ";" else t.text

/-- The text of a type, such as `map[string]*v0.Common`. -/
def typeText : List Token → String
  | [] => ""
  | [t] => typeToken t
  | a :: b :: rest => typeToken a ++ (if spaced a b then " " else "") ++ typeText (b :: rest)

/-- A field ends here: in front of a semicolon, a tag, the closing brace or the end of the source. -/
def atFieldEnd : List Token → Bool
  | [] => true
  | t :: _ => t.isTerminator || t.isString || t.isOperator "\x7d"

/-- From `Embedded[T]` on, as opposed to `Field []T` and `Field [N]T`: the brackets that open at the front are not
empty and the field ends behind them. `depth` brackets are open and `seen` tokens have been passed. -/
def closesAsEmbedded (depth seen : Nat) : List Token → Bool
  | [] => false
  | t :: rest =>
    if t.opens then closesAsEmbedded (depth + 1) (seen + 1) rest
    else if t.closes then
      if depth ≤ 1 then seen != 1 && atFieldEnd rest else closesAsEmbedded (depth - 1) (seen + 1) rest
    else closesAsEmbedded depth (seen + 1) rest

/-- The field that starts with an identifier is an embedded type, judged by the tokens behind the identifier. -/
def embeddedFollows (ts : List Token) : Bool :=
  match ts with
  | [] => false
  | t :: _ =>
    t.isOperator "." || t.isOperator "\x7d" || t.isTerminator || t.isString ||
      t.isOperator "[" && closesAsEmbedded 0 0 ts

/-- The type arguments at the front, or nothing. -/
def typeArguments (stop : Position) (ts : List Token) : Reading (List Token × List Token) :=
  if nextIsOperator ts "[" then bracketed stop [] ts else .ok ([], ts)

/-- An embedded type: its last segment and its text. -/
def embeddedType (stop : Position) (ts : List Token) : Reading ((String × String) × List Token) := do
  let (first, rest) ← expectIdentifier stop .embeddedName ts
  if nextIsOperator rest "." then
    let (second, rest) ← expectIdentifier stop .qualifiedName rest.tail
    let (arguments, rest) ← typeArguments stop rest
    return ((second.text, first.text ++ "." ++ second.text ++ typeText arguments), rest)
  else
    let (arguments, rest) ← typeArguments stop rest
    return ((first.text, first.text ++ typeText arguments), rest)

/-- The tag at the front, or no tags. -/
def fieldTag (ts : List Token) : TagMap × List Token :=
  match ts with
  | [] => ([], [])
  | t :: rest =>
    match t.kind with
    | .string value => (parseTag value, rest)
    | _ => ([], t :: rest)

/-- The names behind the first one of a field. -/
def moreNames (stop : Position) : List Token → Reading (List String × List Token)
  | [] => .ok ([], [])
  | [t] => if t.isOperator "," then .error (unexpected stop .fieldName []) else .ok ([], [t])
  | t :: name :: rest =>
    if t.isOperator "," then
      if name.kind = .identifier then (moreNames stop rest).map fun r => (name.text :: r.1, r.2)
      else .error (unexpected stop .fieldName (name :: rest))
    else .ok ([], t :: name :: rest)

/-- A field with one or more names, of which `first` is the first. -/
def namedFields (stop : Position) (first : String) (ts : List Token) : Reading (List Field × List Token) := do
  let (more, rest) ← moreNames stop ts
  let (type, rest) ← fieldType stop [] rest
  if type = [] then throw ⟨nextPos stop rest, .missingType first⟩
  let (tags, rest) := fieldTag rest
  return ((first :: more).map fun name => ⟨name, false, typeText type, tags⟩, rest)

/-- An embedded type, whose text follows `mark`. -/
def embeddedField (stop : Position) (mark : String) (ts : List Token) : Reading (List Field × List Token) := do
  let ((name, text), rest) ← embeddedType stop ts
  let (tags, rest) := fieldTag rest
  return ([⟨name, true, mark ++ text, tags⟩], rest)

/-- One field declaration. -/
def fieldDeclaration (stop : Position) (ts : List Token) : Reading (List Field × List Token) :=
  match ts with
  | [] => .error (unexpected stop .field [])
  | t :: rest =>
    if t.isOperator "*" then embeddedField stop "*" rest
    else if t.kind ≠ .identifier then .error (unexpected stop .field ts)
    else if embeddedFollows rest then embeddedField stop "" ts
    else namedFields stop t.text rest

/-- The fields of a struct up to its closing brace, which is read too. The struct opens at `opening`. Each step
reads at least one token. -/
def structFields (stop opening : Position) (ts : List Token) : Reading (List Field × List Token) :=
  match skipTerminators ts with
  | [] => .error ⟨opening, .unclosedStruct⟩
  | t :: rest =>
    if t.isOperator "\x7d" then .ok ([], rest)
    else
      match fieldDeclaration stop (t :: rest) with
      | .error e => .error e
      | .ok (fields, rest) =>
        match rest with
        | [] => .error (unexpected stop .fieldEnd [])
        | t' :: rest' =>
          if _ : (t' :: rest').length < ts.length then
            if t'.isTerminator then (structFields stop opening rest').map fun r => (fields ++ r.1, r.2)
            else if t'.isOperator "\x7d" then .ok (fields, rest')
            else .error (unexpected stop .fieldEnd (t' :: rest'))
          else .error (unexpected stop .fieldEnd (t' :: rest'))
termination_by ts.length
decreasing_by simp only [List.length_cons] at *; omega

/-- The comments in front of `line`, the nearest first, without a line between two of them or behind the last. -/
def adjoining (expectedEnd : Nat) : List Comment → List Comment
  | [] => []
  | c :: earlier =>
    if c.endLine = expectedEnd ∧ c.ownLine then c :: adjoining (c.line - 1) earlier else []

/-- The comment above `line`: the group of comments that ends on the line in front of it. -/
def docAbove (comments : List Comment) (line : Nat) : String :=
  let earlier := comments.reverse.dropWhile fun c => decide (line ≤ c.endLine)
  "\n".intercalate ((adjoining (line - 1) earlier).reverse.map Comment.text)

/-- Behind a type name a bracket opens type parameters, as in `[T any]`, and not an array length. -/
def opensTypeParameters (ts : List Token) : Bool :=
  match ts with
  | t :: name :: rest => t.isOperator "[" && name.isName && !nextIsOperator rest "]"
  | _ => false

/-- A type declaration behind its keyword or inside a group: the struct it declares, if it declares one. -/
def typeSpec (stop : Position) (doc : String) (grouped : Bool) (ts : List Token) :
    Reading (Option Struct × List Token) := do
  let (name, rest) ← expectIdentifier stop .typeName ts
  let rest ← if opensTypeParameters rest then (bracketed stop [] rest).map Prod.snd else pure rest
  let rest := if nextIsOperator rest "=" then rest.tail else rest
  match rest with
  | kw :: opening :: body =>
    if kw.isKeyword "struct" ∧ opening.isOperator "\x7b" then
      let (fields, rest) ← structFields stop opening.pos body
      return (some ⟨name.text, name.pos.line, Marker.scan doc, fields⟩, rest)
    else return (none, ← skipType stop grouped [] rest)
  | _ => return (none, ← skipType stop grouped [] rest)

/-- What every part of a declaration group shares: the comments, where the source ends, the place of the group's
keyword and the comment above it. -/
structure GroupContext where
  comments : List Comment
  stop : Position
  keyword : Position
  doc : String

/-- The structs of a type group up to its closing parenthesis, which is read too. Each step reads at least one
token. -/
def typeGroup (ctx : GroupContext) (ts : List Token) : Reading (List Struct × List Token) :=
  match skipTerminators ts with
  | [] => .error ⟨ctx.keyword, .unclosedGroup⟩
  | t :: rest =>
    if t.isOperator ")" then .ok ([], rest)
    else
      match typeSpec ctx.stop (ctx.doc ++ "\n" ++ docAbove ctx.comments t.pos.line) true (t :: rest) with
      | .error e => .error e
      | .ok (struct?, rest) =>
        match rest with
        | [] => .error (unexpected ctx.stop .groupEnd [])
        | t' :: rest' =>
          if _ : (t' :: rest').length < ts.length then
            if t'.isTerminator then (typeGroup ctx rest').map fun r => (struct?.toList ++ r.1, r.2)
            else if t'.isOperator ")" then .ok (struct?.toList, rest')
            else .error (unexpected ctx.stop .groupEnd (t' :: rest'))
          else .error (unexpected ctx.stop .groupEnd (t' :: rest'))
termination_by ts.length
decreasing_by simp only [List.length_cons] at *; omega

/-- A type declaration behind its keyword, with its end. -/
def typeDeclaration (comments : List Comment) (stop : Position) (keyword : Token) (ts : List Token) :
    Reading (List Struct × List Token) := do
  let doc := docAbove comments keyword.pos.line
  if nextIsOperator ts "(" then
    let (structs, rest) ← typeGroup ⟨comments, stop, keyword.pos, doc⟩ ts.tail
    return (structs, ← endDeclaration stop rest)
  else
    let (struct?, rest) ← typeSpec stop doc false ts
    return (struct?.toList, ← endDeclaration stop rest)

def skippedKeywords : List String := ["import", "var", "const", "func"]

/-- One declaration behind its keyword `kw`: the structs it declares. -/
def declaration (comments : List Comment) (stop : Position) (kw : Token) (ts : List Token) :
    Reading (List Struct × List Token) :=
  if kw.kind = .keyword ∧ skippedKeywords.contains kw.text then
    (skipDeclaration stop [] ts).map fun rest => ([], rest)
  else if kw.isKeyword "type" then typeDeclaration comments stop kw ts
  else .error (unexpected stop .declaration (kw :: ts))

/-- The structs of all declarations. Each step reads at least one token. -/
def declarations (comments : List Comment) (stop : Position) (ts : List Token) : Reading (List Struct) :=
  match skipTerminators ts with
  | [] => .ok []
  | kw :: rest =>
    match declaration comments stop kw rest with
    | .error e => .error e
    | .ok (structs, rest) =>
      if rest.length < ts.length then (declarations comments stop rest).map (structs ++ ·)
      else .error (unexpected stop .declaration rest)
termination_by ts.length

/-- A whole file: the package clause and the declarations behind it. -/
def parseLexed (path : String) (lexed : Lexed) : Reading SourceFile :=
  let stop := lexed.stop
  match skipTerminators lexed.tokens with
  | kw :: rest =>
    if kw.isKeyword "package" then do
      let (name, rest) ← expectIdentifier stop .packageName rest
      let rest ← endDeclaration stop rest
      return ⟨path, name.text, ← declarations lexed.comments stop rest⟩
    else .error (unexpected stop .packageClause (kw :: rest))
  | [] => .error (unexpected stop .packageClause [])

def parseSource (path source : String) : Reading SourceFile :=
  match tokenize source with
  | .error (pos, fault) => .error ⟨pos, .lexical fault⟩
  | .ok lexed => parseLexed path lexed

end ApiForge.Source
