import ApiForge.Source.Token

/-! What is wrong with a source, and where. -/

namespace ApiForge.Source

/-- What a place in a source calls for. -/
inductive Expectation where
  | packageClause
  | packageName
  | declaration
  | declarationEnd
  | typeName
  | groupEnd
  | field
  | fieldName
  | fieldEnd
  | embeddedName
  | qualifiedName
  deriving DecidableEq, Repr

def Expectation.text : Expectation → String
  | .packageClause => "'package' clause"
  | .packageName => "package name"
  | .declaration => "declaration"
  | .declarationEnd => "';' or newline after declaration"
  | .typeName => "type name"
  | .groupEnd => "';' or ')' in type group"
  | .field => "field name or embedded type"
  | .fieldName => "field name"
  | .fieldEnd => "';' or '\x7d' after field"
  | .embeddedName => "embedded type name"
  | .qualifiedName => "qualified type name"

inductive SyntaxFault where
  | lexical (fault : LexicalFault)
  /-- Something else stands there, or the source ends. -/
  | expected (what : Expectation) (found : Option Token)
  /-- A closing bracket without an opening one. -/
  | unexpectedCloser (closer : String)
  /-- A closing bracket of another kind than the opening one. -/
  | mismatched (closer : String) (opener : Token)
  /-- An opening bracket without a closing one. -/
  | unclosed (opener : String)
  | unclosedGroup
  | unclosedStruct
  | unexpectedEnd
  | missingType (field : String)
  deriving DecidableEq, Repr

def describeFound : Option Token → String
  | none => "end of file"
  | some t => t.describe

def SyntaxFault.message : SyntaxFault → String
  | .lexical fault => fault.message
  | .expected what found => "expected " ++ what.text ++ ", found " ++ describeFound found
  | .unexpectedCloser closer => "unexpected '" ++ closer ++ "'"
  | .mismatched closer opener =>
    "mismatched '" ++ closer ++ "': '" ++ opener.text ++ "' opened at line " ++ toString opener.pos.line ++
      " column " ++ toString opener.pos.column
  | .unclosed opener => "unclosed '" ++ opener ++ "'"
  | .unclosedGroup => "unclosed type declaration group"
  | .unclosedStruct => "unclosed struct type"
  | .unexpectedEnd => "unexpected end of file"
  | .missingType field => "missing type for field '" ++ field ++ "'"

/-- A fault and where it stands. -/
structure SyntaxError where
  pos : Position
  fault : SyntaxFault
  deriving DecidableEq, Repr

/-- The error as it is shown for the file at `path`. -/
def SyntaxError.message (e : SyntaxError) (path : String) : String :=
  path ++ ":" ++ toString e.pos.line ++ ":" ++ toString e.pos.column ++ ": " ++ e.fault.message

end ApiForge.Source
