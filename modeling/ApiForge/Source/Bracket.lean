import ApiForge.Source.Fault

/-! Nesting of brackets. The open brackets are a stack, the innermost first; a closing bracket has to fit it. -/

namespace ApiForge.Source

def openers : List String := ["(", "[", "\x7b"]

def closers : List String := [")", "]", "\x7d"]

/-- The closing bracket that fits an opening one. -/
def closerOf (opener : String) : String :=
  if opener = "(" then ")" else if opener = "[" then "]" else "\x7d"

namespace Token

def opens (t : Token) : Bool :=
  t.kind == .operator && openers.contains t.text

def closes (t : Token) : Bool :=
  t.kind == .operator && closers.contains t.text

end Token

/-- The open brackets behind `t`, when those in front of it are `stack`. -/
def track (stack : List Token) (t : Token) : Except SyntaxError (List Token) :=
  if t.opens then .ok (t :: stack)
  else if t.closes then
    match stack with
    | [] => .error ⟨t.pos, .unexpectedCloser t.text⟩
    | opener :: outer =>
      if closerOf opener.text = t.text then .ok outer else .error ⟨t.pos, .mismatched t.text opener⟩
  else .ok stack

/-- The error of a source that ends at `stop` while the brackets of `stack` are open. -/
def endedInside (stop : Position) (stack : List Token) : SyntaxError :=
  match stack with
  | [] => ⟨stop, .unexpectedEnd⟩
  | opener :: _ => ⟨opener.pos, .unclosed opener.text⟩

end ApiForge.Source
