import ApiForge.Fault

/-! Path templates: paths with placeholders in braces. A template is expanded by putting values in the places of its
placeholders, and it matches the paths that come about when each value is a piece of one segment. -/

namespace ApiForge

namespace PathTemplate

inductive Part where
  | literal (c : Char)
  | hole (key : String)
  deriving DecidableEq, Repr

/-- The parts of the rest of a template. Between braces `key?` is what was read of the key so far, the last character
first. -/
def parseFrom (key? : Option (List Char)) : List Char → List Part × Bool
  | [] => ([], key?.isNone)
  | c :: cs =>
    match key? with
    | none =>
      if c = '\x7b' then parseFrom (some []) cs
      else
        let parsed := parseFrom none cs
        (.literal c :: parsed.1, parsed.2)
    | some key =>
      if c = '\x7d' then
        let parsed := parseFrom none cs
        (.hole (String.ofList key.reverse) :: parsed.1, parsed.2)
      else parseFrom (some (c :: key)) cs

/-- The parts of a template up to a brace that is not closed, and whether there is none. -/
def parse (template : List Char) : List Part × Bool :=
  parseFrom none template

/-- Puts values in the places of the placeholders, or gives the first key without a value. -/
def fill (value? : String → Option String) : List Part → Except String (List Char)
  | [] => .ok []
  | .literal c :: parts => (c :: ·) <$> fill value? parts
  | .hole key :: parts =>
    match value? key with
    | none => .error key
    | some value => (value.toList ++ ·) <$> fill value? parts

/-- The path that a template gives for `target`, whose placeholders have the values `value?`. -/
def expand (template target : String) (value? : String → Option String) : Except TemplateFault String :=
  let parsed := parse template.toList
  match fill value? parsed.1 with
  | .error key => .error (.undefinedPlaceholder key template target)
  | .ok path => if parsed.2 then .ok (String.ofList path) else .error (.unterminated template)

/-- A placeholder stands for one or more characters that are no slashes. -/
def accepts : List Part → List Char → Bool
  | [], cs => cs.isEmpty
  | _ :: _, [] => false
  | .literal c :: parts, d :: ds => c == d && accepts parts ds
  | .hole key :: parts, d :: ds => d != '/' && (accepts parts ds || accepts (.hole key :: parts) ds)

/-- Whether paths match the template. -/
def matcher (template : String) : Except TemplateFault (String → Bool) :=
  let parsed := parse template.toList
  if parsed.2 then .ok fun path => accepts parsed.1 path.toList else .error (.unterminated template)

end PathTemplate

end ApiForge
