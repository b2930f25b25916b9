import ApiForge.Order
import ApiForge.Source.Escape

/-! Struct tags: pairs `key:"value"` with spaces between them, the value a quoted literal. Reading stops at the
first thing that is no such pair and keeps the pairs before it; of a repeated key the first pair counts. -/

namespace ApiForge.Source

/-- The values of a tag under their keys. -/
abbrev TagMap := NameMap String

/-- A key holds no space, control character, colon or quotation mark. -/
def isTagKeyChar (c : Char) : Bool :=
  decide (' ' < c) && c != ':' && c != '"' && c != '\x7F'

/-- The characters in front of the closing quotation mark; one behind a backslash closes nothing. -/
def quotedBody? : List Char → Option (List Char)
  | [] => none
  | '"' :: _ => some []
  | ['\\'] => none
  | '\\' :: c :: rest => (quotedBody? rest).map ('\\' :: c :: ·)
  | c :: rest => (quotedBody? rest).map (c :: ·)

/-- The key at the front, when a colon, a quoted literal and nothing else make it a pair, the body of the literal,
and how many characters the pair takes. -/
def tagPair? (cs : List Char) : Option ((List Char × List Char) × Nat) :=
  let key := cs.takeWhile isTagKeyChar
  if key = [] then none
  else
    match cs.drop key.length with
    | ':' :: '"' :: rest => (quotedBody? rest).map fun body => ((key, body), key.length + body.length + 3)
    | _ => none

/-- The pairs of a tag, in order. -/
def tagPairs (cs : List Char) : List (String × String) :=
  match cs with
  | [] => []
  | ' ' :: rest => tagPairs rest
  | c :: rest =>
    match tagPair? (c :: rest) with
    | none => []
    | some ((key, body), taken) =>
      match unescape body with
      | .error _ => []
      | .ok value => (String.ofList key, String.ofList value) :: tagPairs (rest.drop (taken - 1))
termination_by cs.length
decreasing_by all_goals simp only [List.length_drop, List.length_cons]; omega

def parseTag (tag : String) : TagMap :=
  (tagPairs tag.toList).foldl (fun map pair => map.insertNew pair.1 pair.2) []

end ApiForge.Source
