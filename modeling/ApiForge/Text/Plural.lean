/-! The plural of a name, for identifiers and paths: `s`, `x`, `ch` and `sh` take `es`, a `y` after a consonant
becomes `ies`, and all else takes `s`. -/

namespace ApiForge.Text

def takesEs (cs : List Char) : Bool :=
  let ending := cs.map Char.toLower
  ['s'].isSuffixOf ending || ['x'].isSuffixOf ending || ['c', 'h'].isSuffixOf ending || ['s', 'h'].isSuffixOf ending

def isVowel (c : Char) : Bool :=
  ['a', 'e', 'i', 'o', 'u'].contains c.toLower

/-- The name without its final `y`, when something other than a vowel stands before it. -/
def stemOfY? (cs : List Char) : Option (List Char) :=
  match cs.reverse with
  | 'y' :: before :: rest => if isVowel before then none else some (before :: rest).reverse
  | _ => none

def plural (name : String) : String :=
  if takesEs name.toList then name ++ "es"
  else
    match stemOfY? name.toList with
    | some stem => String.ofList stem ++ "ies"
    | none => name ++ "s"

end ApiForge.Text
