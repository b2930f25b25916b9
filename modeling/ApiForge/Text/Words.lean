import ApiForge.Text.Casing
import ApiForge.Text.Cluster

/-! Names are made of words, and a name is put into another style by cutting it into words and joining them
again. Words end at an underscore, a hyphen or a space, where a small letter meets a capital, where a letter meets
a digit, and before the last capital of a run of capitals that a small letter follows. -/

namespace ApiForge.Text

/-- What a user-perceived character counts as when words are cut. -/
inductive WordPart where
  | separator
  | digit
  | capital
  | small
  | other
  deriving DecidableEq, Repr

def WordPart.of (g : Cluster) : WordPart :=
  if g = ['_'] ∨ g = ['-'] ∨ g = [' '] then .separator
  else if g.all Char.isDigit then .digit
  else if upper g = lower g then .other
  else if upper g = g then .capital
  else if lower g = g then .small
  else .other

/-- A word ends between the first two parts, given the third. -/
def WordPart.endsWord : WordPart → WordPart → Option WordPart → Bool
  | .small, .capital, _ => true
  | .small, .digit, _ => true
  | .capital, .digit, _ => true
  | .digit, .small, _ => true
  | .digit, .capital, _ => true
  | .capital, .capital, some .small => true
  | _, _, _ => false

/-- A word ends after `g` when `rest` follows it. -/
def endsWordBefore (g : Cluster) : List Cluster → Bool
  | [] => false
  | next :: rest => (WordPart.of g).endsWord (WordPart.of next) (rest.head?.map WordPart.of)

/-- A word: its user-perceived characters. -/
abbrev Word := List Cluster

/-- Puts `g` in front of the first word. -/
def consWord (g : Cluster) : List Word → List Word
  | [] => [[g]]
  | w :: ws => (g :: w) :: ws

/-- The words of a cut-up name. A separator is dropped and always ends a word, so two in a row, or one at an end,
leave an empty word. -/
def wordsOf : List Cluster → List Word
  | [] => [[]]
  | g :: rest =>
    if WordPart.of g = .separator then [] :: wordsOf rest
    else if endsWordBefore g rest then [g] :: wordsOf rest
    else consWord g (wordsOf rest)

def words (s : String) : List Word :=
  wordsOf (clusters s.toList)

def Word.lower (w : Word) : List Char :=
  Text.lower w.flatten

/-- The first user-perceived character in capitals and all others small. -/
def Word.capitalized : Word → List Char
  | [] => []
  | g :: rest => Text.upper g ++ Text.lower rest.flatten

/-- `KubernetesRuntime` -/
def pascalCase (s : String) : String :=
  String.ofList ((words s).flatMap Word.capitalized)

/-- `kubernetesRuntime` -/
def camelCase (s : String) : String :=
  match words s with
  | [] => ""
  | w :: ws => String.ofList (w.lower ++ ws.flatMap Word.capitalized)

/-- The words in small letters with `sep` between them. -/
def joinWords (sep : Char) (s : String) : String :=
  String.ofList ([sep].intercalate ((words s).map Word.lower))

/-- `kubernetes-runtime` -/
def kebabCase (s : String) : String :=
  joinWords '-' s

/-- `kubernetes_runtime` -/
def snakeCase (s : String) : String :=
  joinWords '_' s

/-- `kubernetesruntime`, as package names are written. -/
def packageCase (s : String) : String :=
  String.ofList ((snakeCase s).toList.filter (· != '_'))

end ApiForge.Text
