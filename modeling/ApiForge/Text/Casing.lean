import ApiForge.Text.CaseTables

/-! Upper and lower case of texts. The uppercase form of a character may be several characters, and the lowercase
form of a capital sigma depends on its neighbours: it is the final form at the end of a word. -/

namespace ApiForge.Text

/-- The other case of `c` by the tables, or `c` itself. -/
def mapCase (runs : List CaseRun) (specials : List (Nat × List Nat)) (c : Char) : List Char :=
  match specials.lookup c.toNat with
  | some image => image.map Char.ofNat
  | none =>
    match runs.find? (·.covers c.toNat) with
    | some run => [run.image c.toNat]
    | none => [c]

def upperChar (c : Char) : List Char :=
  if c.toNat < 0x80 then [c.toUpper] else mapCase upperRuns upperSpecials c

def lowerChar (c : Char) : List Char :=
  if c.toNat < 0x80 then [c.toLower] else mapCase lowerRuns lowerSpecials c

/-- An uppercase letter: one with a lowercase form, digraphs with a capital first half apart, or one of the
capitals without. -/
def isUppercase (c : Char) : Bool :=
  if c.toNat < 0x80 then c.isUpper
  else lowerChar c != [c] && !titlecaseRanges.contains c || uncasedCapitalRanges.contains c

def isCased (c : Char) : Bool :=
  if c.toNat < 0x80 then c.isAlpha else casedRanges.contains c

def isCaseIgnorable (c : Char) : Bool :=
  caseIgnorableRanges.contains c

/-- The nearest character that counts is a cased letter. -/
def nextIsCased (cs : List Char) : Bool :=
  match cs.dropWhile isCaseIgnorable with
  | [] => false
  | c :: _ => isCased c

def upper (cs : List Char) : List Char :=
  cs.flatMap upperChar

/-- Lowercase of `cs`, where `before` are the characters in front of it, the nearest first. -/
def lowerAfter (before : List Char) : List Char → List Char
  | [] => []
  | c :: rest =>
    let image := if c = 'Σ' then [if nextIsCased before && !nextIsCased rest then 'ς' else 'σ'] else lowerChar c
    image ++ lowerAfter (c :: before) rest

def lower (cs : List Char) : List Char :=
  lowerAfter [] cs

/-- Lowercase of the ASCII letters only. -/
def lowerAscii (cs : List Char) : List Char :=
  cs.map Char.toLower

end ApiForge.Text
