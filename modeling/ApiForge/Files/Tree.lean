/-! The files that a program works on, as a value: what stands at each place below the root, and the directory that
relative paths start from. -/

namespace ApiForge.Files

/-- The bytes of a file. -/
abbrev Content := List UInt8

inductive Entry where
  | file (content : Content)
  | directory
  deriving DecidableEq, Repr

/-- The names on the way from the root to a place. -/
abbrev Place := List String

structure Tree where
  /-- Everything but the root. -/
  entries : List (Place × Entry)
  workingDirectory : Place
  deriving DecidableEq, Repr

namespace Tree

def get? (t : Tree) (place : Place) : Option Entry :=
  if place = [] then some .directory else (t.entries.find? (·.1 = place)).map Prod.snd

def putEntry (place : Place) (entry : Entry) : List (Place × Entry) → List (Place × Entry)
  | [] => [(place, entry)]
  | e :: es => if e.1 = place then (place, entry) :: es else e :: putEntry place entry es

/-- Sets what stands at a place, whether there was something or not. -/
def put (t : Tree) (place : Place) (entry : Entry) : Tree :=
  { t with entries := putEntry place entry t.entries }

/-- Without what stands at a place, and without everything below it. -/
def remove (t : Tree) (place : Place) : Tree :=
  { t with entries := t.entries.filter fun e => !place.isPrefixOf e.1 }

/-- Without the file that stands at a place. -/
def unlink (t : Tree) (place : Place) : Tree :=
  { t with entries := t.entries.filter (·.1 ≠ place) }

/-- The files at or below a place, with their names from there. -/
def filesBelow (t : Tree) (place : Place) : List (Place × Content) :=
  t.entries.filterMap fun e =>
    match e.2 with
    | .file content => if place.isPrefixOf e.1 then some (e.1.drop place.length, content) else none
    | .directory => none

theorem find?_putEntry (place other : Place) (entry : Entry) (entries : List (Place × Entry)) :
    ((putEntry place entry entries).find? (·.1 = other)).map Prod.snd =
      if other = place then some entry else (entries.find? (·.1 = other)).map Prod.snd := by
  induction entries with
  | nil => by_cases h : place = other <;> simp [putEntry, h, eq_comm]
  | cons e es ih =>
    by_cases hp : e.1 = place
    · by_cases h : place = other <;> simp [putEntry, hp, h, Ne.symm, eq_comm]
    · by_cases h : e.1 = other
      · subst h
        simp [putEntry, hp]
      · simp [putEntry, hp, h, ih]

/-- A place holds what was put there, and the other places hold what they held. -/
theorem get?_put (t : Tree) (place other : Place) (entry : Entry) (h : place ≠ []) :
    (t.put place entry).get? other = if other = place then some entry else t.get? other := by
  by_cases ho : other = []
  · subst ho
    simp [get?, h.symm]
  · simp [get?, put, ho, find?_putEntry]

end Tree

end ApiForge.Files
