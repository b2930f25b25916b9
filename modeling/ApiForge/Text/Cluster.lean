import ApiForge.Text.ClusterTables

/-! User-perceived characters: a base character with the marks on it, and signs that lead a character with that
character. Nothing attaches to a control. -/

namespace ApiForge.Text

def isAttaching (c : Char) : Bool :=
  decide (0x80 ≤ c.toNat) && attachingRanges.contains c

def isLeading (c : Char) : Bool :=
  decide (0x80 ≤ c.toNat) && leadingRanges.contains c

def isIsolated (c : Char) : Bool :=
  isolatedRanges.contains c

/-- No boundary lies between the neighbours `a` and `b`. -/
def staysTogether (a b : Char) : Bool :=
  !isIsolated a && (isAttaching b || isLeading a && !isIsolated b)

/-- One user-perceived character. -/
abbrev Cluster := List Char

/-- The user-perceived characters of a text, in order. -/
def clusters : List Char → List Cluster
  | [] => []
  | [c] => [[c]]
  | c :: d :: rest =>
    match clusters (d :: rest) with
    | [] => [[c]]
    | first :: others => if staysTogether c d then (c :: first) :: others else [c] :: first :: others

end ApiForge.Text
