/-! Sorting and ordered collections of names. Sorting is stable: entries that tie keep their order. Names are in the
order of their code points. -/

namespace ApiForge

/-- Puts `x` in front of the first entry that does not come before it. -/
def insertBy {α : Type} (le : α → α → Bool) (x : α) : List α → List α
  | [] => [x]
  | y :: ys => if le x y then x :: y :: ys else y :: insertBy le x ys

/-- The entries in ascending order, ties in their order of appearance. -/
def sortBy {α : Type} (le : α → α → Bool) (xs : List α) : List α :=
  xs.foldr (insertBy le) []

def sortNames (names : List String) : List String :=
  sortBy (fun a b => decide (a ≤ b)) names

/-- The entries without the later of two equal ones. -/
def distinct {α : Type} [DecidableEq α] (xs : List α) : List α :=
  xs.foldl (fun seen x => if x ∈ seen then seen else seen ++ [x]) []

/-- The entries without those that repeat the one before them. -/
def dropRepeats {α : Type} [DecidableEq α] : List α → List α
  | [] => []
  | x :: xs =>
    match dropRepeats xs with
    | [] => [x]
    | y :: ys => if x = y then y :: ys else x :: y :: ys

/-- Names without repetition, in ascending order. -/
abbrev NameSet := List String

namespace NameSet

def insert (name : String) : NameSet → NameSet
  | [] => [name]
  | n :: ns => if name < n then name :: n :: ns else if name = n then n :: ns else n :: insert name ns

def ofList (names : List String) : NameSet :=
  names.foldl (fun set name => insert name set) []

end NameSet

/-- Values under names, in ascending order of the names. -/
abbrev NameMap (α : Type) := List (String × α)

namespace NameMap

variable {α : Type}

def get? (map : NameMap α) (name : String) : Option α :=
  map.lookup name

def contains (map : NameMap α) (name : String) : Bool :=
  (map.get? name).isSome

/-- Sets the value under `name`, whether there was one or not. -/
def insert (name : String) (value : α) : NameMap α → NameMap α
  | [] => [(name, value)]
  | e :: es =>
    if name < e.1 then (name, value) :: e :: es
    else if name = e.1 then (name, value) :: es
    else e :: insert name value es

/-- Sets the value under `name` unless there is one. -/
def insertNew (name : String) (value : α) (map : NameMap α) : NameMap α :=
  if map.contains name then map else map.insert name value

/-- Of several entries of one name the last counts. -/
def ofList (entries : List (String × α)) : NameMap α :=
  entries.foldl (fun map e => map.insert e.1 e.2) []

end NameMap

end ApiForge
