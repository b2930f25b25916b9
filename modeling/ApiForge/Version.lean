import ApiForge.Order

/-! API versions such as `v1` and `v1alpha1`: the letter `v`, a number, and for a pre-release a suffix that starts
with a small letter. They are ordered by number, the pre-releases of a number before its stable version. -/

namespace ApiForge

/-- The version every project has. -/
def baseVersion : String := "v0"

namespace Version

/-- The largest number that orders versions; all larger numbers count as this one. -/
def numberLimit : Nat := 0xFFFFFFFFFFFFFFFF

def isSuffixStart (c : Char) : Bool :=
  decide ('a' ≤ c) && decide (c ≤ 'z')

def isSuffixPart (c : Char) : Bool :=
  isSuffixStart c || c.isDigit

/-- Nothing, or a small letter followed by small letters and digits. -/
def isSuffix : List Char → Bool
  | [] => true
  | c :: cs => isSuffixStart c && cs.all isSuffixPart

/-- The digits of the number and the suffix of a well-formed version. -/
def split? (version : String) : Option (List Char × List Char) :=
  match version.toList with
  | 'v' :: rest =>
    let digits := rest.takeWhile Char.isDigit
    let suffix := rest.dropWhile Char.isDigit
    if digits ≠ [] ∧ isSuffix suffix then some (digits, suffix) else none
  | _ => none

def isValid (version : String) : Bool :=
  (split? version).isSome

/-- The number that a list of digits stands for. -/
def numberOf (digits : List Char) : Nat :=
  digits.foldl (fun n d => 10 * n + (d.toNat - '0'.toNat)) 0

/-- What a version is ordered by. -/
structure Key where
  number : Nat
  stable : Bool
  suffix : List Char
  deriving DecidableEq, Repr

/-- A text that is no version comes after all versions but those of the largest number. -/
def key (version : String) : Key :=
  match split? version with
  | some (digits, suffix) => ⟨min (numberOf digits) numberLimit, suffix.isEmpty, suffix⟩
  | none => ⟨numberLimit, true, version.toList⟩

/-- Numbers first, then pre-releases before stable versions, then suffixes in the order of their characters. -/
def Key.compare (a b : Key) : Ordering :=
  (Ord.compare a.number b.number).then
    ((Ord.compare a.stable b.stable).then (List.compareLex Ord.compare a.suffix b.suffix))

def compare (a b : String) : Ordering :=
  (key a).compare (key b)

def le (a b : String) : Bool :=
  (compare a b).isLE

/-- Ascending, ties in their order of appearance. -/
def sort (versions : List String) : List String :=
  sortBy le versions

end Version

end ApiForge
