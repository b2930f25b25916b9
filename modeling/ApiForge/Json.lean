import ApiForge.Text.Quoted

/-! Structured values as configurations give them and reports show them: objects keep the order of their fields. -/

namespace ApiForge

inductive Json where
  | null
  | bool (value : Bool)
  | integer (value : Int)
  /-- A number that is not an integer, by its text. -/
  | decimal (text : String)
  | string (text : String)
  | array (items : List Json)
  | object (fields : List (String × Json))
  deriving Inhabited

namespace Json

def strings (texts : List String) : Json :=
  .array (texts.map .string)

def ofNat (n : Nat) : Json :=
  .integer n

def ofOption {α : Type} (encode : α → Json) : Option α → Json
  | none => .null
  | some a => encode a

/-- Two blanks for each level of nesting. -/
def indentation (depth : Nat) : String :=
  String.ofList (List.replicate (2 * depth) ' ')

mutual

/-- One item or field a line, and an empty list or object on one line. -/
def prettyAt (depth : Nat) : Json → String
  | .null => "null"
  | .bool true => "true"
  | .bool false => "false"
  | .integer n => toString n
  | .decimal text => text
  | .string text => Text.quote text
  | .array [] => "[]"
  | .array (item :: items) =>
    "[\n" ++ prettyItems (depth + 1) (item :: items) ++ "\n" ++ indentation depth ++ "]"
  | .object [] => "\x7b\x7d"
  | .object (field :: fields) =>
    "\x7b\n" ++ prettyFields (depth + 1) (field :: fields) ++ "\n" ++ indentation depth ++ "\x7d"

def prettyItems (depth : Nat) : List Json → String
  | [] => ""
  | [item] => indentation depth ++ prettyAt depth item
  | item :: next :: rest =>
    indentation depth ++ prettyAt depth item ++ ",\n" ++ prettyItems depth (next :: rest)

def prettyFields (depth : Nat) : List (String × Json) → String
  | [] => ""
  | [(name, value)] => indentation depth ++ Text.quote name ++ ": " ++ prettyAt depth value
  | (name, value) :: next :: rest =>
    indentation depth ++ Text.quote name ++ ": " ++ prettyAt depth value ++ ",\n" ++ prettyFields depth (next :: rest)

end

def pretty (value : Json) : String :=
  prettyAt 0 value

end Json

end ApiForge
