import ApiForge.Yaml.Token

/-! Documents as trees of nodes. Anchors and references to them are numbers; a number may be given to several nodes,
and stands for the last of them. -/

namespace ApiForge.Yaml

inductive Node where
  | scalar (anchor : Option Nat) (tag : Option String) (style : Style) (text : String)
  | sequence (anchor : Option Nat) (items : List Node)
  | mapping (anchor : Option Nat) (fields : List (Node × Node))
  | reference (number : Nat)
  deriving Inhabited

namespace Node

/-- What stands where nothing is written. -/
def empty : Node :=
  .scalar none none .plain ""

def anchor : Node → Option Nat
  | .scalar a _ _ _ | .sequence a _ | .mapping a _ => a
  | .reference _ => none

mutual

/-- The last node with an anchor; a node comes before those within it. -/
def anchored? (number : Nat) : Node → Option Node
  | .scalar a tag style text => if a = some number then some (.scalar a tag style text) else none
  | .sequence a items =>
    anchoredItem? number items <|> if a = some number then some (.sequence a items) else none
  | .mapping a fields =>
    anchoredField? number fields <|> if a = some number then some (.mapping a fields) else none
  | .reference _ => none

def anchoredItem? (number : Nat) : List Node → Option Node
  | [] => none
  | item :: items => anchoredItem? number items <|> anchored? number item

def anchoredField? (number : Nat) : List (Node × Node) → Option Node
  | [] => none
  | (key, value) :: fields =>
    anchoredField? number fields <|> anchored? number value <|> anchored? number key

end

/-- The node that a reference within `root` stands for. A node that is no reference stands for itself. -/
def target (root : Node) : Node → Node
  | .reference number => (root.anchored? number).getD (.reference number)
  | node => node

end Node

end ApiForge.Yaml
