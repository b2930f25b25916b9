import ApiForge.Order
import ApiForge.Yaml.Lexer
import ApiForge.Yaml.Node

/-! The document that a text holds. A text with more than one document is refused. -/

namespace ApiForge.Yaml

/-- Where the reading of a document stands. -/
structure ReadState where
  tokens : List Token
  /-- What the handles of tags stand for. -/
  handles : List (String × String)
  /-- The number of each anchor. -/
  anchors : List (String × Nat) := []
  deriving DecidableEq, Repr

abbrev Reading := StateT ReadState Option

namespace Reading

def next : Reading (Option Token) :=
  return (← get).tokens.head?

def skip : Reading Unit :=
  modify fun s => { s with tokens := s.tokens.tail }

def nextIn (ts : List Token) : Reading Bool :=
  return (← next).any ts.contains

/-- Takes a token if it comes next. -/
def accept (t : Token) : Reading Bool := do
  if ← nextIn [t] then
    skip
    return true
  else return false

def expect (t : Token) : Reading Unit := do
  if !(← accept t) then failure

/-! ### Anchors and tags -/

/-- Numbers an anchor. A name that is used again gets a new number, which is not always a new one. -/
def define (name : String) : Reading Nat :=
  modifyGet fun s =>
    (s.anchors.length, { s with anchors := (name, s.anchors.length) :: s.anchors.filter (·.1 != name) })

def find (name : String) : Reading Nat :=
  return ← (← get).anchors.lookup name

/-- A tag in full. -/
def resolve (handle suffix : String) : Reading String := do
  if handle = "" then return suffix
  else return (← (← get).handles.lookup handle) ++ suffix

def anchor? : Reading (Option Nat) := do
  match ← next with
  | some (.anchor name) =>
    skip
    return some (← define name)
  | _ => return none

def tag? : Reading (Option String) := do
  match ← next with
  | some (.tag handle suffix) =>
    skip
    return some (← resolve handle suffix)
  | _ => return none

/-- The anchor and the tag in front of a node, in any order. -/
def properties : Reading (Option Nat × Option String) := do
  match ← anchor? with
  | some number => return (some number, ← tag?)
  | none =>
    let tag ← tag?
    return (← anchor?, tag)

/-- On a scalar that is written, a mark without a name is no tag. -/
def scalarTag (tag : Option String) : Option String :=
  tag.filter (· != "!")

/-! ### Nodes -/

mutual

/-- A node. Outside of brackets it may be a block collection; the value of a field may be a sequence that is not
indented further than its key. -/
def node (block loose : Bool) : Nat → Reading Node
  | 0 => failure
  | fuel + 1 => do
    match ← next with
    | some (.reference name) =>
      skip
      return .reference (← find name)
    | _ =>
      let (anchor, tag) ← properties
      let nothing : Reading Node :=
        if anchor.isSome || tag.isSome then return .scalar anchor tag .plain "" else failure
      match ← next with
      | some (.scalar style text) =>
        skip
        return .scalar anchor (scalarTag tag) style text
      | some .flowSequenceStart =>
        skip
        return .sequence anchor (← flowItems true fuel)
      | some .flowMappingStart =>
        skip
        return .mapping anchor (← flowFields true fuel)
      | some .blockEntry => if loose then return .sequence anchor (← looseItems fuel) else nothing
      | some .blockSequenceStart =>
        if block then
          skip
          return .sequence anchor (← blockItems fuel)
        else nothing
      | some .blockMappingStart =>
        if block then
          skip
          return .mapping anchor (← blockFields fuel)
        else nothing
      | _ => nothing

/-- A node, or nothing in front of certain tokens. -/
def nodeBefore (ends : List Token) (block loose : Bool) : Nat → Reading Node
  | 0 => failure
  | fuel + 1 => do
    if ← nextIn ends then return .empty
    else node block loose fuel

/-- What belongs to a key: nothing, unless a colon comes next. -/
def valueBefore (ends : List Token) (block : Bool) : Nat → Reading Node
  | 0 => failure
  | fuel + 1 => do
    if ← accept .value then nodeBefore ends block block fuel
    else return .empty

def blockItems : Nat → Reading (List Node)
  | 0 => failure
  | fuel + 1 => do
    if ← accept .blockEnd then return []
    expect .blockEntry
    let item ← nodeBefore [.blockEntry, .blockEnd] true false fuel
    return item :: (← blockItems fuel)

/-- The items of a sequence that has no indentation of its own, and so no end. -/
def looseItems : Nat → Reading (List Node)
  | 0 => failure
  | fuel + 1 => do
    if ← accept .blockEntry then
      let item ← nodeBefore [.blockEntry, .key, .value, .blockEnd] true false fuel
      return item :: (← looseItems fuel)
    else return []

def blockFields : Nat → Reading (List (Node × Node))
  | 0 => failure
  | fuel + 1 => do
    if ← accept .blockEnd then return []
    expect .key
    let key ← nodeBefore [.key, .value, .blockEnd] true true fuel
    let value ← valueBefore [.key, .value, .blockEnd] true fuel
    return (key, value) :: (← blockFields fuel)

def flowItems (first : Bool) : Nat → Reading (List Node)
  | 0 => failure
  | fuel + 1 => do
    if ← accept .flowSequenceEnd then return []
    if !first then expect .flowEntry
    if ← accept .flowSequenceEnd then return []
    let item ← if ← accept .key then flowPair fuel else node false false fuel
    return item :: (← flowItems false fuel)

/-- An item of a sequence that is a mapping of one key. Where that key is left out, the token that shows it is lost. -/
def flowPair : Nat → Reading Node
  | 0 => failure
  | fuel + 1 => do
    let key ←
      if ← nextIn [.value, .flowEntry, .flowSequenceEnd] then
        skip
        pure .empty
      else node false false fuel
    let value ← valueBefore [.flowEntry, .flowSequenceEnd] false fuel
    return .mapping none [(key, value)]

def flowFields (first : Bool) : Nat → Reading (List (Node × Node))
  | 0 => failure
  | fuel + 1 => do
    if ← accept .flowMappingEnd then return []
    if !first then expect .flowEntry
    if ← accept .flowMappingEnd then return []
    if ← accept .key then
      let key ← nodeBefore [.value, .flowEntry, .flowMappingEnd] false false fuel
      let value ← valueBefore [.flowEntry, .flowMappingEnd] false fuel
      return (key, value) :: (← flowFields false fuel)
    else
      let key ← node false false fuel
      return (key, .empty) :: (← flowFields false fuel)

end

end Reading

/-! ### Documents -/

def Token.isDirective : Token → Bool
  | .versionDirective .. | .tagDirective .. => true
  | _ => false

/-- The tag handles that need no directive. -/
def defaultHandles : List (String × String) :=
  [("!", "!"), ("!!", "tag:yaml.org,2002:")]

/-- What the handles of tags stand for below directives, which must not repeat each other. -/
def handles? (directives : List Token) : Option (List (String × String)) :=
  let versions := directives.filterMap fun
    | .versionDirective major minor => some (major, minor)
    | _ => none
  let handles := directives.filterMap fun
    | .tagDirective handle start => some (handle, start)
    | _ => none
  let names := handles.map Prod.fst
  if versions.length ≤ 1 ∧ (∀ v ∈ versions, v = (1, 1) ∨ v = (1, 2)) ∧ distinct names = names then
    some (handles ++ defaultHandles)
  else none

/-- The root of a document that may be `empty`, and the tokens behind it. -/
def root? (handles : List (String × String)) (mayBeEmpty : Bool) (tokens : List Token) :
    Option (Node × List Token) :=
  let isEmpty := tokens.head?.all fun t => t.isDirective || t == .documentStart || t == .documentEnd
  if mayBeEmpty && isEmpty then some (.empty, tokens)
  else
    ((Reading.node true false (3 * tokens.length + 3)).run ⟨tokens, handles, []⟩).map fun r => (r.1, r.2.tokens)

/-- The root of the document that tokens spell; an empty text has none. -/
def document? (tokens : List Token) : Option (Option Node) :=
  if tokens = [] then some none
  else do
    let directives := tokens.takeWhile Token.isDirective
    let handles ← handles? directives
    let (root, rest) ←
      match tokens.drop directives.length with
      | .documentStart :: rest => root? handles true rest
      | rest => if directives = [] then root? handles false rest else none
    if rest.all (· == .documentEnd) then some (some root) else none

end ApiForge.Yaml
