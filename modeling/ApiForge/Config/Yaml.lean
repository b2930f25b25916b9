import ApiForge.Config.Decode
import ApiForge.Fault
import ApiForge.Yaml.Document

/-! Configurations as YAML texts. Any scalar is a text; only a plain scalar can be a flag or be missing. Where nothing
is written, a list has no items and a record no fields. -/

namespace ApiForge

namespace Yaml

def booleanTag : String := "tag:yaml.org,2002:bool"

def nullTag : String := "tag:yaml.org,2002:null"

def flagText? (text : String) : Option Bool :=
  if ["true", "True", "TRUE"].contains text then some true
  else if ["false", "False", "FALSE"].contains text then some false
  else none

def isNullText (text : String) : Bool :=
  ["null", "Null", "NULL", "~"].contains text

namespace Node

def text? : Node → Option String
  | .scalar _ _ _ text => some text
  | _ => none

def flag? : Node → Option Bool
  | .scalar _ tag style text =>
    if style = .plain ∨ style = .literal ∧ tag = some booleanTag then flagText? text else none
  | _ => none

/-- Nothing is written here. -/
def isNothing : Node → Bool
  | .scalar _ _ style text => style == .plain && text == ""
  | _ => false

/-- Whether a value that may be missing is there, unless that cannot be said. -/
def present? : Node → Option Bool
  | .scalar _ tag .plain text =>
    match tag with
    | none => some (text != "" && !isNullText text)
    | some t => if t = nullTag then (if isNullText text then some false else none) else some true
  | _ => some true

/-- Nodes of the document with the given root. -/
def format (root : Node) : Format Node where
  text? v := (root.target v).text?
  flag? v := (root.target v).flag?
  items? v :=
    match root.target v with
    | .sequence _ items => some items
    | v => if v.isNothing then some [] else none
  fields? _ v :=
    match root.target v with
    | .mapping _ fields => fields.mapM fun f => do return (← (root.target f.1).text?, f.2)
    | v => if v.isNothing then some [] else none
  optional? v := do
    if ← (root.target v).present? then some (some v) else some none

end Node

end Yaml

namespace Config

/-- The configuration that a text spells; an empty text leaves everything at its default. -/
def ofYaml? (text : String) : Option Config := do
  match ← Yaml.document? (← Yaml.tokenize text.toList) with
  | none => return {}
  | some root => (root.format).config? root

/-- The configuration that a text spells, if it keeps the rules. -/
def parse (text : String) : Except Failure Config :=
  match ofYaml? text with
  | none => failWith .malformedDocument
  | some config =>
    match config.check with
    | .error fault => failWith (.config fault)
    | .ok () => .ok config

end Config

end ApiForge
