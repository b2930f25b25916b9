import ApiForge.Text.Utf8
import ApiForge.Yaml.Scalar

/-! The tokens of YAML. Those that open and close block collections have no text of their own; they come from the
indentation of others. -/

namespace ApiForge.Yaml

/-- How a scalar is written, as far as its meaning depends on it. -/
inductive Style where
  | plain
  | quoted
  | literal
  | folded
  deriving DecidableEq, Repr

inductive Token where
  | versionDirective (major minor : Nat)
  | tagDirective (handle start : String)
  | documentStart
  | documentEnd
  | blockSequenceStart
  | blockMappingStart
  | blockEnd
  | flowSequenceStart
  | flowSequenceEnd
  | flowMappingStart
  | flowMappingEnd
  | blockEntry
  | flowEntry
  | key
  | value
  | reference (name : String)
  | anchor (name : String)
  | tag (handle suffix : String)
  | scalar (style : Style) (text : String)
  deriving DecidableEq, Repr

/-! ### Names, tags and directives -/

/-- The name of an anchor or of a reference to one, behind its sign. -/
def anchorName? (c : Cursor) : Option (String × Cursor) :=
  let (name, c) := c.takeWhile isNameChar
  let ends := c.isBlankAt 0 || (c.peek 0).any ['?', ':', ',', ']', '\x7d', '%', '@', '\x60'].contains
  if name ≠ [] ∧ ends then some (String.ofList name, c) else none

/-- A tag handle: an exclamation mark, and perhaps a name and a second one. -/
def tagHandle? (c : Cursor) : Option (List Char × Cursor) :=
  if c.peek 0 = some '!' then
    let (name, after) := (c.skip 1).takeWhile isNameChar
    if after.peek 0 = some '!' then some ('!' :: name ++ ['!'], after.skip 1) else some ('!' :: name, after)
  else none

/-- The characters of tags; brackets and commas only where nothing else can end the tag. -/
def isUriChar (brackets : Bool) (c : Char) : Bool :=
  isNameChar c || [';', '/', '?', ':', '@', '&', '=', '+', '$', '.', '%', '!', '~', '*', '\'', '(', ')'].contains c ||
    brackets && [',', '[', ']'].contains c

/-- The bytes of the escapes of one character, each a percent sign and two digits. -/
def escapedBytes : Nat → List Char → Option (List UInt8)
  | 0, _ => some []
  | n + 1, '%' :: a :: b :: rest => do
    let byte := 16 * (← hexValue? a) + (← hexValue? b)
    return UInt8.ofNat byte :: (← escapedBytes n rest)
  | _ + 1, _ => none

/-- How many bytes a character with this first byte has. -/
def byteCount? (b : UInt8) : Option Nat :=
  if b < 0x80 then some 1
  else if b < 0xC0 then none
  else if b < 0xE0 then some 2
  else if b < 0xF0 then some 3
  else if b < 0xF8 then some 4
  else none

/-- The character that escapes at the front stand for, and the length of their text. -/
def uriEscape? (cs : List Char) : Option (List Char × Nat) := do
  let [first] ← escapedBytes 1 cs | none
  let count ← byteCount? first
  let bytes ← escapedBytes count cs
  if bytes.tail.all fun b => decide (0x80 ≤ b) && decide (b < 0xC0) then
    some (Text.decodeUtf8 bytes, 3 * count)
  else none

/-- The text of a tag with its escapes replaced. -/
def uriText (brackets : Bool) : Nat → Cursor → Option (List Char × Cursor)
  | 0, _ => none
  | fuel + 1, c =>
    match c.rest with
    | [] => some ([], c)
    | d :: _ =>
      if isUriChar brackets d then do
        let (text, n) ← if d = '%' then uriEscape? c.rest else some ([d], 1)
        let (more, c) ← uriText brackets fuel (c.skip n)
        return (text ++ more, c)
      else some ([], c)

/-- A text of a tag that may not be empty, unless something of it came before. -/
def uri? (brackets started : Bool) (c : Cursor) : Option (List Char × Cursor) := do
  let (text, after) ← uriText brackets (c.rest.length + 1) c
  if text = [] ∧ !started then none else some (text, after)

/-- The handle and the suffix of a tag, and the place behind it. -/
def tagParts? (c : Cursor) : Option (List Char × List Char × Cursor) :=
  if c.peek 1 = some '<' then do
    let (suffix, c) ← uri? true false (c.skip 2)
    if c.peek 0 = some '>' then some ([], suffix, c.skip 1) else none
  else do
    let (handle, c) ← tagHandle? c
    if 1 < handle.length ∧ handle.getLast? = some '!' then do
      let (suffix, c) ← uri? false false c
      return (handle, suffix, c)
    else do
      let (more, c) ← uri? false true c
      match handle.tail ++ more with
      | [] => some ([], ['!'], c)
      | suffix => some (['!'], suffix, c)

/-- A tag; within brackets a comma may come right after it. -/
def tag? (flow : Bool) (c : Cursor) : Option (Token × Cursor) := do
  let (handle, suffix, c) ← tagParts? c
  if c.isBlankAt 0 || flow && c.peek 0 == some ',' then
    some (.tag (String.ofList handle) (String.ofList suffix), c)
  else none

/-- A number in a version, of at most nine digits. -/
def versionNumber? (c : Cursor) : Option (Nat × Cursor) :=
  let (digits, after) := c.takeWhile Char.isDigit
  if digits ≠ [] ∧ digits.length ≤ 9 then
    some (digits.foldl (fun n d => 10 * n + (d.toNat - '0'.toNat)) 0, after)
  else none

def versionDirective? (c : Cursor) : Option (Token × Cursor) := do
  let (major, c) ← versionNumber? (c.skipWhile isSpaceOrTab)
  if c.peek 0 = some '.' then do
    let (minor, c) ← versionNumber? (c.skip 1)
    return (.versionDirective major minor, c)
  else none

def tagDirective? (c : Cursor) : Option (Token × Cursor) := do
  let (handle, c) ← tagHandle? (c.skipWhile isSpaceOrTab)
  if (handle = ['!'] ∨ 1 < handle.length ∧ handle.getLast? = some '!') ∧ (c.peek 0).any isSpaceOrTab then do
    let (start, c) ← uri? true false (c.skipWhile isSpaceOrTab)
    if c.isBlankAt 0 then some (.tagDirective (String.ofList handle) (String.ofList start), c) else none
  else none

/-- A directive behind its percent sign, with the line that it stands on. -/
def directive? (c : Cursor) : Option (Token × Cursor) := do
  let (name, c) := c.takeWhile isNameChar
  if !c.isBlankAt 0 then none
  else do
    let (token, c) ←
      if name = "YAML".toList then versionDirective? c
      else if name = "TAG".toList then tagDirective? c
      else none
    return (token, ← c.endLine?)

end ApiForge.Yaml
