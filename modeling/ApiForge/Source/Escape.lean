import ApiForge.Text.Utf8

/-! The body of an interpreted string literal: what its escape sequences stand for. The body denotes bytes, since an
escape can name a single byte, and the bytes are then read as text. -/

namespace ApiForge.Source

inductive EscapeFault where
  | notTerminated
  | illegalCharacter
  | octalTooLarge
  | invalidCodePoint
  | unknown (c : Char)
  deriving DecidableEq, Repr

def EscapeFault.message : EscapeFault → String
  | .notTerminated => "escape sequence not terminated"
  | .illegalCharacter => "illegal character in escape sequence"
  | .octalTooLarge => "octal escape value > 255"
  | .invalidCodePoint => "escape sequence is invalid Unicode code point"
  | .unknown c => "unknown escape sequence '\\" ++ c.toString ++ "'"

/-- The value of a digit below `radix`, letters of either case counting from ten. -/
def digitValue? (radix : Nat) (c : Char) : Option Nat :=
  let value? :=
    if c.isDigit then some (c.toNat - '0'.toNat)
    else if decide ('a' ≤ c) && decide (c ≤ 'z') then some (c.toNat - 'a'.toNat + 10)
    else if decide ('A' ≤ c) && decide (c ≤ 'Z') then some (c.toNat - 'A'.toNat + 10)
    else none
  value?.filter (· < radix)

/-- The number that the next `count` characters spell, continuing `value`. -/
def digits (radix : Nat) (value : Nat) : Nat → List Char → Except EscapeFault Nat
  | 0, _ => .ok value
  | _ + 1, [] => .error .illegalCharacter
  | n + 1, c :: cs =>
    match digitValue? radix c with
    | none => .error .illegalCharacter
    | some d => digits radix (radix * value + d) n cs

/-- The character that a one-letter escape stands for. -/
def letterEscape? : Char → Option Char
  | 'a' => some '\x07'
  | 'b' => some '\x08'
  | 'f' => some '\x0C'
  | 'n' => some '\n'
  | 'r' => some '\r'
  | 't' => some '\t'
  | 'v' => some '\x0B'
  | '\\' => some '\\'
  | '"' => some '"'
  | _ => none

/-- The bytes of the character with code point `code`. -/
def codePointBytes (code : Nat) : Except EscapeFault (List UInt8) :=
  if code.isValidChar then .ok (String.utf8EncodeChar (Char.ofNat code)) else .error .invalidCodePoint

/-- The bytes denoted by a backslash and `c`, with `rest` behind them, and how much of `rest` they take. -/
def escapeBytes (c : Char) (rest : List Char) : Except EscapeFault (List UInt8 × Nat) :=
  match letterEscape? c with
  | some image => .ok (String.utf8EncodeChar image, 0)
  | none =>
    if c = 'x' then do
      let byte ← digits 16 0 2 rest
      return ([UInt8.ofNat byte], 2)
    else if c = 'u' then do
      let code ← digits 16 0 4 rest
      return (← codePointBytes code, 4)
    else if c = 'U' then do
      let code ← digits 16 0 8 rest
      return (← codePointBytes code, 8)
    else
      match digitValue? 8 c with
      | some first => do
        let byte ← digits 8 first 2 rest
        if byte > 255 then throw .octalTooLarge
        return ([UInt8.ofNat byte], 2)
      | none => .error (.unknown c)

/-- The bytes that a literal body denotes. -/
def literalBytes : List Char → Except EscapeFault (List UInt8)
  | [] => .ok []
  | ['\\'] => .error .notTerminated
  | '\\' :: c :: rest =>
    match escapeBytes c rest with
    | .error fault => .error fault
    | .ok (bytes, taken) => (literalBytes (rest.drop taken)).map (bytes ++ ·)
  | c :: rest => (literalBytes rest).map (String.utf8EncodeChar c ++ ·)
termination_by cs => cs.length
decreasing_by all_goals simp only [List.length_drop, List.length_cons]; omega

/-- The text that a literal body denotes. -/
def unescape (body : List Char) : Except EscapeFault (List Char) :=
  (literalBytes body).map Text.decodeUtf8

end ApiForge.Source
