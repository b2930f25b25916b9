/-! Characters as bytes and back. Reading bytes never fails: each longest beginning of a character that is cut off,
and each byte that begins none, becomes one replacement character. -/

namespace ApiForge.Text

/-- The bytes of the characters, in order. -/
def utf8Bytes (cs : List Char) : List UInt8 :=
  cs.flatMap String.utf8EncodeChar

/-- What a first byte says about its character: how many bytes follow, and the least and the greatest value that
the first of them may have. -/
structure LeadByte where
  following : Nat
  low : UInt8
  high : UInt8

def leadByte? (b : UInt8) : Option LeadByte :=
  if b < 0x80 then some ⟨0, 0, 0⟩
  else if b < 0xC2 then none
  else if b < 0xE0 then some ⟨1, 0x80, 0xBF⟩
  else if b = 0xE0 then some ⟨2, 0xA0, 0xBF⟩
  else if b = 0xED then some ⟨2, 0x80, 0x9F⟩
  else if b < 0xF0 then some ⟨2, 0x80, 0xBF⟩
  else if b = 0xF0 then some ⟨3, 0x90, 0xBF⟩
  else if b < 0xF4 then some ⟨3, 0x80, 0xBF⟩
  else if b = 0xF4 then some ⟨3, 0x80, 0x8F⟩
  else none

/-- The bytes that continue a character, at most `n`: the first between `low` and `high`, the others without
restriction among continuation bytes. -/
def continuation (low high : UInt8) : Nat → List UInt8 → List UInt8
  | 0, _ => []
  | _ + 1, [] => []
  | n + 1, b :: bs => if low ≤ b ∧ b ≤ high then b :: continuation 0x80 0xBF n bs else []

/-- The code point spelled by a first byte and the bytes after it. -/
def codePoint (b : UInt8) (following : List UInt8) : Nat :=
  let lead :=
    match following.length with
    | 0 => b.toNat
    | 1 => b.toNat - 0xC0
    | 2 => b.toNat - 0xE0
    | _ => b.toNat - 0xF0
  following.foldl (fun n b => 64 * n + (b.toNat - 0x80)) lead

def replacementChar : Char := '\uFFFD'

/-- One character from the front of `b :: bs`, and how many bytes of `bs` it takes. -/
def decodeChar (b : UInt8) (bs : List UInt8) : Char × Nat :=
  match leadByte? b with
  | none => (replacementChar, 0)
  | some lead =>
    let found := continuation lead.low lead.high lead.following bs
    if found.length = lead.following then (Char.ofNat (codePoint b found), found.length)
    else (replacementChar, found.length)

def decodeUtf8 : List UInt8 → List Char
  | [] => []
  | b :: bs => (decodeChar b bs).1 :: decodeUtf8 (bs.drop (decodeChar b bs).2)
termination_by bytes => bytes.length
decreasing_by simp only [List.length_drop, List.length_cons]; omega

end ApiForge.Text
