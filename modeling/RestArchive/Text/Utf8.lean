/-! # Decoding UTF-8

Bytes are decoded one at a time. A byte that cannot continue the character begun ends it as a fault, and is
then looked at afresh, so every longest beginning of a character that is cut short is one fault. -/

namespace RestArchive.Text

/-- A character begun: the bits read, how many bytes are to come, and the least and the greatest that the
next one may be. -/
structure PartialChar where
  /-- The bits read so far. -/
  bits : Nat
  /-- The bytes to come. -/
  left : Nat
  /-- The least next byte. -/
  low : Nat
  /-- The greatest next byte. -/
  high : Nat

/-- What a first byte is: a whole character, the beginning of one, or a fault. -/
inductive FirstByte where
  /-- A character of one byte. -/
  | whole (c : Char)
  /-- The beginning of a longer character. -/
  | begun (char : PartialChar)
  /-- No character begins so. -/
  | fault

/-- What a byte is at the start of a character. Overlong forms, surrogates and numbers past the last
character are shut out by the range of the second byte. -/
def firstByte (b : Nat) : FirstByte :=
  if b < 0x80 then .whole (Char.ofNat b)
  else if 0xC2 ≤ b ∧ b ≤ 0xDF then .begun ⟨b - 0xC0, 1, 0x80, 0xBF⟩
  else if b = 0xE0 then .begun ⟨0, 2, 0xA0, 0xBF⟩
  else if b = 0xED then .begun ⟨0xD, 2, 0x80, 0x9F⟩
  else if 0xE1 ≤ b ∧ b ≤ 0xEF then .begun ⟨b - 0xE0, 2, 0x80, 0xBF⟩
  else if b = 0xF0 then .begun ⟨0, 3, 0x90, 0xBF⟩
  else if 0xF1 ≤ b ∧ b ≤ 0xF3 then .begun ⟨b - 0xF0, 3, 0x80, 0xBF⟩
  else if b = 0xF4 then .begun ⟨4, 3, 0x80, 0x8F⟩
  else .fault

/-- Decodes bytes behind the beginning of a character, if there is one. A fault is decoded as nothing. -/
def decodeFrom : Option PartialChar → List UInt8 → List (Option Char)
  | none, [] => []
  | some _, [] => [none]
  | none, byte :: bytes =>
    match firstByte byte.toNat with
    | .whole c => some c :: decodeFrom none bytes
    | .begun char => decodeFrom (some char) bytes
    | .fault => none :: decodeFrom none bytes
  | some char, byte :: bytes =>
    let b := byte.toNat
    if char.low ≤ b ∧ b ≤ char.high then
      let bits := char.bits * 64 + (b - 0x80)
      if char.left ≤ 1 then some (Char.ofNat bits) :: decodeFrom none bytes
      else decodeFrom (some ⟨bits, char.left - 1, 0x80, 0xBF⟩) bytes
    else
      match firstByte b with
      | .whole c => none :: some c :: decodeFrom none bytes
      | .begun next => none :: decodeFrom (some next) bytes
      | .fault => none :: none :: decodeFrom none bytes

/-- The text that bytes are, if they are one. -/
def decodeUtf8? (bytes : List UInt8) : Option String :=
  let decoded := decodeFrom none bytes
  if decoded.all Option.isSome then some (String.ofList (decoded.filterMap id)) else none

/-- The text that bytes are, with a replacement character for each fault. -/
def decodeUtf8Lossy (bytes : List UInt8) : String :=
  String.ofList ((decodeFrom none bytes).map fun c => c.getD '\ufffd')

end RestArchive.Text
