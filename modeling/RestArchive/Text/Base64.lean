/-! # Base64

Three bytes are written as four characters of six bits each; what is missing from the last three is
written as `=`. -/

namespace RestArchive.Text

/-- The character for a number of six bits. -/
def base64Char (sextet : Nat) : Char :=
  if sextet < 26 then Char.ofNat (sextet + 'A'.toNat)
  else if sextet < 52 then Char.ofNat (sextet - 26 + 'a'.toNat)
  else if sextet < 62 then Char.ofNat (sextet - 52 + '0'.toNat)
  else if sextet = 62 then '+'
  else '/'

/-- The first characters for the 24 bits of three bytes. -/
def base64Chars (count bits : Nat) : List Char :=
  [bits / Nat.pow 2 18, bits / Nat.pow 2 12 % 64, bits / Nat.pow 2 6 % 64, bits % 64].take count
    |>.map base64Char

/-- The base64 text of bytes. -/
def base64 : List UInt8 → List Char
  | [] => []
  | [a] => base64Chars 2 (a.toNat * Nat.pow 2 16) ++ ['=', '=']
  | [a, b] => base64Chars 3 (a.toNat * Nat.pow 2 16 + b.toNat * Nat.pow 2 8) ++ ['=']
  | a :: b :: c :: rest =>
    base64Chars 4 (a.toNat * Nat.pow 2 16 + b.toNat * Nat.pow 2 8 + c.toNat) ++ base64 rest

/-- Bytes that do not fill the last four characters. -/
example : String.ofList (base64 [77, 97, 110, 255]) = "TWFu/w==" := by decide +kernel

end RestArchive.Text
