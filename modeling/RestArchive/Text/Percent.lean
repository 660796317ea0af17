import RestArchive.Entries
import RestArchive.Text.Split
import RestArchive.Text.Utf8

/-! # Percent encoding

In a URL a byte may be written as `%` and two hexadecimal digits. A `%` without two digits behind it
stands for itself. -/

namespace RestArchive.Text

/-- The value of a hexadecimal digit of either case, as a byte of text. -/
def hexByteValue? (byte : UInt8) : Option UInt8 :=
  if 48 ≤ byte ∧ byte ≤ 57 then some (byte - 48)
  else if 97 ≤ byte ∧ byte ≤ 102 then some (byte - 87)
  else if 65 ≤ byte ∧ byte ≤ 70 then some (byte - 55)
  else none

/-- The bytes that percent-encoded bytes stand for. -/
def percentDecode : List UInt8 → List UInt8
  | 37 :: first :: second :: rest =>
    match hexByteValue? first, hexByteValue? second with
    | some high, some low => (16 * high + low) :: percentDecode rest
    | _, _ => 37 :: percentDecode (first :: second :: rest)
  | byte :: rest => byte :: percentDecode rest
  | [] => []

/-- The bytes of a text. -/
def bytesOf (text : String) : List UInt8 := text.toUTF8.toList

/-- The text that a percent-encoded text stands for, if its bytes are one. -/
def percentDecoded? (text : String) : Option String := decodeUtf8? (percentDecode (bytesOf text))

/-- A name or value of a query string: a plus sign stands for a space, and faults are replaced. -/
def formDecoded (text : String) : String :=
  decodeUtf8Lossy (percentDecode ((bytesOf text).map fun byte => if byte = 43 then 32 else byte))

/-- The parameters of a query string. Empty parts do not count, a name alone has the empty value, and the
last value of a repeated name counts. -/
def formParameters (query : String) : Entries String :=
  let parts := (split '&' query).filter fun part => part ≠ ""
  Entries.ofPairs (parts.map fun part =>
    let (name, value) := cut '=' part
    (formDecoded name, formDecoded (value.getD "")))

end RestArchive.Text
