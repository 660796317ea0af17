import RestArchive.Json

/-! # The tokens of JSON text

One pass over the characters. Only space, tab, line feed and carriage return are blanks. A text holds no
raw control character, and an escaped surrogate only as half of a pair. -/

namespace RestArchive.Json

/-- A token of JSON text. -/
inductive Token where
  /-- `[` -/
  | openArray
  /-- `]` -/
  | closeArray
  /-- The brace before the members of an object. -/
  | openObject
  /-- The brace behind the members of an object. -/
  | closeObject
  /-- `,` -/
  | comma
  /-- `:` -/
  | colon
  /-- A quoted text. -/
  | text (value : String)
  /-- A number, truth value or null. -/
  | scalar (value : Json)

namespace Token

/-- Whether a character is a blank. -/
def isBlank (c : Char) : Bool := c = ' ' || c = '\t' || c = '\n' || c = '\r'

/-- The token that one character is by itself. -/
def ofChar? (c : Char) : Option Token :=
  if c = '[' then some .openArray
  else if c = ']' then some .closeArray
  else if c = '\x7b' then some .openObject
  else if c = '\x7d' then some .closeObject
  else if c = ',' then some .comma
  else if c = ':' then some .colon
  else none

/-- Whether a character may stand in a word: a numeral or one of the three names. -/
def isWordChar (c : Char) : Bool :=
  c.isAlphanum || c = '-' || c = '+' || c = '.'

/-- The token that a word is. -/
def ofWord? (word : List Char) : Option Token :=
  if word = "null".toList then some (.scalar .null)
  else if word = "true".toList then some (.scalar (.bool true))
  else if word = "false".toList then some (.scalar (.bool false))
  else (Numeral.ofText? word).map fun numeral => .scalar (Json.ofNumeral numeral)

/-- The value of a hexadecimal digit of either case. -/
def hexValue? (c : Char) : Option Nat :=
  if '0' ≤ c ∧ c ≤ '9' then some (c.toNat - '0'.toNat)
  else if 'a' ≤ c ∧ c ≤ 'f' then some (c.toNat - 'a'.toNat + 10)
  else if 'A' ≤ c ∧ c ≤ 'F' then some (c.toNat - 'A'.toNat + 10)
  else none

/-- The character that a one-letter escape stands for. -/
def simpleEscape? (c : Char) : Option Char :=
  if c = '"' ∨ c = '\\' ∨ c = '/' then some c
  else if c = 'b' then some '\x08'
  else if c = 'f' then some '\x0c'
  else if c = 'n' then some '\n'
  else if c = 'r' then some '\r'
  else if c = 't' then some '\t'
  else none

/-- Where the scanner stands. Characters read are kept last first. -/
inductive Scanner where
  /-- Between tokens. -/
  | between
  /-- In a word. -/
  | word (read : List Char)
  /-- In a text. -/
  | text (read : List Char)
  /-- Behind the backslash of an escape. -/
  | escape (read : List Char)
  /-- In the digits of an escaped code unit: so many to come, the value so far, and the high
  surrogate that waits for its second half, if any. -/
  | unit (read : List Char) (left value : Nat) (high : Option Nat)
  /-- Behind an escaped high surrogate. -/
  | afterHigh (read : List Char) (high : Nat)
  /-- Behind the backslash that follows an escaped high surrogate. -/
  | escapeAfterHigh (read : List Char) (high : Nat)

/-- Whether a code unit is a high surrogate. -/
def isHighSurrogate (unit : Nat) : Bool := 0xD800 ≤ unit && unit < 0xDC00

/-- Whether a code unit is a low surrogate. -/
def isLowSurrogate (unit : Nat) : Bool := 0xDC00 ≤ unit && unit < 0xE000

/-- Where the scanner stands behind a whole escaped code unit. -/
def afterUnit (read : List Char) (unit : Nat) : Option Nat → Option Scanner
  | some high =>
    if isLowSurrogate unit then
      some (.text (Char.ofNat (0x10000 + (high - 0xD800) * 0x400 + (unit - 0xDC00)) :: read))
    else none
  | none =>
    if isHighSurrogate unit then some (.afterHigh read unit)
    else if isLowSurrogate unit then none
    else some (.text (Char.ofNat unit :: read))

/-- One character inside a quoted text, the closing quote apart. -/
def Scanner.inText? (c : Char) : Scanner → Option Scanner
  | .text read =>
    if c = '\\' then some (.escape read)
    else if c.toNat < 32 then none
    else some (.text (c :: read))
  | .escape read =>
    if c = 'u' then some (.unit read 4 0 none)
    else (simpleEscape? c).map fun meant => .text (meant :: read)
  | .unit read left value high =>
    (hexValue? c).bind fun digit =>
      let value := 16 * value + digit
      if left ≤ 1 then afterUnit read value high else some (.unit read (left - 1) value high)
  | .afterHigh read high => if c = '\\' then some (.escapeAfterHigh read high) else none
  | .escapeAfterHigh read high => if c = 'u' then some (.unit read 4 0 (some high)) else none
  | .between => none
  | .word _ => none

/-- Where the scanner stands behind a character that ends a word or follows a token, with the tokens read,
last first. -/
def startAt? (tokens : List Token) (c : Char) : Option (Scanner × List Token) :=
  if isBlank c then some (.between, tokens)
  else if c = '"' then some (.text [], tokens)
  else
    match ofChar? c with
    | some token => some (.between, token :: tokens)
    | none => if isWordChar c then some (.word [c], tokens) else none

/-- One character: where the scanner stands behind it, with the tokens read, last first. -/
def step? : Scanner × List Token → Char → Option (Scanner × List Token)
  | (.between, tokens), c => startAt? tokens c
  | (.word read, tokens), c =>
    if isWordChar c then some (.word (c :: read), tokens)
    else (ofWord? read.reverse).bind fun word => startAt? (word :: tokens) c
  | (.text read, tokens), c =>
    if c = '"' then some (.between, .text (String.ofList read.reverse) :: tokens)
    else ((Scanner.text read).inText? c).map fun next => (next, tokens)
  | (scanner, tokens), c => (scanner.inText? c).map fun next => (next, tokens)

/-- The tokens of a whole text, unless it ends inside a quoted text. -/
def finish? : Scanner × List Token → Option (List Token)
  | (.between, tokens) => some tokens.reverse
  | (.word read, tokens) => (ofWord? read.reverse).map fun word => (word :: tokens).reverse
  | _ => none

/-- The tokens of a JSON text. -/
def ofText? (text : String) : Option (List Token) :=
  (text.toList.foldlM step? (.between, [])).bind finish?

end Token

end RestArchive.Json
