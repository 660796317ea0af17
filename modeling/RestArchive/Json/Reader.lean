import RestArchive.Json.Token

/-! # Reading JSON

A JSON text is read token by token with the open containers on a stack, the innermost first. How deep
containers may be nested is a bound of the reader. A repeated name of an object keeps its first position
and takes the last value. An object may also hold, under a name kept for this, a JSON text in quotes; it
then stands for the value of that text, which is read in the same way. -/

namespace RestArchive.Json

/-- The name that comes first in an object that stands for the value of a quoted JSON text. The object has
no other member. -/
def embeddedName : String := "$serde_json::private::RawValue"

/-- An open container. -/
inductive Container where
  /-- An array with its items so far, last first. -/
  | array (items : List Json)
  /-- An object with its members so far, and the name whose value is being read. -/
  | object (members : Entries Json) (name : String)

/-- What may come next. -/
inductive Expectation where
  /-- A value. -/
  | value
  /-- The first item of an array, or its end. -/
  | valueOrClose
  /-- The name of a member. -/
  | name
  /-- The name of the first member, or the end of the object. -/
  | nameOrClose
  /-- The colon behind a name. -/
  | colon
  /-- A comma, or the end of the innermost container. -/
  | commaOrClose
  /-- The colon before an embedded text. -/
  | embeddedColon
  /-- An embedded text. -/
  | embeddedText
  /-- The end of the object around an embedded text of this value. -/
  | embeddedClose (value : Json)

/-- What the reader holds between tokens. -/
inductive Reading where
  /-- Open containers, and what may come next. -/
  | within (containers : List Container) (next : Expectation)
  /-- A whole value. -/
  | done (value : Json)

namespace Reading

/-- Hands a whole value to the innermost container. -/
def give (value : Json) : List Container → Reading
  | [] => .done value
  | .array items :: outer => .within (.array (value :: items) :: outer) .commaOrClose
  | .object members name :: outer =>
    .within (.object (members.insert name value) name :: outer) .commaOrClose

/-- The end of the innermost container. -/
def close? (token : Token) : List Container → Option Reading
  | .array items :: outer =>
    match token with
    | .closeArray => some (give (.array items.reverse) outer)
    | _ => none
  | .object members _ :: outer =>
    match token with
    | .closeObject => some (give (.object members) outer)
    | _ => none
  | [] => none

/-- The first token of a value. -/
def start? (depth : Nat) (containers : List Container) : Token → Option Reading
  | .text value => some (give (.string value) containers)
  | .scalar value => some (give value containers)
  | .openArray =>
    if containers.length < depth then some (.within (.array [] :: containers) .valueOrClose) else none
  | .openObject =>
    if containers.length < depth then some (.within (.object [] "" :: containers) .nameOrClose)
    else none
  | _ => none

/-- The name of a member of the innermost container. -/
def name? : List Container → Token → Option Reading
  | .object members _ :: outer, .text name => some (.within (.object members name :: outer) .colon)
  | _, _ => none

/-- The name of the first member of the innermost container. An object that is found to stand for an embedded
text is no container any more. -/
def firstName? (containers : List Container) (token : Token) : Option Reading :=
  match containers, token with
  | .object members name :: outer, .text first =>
    if first = embeddedName then some (.within outer .embeddedColon)
    else name? (.object members name :: outer) (.text first)
  | _, _ => none

/-- One token. Embedded texts are read by `read`. -/
def step? (depth : Nat) (read : String → Option Json) : Reading → Token → Option Reading
  | .done _, _ => none
  | .within containers .value, token => start? depth containers token
  | .within containers .valueOrClose, .closeArray => close? .closeArray containers
  | .within containers .valueOrClose, token => start? depth containers token
  | .within containers .name, token => name? containers token
  | .within containers .nameOrClose, .closeObject => close? .closeObject containers
  | .within containers .nameOrClose, token => firstName? containers token
  | .within containers .colon, .colon => some (.within containers .value)
  | .within _ .colon, _ => none
  | .within containers .commaOrClose, .comma =>
    match containers with
    | .array _ :: _ => some (.within containers .value)
    | .object _ _ :: _ => some (.within containers .name)
    | [] => none
  | .within containers .commaOrClose, token => close? token containers
  | .within containers .embeddedColon, .colon => some (.within containers .embeddedText)
  | .within _ .embeddedColon, _ => none
  | .within containers .embeddedText, .text content =>
    (read content).map fun value => .within containers (.embeddedClose value)
  | .within _ .embeddedText, _ => none
  | .within containers (.embeddedClose value), .closeObject => some (give value containers)
  | .within _ (.embeddedClose _), _ => none

end Reading

/-- How deep containers may be nested in a request. -/
def depthLimit : Nat := 127

/-- The value of a JSON text with containers at most `depth` deep and with texts embedded in texts less
than `levels` times. -/
def readNested? : Nat → Nat → String → Option Json
  | 0, _, _ => none
  | levels + 1, depth, text => do
    let tokens ← Token.ofText? text
    match ← tokens.foldlM (Reading.step? depth (readNested? levels depthLimit)) (.within [] .value) with
    | .done value => some value
    | .within _ _ => none

/-- The value of a JSON text with containers at most `depth` deep. An embedded text is shorter than the text
around it, so a text has fewer levels of them than characters. -/
def readWithin? (depth : Nat) (text : String) : Option Json :=
  readNested? (text.length + 1) depth text

/-- The value of a JSON text, if it is one. -/
def ofText? (text : String) : Option Json := readWithin? depthLimit text

end RestArchive.Json
