import RestArchive.Entries
import RestArchive.Number.Numeral
import RestArchive.Text.Split

/-! # The command line

The settings of the server. Each is an option with a value; an option that is absent takes its value from
its environment variable, and else from a default. An option may be given once, except for the one that
lists collections. A value that begins with a hyphen is taken for an option, a lone hyphen apart. -/

namespace RestArchive

/-- Where the documents are kept. -/
inductive Backend where
  /-- In the memory of the server. -/
  | memory
  /-- In a MongoDB database. -/
  | mongodb
  deriving DecidableEq, Repr

/-- The settings of the server. -/
structure Options where
  /-- The port to listen on. -/
  port : UInt16
  /-- The address to listen on. -/
  host : String
  /-- Where the documents are kept. -/
  backend : Backend
  /-- The database server, if one is needed. -/
  mongodbUri : Option String
  /-- The name of the database. -/
  database : String
  /-- The collections that are served. -/
  collections : List String
  /-- What is logged. -/
  logFilter : String
  deriving DecidableEq, Repr

/-- Why a command line is not run. -/
inductive UsageError where
  /-- Help is asked for. -/
  | displayHelp
  /-- The version is asked for. -/
  | displayVersion
  /-- A value is not of the type of its option. -/
  | valueValidation
  /-- A value is not one of those allowed, or is missing. -/
  | invalidValue
  /-- An argument is unknown. -/
  | unknownArgument
  /-- An option is given twice. -/
  | argumentConflict
  /-- A value is given to an argument that takes none. -/
  | tooManyValues
  deriving DecidableEq, Repr

/-- The options that take a value. -/
inductive Setting where
  /-- The port to listen on. -/
  | port
  /-- The address to listen on. -/
  | host
  /-- Where the documents are kept. -/
  | backend
  /-- The database server. -/
  | mongodbUri
  /-- The name of the database. -/
  | database
  /-- The collections that are served. -/
  | collections
  /-- What is logged. -/
  | logFilter
  deriving DecidableEq, Repr

namespace Setting

/-- Every option, in the order in which the environment is looked at. -/
def all : List Setting := [.port, .host, .backend, .mongodbUri, .database, .collections, .logFilter]

/-- The long name of an option. -/
def longName : Setting → String
  | .port => "port"
  | .host => "host"
  | .backend => "backend"
  | .mongodbUri => "mongodb-uri"
  | .database => "database"
  | .collections => "collection"
  | .logFilter => "log-filter"

/-- The letter of an option, if it has one. -/
def letter? : Setting → Option Char
  | .port => some 'p'
  | .backend => some 'b'
  | .collections => some 'c'
  | _ => none

/-- The environment variable of an option. -/
def environmentName : Setting → String
  | .port => "DOCREST_PORT"
  | .host => "DOCREST_HOST"
  | .backend => "DOCREST_BACKEND"
  | .mongodbUri => "DOCREST_MONGODB_URI"
  | .database => "DOCREST_DATABASE"
  | .collections => "DOCREST_COLLECTIONS"
  | .logFilter => "DOCREST_LOG"

end Setting

/-- The values given so far. -/
structure GivenOptions where
  /-- The port to listen on. -/
  port : Option UInt16
  /-- The address to listen on. -/
  host : Option String
  /-- Where the documents are kept. -/
  backend : Option Backend
  /-- The database server. -/
  mongodbUri : Option String
  /-- The name of the database. -/
  database : Option String
  /-- The collections that are served. -/
  collections : Option (List String)
  /-- What is logged. -/
  logFilter : Option String

namespace GivenOptions

/-- No value at all. -/
def nothing : GivenOptions := ⟨none, none, none, none, none, none, none⟩

/-- The port that a text writes: decimal digits, with or without a sign in front. -/
def portOf? (text : String) : Option UInt16 :=
  let (negative, digits) :=
    match text.toList with
    | '-' :: rest => (true, rest)
    | '+' :: rest => (false, rest)
    | rest => (false, rest)
  let value := decimalValue digits
  if digits = [] ∨ digits.all isDecimalDigit = false then none
  else if negative ∧ value ≠ 0 then none
  else if value < Nat.pow 2 16 then some (UInt16.ofNat value)
  else none

/-- The kind of store that a text names. -/
def backendOf? (text : String) : Option Backend :=
  if text = "memory" then some .memory
  else if text = "mongodb" then some .mongodb
  else none

/-- Whether an option has a value already. -/
def has (given : GivenOptions) : Setting → Bool
  | .port => given.port.isSome
  | .host => given.host.isSome
  | .backend => given.backend.isSome
  | .mongodbUri => given.mongodbUri.isSome
  | .database => given.database.isSome
  | .collections => given.collections.isSome
  | .logFilter => given.logFilter.isSome

/-- Takes the value of an option. That it was given before is found before its value is looked at. -/
def assign (given : GivenOptions) (setting : Setting) (value : String) :
    Except UsageError GivenOptions :=
  if setting ≠ .collections ∧ given.has setting then .error .argumentConflict
  else
    match setting with
    | .port =>
      match portOf? value with
      | some port => .ok { given with port := some port }
      | none => .error .valueValidation
    | .host => .ok { given with host := some value }
    | .backend =>
      match backendOf? value with
      | some backend => .ok { given with backend := some backend }
      | none => .error .invalidValue
    | .mongodbUri => .ok { given with mongodbUri := some value }
    | .database => .ok { given with database := some value }
    | .collections =>
      .ok { given with collections := some (given.collections.getD [] ++ Text.split ',' value) }
    | .logFilter => .ok { given with logFilter := some value }

/-- Takes the values of absent options from the environment. -/
def fill (environment : Entries String) (given : GivenOptions) :
    List Setting → Except UsageError GivenOptions
  | [] => .ok given
  | setting :: settings =>
    match given.has setting, environment.get? setting.environmentName with
    | false, some value =>
      (given.assign setting value).bind fun filled => filled.fill environment settings
    | _, _ => given.fill environment settings

/-- The settings, with defaults where no value was given. -/
def toOptions (given : GivenOptions) : Options where
  port := given.port.getD 3000
  host := given.host.getD "0.0.0.0"
  backend := given.backend.getD .memory
  mongodbUri := given.mongodbUri
  database := given.database.getD "docrest"
  collections := given.collections.getD ["items"]
  logFilter := given.logFilter.getD "docrest=info"

end GivenOptions

/-- What an argument that begins with a hyphen says. -/
inductive OptionArgument where
  /-- An option, with the value behind it in the same argument, if there is one. -/
  | setting (setting : Setting) (value : Option String)
  /-- A request for help, with a value that it does not take, if there is one. -/
  | help (value : Option String)
  /-- A request for the version, with a value that it does not take, if there is one. -/
  | version (value : Option String)
  /-- Nothing known. -/
  | unknown

namespace OptionArgument

/-- What a long name says. -/
def ofLong (name : String) (value : Option String) : OptionArgument :=
  match Setting.all.find? fun setting => setting.longName = name with
  | some found => .setting found value
  | none =>
    if name = "help" then .help value
    else if name = "version" then .version value
    else .unknown

/-- What a letter says, with the characters behind it in the same argument. -/
def ofLetter (letter : Char) (behind : List Char) : OptionArgument :=
  match Setting.all.find? fun setting => setting.letter? = some letter with
  | some found =>
    match behind with
    | [] => .setting found none
    | '=' :: value => .setting found (some (String.ofList value))
    | value => .setting found (some (String.ofList value))
  | none =>
    if letter = 'h' then .help none
    else if letter = 'V' then .version none
    else .unknown

/-- What an argument says, unless it is a value. -/
def ofText? (argument : String) : Option OptionArgument :=
  match argument.toList with
  | '-' :: '-' :: rest =>
    let (name, value) := Text.cut '=' (String.ofList rest)
    some (ofLong name value)
  | '-' :: letter :: rest => some (ofLetter letter rest)
  | _ => none

end OptionArgument

/-- What is known of a command line between two arguments. -/
structure CommandLine where
  /-- The values taken. -/
  given : GivenOptions
  /-- The option that still waits for its value, or whose value is not yet taken. -/
  pending : Option (Setting × Option String)
  /-- Whether the argument that ends the options was there. -/
  ended : Bool

namespace CommandLine

/-- Takes the value of the pending option; it must have one. -/
def settle (line : CommandLine) : Except UsageError CommandLine :=
  match line.pending with
  | none => .ok line
  | some (_, none) => .error .invalidValue
  | some (setting, some value) =>
    (line.given.assign setting value).map fun given => { line with given, pending := none }

/-- Takes an argument that says something by itself. -/
def takeOption (line : CommandLine) : OptionArgument → Except UsageError CommandLine
  | .unknown => .error .unknownArgument
  | .help (some _) => .error .tooManyValues
  | .version (some _) => .error .tooManyValues
  | .help none => line.settle.bind fun _ => .error .displayHelp
  | .version none => line.settle.bind fun _ => .error .displayVersion
  | .setting setting none => line.settle.map fun settled =>
    { settled with pending := some (setting, none) }
  | .setting setting (some value) => line.settle.bind fun settled =>
    (settled.given.assign setting value).map fun given => { settled with given }

/-- Takes an argument. -/
def take (line : CommandLine) (argument : String) : Except UsageError CommandLine :=
  if line.ended then .error .unknownArgument
  else if argument = "--" then .ok { line with ended := true }
  else
    match OptionArgument.ofText? argument with
    | some option => line.takeOption option
    | none =>
      match line.pending with
      | some (setting, none) => .ok { line with pending := some (setting, some argument) }
      | _ => .error .unknownArgument

/-- Takes arguments one after the other. -/
def takeAll (line : CommandLine) : List String → Except UsageError CommandLine
  | [] => line.settle
  | argument :: arguments => (line.take argument).bind fun taken => taken.takeAll arguments

/-- The settings that arguments and environment make. -/
def options (arguments : List String) (environment : Entries String) : Except UsageError Options := do
  let line ← takeAll ⟨.nothing, none, false⟩ arguments
  let given ← line.given.fill environment Setting.all
  return given.toOptions

end CommandLine

end RestArchive
