import RestArchive.CommandLine
import RestArchive.Http.Router

/-! # The program

Reads the settings from the command line and the environment, and serves an archive in memory. Requests are
read from standard input, one a line: the method, the URI and the body with single spaces between them.
Each is answered on standard output by its status code and its body. -/

namespace RestArchive

namespace HttpRequest

/-- The request that a line is. -/
def ofLine (line : String) : HttpRequest :=
  let (method, rest) := Text.cut ' ' line
  let (uri, body) := Text.cut ' ' (rest.getD "")
  .ofUri method uri (body.getD "")

end HttpRequest

namespace Payload

/-- The text of a body. -/
def written : Payload → String
  | .none => ""
  | .text content => content
  | .json value => value.text

end Payload

namespace UsageError

/-- What is said about an error of the command line. -/
def message : UsageError → String
  | .displayHelp =>
    "Usage: docrest [--port PORT] [--host HOST] [--backend memory|mongodb] [--mongodb-uri URI]"
      ++ " [--database NAME] [--collection NAMES] [--log-filter FILTER]"
  | .displayVersion => "docrest 0.1.0"
  | .valueValidation => "error: a value is not of the type of its option"
  | .invalidValue => "error: a value is missing or is not one of those allowed"
  | .unknownArgument => "error: an argument is unknown"
  | .argumentConflict => "error: an option is given twice"
  | .tooManyValues => "error: a value is given to an argument that takes none"

/-- The exit code for an error of the command line; to be shown the help is none. -/
def exitCode : UsageError → UInt32
  | .displayHelp => 0
  | .displayVersion => 0
  | _ => 2

end UsageError

/-- The values that the environment has for options. -/
def readEnvironment : IO (Entries String) := do
  let mut found : Entries String := []
  for setting in Setting.all do
    if let some value ← IO.getEnv setting.environmentName then
      found := found.insert setting.environmentName value
  return found

/-- Answers requests until the input ends. -/
partial def serve (router : Router) (archive : Archive) (input output : IO.FS.Stream) : IO Unit := do
  let line ← input.getLine
  if line.isEmpty then return
  let request := HttpRequest.ofLine (Text.dropTrailing '\n' line)
  let (response, archive) := router.respond .none archive request
  output.putStrLn (toString response.status ++ " " ++ response.payload.written)
  output.flush
  serve router archive input output

end RestArchive

open RestArchive in
/-- Runs the server with the settings that arguments and environment make. -/
def main (arguments : List String) : IO UInt32 := do
  match CommandLine.options arguments (← readEnvironment) with
  | .error error =>
    IO.eprintln error.message
    return error.exitCode
  | .ok { backend := .mongodb, mongodbUri, .. } =>
    IO.eprintln (if mongodbUri.isNone then
        "Error: \"--mongodb-uri is required when the backend is mongodb\""
      else "Error: only the memory backend is built in")
    return 1
  | .ok options =>
    let first ← IO.rand 0 (Nat.pow 2 64 - 1)
    let archive : Archive := ⟨Store.empty, .countingFrom (first * Nat.pow 2 32)⟩
    serve ⟨options.collections⟩ archive (← IO.getStdin) (← IO.getStdout)
    return 0
