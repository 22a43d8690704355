import JsonTint.Text.Quoted
import JsonTint.Toml.Value

/-!
# Errors

Highlighting a text cannot fail.  What can is reading files and settings,
writing to a full device, and reading a command line.  Each cause has one
message.
-/

namespace JsonTint

/-- Why a file could not be read, or a device not be written to.  The system has
many more reasons than those named here, each with a message of its own. -/
inductive IoFault where
  | notFound
  | notADirectory
  | isADirectory
  | notUtf8
  | deviceFull
  | other (message : String)
  deriving DecidableEq, Repr

namespace IoFault

/-- The message of a fault. -/
def message : IoFault → String
  | notFound => "No such file or directory (os error 2)"
  | notADirectory => "Not a directory (os error 20)"
  | isADirectory => "Is a directory (os error 21)"
  | notUtf8 => "stream did not contain valid UTF-8"
  | deviceFull => "failed to write whole buffer"
  | other message => message

end IoFault

/-- What a setting has to be. -/
inductive Expectation where
  | string
  | themeSettings
  deriving DecidableEq, Repr

/-- Why the text of a config file is refused before its values are looked
at. -/
inductive ConfigFault where
  /-- It is not a TOML document. -/
  | malformed
  /-- It has a field that is none of those allowed at its place. -/
  | unknownField (name : String) (allowed : List String)
  /-- It has a value of the wrong type. -/
  | wrongType (found : Toml.Value) (expected : Expectation)

namespace ConfigFault

/-- What a message calls a value. -/
def describe : Toml.Value → String
  | .string s => "string " ++ Text.quote s
  | .integer i => "integer \x60" ++ toString i ++ "\x60"
  | .float x => "floating point \x60" ++ String.ofList x.text ++ "\x60"
  | .boolean b => "boolean \x60" ++ (if b then "true" else "false") ++ "\x60"
  | .array _ => "sequence"
  | .dateTime _ => "map"
  | .table _ => "map"

/-- What a message calls the type that a value should have. -/
def describeExpectation : Expectation → String
  | .string => "a string"
  | .themeSettings => "struct ThemeSettings"

/-- A name as it stands in a message. -/
def marked (name : String) : String :=
  "\x60" ++ name ++ "\x60"

/-- The names that a message offers. -/
def offer : List String → String
  | [] => "nothing"
  | [a] => marked a
  | [a, b] => marked a ++ " or " ++ marked b
  | names => "one of " ++ ", ".intercalate (names.map marked)

/-- What a fault in the fields says of itself.  A text that is no TOML document
has nothing to say but where it fails, which only a report on the text tells. -/
def message : ConfigFault → String
  | malformed => ""
  | unknownField name allowed =>
    "unknown field " ++ marked name ++ ", expected " ++ offer allowed
  | wrongType found expected =>
    "invalid type: " ++ describe found ++ ", expected " ++ describeExpectation expected

end ConfigFault

/-- Why a command line is refused. -/
inductive UsageFault where
  | missingPath (option : String)
  | unknownOption (option : String)
  | extraArgument (argument : String)
  deriving DecidableEq, Repr

namespace UsageFault

/-- The message of a fault. -/
def message : UsageFault → String
  | missingPath option => option ++ " requires a path"
  | unknownOption option => "Unknown option: " ++ option
  | extraArgument argument => "Unexpected extra argument: " ++ argument

end UsageFault

/-- Why something could not be done. -/
inductive Error where
  | io (fault : IoFault)
  | config (fault : ConfigFault)
  | configNotFound (path : String)
  | invalidColor (s : String)
  | invalidStyle (s : String)
  | invalidOutput (s : String)
  | usage (fault : UsageFault)

namespace Error

/-- The message of an error.  The reader of config files makes the report of
their faults, with the places where it found them. -/
def message (e : Error) (report : ConfigFault → String := ConfigFault.message) : String :=
  match e with
  | io fault => "I/O error: " ++ fault.message
  | config fault => "Invalid config file: " ++ report fault
  | configNotFound path => "Config file not found: " ++ path
  | invalidColor s => "Invalid color: " ++ s
  | invalidStyle s => "Invalid style value: " ++ s
  | invalidOutput s => "Invalid output mode: " ++ s
  | usage fault => fault.message

end Error
end JsonTint
