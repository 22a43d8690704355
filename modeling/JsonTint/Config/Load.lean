import JsonTint.Config.Basic
import JsonTint.Files

/-!
# Loading a configuration

The configuration is read from a given file, which then has to be there, or
from a file in the home directory, if it is there.
-/

namespace JsonTint
namespace Config

/-- The name of the config file in the home directory. -/
def fileName : String :=
  ".json-highlight.toml"

/-- The path of the config file in a home directory. -/
def pathIn (home : String) : String :=
  if home.isEmpty || home.toList.getLast? = some '/' then home ++ fileName
  else home ++ "/" ++ fileName

/-- The path of the config file in the home directory, if there is one. -/
def defaultPath? (home : Option String) : Option String :=
  home.map pathIn

/-- Reads the configuration from a file that has to be there. -/
def loadFrom (look : Lookup) (path : String) : Except Error Config :=
  if look.finds path then
    match look.readText path with
    | .ok s => parse s
    | .error fault => .error (.io fault)
  else .error (.configNotFound path)

/-- Reads the configuration from the home directory, or takes the standard one
if there is no file. -/
def loadDefault (look : Lookup) (home : Option String) : Except Error Config :=
  match defaultPath? home with
  | none => .ok {}
  | some path => if look.finds path then loadFrom look path else .ok {}

/-- Reads the configuration from a given file, or else from the home
directory. -/
def load (look : Lookup) (home : Option String) : Option String → Except Error Config
  | some path => loadFrom look path
  | none => loadDefault look home

end Config
end JsonTint
