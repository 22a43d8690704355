import JsonTint.Ansi
import JsonTint.CommandLine.Options
import JsonTint.Config.Load
import JsonTint.Html
import JsonTint.Page

/-!
# Runs of the program

A run either writes the complete output and succeeds, or writes one error
message and fails.  Its stages are tried in order: the command line, the
configuration, the input.
-/

namespace JsonTint

/-- Bytes that are at hand are read. -/
instance : Coe ByteArray (Except IoFault ByteArray) where
  coe := .ok

/-- What a run can see: files, what comes of reading standard input, the home
directory, and the report that the reader of config files makes of a fault. -/
structure Surroundings where
  look : Lookup
  stdin : Except IoFault ByteArray := .ok .empty
  home : Option String := none
  report : ConfigFault → String := ConfigFault.message

/-- What a run leaves behind. -/
structure Outcome where
  exitCode : UInt32
  stdout : String
  stderr : String
  deriving DecidableEq, Repr

namespace CommandLine

/-- The name and the version of the program. -/
def versionText : String :=
  "json-highlight 0.1.0\n"

/-- How the program is used. -/
def helpText : String :=
  "json-highlight 0.1.0 - color-annotated JSON for HTML and terminals\n" ++
  "\n" ++
  "Usage: json-highlight [OPTIONS] [FILE]\n" ++
  "\n" ++
  "Reads JSON from FILE, or from stdin when FILE is absent or '-'.\n" ++
  "\n" ++
  "Options:\n" ++
  "  -h, --help           Show this help message\n" ++
  "  -V, --version        Show version information\n" ++
  "      --html           Write an HTML fragment (default)\n" ++
  "      --page           Write a standalone HTML page with its stylesheet\n" ++
  "      --ansi           Write ANSI-colored text for a terminal\n" ++
  "  -c, --config PATH    Read settings from PATH instead of ~/.json-highlight.toml\n" ++
  "\n" ++
  "Set RUST_LOG=debug for diagnostic output.\n"

/-- The page for a JSON text, with the sheet of a theme. -/
def renderPage (theme : Theme) (s : String) : String :=
  Page.render (Html.highlight s) (StyleSheets.empty.install theme).2

/-- The output for a JSON text. -/
def render (mode : OutputMode) (theme : Theme) (s : String) : String :=
  match mode with
  | .html => Html.highlight s
  | .page => renderPage theme s
  | .ansi => Ansi.highlight theme s

/-- The text of the input that the options name. -/
def readInput (o : Options) (w : Surroundings) : Except IoFault String :=
  match o.inputPath? with
  | some path => w.look.readText path
  | none => w.stdin >>= decodeText

/-- The output that the options ask for.  The mode of the command line comes
before that of the configuration. -/
def highlight (o : Options) (w : Surroundings) : Except Error String := do
  let config ← Config.load w.look w.home o.config
  match readInput o w with
  | .error fault => throw (.io fault)
  | .ok s => return render (o.mode.getD config.mode) config.theme s

/-- The output of a command line. -/
def output (args : List String) (w : Surroundings) : Except Error String :=
  match Request.parse args with
  | .error fault => .error (.usage fault)
  | .ok .help => .ok helpText
  | .ok .version => .ok versionText
  | .ok (.highlight o) => highlight o w

/-- Runs the program with the given arguments. -/
def run (args : List String) (w : Surroundings) : Outcome :=
  match output args w with
  | .ok s => { exitCode := 0, stdout := s, stderr := "" }
  | .error e => { exitCode := 1, stdout := "", stderr := "Error: " ++ e.message w.report ++ "\n" }

end CommandLine
end JsonTint
