import JsonTint.Config.Basic

/-!
# Command lines

Arguments are taken from left to right.  The first one that asks for help or
the version, or that is wrong, settles the matter.  Of several output modes or
config files the last one counts, but only one input can be named.
-/

namespace JsonTint

/-- What a command line says about the output, the config file and the input. -/
structure Options where
  mode : Option OutputMode := none
  config : Option String := none
  operand : Option String := none
  deriving DecidableEq, Repr

namespace Options

/-- The path of the input file; a single hyphen, like no operand at all, means
standard input. -/
def inputPath? (o : Options) : Option String :=
  o.operand.filter fun operand => operand != "-"

end Options

/-- What a command line asks for. -/
inductive Request where
  | help
  | version
  | highlight (options : Options)
  deriving DecidableEq, Repr

/-- What a single argument is. -/
inductive Argument where
  | help
  | version
  | mode (mode : OutputMode)
  | config
  | unknownOption
  | operand
  deriving DecidableEq, Repr

namespace Argument

/-- The arguments that are options. -/
def options : List (String × Argument) :=
  [("--help", help), ("-h", help), ("--version", version), ("-V", version),
    ("--html", mode .html), ("--page", mode .page), ("--ansi", mode .ansi),
    ("--config", config), ("-c", config)]

/-- What an argument is, if it is not the path behind a config option. -/
def ofString (s : String) : Argument :=
  match options.find? fun entry => entry.1 == s with
  | some entry => entry.2
  | none => if s.toList.head? = some '-' && s != "-" then unknownOption else operand

end Argument

namespace Request

/-- Takes in the arguments behind those that `o` stands for. -/
def parseFrom (o : Options) : List String → Except UsageFault Request
  | [] => .ok (highlight o)
  | arg :: rest =>
    match Argument.ofString arg with
    | .help => .ok help
    | .version => .ok version
    | .mode mode => parseFrom { o with mode := some mode } rest
    | .config =>
      match rest with
      | [] => .error (.missingPath arg)
      | path :: rest => parseFrom { o with config := some path } rest
    | .unknownOption => .error (.unknownOption arg)
    | .operand =>
      if o.operand.isSome then .error (.extraArgument arg)
      else parseFrom { o with operand := some arg } rest

/-- What a command line asks for. -/
def parse (args : List String) : Except UsageFault Request :=
  parseFrom {} args

end Request
end JsonTint
