import JsonTint.CommandLine.Options

/-!
# The items of a command line

A command line is a row of items: an argument, or a config option with the
argument behind it, whatever this looks like.  What the items choose between
them does not depend on how the arguments are taken in.
-/

namespace JsonTint

/-- What stands at one place of a command line. -/
inductive Item where
  | help
  | version
  | mode (mode : OutputMode)
  | config (path : String)
  | missingPath (option : String)
  | unknownOption (option : String)
  | operand (s : String)
  deriving DecidableEq, Repr

namespace Item

/-- The output mode that an item chooses. -/
def mode? : Item → Option OutputMode
  | mode m => some m
  | _ => none

/-- The config file that an item chooses. -/
def config? : Item → Option String
  | config path => some path
  | _ => none

/-- The input that an item names. -/
def operand? : Item → Option String
  | operand s => some s
  | _ => none

/-- The last choice that a row of items makes. -/
def last? {α : Type} (choice : Item → Option α) (items : List Item) : Option α :=
  (items.filterMap choice).getLast?

/-- The items of a command line. -/
def row : List String → List Item
  | [] => []
  | arg :: rest =>
    match Argument.ofString arg with
    | .help => help :: row rest
    | .version => version :: row rest
    | .mode m => mode m :: row rest
    | .config =>
      match rest with
      | [] => [missingPath arg]
      | path :: rest => config path :: row rest
    | .unknownOption => unknownOption arg :: row rest
    | .operand => operand arg :: row rest

/-! ## Laws -/

variable {arg : String} {rest : List String}

/-- A help option is an item by itself. -/
theorem row_help (h : Argument.ofString arg = .help) : row (arg :: rest) = help :: row rest := by
  rw [row.eq_def]
  simp only [h]

theorem row_version (h : Argument.ofString arg = .version) :
    row (arg :: rest) = version :: row rest := by
  rw [row.eq_def]
  simp only [h]

theorem row_mode {m : OutputMode} (h : Argument.ofString arg = .mode m) :
    row (arg :: rest) = mode m :: row rest := by
  rw [row.eq_def]
  simp only [h]

/-- A config option takes the argument behind it. -/
theorem row_config {path : String} (h : Argument.ofString arg = .config) :
    row (arg :: path :: rest) = config path :: row rest := by
  rw [row.eq_def]
  simp only [h]

/-- A config option at the end lacks its path. -/
theorem row_missingPath (h : Argument.ofString arg = .config) : row [arg] = [missingPath arg] := by
  rw [row.eq_def]
  simp only [h]

/-- An option that is not known is an item by itself. -/
theorem row_unknownOption (h : Argument.ofString arg = .unknownOption) :
    row (arg :: rest) = unknownOption arg :: row rest := by
  rw [row.eq_def]
  simp only [h]

theorem row_operand (h : Argument.ofString arg = .operand) :
    row (arg :: rest) = operand arg :: row rest := by
  rw [row.eq_def]
  simp only [h]

end Item

end JsonTint
