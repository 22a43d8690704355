import JsonTint.CommandLine.Items

/-!
# What a command line means

The arguments of a command line fall into groups, each of which spells an item.
Of the items, read from left to right, the first one that settles the matter
gives the answer.  If none does, the answer is what they choose together.
-/

namespace JsonTint

namespace Item

/-! ## Spellings -/

/-- The arguments that are options. -/
def optionNames : List String :=
  ["--help", "-h", "--version", "-V", "--html", "--page", "--ansi", "--config", "-c"]

/-- A group of arguments spells an item.  A config option takes the argument
behind it as its path, whatever this looks like; a single hyphen and the empty
argument are operands. -/
inductive Spelled : List String → Item → Prop where
  | help {s : String} (h : s ∈ ["--help", "-h"]) : Spelled [s] help
  | version {s : String} (h : s ∈ ["--version", "-V"]) : Spelled [s] version
  | html : Spelled ["--html"] (mode .html)
  | page : Spelled ["--page"] (mode .page)
  | ansi : Spelled ["--ansi"] (mode .ansi)
  | config {s path : String} (h : s ∈ ["--config", "-c"]) : Spelled [s, path] (config path)
  | missingPath {s : String} (h : s ∈ ["--config", "-c"]) : Spelled [s] (missingPath s)
  | unknownOption {s : String} (h : s.toList.head? = some '-') (hhyphen : s ≠ "-")
      (hunknown : s ∉ optionNames) : Spelled [s] (unknownOption s)
  | operand {s : String} (h : s = "-" ∨ s.toList.head? ≠ some '-') : Spelled [s] (operand s)

/-- A command line spells a row of items, group by group.  Only at its end can a
config option be without a path. -/
inductive RowSpelled : List String → List Item → Prop where
  | nil : RowSpelled [] []
  | cons {group rest : List String} {item : Item} {items : List Item}
      (h : Spelled group item) (hend : ∀ option, item = missingPath option → rest = [])
      (hrest : RowSpelled rest items) : RowSpelled (group ++ rest) (item :: items)

/-! ## Meaning -/

/-- An item that stands behind the items `before` settles the matter.  An operand
does if there is another one before it. -/
inductive Settles (before : List Item) : Item → Except UsageFault Request → Prop where
  | help : Settles before help (.ok .help)
  | version : Settles before version (.ok .version)
  | missingPath (option : String) :
      Settles before (missingPath option) (.error (.missingPath option))
  | unknownOption (option : String) :
      Settles before (unknownOption option) (.error (.unknownOption option))
  | extraOperand {first : String} (h : operand first ∈ before) (s : String) :
      Settles before (operand s) (.error (.extraArgument s))

/-- No item of a row settles the matter. -/
def Undecided (items : List Item) : Prop :=
  ∀ before item after result, items = before ++ item :: after → ¬ Settles before item result

/-- The path of the input under the operands of a row.  There is none for
standard input, which is meant by a single hyphen and by the lack of an
operand. -/
inductive NamesInput : List String → Option String → Prop where
  | absent : NamesInput [] none
  | hyphen : NamesInput ["-"] none
  | file {path : String} (h : path ≠ "-") : NamesInput [path] (some path)

/-- The items of a row choose the last mode, the last config file, and the input
under their only operand. -/
structure Chooses (items : List Item) (o : Options) : Prop where
  mode : o.mode = last? mode? items
  config : o.config = last? config? items
  operand : o.operand.toList = items.filterMap operand?
  input : NamesInput (items.filterMap operand?) o.inputPath?

/-- What a row of items means. -/
inductive Means (items : List Item) : Except UsageFault Request → Prop where
  | settled {before after : List Item} {item : Item} {result : Except UsageFault Request}
      (hsplit : items = before ++ item :: after) (hbefore : Undecided before)
      (h : Settles before item result) : Means items result
  | chosen {o : Options} (h : Undecided items) (ho : Chooses items o) :
      Means items (.ok (.highlight o))

/-- Two rows hold the same items in an order that may differ.  The modes have to
keep their order among themselves, and so do the config files. -/
structure Reordered (items items' : List Item) : Prop where
  perm : items.Perm items'
  mode : items.filterMap mode? = items'.filterMap mode?
  config : items.filterMap config? = items'.filterMap config?

end Item

/-- The argument that a fault is about. -/
def UsageFault.argument : UsageFault → String
  | missingPath option => option
  | unknownOption option => option
  | extraArgument argument => argument

end JsonTint
