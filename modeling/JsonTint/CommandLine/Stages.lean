import JsonTint.CommandLine.Meaning
import JsonTint.CommandLine.Run

/-!
# The stages of a run

A run takes in its arguments, the configuration and the input, in this order.
Each stage is described by what it finds, apart from the other stages: which of
them fail, the first one that does, and what is left to write if none does.
-/

namespace JsonTint
namespace CommandLine

/-! ## What a stage finds -/

/-- What the arguments come to: a request or a fault.  They spell a row of items,
and this is what the row means. -/
def Requests (args : List String) (result : Except UsageFault Request) : Prop :=
  ∃ items, Item.RowSpelled args items ∧ Item.Means items result

/-- What becomes of the input, with the operand of the command line. -/
inductive Reads (w : Surroundings) : Option String → Except IoFault String → Prop where
  | none : Reads w none (w.stdin >>= decodeText)
  | hyphen : Reads w (some "-") (w.stdin >>= decodeText)
  | file {path : String} (h : path ≠ "-") : Reads w (some path) (w.look.readText path)

/-- The stages of a run. -/
inductive Stage where
  | arguments
  | configuration
  | input
  deriving DecidableEq, Repr

/-- The place of a stage in the order of the stages. -/
def Stage.place : Stage → Nat
  | arguments => 0
  | configuration => 1
  | input => 2

end CommandLine
end JsonTint
