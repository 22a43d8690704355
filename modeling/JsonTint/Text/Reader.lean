/-!
# Readers

A reader takes a value off the front of a text and leaves the rest, or refuses
the text.  Readers are composed with `do`; `p <|> q` reads with `q` from the
same place where `p` refused.
-/

namespace JsonTint

/-- Reads a value of type `α` off the front of a text. -/
abbrev Reader (α : Type) := StateT (List Char) Option α

namespace Reader

/-- The text that is still to be read. -/
def remaining : Reader (List Char) :=
  get

/-- The next character, which stays unread. -/
def peek? : Reader (Option Char) := do
  return (← get).head?

/-- The next character. -/
def next : Reader Char := fun s =>
  match s with
  | [] => none
  | c :: rest => some (c, rest)

/-- The next character, if it is one that `ok` admits. -/
def satisfy (ok : Char → Bool) : Reader Char := fun s =>
  match s with
  | [] => none
  | c :: rest => if ok c then some (c, rest) else none

/-- The given character. -/
def char (c : Char) : Reader Unit := do
  let _ ← satisfy (· == c)

/-- The given text. -/
def text : List Char → Reader Unit
  | [] => pure ()
  | c :: s => do
    char c
    text s

/-- The longest run of characters that `ok` admits, which may be empty. -/
def takeWhile (ok : Char → Bool) : Reader (List Char) := fun s =>
  some (s.span ok)

/-- The longest run of characters that `ok` admits, which may not be empty. -/
def takeWhile1 (ok : Char → Bool) : Reader (List Char) := do
  let run ← takeWhile ok
  guard !run.isEmpty
  return run

/-- The next `n` characters, all of which `ok` admits. -/
def exactly (n : Nat) (ok : Char → Bool) : Reader (List Char) :=
  match n with
  | 0 => pure []
  | n + 1 => do
    let c ← satisfy ok
    let rest ← exactly n ok
    return c :: rest

/-- Nothing is left to read. -/
def atEnd : Reader Unit := do
  guard (← get).isEmpty

/-- The value of a reader, if it accepts. -/
def option {α : Type} (p : Reader α) : Reader (Option α) :=
  (some <$> p) <|> pure none

/-- At most `fuel` values, up to the first refusal. -/
def manyWithin {α : Type} (p : Reader α) : Nat → Reader (List α)
  | 0 => pure []
  | fuel + 1 => fun s =>
    match p s with
    | none => some ([], s)
    | some (a, rest) =>
      match manyWithin p fuel rest with
      | none => none
      | some (as, rest) => some (a :: as, rest)

/-- As many values as there are; `p` is to read at least one character. -/
def many {α : Type} (p : Reader α) : Reader (List α) := fun s =>
  manyWithin p s.length s

/-- One value or more, with `separator` between them. -/
def sepBy1 {α : Type} (p : Reader α) (separator : Reader Unit) : Reader (List α) := do
  let first ← p
  let others ← many (do separator; p)
  return first :: others

/-- The value of a reader that takes the whole text. -/
def readAll? {α : Type} (p : Reader α) (s : List Char) : Option α :=
  match p s with
  | some (a, []) => some a
  | _ => none

end Reader

/-! ## Digits -/

/-- The value of an ASCII digit in a base up to 16. -/
def digitValue (c : Char) : Nat :=
  if c.isDigit then c.toNat - '0'.toNat
  else if 'a' ≤ c && c ≤ 'f' then c.toNat - 'a'.toNat + 10
  else if 'A' ≤ c && c ≤ 'F' then c.toNat - 'A'.toNat + 10
  else 0

/-- Whether a character is an ASCII hexadecimal digit. -/
def isHexDigit (c : Char) : Bool :=
  c.isDigit || ('a' ≤ c && c ≤ 'f') || ('A' ≤ c && c ≤ 'F')

/-- The number that a row of digits spells in a base. -/
def natOfDigits (base : Nat) (digits : List Char) : Nat :=
  digits.foldl (fun n c => n * base + digitValue c) 0

/-- The character with a given code point, unless it is out of range or a
surrogate. -/
def scalar? (n : Nat) : Option Char :=
  if n.isValidChar then some (Char.ofNat n) else none

end JsonTint
