import JsonTint.Text.Boundary
import JsonTint.Tokenizer.Basic

/-!
# Scanning by offsets

The scan behind the calls for tokens, with byte offsets for all that it keeps:
where it stands, and for each rule the last match it found.  Pieces of the text
are cut out between offsets, and a cut that is not between boundaries fails the
call, so that calls can be shown never to fail.  A call looks at one offset after
the other until a look answers it; behind the end of the text the answer is that
there are no more tokens.
-/

namespace JsonTint

open Text

namespace Scan

/-- What a scan remembers of the next match of a rule. -/
inductive Memory where
  | unsearched
  | exhausted
  | found (start stop : Nat)

/-- A rule and what is remembered of its next match. -/
structure Lane where
  rule : Rule
  memory : Memory

/-- A match of a rule. -/
structure Match where
  rule : Rule
  start : Nat
  stop : Nat

/-- Searches the rule of a lane from an offset on. -/
def Lane.search (s : List Char) (offset : Nat) (lane : Lane) : Lane :=
  match lane.rule.findAt s offset with
  | none => { lane with memory := .exhausted }
  | some (start, stop) => { lane with memory := .found start stop }

/-- Brings a lane up to date: it is searched if it has not been yet, or if the
scan has passed the start of the match it remembers. -/
def Lane.refresh (s : List Char) (offset : Nat) (lane : Lane) : Lane :=
  match lane.memory with
  | .unsearched => lane.search s offset
  | .exhausted => lane
  | .found start _ => if start < offset then lane.search s offset else lane

/-- The best match so far, or that of the next lane if it starts before it. -/
def better (best : Option Match) (lane : Lane) : Option Match :=
  match lane.memory with
  | .found start stop =>
    if best.all fun m => start < m.start then some ⟨lane.rule, start, stop⟩ else best
  | _ => best

/-- The best match of some lanes. -/
def best (lanes : List Lane) : Option Match :=
  lanes.foldl better none

end Scan

/-- The state of a scan: the offset it stands at, which lies behind the end of
the text once there is nothing left to find, and a lane for each rule. -/
structure Scan where
  offset : Nat
  lanes : List Scan.Lane

namespace Scan

/-- A scan that has not begun. -/
def start (rules : List Rule) : Scan where
  offset := 0
  lanes := rules.map fun r => ⟨r, .unsearched⟩

/-- What comes of a look: an answer to the call, or another look. -/
inductive Look where
  | answer (found : Option Token) (behind : Scan)
  | again (behind : Scan)

/-- The scan behind a look. -/
def Look.behind : Look → Scan
  | answer _ scan => scan
  | again scan => scan

/-- A look at the offset of a scan, unless a cut fails.  An empty match is no
token; the scan steps over the next character, or behind the end of the text. -/
def look (s : List Char) (scan : Scan) : Option Look :=
  let lanes := scan.lanes.map (Lane.refresh s scan.offset)
  match best lanes with
  | none => some (.answer none ⟨byteLength s + 1, lanes⟩)
  | some m =>
    if m.start = m.stop then
      (slice? s m.start (byteLength s)).map fun rest =>
        .again ⟨m.start + rest.head?.elim 1 Char.utf8Size, lanes⟩
    else
      (slice? s m.start m.stop).map fun text =>
        .answer (some ⟨m.start, m.stop, m.rule.classify text⟩) ⟨m.stop, lanes⟩

/-- The answer to a call for a token and the scan behind it, unless a cut fails or
`looks` are too few. -/
def nextWithin (s : List Char) (looks : Nat) (scan : Scan) : Option (Option Token × Scan) :=
  if byteLength s < scan.offset then some (none, scan)
  else
    match looks with
    | 0 => none
    | looks + 1 =>
      match look s scan with
      | none => none
      | some (.answer found behind) => some (found, behind)
      | some (.again behind) => nextWithin s looks behind

/-- A call for a token, with as many looks as there are offsets left. -/
def next (s : List Char) (scan : Scan) : Option (Option Token × Scan) :=
  nextWithin s (byteLength s + 1 - scan.offset) scan

/-- The scan behind `n` calls. -/
def after (s : List Char) : Nat → Scan → Option Scan
  | 0, scan => some scan
  | n + 1, scan => (next s scan).bind fun answer => after s n answer.2

/-- The answer to the call behind `n` others, in a scan with some rules. -/
def call (s : List Char) (rules : List Rule) (n : Nat) : Option (Option Token) :=
  (after s n (start rules)).bind fun scan => (next s scan).map (·.1)

/-! ## States -/

/-- A look takes a scan that stands in the text to the scan behind it. -/
def Step (s : List Char) (scan behind : Scan) : Prop :=
  scan.offset ≤ byteLength s ∧ ∃ l, look s scan = some l ∧ l.behind = behind

/-- A scan stands at a boundary or just behind the end of the text, and remembers
matches between boundaries. -/
structure WellFormed (s : List Char) (scan : Scan) : Prop where
  offset : isBoundary s scan.offset = true ∨ scan.offset = byteLength s + 1
  remembered : ∀ lane ∈ scan.lanes, ∀ start stop, lane.memory = .found start stop →
    start ≤ stop ∧ isBoundary s start = true ∧ isBoundary s stop = true

end Scan
end JsonTint
