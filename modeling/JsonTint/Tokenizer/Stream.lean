import JsonTint.Tokenizer.Basic

/-!
# Streams of tokens

A stream finds the tokens of a text one at a time.  Of the matches of all rules
at or behind the current position the leftmost one is next, and of several
that start at one place the match of the first rule.  Tokens never overlap, and
an empty match is stepped over.

A stream remembers the match that each rule found last.  A rule is searched
again only when the position has passed the start of that match.
-/

namespace JsonTint

namespace Stream

/-- What a stream knows of the next match of a rule. -/
inductive Lookahead where
  | unsearched
  | exhausted
  | found (start stop : Cursor)

/-- A rule and what is known of its next match. -/
structure Lane where
  rule : Rule
  ahead : Lookahead

/-- A match and the rule it belongs to. -/
structure Candidate where
  rule : Rule
  start : Cursor
  stop : Cursor

/-- Searches the rule of a lane from a position on. -/
def Lane.search (c : Cursor) (lane : Lane) : Lane :=
  match lane.rule.matcher.search c with
  | none => { lane with ahead := .exhausted }
  | some (start, stop) => { lane with ahead := .found start stop }

/-- Brings a lane up to date with a position. -/
def Lane.refresh (c : Cursor) (lane : Lane) : Lane :=
  match lane.ahead with
  | .unsearched => lane.search c
  | .exhausted => lane
  | .found start _ => if start.offset < c.offset then lane.search c else lane

/-- The leftmost match of some lanes; the first lane wins a tie. -/
def leftmost : List Lane → Option Candidate
  | [] => none
  | lane :: rest =>
    match lane.ahead with
    | .found start stop =>
      match leftmost rest with
      | some other =>
        if other.start.offset < start.offset then some other else some ⟨lane.rule, start, stop⟩
      | none => some ⟨lane.rule, start, stop⟩
    | _ => leftmost rest

/-- The token that a match is. -/
def Candidate.token (m : Candidate) : Token where
  start := m.start.offset
  stop := m.stop.offset
  cls := m.rule.classify (m.start.upTo m.stop)

end Stream

/-- The state of a scan: the position reached, or none once the scan has left
the text, and a lane for each rule. -/
structure Stream where
  position : Option Cursor
  lanes : List Stream.Lane

namespace Stream

/-- A scan that has not begun. -/
def start (rules : List Rule) (s : List Char) : Stream where
  position := some (Cursor.ofText s)
  lanes := rules.map fun r => ⟨r, .unsearched⟩

/-- What comes of a look: an answer to the call, or another look. -/
inductive Look where
  | answer (found : Option Token) (behind : Stream)
  | again (behind : Stream)

/-- The scan behind a look. -/
def Look.behind : Look → Stream
  | answer _ st => st
  | again st => st

/-- A look at a position. -/
def look (c : Cursor) (lanes : List Lane) : Look :=
  let lanes := lanes.map (Lane.refresh c)
  match leftmost lanes with
  | none => .answer none ⟨none, lanes⟩
  | some m =>
    if m.start.offset = m.stop.offset then .again ⟨m.start.next?.map (·.2), lanes⟩
    else .answer (some m.token) ⟨some m.stop, lanes⟩

/-- The next token, with at most `fuel` positions looked at. -/
def nextWithin : Nat → Stream → Option Token × Stream
  | 0, st => (none, st)
  | fuel + 1, st =>
    match st.position with
    | none => (none, st)
    | some c =>
      match look c st.lanes with
      | .answer found behind => (found, behind)
      | .again behind => nextWithin fuel behind

/-- The number of positions that a scan has not left yet. -/
def positionsLeft (st : Stream) : Nat :=
  match st.position with
  | none => 0
  | some c => c.remaining + 1

/-- The next token and the scan behind it.  Each position looked at lies behind
the one before, so there are at most as many as positions left. -/
def next (st : Stream) : Option Token × Stream :=
  nextWithin st.positionsLeft st

/-- The scan behind the next `n` tokens. -/
def after : Nat → Stream → Stream
  | 0, st => st
  | n + 1, st => after n st.next.2

/-- The next `n` tokens, or fewer if the text ends first. -/
def take : Nat → Stream → List Token
  | 0, _ => []
  | n + 1, st =>
    match st.next with
    | (none, _) => []
    | (some t, rest) => t :: take n rest

end Stream

/-- The tokens of a text.  None is empty, so there are at most as many as the
text has characters. -/
def Tokenizer.tokens (t : Tokenizer) (s : List Char) : List Token :=
  (Stream.start t.rules s).take s.length

end JsonTint
