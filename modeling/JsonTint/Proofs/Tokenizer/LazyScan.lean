import JsonTint.Proofs.Matcher.Search
import JsonTint.Tokenizer.Plain
import JsonTint.Tokenizer.Stream

/-!
# The remembering scan finds the tokens of the plain scan

A stream keeps the last match of each rule and searches again only when it has
passed the start of that match.  What it keeps is always what a fresh search
would find, so the leftmost match is the one that the plain scan walks to.

Main results:

- Theorem `Tokenizer.plainScan_eq`: the plain scan as a recursion over positions.
- Theorem `Stream.Lane.refresh_eq_search`: a lane that is up to date agrees with a
  fresh search.
- Theorems `leftmost_of_ruleAt?` and `lanesAt_of_next?`: the leftmost match is
  the one at this position, or the one found behind the next character.
- Theorem `Stream.next_spec`: a step of the stream is a step of the plain scan.
- Theorems `Tokenizer.tokens_eq_plainTokens` and `Tokenizer.next_after`: the tokens
  of a text, and those that the calls give, are those of the plain scan.
-/

namespace JsonTint

/-! ## The plain scan over positions -/

namespace Tokenizer

/-- The tokens that the plain scan finds from a position on. -/
def plainScan (rules : List Rule) (c : Cursor) : List Token :=
  plainFrom rules (c.remaining + 1) c

/-- The plain scan begins at the front of the text. -/
theorem plainTokens_eq_plainScan (rules : List Rule) (s : List Char) :
    plainTokens rules s = plainScan rules (Cursor.ofText s) :=
  rfl

/-- A match leads on from the position where it starts. -/
theorem ruleAt?_reaches {rules : List Rule} {c d : Cursor} {r : Rule}
    (h : ruleAt? rules c = some (r, d)) : c.Reaches d := by
  rcases List.exists_of_findSome?_eq_some h with ⟨r', -, hr'⟩
  rcases Option.map_eq_some_iff.1 hr' with ⟨e, he, hpair⟩
  cases hpair
  exact Matcher.reaches_of_matchAt _ _ _ he

/-- A token takes the scan forward. -/
theorem tokenAt?_reaches {rules : List Rule} {c d : Cursor} {t : Token}
    (h : tokenAt? rules c = some (t, d)) : c.Reaches d ∧ c.offset < d.offset := by
  unfold tokenAt? at h
  split at h
  · contradiction
  · rename_i r e hrule
    split at h <;> rename_i hlt
    · cases h
      exact ⟨ruleAt?_reaches hrule, hlt⟩
    · contradiction

/-- More steps than positions left change nothing. -/
theorem plainFrom_succ (rules : List Rule) {fuel : Nat} {c : Cursor}
    (hfuel : c.remaining < fuel) :
    plainFrom rules (fuel + 1) c = plainFrom rules fuel c := by
  induction fuel generalizing c with
  | zero => omega
  | succ fuel ih =>
      rw [plainFrom, plainFrom]
      cases htoken : tokenAt? rules c with
      | some td =>
          rcases td with ⟨t, d⟩
          rcases tokenAt?_reaches htoken with ⟨hreach, hlt⟩
          have hless : d.remaining < fuel := by
            have := hreach.remaining_lt hlt
            omega
          simp only [ih hless]
      | none =>
          cases hnext : c.next? with
          | none => rfl
          | some xd =>
              have := Cursor.remaining_of_next? hnext
              exact ih (by omega)

/-- Any number of steps will do that is more than the characters left. -/
theorem plainFrom_of_remaining_lt (rules : List Rule) {fuel : Nat} {c : Cursor}
    (hfuel : c.remaining < fuel) : plainFrom rules fuel c = plainScan rules c := by
  induction hfuel with
  | refl => rfl
  | step hle ih => rw [plainFrom_succ rules hle, ih]

/-- The plain scan takes the token at a position, or steps over a character. -/
theorem plainScan_eq (rules : List Rule) (c : Cursor) :
    plainScan rules c =
      match tokenAt? rules c with
      | some (t, d) => t :: plainScan rules d
      | none =>
        match c.next? with
        | none => []
        | some (_, d) => plainScan rules d := by
  rw [plainScan, plainFrom]
  cases htoken : tokenAt? rules c with
  | some td =>
      rcases td with ⟨t, d⟩
      rcases tokenAt?_reaches htoken with ⟨hreach, hlt⟩
      have hless := hreach.remaining_lt hlt
      simp only [plainFrom_of_remaining_lt rules hless]
  | none =>
      cases hnext : c.next? with
      | none => rfl
      | some xd =>
          have := Cursor.remaining_of_next? hnext
          exact plainFrom_of_remaining_lt rules (by omega)

/-- No token is empty, so there are no more tokens than characters. -/
theorem length_plainScan_le (rules : List Rule) (c : Cursor) :
    (plainScan rules c).length ≤ c.remaining := by
  generalize hn : c.remaining = n
  induction n using Nat.strongRecOn generalizing c with
  | ind n ih =>
      rw [plainScan_eq]
      cases htoken : tokenAt? rules c with
      | some td =>
          rcases td with ⟨t, d⟩
          rcases tokenAt?_reaches htoken with ⟨hreach, hlt⟩
          have hless := hreach.remaining_lt hlt
          have := ih d.remaining (by omega) d rfl
          simp only [List.length_cons]
          omega
      | none =>
          cases hnext : c.next? with
          | none => simp
          | some xd =>
              rcases xd with ⟨x, d⟩
              have hless := Cursor.remaining_of_next? hnext
              have := ih d.remaining (by omega) d rfl
              simp only
              omega

end Tokenizer

namespace Stream

/-! ## What a lane remembers -/

/-- What a lane remembers is what a fresh search from a position on would
find, unless the position has passed the start of a remembered match. -/
def Lane.UpToDate (c : Cursor) (lane : Lane) : Prop :=
  match lane.ahead with
  | .unsearched => True
  | .exhausted => lane.rule.matcher.search c = none
  | .found start stop =>
    c.offset ≤ start.offset → lane.rule.matcher.search c = some (start, stop)

@[simp]
theorem Lane.rule_search (c : Cursor) (lane : Lane) : (lane.search c).rule = lane.rule := by
  unfold Lane.search
  split <;> rfl

/-- A lane that is up to date agrees with a fresh search. -/
theorem Lane.refresh_eq_search {c : Cursor} {lane : Lane} (h : lane.UpToDate c) :
    lane.refresh c = lane.search c := by
  rcases lane with ⟨rule, ahead⟩
  cases ahead with
  | unsearched => rfl
  | exhausted =>
      have hnone : rule.matcher.search c = none := h
      simp only [Lane.refresh, Lane.search, hnone]
  | found start stop =>
      by_cases hpassed : start.offset < c.offset
      · simp only [Lane.refresh, hpassed, if_true]
      · have hsome : rule.matcher.search c = some (start, stop) := h (Nat.le_of_not_lt hpassed)
        simp only [Lane.refresh, Lane.search, hpassed, if_false, hsome]

/-- A lane searched at a position stays up to date further on. -/
theorem Lane.upToDate_search {c d : Cursor} (lane : Lane) (h : c.Reaches d) :
    (lane.search c).UpToDate d := by
  unfold Lane.search
  split <;> rename_i hsearch
  · exact Matcher.search_eq_none_of_reaches hsearch h
  · exact Matcher.search_of_reaches hsearch h

/-- The lanes of some rules, all searched from one position on. -/
def lanesAt (rules : List Rule) (c : Cursor) : List Lane :=
  rules.map fun r => Lane.search c ⟨r, .unsearched⟩

/-- Lanes of some rules that are all up to date with a position. -/
structure UpToDate (rules : List Rule) (c : Cursor) (lanes : List Lane) : Prop where
  rules_eq : lanes.map (·.rule) = rules
  upToDate : ∀ lane ∈ lanes, lane.UpToDate c

/-- Bringing up-to-date lanes further up to date searches them all afresh. -/
theorem UpToDate.map_refresh {rules : List Rule} {c : Cursor} {lanes : List Lane}
    (h : UpToDate rules c lanes) : lanes.map (Lane.refresh c) = lanesAt rules c := by
  rw [← h.rules_eq, lanesAt, List.map_map]
  apply List.map_congr_left
  intro lane hlane
  rw [Lane.refresh_eq_search (h.upToDate lane hlane)]
  rfl

/-- Lanes that have been searched stay up to date further on. -/
theorem upToDate_lanesAt (rules : List Rule) {c d : Cursor} (h : c.Reaches d) :
    UpToDate rules d (lanesAt rules c) where
  rules_eq := by simp [lanesAt, Function.comp_def]
  upToDate := by
    intro lane hlane
    rcases List.mem_map.1 hlane with ⟨r, -, rfl⟩
    exact Lane.upToDate_search _ h

/-! ## The leftmost match -/

/-- What is leftmost is what its rule finds from the position searched on. -/
theorem search_of_leftmost {rules : List Rule} {c : Cursor} {m : Candidate}
    (h : leftmost (lanesAt rules c) = some m) :
    m.rule.matcher.search c = some (m.start, m.stop) := by
  induction rules generalizing m with
  | nil => simp [lanesAt, leftmost] at h
  | cons r rules ih =>
      have hcons : lanesAt (r :: rules) c = Lane.search c ⟨r, .unsearched⟩ :: lanesAt rules c :=
        rfl
      rw [hcons, leftmost, Lane.rule_search] at h
      split at h <;> rename_i hahead
      · rename_i start stop
        have hfirst : r.matcher.search c = some (start, stop) := by
          unfold Lane.search at hahead
          split at hahead <;> rename_i hsearch
          · contradiction
          · cases hahead
            exact hsearch
        split at h <;> rename_i hrest
        · split at h
          · cases h
            exact ih hrest
          · cases h
            exact hfirst
        · cases h
          exact hfirst
      · exact ih h

/-- What is leftmost does not lie before the position that was searched. -/
theorem offset_le_of_leftmost {rules : List Rule} {c : Cursor} {m : Candidate}
    (h : leftmost (lanesAt rules c) = some m) : c.offset ≤ m.start.offset :=
  (Matcher.search_sound (search_of_leftmost h)).1.offset_le

/-- A rule that matches at the position searched wins over the rules behind it,
and over those before it that do not match there. -/
theorem leftmost_of_ruleAt? {rules : List Rule} {c d : Cursor} {r : Rule}
    (h : Tokenizer.ruleAt? rules c = some (r, d)) :
    leftmost (lanesAt rules c) = some ⟨r, c, d⟩ := by
  induction rules with
  | nil => simp [Tokenizer.ruleAt?] at h
  | cons first rules ih =>
      have hcons : lanesAt (first :: rules) c =
          Lane.search c ⟨first, .unsearched⟩ :: lanesAt rules c := rfl
      cases hmatch : first.matcher.matchAt c with
      | some stop =>
          have hpair : first = r ∧ stop = d := by
            simpa [Tokenizer.ruleAt?, hmatch] using h
          rcases hpair with ⟨rfl, rfl⟩
          have hsearch : first.matcher.search c = some (c, stop) := by
            rw [Matcher.search_eq, hmatch]
            rfl
          rw [hcons, leftmost]
          simp only [Lane.search, hsearch]
          cases hrest : leftmost (lanesAt rules c) with
          | none => rfl
          | some other =>
              have := offset_le_of_leftmost hrest
              simp only [show ¬ other.start.offset < c.offset by omega, if_false]
      | none =>
          have hrest : Tokenizer.ruleAt? rules c = some (r, d) := by
            simpa [Tokenizer.ruleAt?, hmatch] using h
          rw [hcons, leftmost, ih hrest]
          cases hsearch : first.matcher.search c with
          | none => simp only [Lane.search, hsearch]
          | some found =>
              rcases found with ⟨start, stop⟩
              -- The first rule does not match here, so its match lies further on.
              have hlt : c.offset < start.offset := by
                rcases Matcher.search_sound hsearch with ⟨hreach, hstart⟩
                rcases Nat.lt_or_eq_of_le hreach.offset_le with hlt | heq
                · exact hlt
                · rw [hreach.eq_of_offset_eq heq, hmatch] at hstart
                  contradiction
              simp only [Lane.search, hsearch, hlt, if_true]

/-- Where no rule matches, all searches go on behind the next character. -/
theorem lanesAt_of_next? {rules : List Rule} {c d : Cursor} {x : Char}
    (h : Tokenizer.ruleAt? rules c = none) (hnext : c.next? = some (x, d)) :
    lanesAt rules c = lanesAt rules d := by
  apply List.map_congr_left
  intro r hr
  have hmatch : r.matcher.matchAt c = none := by
    simpa using List.findSome?_eq_none_iff.1 h r hr
  have hsearch : r.matcher.search c = r.matcher.search d := by
    rw [Matcher.search_eq, hmatch, hnext]
    rfl
  simp only [Lane.search, hsearch]

/-- Where no rule matches and the text ends, nothing is left to find. -/
theorem leftmost_of_next?_eq_none {rules : List Rule} {c : Cursor}
    (h : Tokenizer.ruleAt? rules c = none) (hnext : c.next? = none) :
    leftmost (lanesAt rules c) = none := by
  have hlanes : lanesAt rules c = rules.map fun r => ⟨r, .exhausted⟩ := by
    apply List.map_congr_left
    intro r hr
    have hmatch : r.matcher.matchAt c = none := by
      simpa using List.findSome?_eq_none_iff.1 h r hr
    have hsearch : r.matcher.search c = none := by
      rw [Matcher.search_eq, hmatch, hnext]
      rfl
    simp only [Lane.search, hsearch]
  rw [hlanes]
  clear h hlanes
  induction rules with
  | nil => rfl
  | cons r rules ih => exact ih

/-! ## Steps of the stream -/

/-- A scan that is to give the tokens `ts`: it has left the text and there are
none, or its lanes are up to date and `ts` is what the plain scan finds. -/
def Yields (rules : List Rule) (st : Stream) (ts : List Token) : Prop :=
  match st.position with
  | none => ts = []
  | some c => UpToDate rules c st.lanes ∧ ts = Tokenizer.plainScan rules c

/-- A scan starts out to give the tokens of the plain scan. -/
theorem yields_start (rules : List Rule) (s : List Char) :
    (start rules s).Yields rules (Tokenizer.plainTokens rules s) := by
  refine ⟨⟨?_, ?_⟩, rfl⟩
  · simp [start, Function.comp_def]
  · intro lane hlane
    rcases List.mem_map.1 hlane with ⟨r, -, rfl⟩
    trivial

/-- One look at a position with up-to-date lanes. -/
theorem nextWithin_succ {rules : List Rule} {c : Cursor} {lanes : List Lane}
    (h : UpToDate rules c lanes) (fuel : Nat) :
    nextWithin (fuel + 1) ⟨some c, lanes⟩ =
      match leftmost (lanesAt rules c) with
      | none => (none, ⟨none, lanesAt rules c⟩)
      | some m =>
        if m.start.offset = m.stop.offset then
          nextWithin fuel ⟨m.start.next?.map (·.2), lanesAt rules c⟩
        else (some m.token, ⟨some m.stop, lanesAt rules c⟩) := by
  cases hfound : leftmost (lanesAt rules c) with
  | none => simp only [nextWithin, look, h.map_refresh, hfound]
  | some m =>
      simp only [nextWithin, look, h.map_refresh, hfound]
      by_cases hempty : m.start.offset = m.stop.offset
      · simp only [hempty, if_true]
      · simp only [hempty, if_false]

/-- A scan that has left the text stays where it is. -/
theorem nextWithin_of_position_eq_none (fuel : Nat) (lanes : List Lane) :
    nextWithin fuel ⟨none, lanes⟩ = (none, ⟨none, lanes⟩) := by
  cases fuel <;> rfl

/-- Looking at a position with up-to-date lanes gives what the plain scan gives
from there. -/
theorem nextWithin_spec {rules : List Rule} {fuel : Nat} {c : Cursor} {lanes : List Lane}
    (hfuel : c.remaining < fuel) (hlanes : UpToDate rules c lanes) :
    (nextWithin fuel ⟨some c, lanes⟩).1 = (Tokenizer.plainScan rules c).head? ∧
      (nextWithin fuel ⟨some c, lanes⟩).2.Yields rules (Tokenizer.plainScan rules c).tail := by
  -- The plain scan walks where the stream jumps: the induction is on the walk,
  -- and a position without a match leaves the step of the stream as it is.
  induction c using Cursor.induction_next generalizing fuel lanes with
  | step c ih =>
      rcases Nat.exists_eq_succ_of_ne_zero (by omega : fuel ≠ 0) with ⟨fuel, rfl⟩
      rw [nextWithin_succ hlanes, Tokenizer.plainScan_eq, Tokenizer.tokenAt?]
      cases hrule : Tokenizer.ruleAt? rules c with
      | some rd =>
          rcases rd with ⟨r, d⟩
          have hreach := Tokenizer.ruleAt?_reaches hrule
          rw [leftmost_of_ruleAt? hrule]
          by_cases hempty : c.offset = d.offset
          · simp only [hempty, Nat.lt_irrefl, if_true, if_false]
            cases hnext : c.next? with
            | none =>
                rw [Option.map_none, nextWithin_of_position_eq_none]
                exact ⟨rfl, rfl⟩
            | some xe =>
                rcases xe with ⟨x, e⟩
                have hless := Cursor.remaining_of_next? hnext
                exact ih x e hnext (by omega)
                  (upToDate_lanesAt rules (Cursor.reaches_of_next? hnext))
          · have hlt : c.offset < d.offset := Nat.lt_of_le_of_ne hreach.offset_le hempty
            simp only [hempty, hlt, if_true, if_false]
            exact ⟨rfl, upToDate_lanesAt rules hreach, rfl⟩
      | none =>
          cases hnext : c.next? with
          | none =>
              rw [leftmost_of_next?_eq_none hrule hnext]
              exact ⟨rfl, rfl⟩
          | some xd =>
              rcases xd with ⟨x, d⟩
              have hless := Cursor.remaining_of_next? hnext
              have hd := upToDate_lanesAt rules (Cursor.Reaches.refl d)
              rw [lanesAt_of_next? hrule hnext]
              have hfuel' : d.remaining < fuel + 1 := by omega
              have hspec := ih x d hnext hfuel' hd
              rwa [nextWithin_succ hd] at hspec

/-- A step of the stream is a step of the plain scan. -/
theorem next_spec {rules : List Rule} {st : Stream} {ts : List Token}
    (h : st.Yields rules ts) : st.next.1 = ts.head? ∧ st.next.2.Yields rules ts.tail := by
  rcases st with ⟨position, lanes⟩
  cases position with
  | none =>
      have hnil : ts = [] := h
      subst hnil
      exact ⟨rfl, rfl⟩
  | some c =>
      rcases h with ⟨hlanes, rfl⟩
      exact nextWithin_spec (Nat.lt_succ_self _) hlanes

/-- Some steps of the stream are as many steps of the plain scan. -/
theorem yields_after {rules : List Rule} {st : Stream} {ts : List Token}
    (h : st.Yields rules ts) (n : Nat) : (st.after n).Yields rules (ts.drop n) := by
  induction n generalizing st ts with
  | zero => exact h
  | succ n ih =>
      rw [after, ← List.drop_tail]
      exact ih (next_spec h).2

/-- The first calls give the first of the tokens that a scan is to give. -/
theorem take_eq_take {rules : List Rule} {st : Stream} {ts : List Token}
    (h : st.Yields rules ts) (n : Nat) : st.take n = ts.take n := by
  induction n generalizing st ts with
  | zero => rfl
  | succ n ih =>
      rcases next_spec h with ⟨hhead, htail⟩
      cases hnext : st.next with
      | mk found rest =>
          rw [hnext] at hhead htail
          cases ts with
          | nil =>
              simp only [List.head?_nil] at hhead
              simp [take, hnext, hhead]
          | cons t ts =>
              simp only [List.head?_cons] at hhead
              simp only [take, hnext, hhead, List.take_succ_cons]
              rw [ih htail, List.tail_cons]

end Stream

/-! ## The tokens of a text -/

namespace Tokenizer

/-- The `n`-th call for a token gives the `n`-th token of the plain scan, and no
token once there are no more. -/
theorem next_after (t : Tokenizer) (s : List Char) (n : Nat) :
    ((Stream.start t.rules s).after n).next.1 = (plainTokens t.rules s)[n]? := by
  have hyields := Stream.yields_after (Stream.yields_start t.rules s) n
  rw [(Stream.next_spec hyields).1, List.head?_drop]

/-- The tokens of a text are all tokens of the plain scan. -/
theorem tokens_eq_plainTokens (t : Tokenizer) (s : List Char) :
    t.tokens s = plainTokens t.rules s := by
  rw [tokens, Stream.take_eq_take (Stream.yields_start t.rules s)]
  exact List.take_of_length_le (length_plainScan_le t.rules (Cursor.ofText s))

end Tokenizer
end JsonTint
