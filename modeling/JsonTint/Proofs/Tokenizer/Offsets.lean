import Mathlib.Logic.Relation
import JsonTint.Proofs.Tokenizer.Progress
import JsonTint.Tokenizer.Scan

/-!
# A stream is a scan by offsets

Positions know both sides of the text, offsets do not.  A stream and a scan by
offsets still go through the same states: each look of one is a look of the
other, because a search from a position finds the offsets that a search by
offset finds, and because what lies between two positions can be cut out.  So no
cut of the scan by offsets ever fails, and what is known of streams holds for it.

Main results:

- Theorem `Stream.best_offsets`: the best match is the leftmost one.
- Theorem `Stream.Sound.look_offsets`: a look of a stream is a look of the scan by
  offsets.
- Theorems `Stream.Sound.next_offsets` and `Stream.Sound.after_offsets`: the same
  for calls.
- Theorem `Tokenizer.stream_refines_plainTokens`: the calls for tokens give the
  tokens of the plain scan, one after the other.
- Theorem `Scan.scan_wellFormed`: all states of a scan are well formed, and its
  tokens are pieces of the text in order.
-/

namespace JsonTint

open Text

namespace Scan

/-- Behind the end of the text there are no more tokens. -/
theorem nextWithin_of_lt {s : List Char} {scan : Scan} (h : byteLength s < scan.offset)
    (looks : Nat) : nextWithin s looks scan = some (none, scan) := by
  cases looks <;> rw [nextWithin, if_pos h]

/-- In the text a call takes a look, which may answer it. -/
theorem nextWithin_of_le {s : List Char} {scan : Scan} (h : scan.offset ≤ byteLength s)
    (looks : Nat) :
    nextWithin s (looks + 1) scan =
      match look s scan with
      | none => none
      | some (.answer found behind) => some (found, behind)
      | some (.again behind) => nextWithin s looks behind :=
  if_neg (Nat.not_lt.2 h)

end Scan

namespace Stream

/-! ## Offsets for positions -/

/-- What a lane remembers, by offsets. -/
def Lane.offsets (lane : Lane) : Scan.Lane where
  rule := lane.rule
  memory :=
    match lane.ahead with
    | .unsearched => .unsearched
    | .exhausted => .exhausted
    | .found start stop => .found start.offset stop.offset

/-- A match by its offsets. -/
def Candidate.offsets (m : Candidate) : Scan.Match where
  rule := m.rule
  start := m.start.offset
  stop := m.stop.offset

/-- The state of a stream in a text, by offsets. -/
def offsets (s : List Char) (st : Stream) : Scan where
  offset := st.reached s
  lanes := st.lanes.map Lane.offsets

/-- What comes of a look, by offsets. -/
def Look.offsets (s : List Char) : Look → Scan.Look
  | answer found behind => .answer found (behind.offsets s)
  | again behind => .again (behind.offsets s)

/-- A scan that has not begun stands at the beginning of the text. -/
theorem offsets_start (rules : List Rule) (s : List Char) :
    (start rules s).offsets s = Scan.start rules := by
  simp only [offsets, start, Scan.start, List.map_map]
  rfl

/-- Searching a lane from a position is searching it from the offset. -/
theorem Lane.offsets_search (c : Cursor) (lane : Lane) :
    (lane.search c).offsets = lane.offsets.search c.text c.offset := by
  have hfind : lane.offsets.rule.findAt c.text c.offset =
      (lane.rule.matcher.search c).map fun found => (found.1.offset, found.2.offset) :=
    Matcher.findAt_offset lane.rule.matcher c
  rw [Lane.search, Scan.Lane.search, hfind]
  cases lane.rule.matcher.search c <;> rfl

/-- A lane is brought up to date in the same way. -/
theorem Lane.offsets_refresh (c : Cursor) (lane : Lane) :
    (lane.refresh c).offsets = lane.offsets.refresh c.text c.offset := by
  rcases lane with ⟨rule, ahead⟩
  cases ahead with
  | unsearched => exact Lane.offsets_search c _
  | exhausted => rfl
  | found start stop =>
      by_cases hpassed : start.offset < c.offset
      · simp only [Lane.refresh, hpassed, if_true, Lane.offsets_search]
        simp only [Scan.Lane.refresh, Lane.offsets, hpassed, if_true]
      · simp only [Lane.refresh, Scan.Lane.refresh, Lane.offsets, hpassed, if_false]

/-! ## The best match -/

/-- The best match of some lanes and of what came before them is the leftmost one
of the lanes, if that starts before it. -/
theorem foldl_better_offsets (lanes : List Lane) (best : Option Scan.Match) :
    (lanes.map Lane.offsets).foldl Scan.better best =
      match leftmost lanes with
      | none => best
      | some m =>
        if best.all fun other => m.start.offset < other.start then some m.offsets else best := by
  induction lanes generalizing best with
  | nil => rfl
  | cons lane lanes ih =>
      rcases lane with ⟨rule, ahead⟩
      rw [List.map_cons, List.foldl_cons, ih, leftmost]
      cases ahead with
      | unsearched => rfl
      | exhausted => rfl
      | found start stop =>
          -- The lane takes the lead, and the later ones take it from there; ties
          -- go to what came first in both cases.
          cases hrest : leftmost lanes with
          | none => rfl
          | some other =>
              rcases best with _ | b
              · by_cases hother : other.start.offset < start.offset <;>
                  simp [Scan.better, Lane.offsets, Candidate.offsets, hother]
              · by_cases hother : other.start.offset < start.offset <;>
                  by_cases hstart : start.offset < b.start <;>
                  simp [Scan.better, Lane.offsets, Candidate.offsets, hother, hstart] <;> omega

/-- The best match is the leftmost one. -/
theorem best_offsets (lanes : List Lane) :
    Scan.best (lanes.map Lane.offsets) = (leftmost lanes).map Candidate.offsets := by
  rw [Scan.best, foldl_better_offsets]
  cases leftmost lanes <;> rfl

/-! ## Looks -/

variable {rules : List Rule} {s : List Char}

/-- The scan behind a look, by offsets. -/
theorem Look.behind_offsets (l : Look) : (l.offsets s).behind = l.behind.offsets s := by
  cases l <;> rfl

/-- An empty match is stepped over by the size of the next character, or by one at
the end of the text. -/
theorem reached_next? (c : Cursor) (lanes : List Lane) :
    reached c.text ⟨c.next?.map (·.2), lanes⟩ =
      c.offset + c.after.head?.elim 1 Char.utf8Size := by
  cases hnext : c.next? with
  | none =>
      have hafter := Cursor.next?_eq_none.1 hnext
      rw [reached, Option.map_none, hafter, Cursor.text, hafter, List.append_nil,
        byteLength_reverse, ← c.offset_eq]
      rfl
  | some xd =>
      rcases xd with ⟨x, d⟩
      rw [reached, (Cursor.next?_eq_some hnext).1]
      exact Cursor.offset_of_next? hnext

/-- A look of a sound stream is a look of the scan by offsets, and no cut fails. -/
theorem Sound.look_offsets {c : Cursor} {lanes : List Lane}
    (h : Sound rules s ⟨some c, lanes⟩) :
    Scan.look s (offsets s ⟨some c, lanes⟩) = some ((Stream.look c lanes).offsets s) := by
  rcases h.position c rfl with ⟨rfl, -⟩
  have hlanes : (lanes.map Lane.offsets).map (Scan.Lane.refresh c.text c.offset) =
      (lanes.map (Lane.refresh c)).map Lane.offsets := by
    simp only [List.map_map, Function.comp_def, Lane.offsets_refresh]
  simp only [Scan.look, offsets, reached, hlanes, best_offsets, Stream.look]
  cases hm : leftmost (lanes.map (Lane.refresh c)) with
  | none => rfl
  | some m =>
      rcases h.reaches_of_leftmost hm with ⟨hstart, hstop⟩
      have htext := hstart.text_eq
      simp only [Option.map_some, Candidate.offsets]
      by_cases hempty : m.start.offset = m.stop.offset
      · simp only [hempty, if_true]
        rw [← hempty, ← htext, m.start.slice?_after, Option.map_some, Look.offsets, offsets,
          reached_next?]
      · simp only [hempty, if_false]
        rw [← htext, Cursor.slice?_of_reaches hstop, Option.map_some]
        rfl

/-! ## Calls -/

/-- A call is answered by the scan by offsets as by the stream, if as many looks
are allowed as there are offsets left. -/
theorem Sound.nextWithin_offsets {st : Stream} (h : Sound rules s st) {fuel looks : Nat}
    (hfuel : st.positionsLeft ≤ fuel) (hlooks : byteLength s + 1 ≤ looks + st.reached s) :
    Scan.nextWithin s looks (st.offsets s) =
      some ((Stream.nextWithin fuel st).1, (Stream.nextWithin fuel st).2.offsets s) := by
  induction fuel generalizing st looks with
  | zero =>
      rcases st with ⟨_ | c, lanes⟩
      · exact Scan.nextWithin_of_lt (Nat.lt_succ_self _) looks
      · simp [positionsLeft] at hfuel
  | succ fuel ih =>
      rcases st with ⟨_ | c, lanes⟩
      · exact Scan.nextWithin_of_lt (Nat.lt_succ_self _) looks
      · rcases h.look with ⟨hsound, hlt, hleft⟩
        have hle : c.offset ≤ byteLength s := by
          rw [← (h.position c rfl).1]
          exact c.offset_le_byteLength_text
        simp only [reached] at hlooks
        rcases Nat.exists_eq_succ_of_ne_zero (by omega : looks ≠ 0) with ⟨looks, rfl⟩
        rw [Scan.nextWithin_of_le hle]
        simp only [h.look_offsets, Stream.nextWithin]
        cases hlook : Stream.look c lanes with
        | answer found behind => rfl
        | again behind =>
            rw [hlook] at hsound hlt
            simp only [Look.behind] at hsound hlt
            have hfewer := hleft behind hlook
            simp only [positionsLeft] at hfuel
            exact ih hsound (by omega) (by omega)

/-- A call is answered by the scan by offsets as by the stream. -/
theorem Sound.next_offsets {st : Stream} (h : Sound rules s st) :
    Scan.next s (st.offsets s) = some (st.next.1, st.next.2.offsets s) :=
  h.nextWithin_offsets (Nat.le_refl _) (by simp only [offsets]; omega)

/-- Some calls take the scan by offsets where they take the stream. -/
theorem Sound.after_offsets {st : Stream} (h : Sound rules s st) (n : Nat) :
    Sound rules s (st.after n) ∧ Scan.after s n (st.offsets s) = some ((st.after n).offsets s) := by
  induction n generalizing st with
  | zero => exact ⟨h, rfl⟩
  | succ n ih =>
      rw [Scan.after, h.next_offsets]
      exact ih h.next

/-! ## States -/

/-- The offsets of a sound stream are a well-formed scan. -/
theorem Sound.wellFormed {st : Stream} (h : Sound rules s st) : (st.offsets s).WellFormed s where
  offset := by
    rcases st with ⟨_ | c, lanes⟩
    · exact Or.inr rfl
    · rcases h.position c rfl with ⟨rfl, -⟩
      exact Or.inl c.isBoundary_offset
  remembered := by
    intro lane hlane start stop hmemory
    rcases List.mem_map.1 hlane with ⟨⟨rule, ahead⟩, hmem, rfl⟩
    cases ahead with
    | unsearched => contradiction
    | exhausted => contradiction
    | found c d =>
        cases hmemory
        rcases h.remembered _ hmem c d rfl with ⟨rfl, hreach⟩
        refine ⟨hreach.offset_le, c.isBoundary_offset, ?_⟩
        rw [← hreach.text_eq]
        exact d.isBoundary_offset

/-- A sound stream in the text takes a look, which takes it forward. -/
theorem Sound.exists_look {st : Stream} (h : Sound rules s st) (hle : st.reached s ≤ byteLength s) :
    ∃ l, Scan.look s (st.offsets s) = some (Look.offsets s l) ∧ Sound rules s l.behind ∧
      st.reached s < l.behind.reached s := by
  rcases st with ⟨_ | c, lanes⟩
  · exact (Nat.not_succ_le_self _ hle).elim
  · exact ⟨Stream.look c lanes, h.look_offsets, h.look.1, h.look.2.1⟩

/-- The states of a scan by offsets are those of sound streams. -/
theorem exists_sound_of_steps {scan : Scan}
    (h : Relation.ReflTransGen (Scan.Step s) (Scan.start rules) scan) :
    ∃ st, Sound rules s st ∧ st.offsets s = scan := by
  induction h with
  | refl => exact ⟨start rules s, sound_start rules s, offsets_start rules s⟩
  | tail _ hstep ih =>
      rcases ih with ⟨st, hst, rfl⟩
      rcases hstep with ⟨hle, l, hlook, rfl⟩
      rcases hst.exists_look hle with ⟨l', hlook', hbehind, -⟩
      rw [hlook'] at hlook
      cases hlook
      exact ⟨l'.behind, hbehind, (Look.behind_offsets l').symm⟩

end Stream

namespace Scan

variable {s : List Char}

/-- A call goes through states of the scan. -/
theorem steps_of_nextWithin {looks : Nat} {scan behind : Scan} {found : Option Token}
    (h : nextWithin s looks scan = some (found, behind)) :
    Relation.ReflTransGen (Step s) scan behind := by
  induction looks generalizing scan with
  | zero =>
      rw [nextWithin] at h
      split at h
      · cases h
        exact .refl
      · contradiction
  | succ looks ih =>
      rcases Nat.lt_or_ge (byteLength s) scan.offset with hlt | hle
      · rw [nextWithin_of_lt hlt] at h
        cases h
        exact .refl
      · rw [nextWithin_of_le hle] at h
        have hstep : ∀ l, look s scan = some l → Step s scan l.behind :=
          fun l hl => ⟨hle, l, hl, rfl⟩
        cases hlook : look s scan with
        | none => simp [hlook] at h
        | some l =>
            cases l with
            | answer other rest =>
                simp only [hlook, Option.some.injEq, Prod.mk.injEq] at h
                rcases h with ⟨rfl, rfl⟩
                exact .single (hstep _ hlook)
            | again rest =>
                simp only [hlook] at h
                exact .head (hstep _ hlook) (ih h)

/-- Calls go through states of the scan. -/
theorem steps_of_after {n : Nat} {scan behind : Scan} (h : after s n scan = some behind) :
    Relation.ReflTransGen (Step s) scan behind := by
  induction n generalizing scan with
  | zero =>
      cases h
      exact .refl
  | succ n ih =>
      rcases Option.bind_eq_some_iff.1 h with ⟨⟨found, rest⟩, hnext, hafter⟩
      exact (steps_of_nextWithin hnext).trans (ih hafter)

/-- The `n`-th call is answered, with the `n`-th token of the plain scan. -/
theorem call_eq (t : Tokenizer) (s : List Char) (n : Nat) :
    call s t.rules n = some (Tokenizer.plainTokens t.rules s)[n]? := by
  rcases (Stream.sound_start t.rules s).after_offsets n with ⟨hsound, hafter⟩
  rw [Stream.offsets_start] at hafter
  rw [call, hafter, Option.bind_some, hsound.next_offsets, Option.map_some, t.next_after]

end Scan

/-! ## The scan of a text -/

/-- The remembering scan refines the plain one: the `n`-th call for a token
gives the `n`-th token of the plain scan, and no token once there are no more,
and the tokens of a text are all tokens of the plain scan. -/
theorem Tokenizer.stream_refines_plainTokens (t : Tokenizer) (s : List Char) :
    (∀ n, Scan.call s t.rules n = some (plainTokens t.rules s)[n]?) ∧
      (∀ n, ((Stream.start t.rules s).after n).next.1 = (plainTokens t.rules s)[n]?) ∧
      t.tokens s = plainTokens t.rules s :=
  ⟨Scan.call_eq t s, t.next_after s, t.tokens_eq_plainTokens s⟩

namespace Scan

/-- A scan of a text and the calls for its tokens.  Every state it goes through
is well formed, and in the text no look fails and every look moves it on.  The
calls take it through such states, and each is answered after no more looks than
there are offsets left.  The tokens are pieces of the text that are not empty, one
behind the other, and behind the last one there are no more. -/
theorem scan_wellFormed (t : Tokenizer) (s : List Char) :
    (∀ scan, Relation.ReflTransGen (Step s) (start t.rules) scan →
        WellFormed s scan ∧
          (scan.offset ≤ byteLength s →
            ∃ l, look s scan = some l ∧ scan.offset < l.behind.offset)) ∧
      (∀ n, ∃ scan found behind, after s n (start t.rules) = some scan ∧
        Relation.ReflTransGen (Step s) (start t.rules) scan ∧
        nextWithin s (byteLength s + 1 - scan.offset) scan = some (found, behind)) ∧
      (∀ n tok, call s t.rules n = some (some tok) →
        tok.start < tok.stop ∧ tok.stop ≤ byteLength s ∧
          slice? s tok.start tok.stop = some (tok.text s) ∧
          ∀ m later, n < m → call s t.rules m = some (some later) → tok.stop ≤ later.start) ∧
      ∀ n m, n ≤ m → call s t.rules n = some none → call s t.rules m = some none := by
  refine ⟨?_, ?_, ?_, ?_⟩
  · intro scan hsteps
    rcases Stream.exists_sound_of_steps hsteps with ⟨st, hst, rfl⟩
    refine ⟨hst.wellFormed, ?_⟩
    intro hle
    rcases hst.exists_look hle with ⟨l, hlook, -, hlt⟩
    refine ⟨_, hlook, ?_⟩
    rw [Stream.Look.behind_offsets]
    exact hlt
  · intro n
    rcases (Stream.sound_start t.rules s).after_offsets n with ⟨hsound, hafter⟩
    rw [Stream.offsets_start] at hafter
    exact ⟨_, _, _, hafter, steps_of_after hafter, hsound.next_offsets⟩
  · intro n tok htok
    rw [call_eq, Option.some.injEq, ← t.tokens_eq_plainTokens] at htok
    rcases Stream.slice?_of_mem_tokens (List.mem_of_getElem? htok) with ⟨hlt, hle, hslice⟩
    refine ⟨hlt, hle, hslice, ?_⟩
    intro m later hnm hlater
    rw [call_eq, Option.some.injEq, ← t.tokens_eq_plainTokens] at hlater
    have hordered := Segment.pairwise_tokensFrom 0 (t.segments s)
    rw [t.tokensFrom_segments] at hordered
    rcases List.getElem?_eq_some_iff.1 htok with ⟨hn, rfl⟩
    rcases List.getElem?_eq_some_iff.1 hlater with ⟨hm, rfl⟩
    exact List.pairwise_iff_getElem.1 hordered n m hn hm hnm
  · intro n m hnm hnone
    rw [call_eq, Option.some.injEq, List.getElem?_eq_none_iff] at hnone ⊢
    exact Nat.le_trans hnone hnm

/-- A rule for runs of digits, also for those without any. -/
def digitRule : Rule where
  name := "digits"
  source := "[0-9]*"
  matcher := (Pattern.star (.chars .digit)).matcher (by decide)
  priority := 0
  classify := Rule.classifyNumber

/-- In the text `é7 8` the rule matches the empty run in front of a character of
two bytes, then the two digits, and then the empty run at the end. -/
theorem scan_wellFormed_digits :
    WellFormed "é7 8".toList (start [digitRule]) ∧
      (∃ l, look "é7 8".toList (start [digitRule]) = some l ∧ 0 < l.behind.offset) ∧
      call "é7 8".toList [digitRule] 0 = some (some ⟨2, 3, .number⟩) ∧
      slice? "é7 8".toList 2 3 = some ['7'] ∧
      call "é7 8".toList [digitRule] 1 = some (some ⟨4, 5, .number⟩) ∧ 3 ≤ 4 ∧
      call "é7 8".toList [digitRule] 2 = some none ∧
      call "é7 8".toList [digitRule] 9 = some none := by
  have h := scan_wellFormed ⟨[digitRule]⟩ "é7 8".toList
  have hfirst : call "é7 8".toList [digitRule] 0 = some (some ⟨2, 3, .number⟩) := by
    decide +kernel
  have hsecond : call "é7 8".toList [digitRule] 1 = some (some ⟨4, 5, .number⟩) := by
    decide +kernel
  have hlast : call "é7 8".toList [digitRule] 2 = some none := by
    decide +kernel
  rcases h.1 _ .refl with ⟨hwell, hlook⟩
  rcases h.2.2.1 0 _ hfirst with ⟨-, -, hslice, horder⟩
  exact ⟨hwell, hlook (Nat.zero_le _), hfirst, hslice, hsecond, horder 1 _ (by decide) hsecond,
    hlast, h.2.2.2 2 9 (by decide) hlast⟩

end Scan
end JsonTint
