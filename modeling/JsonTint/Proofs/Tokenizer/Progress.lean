import JsonTint.Proofs.Tokenizer.Tiling
import JsonTint.Text.Boundary

/-!
# A scan stays in its text and moves on

However many tokens have been asked for, a scan stands in its text or has left it,
its lanes are up to date with its position, and what they remember are matches in
the text.  Each look takes it forward.

Main results:

- Theorem `Sound.reaches_of_leftmost`: the leftmost match lies ahead.
- Theorem `Sound.look`: what a look does to a scan that is sound.
- Theorem `Sound.next`: a call leaves a scan sound.
- Theorem `slice?_of_mem_tokens`: a token is a piece of the text.
-/

namespace JsonTint
namespace Stream

open Segment Text

/-- The offset that a scan of a text has reached.  One that has left the text
stands behind its end. -/
def reached (s : List Char) (st : Stream) : Nat :=
  match st.position with
  | none => byteLength s + 1
  | some c => c.offset

/-! ## Sound scans -/

/-- A scan whose lanes are up to date with its position and remember matches in
its text. -/
structure Sound (rules : List Rule) (s : List Char) (st : Stream) : Prop where
  position : ∀ c, st.position = some c → c.text = s ∧ UpToDate rules c st.lanes
  remembered : ∀ lane ∈ st.lanes, ∀ start stop, lane.ahead = .found start stop →
    start.text = s ∧ start.Reaches stop

variable {rules : List Rule} {s : List Char}

/-- A scan that has not begun is sound. -/
theorem sound_start (rules : List Rule) (s : List Char) : Sound rules s (start rules s) where
  position := by
    intro c hc
    cases hc
    exact ⟨rfl, (yields_start rules s).1⟩
  remembered := by
    intro lane hlane start stop hahead
    rcases List.mem_map.1 hlane with ⟨r, -, rfl⟩
    contradiction

/-- Lanes that have been searched from a position remember matches behind it. -/
theorem remembered_lanesAt {c : Cursor} {lane : Lane} (hlane : lane ∈ lanesAt rules c)
    {start stop : Cursor} (hahead : lane.ahead = .found start stop) :
    start.text = c.text ∧ start.Reaches stop := by
  rcases List.mem_map.1 hlane with ⟨r, -, rfl⟩
  unfold Lane.search at hahead
  split at hahead <;> rename_i hsearch
  · contradiction
  · cases hahead
    rcases Matcher.search_sound hsearch with ⟨hreach, hmatch⟩
    exact ⟨hreach.text_eq, Matcher.reaches_of_matchAt _ _ _ hmatch⟩

/-- A scan that has left the text is sound. -/
theorem sound_left (rules : List Rule) (c : Cursor) :
    Sound rules c.text ⟨none, lanesAt rules c⟩ where
  position := by
    intro d hd
    contradiction
  remembered := fun _ hlane _ _ hahead => remembered_lanesAt hlane hahead

/-- A scan that has moved on is sound. -/
theorem sound_moved (rules : List Rule) {c d : Cursor} (h : c.Reaches d) :
    Sound rules c.text ⟨some d, lanesAt rules c⟩ where
  position := by
    intro e he
    cases he
    exact ⟨h.text_eq, upToDate_lanesAt rules h⟩
  remembered := fun _ hlane _ _ hahead => remembered_lanesAt hlane hahead

/-- In a sound scan the leftmost match starts ahead and ends ahead of that. -/
theorem Sound.reaches_of_leftmost {c : Cursor} {lanes : List Lane} {m : Candidate}
    (h : Sound rules s ⟨some c, lanes⟩) (hm : leftmost (lanes.map (Lane.refresh c)) = some m) :
    c.Reaches m.start ∧ m.start.Reaches m.stop := by
  rw [(h.position c rfl).2.map_refresh] at hm
  rcases Matcher.search_sound (search_of_leftmost hm) with ⟨hstart, hmatch⟩
  exact ⟨hstart, m.rule.matcher.reaches_of_matchAt _ _ hmatch⟩

/-- A look at a position of a sound scan takes it forward and leaves it sound;
if it does not answer the call, fewer positions are left. -/
theorem Sound.look {c : Cursor} {lanes : List Lane} (h : Sound rules s ⟨some c, lanes⟩) :
    Sound rules s (look c lanes).behind ∧ c.offset < (look c lanes).behind.reached s ∧
      ∀ st, Stream.look c lanes = .again st → st.positionsLeft ≤ c.remaining := by
  rcases h.position c rfl with ⟨rfl, hlanes⟩
  have hend : c.offset < byteLength c.text + 1 := by
    have := c.offset_le_byteLength_text
    omega
  rw [Stream.look]
  cases hm : leftmost (lanes.map (Lane.refresh c)) with
  | none =>
      rw [hlanes.map_refresh]
      exact ⟨sound_left rules c, hend, by simp⟩
  | some m =>
      rcases h.reaches_of_leftmost hm with ⟨hstart, hstop⟩
      have hle := hstart.offset_le
      rw [hlanes.map_refresh]
      -- An empty match may lie where the scan stands; it is the step behind it
      -- that moves the scan on.
      by_cases hempty : m.start.offset = m.stop.offset
      · simp only [hempty, if_true]
        cases hnext : m.start.next? with
        | none =>
            refine ⟨sound_left rules c, hend, ?_⟩
            rintro st ⟨⟩
            exact Nat.zero_le _
        | some xd =>
            rcases xd with ⟨x, d⟩
            have hlt := Cursor.offset_lt_of_next? hnext
            have hless := Cursor.remaining_of_next? hnext
            have hremaining := hstart.remaining_le
            refine ⟨sound_moved rules (hstart.trans (Cursor.reaches_of_next? hnext)),
              Nat.lt_of_le_of_lt hle hlt, ?_⟩
            rintro st ⟨⟩
            simp only [positionsLeft, Option.map_some]
            omega
      · have hlt := Nat.lt_of_le_of_ne hstop.offset_le hempty
        simp only [hempty, if_false]
        exact ⟨sound_moved rules (hstart.trans hstop), Nat.lt_of_le_of_lt hle hlt, by simp⟩

/-- A call leaves a scan sound, however many positions it looks at. -/
theorem Sound.nextWithin {st : Stream} (h : Sound rules s st) (fuel : Nat) :
    Sound rules s (nextWithin fuel st).2 := by
  induction fuel generalizing st with
  | zero => exact h
  | succ fuel ih =>
      rcases st with ⟨_ | c, lanes⟩
      · exact h
      · have hbehind := h.look.1
        cases hlook : Stream.look c lanes with
        | answer found st =>
            rw [hlook] at hbehind
            simpa only [Stream.nextWithin, hlook, Look.behind] using hbehind
        | again st =>
            rw [hlook] at hbehind
            simpa only [Stream.nextWithin, hlook, Look.behind] using ih hbehind

/-- A call leaves a scan sound. -/
theorem Sound.next {st : Stream} (h : Sound rules s st) : Sound rules s st.next.2 :=
  h.nextWithin st.positionsLeft

/-! ## The tokens -/

/-- A token is a piece of the text that is not empty and can be cut out. -/
theorem slice?_of_mem_tokens {t : Tokenizer} {tok : Token} (h : tok ∈ t.tokens s) :
    tok.start < tok.stop ∧ tok.stop ≤ byteLength s ∧
      slice? s tok.start tok.stop = some (tok.text s) := by
  rcases Tokenizer.exists_of_mem_tokens h with ⟨u, w, v, rfl, hne, hstart, hstop⟩
  have hpos : 0 < byteLength w := by
    have hlength := List.length_pos_iff.2 hne
    have hle := length_le_byteLength w
    omega
  refine ⟨by omega, ?_, ?_⟩
  · rw [hstop, byteLength_append, byteLength_append]
    omega
  · rw [Token.text, hstart, hstop, slice?_append, slice_append]

end Stream
end JsonTint
