import JsonTint.Proofs.Ansi.Sequence
import JsonTint.Proofs.Json.Characters
import JsonTint.Proofs.Segment.Wrap
import JsonTint.Proofs.Tokenizer.Tiling
import JsonTint.Sink

/-!
# Terminal text is read back

The escape sequences of highlighted text are the only ones in it if the text
has no escape character, so a reader finds the tokens in their colours and what
stands between them in none, and the text in both together.

Main results:

- Theorem `decodeFrom_sequence`: a reader takes the text up to a sequence as a
  run and goes on behind the sequence.
- Theorem `decode_flatMap_merge`: the runs of a row are those of its segments.
- Theorem `map_segmentRun_segments`: so they are the tokens of the text and what
  stands between them.
- Theorem `stripSequences_highlightWith`: without its sequences highlighted text
  is the text.
- Theorem `highlightWith_faithful`: all of this at once, what a device gets, and
  that no JSON text has an escape character.
-/

namespace JsonTint
namespace Ansi

open Segment Text

/-! ## Reading up to a sequence -/

/-- Text without the character `x` belongs to the first piece between such
characters. -/
theorem splitOn_append_of_not_mem {x : Char} {w : List Char} (hw : x ∉ w) (s : List Char) :
    (w ++ s).splitOn x = (s.splitOn x).modifyHead (w ++ ·) := by
  induction w with
  | nil =>
      rw [List.nil_append]
      cases s.splitOn x <;> rfl
  | cons c w ih =>
      rw [List.mem_cons, not_or] at hw
      have hc : (c == x) = false := beq_eq_false_iff_ne.2 (Ne.symm hw.1)
      rw [List.cons_append, List.splitOn_cons_eq_if_modifyHead, hc, ih hw.2]
      cases s.splitOn x <;> rfl

/-- A reader takes the text up to a sequence as a run and goes on behind the
sequence. -/
theorem decodeFrom_sequence {color? next? : Option Components}
    {g parameters : List Char} {order : Order} {run : Run} (hg : escapeChar ∉ g)
    (hparameters : parameters.all isParameter = true) (horder : order? parameters = some order)
    (hrun : endRun? g color? order = some (run, next?)) (s : List Char) :
    decodeFrom color? (g ++ escapeChar :: (sequenceBody parameters ++ s)) =
      (decodeFrom next? s).map (run :: ·) := by
  have hbody := escapeChar_not_mem_sequenceBody hparameters
  rcases List.exists_cons_of_ne_nil (List.splitOn_ne_nil escapeChar s) with
    ⟨first, pieces, hpieces⟩
  have hsplit : (g ++ escapeChar :: (sequenceBody parameters ++ s)).splitOn escapeChar =
      g :: (sequenceBody parameters ++ first) :: pieces := by
    rw [List.splitOn_append_cons_self_of_not_mem hg, splitOn_append_of_not_mem hbody, hpieces]
    rfl
  rw [decodeFrom, hsplit, decodeFrom, hpieces]
  cases color? <;>
    simp only [readRuns, splitSequence?_append hparameters, horder, hrun, Option.bind_eq_bind,
      Option.bind_some]

/-- Text without escape characters and in no colour is one run. -/
theorem decodeFrom_of_not_mem {g : List Char} (hg : escapeChar ∉ g) :
    decodeFrom none g = some [.plain g] := by
  rw [decodeFrom, List.splitOn_eq_singleton hg]
  rfl

/-- A token behind a gap is read as two runs. -/
theorem decodeFrom_token {g w : List Char} (hg : escapeChar ∉ g) (hw : escapeChar ∉ w)
    (color : Color) (s : List Char) :
    decodeFrom none (g ++ (setColor color ++ (w ++ (reset ++ s)))) =
      (decodeFrom none s).map fun runs => .plain g :: .colored color.components w :: runs := by
  rw [setColor_eq, reset_eq, List.cons_append, List.cons_append,
    decodeFrom_sequence hg (all_isParameter_colorParameters _) (order?_setColor _) rfl,
    decodeFrom_sequence hw (by decide) order?_reset rfl, Option.map_map]
  rfl

/-! ## Reading a row -/

/-- A segment as it is written. -/
def writeSegment (theme : Theme) (p : Segment) : List Char :=
  (segmentChunks theme p).flatten

/-- A segment as it is read. -/
def segmentRun (theme : Theme) : Segment → Run
  | .gap s => .plain s
  | .token cls s => .colored (theme.color cls).components s

/-- The runs of a row with its gaps joined are those of its segments. -/
theorem decode_flatMap_merge (theme : Theme) {g : List Char} {ps : List Segment}
    (hg : escapeChar ∉ g) (hps : escapeChar ∉ join ps) :
    decode ((merge g ps).flatMap (writeSegment theme)) =
      some ((merge g ps).map (segmentRun theme)) := by
  induction ps generalizing g with
  | nil =>
      have hwrite : (merge g []).flatMap (writeSegment theme) = g := by
        simp [merge, writeSegment, segmentChunks]
      rw [hwrite, decode, decodeFrom_of_not_mem hg]
      rfl
  | cons p ps ih =>
      rw [join_cons, List.mem_append, not_or] at hps
      cases p with
      | gap w =>
          apply ih _ hps.2
          rw [List.mem_append, not_or]
          exact ⟨hg, hps.1⟩
      | token cls w =>
          have hwrite : (merge g (token cls w :: ps)).flatMap (writeSegment theme) =
              g ++ (setColor (theme.color cls) ++ (w ++ (reset ++
                (merge [] ps).flatMap (writeSegment theme)))) := by
            simp [merge, writeSegment, segmentChunks]
          have hw : escapeChar ∉ w := hps.1
          have hrest := ih List.not_mem_nil hps.2
          rw [decode] at hrest
          rw [hwrite, decode, decodeFrom_token hg hw, hrest]
          rfl

/-- The runs of a row with its gaps joined are those of the text it spells, with
the tokens it has. -/
theorem map_segmentRun_merge (theme : Theme) (before g : List Char) (ps : List Segment) :
    (merge g ps).map (segmentRun theme) =
      runsFrom theme (before ++ (g ++ join ps)) (byteLength before)
        (tokensFrom (byteLength before + byteLength g) ps) := by
  -- The whole text stays in the statement since runs are cut out of it by their
  -- offsets; a token moves what has been read into `before`.
  induction ps generalizing before g with
  | nil =>
      have hslice := slice_append before g []
      rw [← byteLength_append, List.append_nil] at hslice
      simp only [merge, List.map_cons, List.map_nil, segmentRun, tokensFrom, runsFrom, join_nil,
        List.append_nil, hslice]
  | cons p ps ih =>
      cases p with
      | gap w =>
          have h := ih before (g ++ w)
          rw [byteLength_append, ← Nat.add_assoc, List.append_assoc] at h
          exact h
      | token cls w =>
          have hgap := slice_append before g (w ++ join ps)
          have htext := slice_append (before ++ g) w (join ps)
          have h := ih (before ++ g ++ w) []
          rw [byteLength_append, List.append_assoc] at htext
          rw [byteLength_append, byteLength_append, byteLength_nil, Nat.add_zero,
            List.nil_append, List.append_assoc, List.append_assoc] at h
          simp only [merge, List.map_cons, segmentRun, tokensFrom, runsFrom, join_cons, text,
            Token.text, hgap, htext, h]

/-- The runs of a row spell what the row does. -/
theorem flatMap_text_map_segmentRun (theme : Theme) (ps : List Segment) :
    (ps.map (segmentRun theme)).flatMap Run.text = join ps := by
  rw [List.flatMap_map]
  congr 1
  funext p
  cases p <;> rfl

/-- The segments of a text are read as its tokens and what stands between them. -/
theorem map_segmentRun_segments (t : Tokenizer) (theme : Theme) (s : List Char) :
    (t.segments s).map (segmentRun theme) = runsFrom theme s 0 (t.tokens s) := by
  rcases t.exists_row_segments s with ⟨ps, hmerge, hjoin, htokens, -⟩
  have hruns := map_segmentRun_merge theme [] [] ps
  rw [List.nil_append, List.nil_append, byteLength_nil, hjoin] at hruns
  rw [hmerge, htokens, hruns]

/-- The runs of a text spell it. -/
theorem flatMap_text_runsFrom (t : Tokenizer) (theme : Theme) (s : List Char) :
    (runsFrom theme s 0 (t.tokens s)).flatMap Run.text = s := by
  rw [← map_segmentRun_segments, flatMap_text_map_segmentRun, t.join_segments]

/-! ## Highlighted text -/

variable {t : Tokenizer} {theme : Theme} {s : String}

/-- A highlighted text is what is written for its segments. -/
theorem toList_highlightWith (t : Tokenizer) (theme : Theme) (s : String) :
    (highlightWith t theme s).toList = (t.segments s.toList).flatMap (writeSegment theme) := by
  rw [highlightWith, String.toList_ofList, chunks, ← List.flatMap_id, List.flatMap_assoc]
  simp only [List.flatMap_id]
  rfl

/-- The runs of highlighted text are the tokens, in the colours of their classes,
and what stands between them. -/
theorem decode_highlightWith (hs : escapeChar ∉ s.toList) :
    decode (highlightWith t theme s).toList =
      some (runsFrom theme s.toList 0 (t.tokens s.toList)) := by
  rcases t.exists_row_segments s.toList with ⟨ps, hmerge, hjoin, -, -⟩
  rw [← hjoin] at hs
  rw [toList_highlightWith, ← map_segmentRun_segments, hmerge,
    decode_flatMap_merge theme List.not_mem_nil hs]

/-! ## Deleting the sequences -/

/-- Sequences begin with the escape character. -/
theorem piecesBeginWith_sequenceLength? : PiecesBeginWith escapeChar sequenceLength? := by
  intro c s hc
  rw [sequenceLength?, if_neg hc]

/-- A sequence is found as a whole. -/
theorem isPiece_sequence {parameters : List Char} (h : parameters.all isParameter = true) :
    IsPiece sequenceLength? (escapeChar :: sequenceBody parameters) := by
  refine ⟨List.cons_ne_nil _ _, fun s => ?_⟩
  rw [List.cons_append, sequenceLength?, if_pos rfl, splitSequence?_append h]
  simp [sequenceBody]

/-- Tokens are written between sequences. -/
theorem wraps_writeSegment (theme : Theme) :
    Wraps escapeChar sequenceLength? (writeSegment theme) where
  begins := piecesBeginWith_sequenceLength?
  gap s := List.append_nil s
  token cls := by
    refine ⟨setColor (theme.color cls), reset, ?_, ?_, fun s => ?_⟩
    · rw [setColor_eq]
      exact isPiece_sequence (all_isParameter_colorParameters _)
    · have hreset : ['0'].all isParameter = true := by decide
      exact isPiece_sequence hreset
    · simp [writeSegment, segmentChunks]

/-- Highlighted text without its sequences is the text. -/
theorem stripSequences_highlightWith (hs : escapeChar ∉ s.toList) :
    stripSequences (highlightWith t theme s).toList = s.toList := by
  have hjoin := t.join_segments s.toList
  rw [← hjoin] at hs
  rw [toList_highlightWith, stripSequences, (wraps_writeSegment theme).replacePieces_flatMap hs,
    hjoin]

/-! ## What is written -/

/-- The bytes of what is written piece by piece are those of highlighted text. -/
theorem flatMap_toBytes_chunks (t : Tokenizer) (theme : Theme) (s : String) :
    (chunks t theme s.toList).flatMap toBytes = toBytes (highlightWith t theme s).toList := by
  rw [highlightWith, String.toList_ofList, toBytes_flatten]

/-- A device is handed the bytes of highlighted text. -/
theorem write_eq (t : Tokenizer) (theme : Theme) (s : String) (device : Sink) :
    write t theme s device = device.write (toBytes (highlightWith t theme s).toList) := by
  rw [write, Sink.writeAll_eq_write, ← flatMap_toBytes_chunks, List.flatMap_def]

/-- A device with room for highlighted text gets all of it. -/
theorem write_of_le {device : Sink}
    (h : device.received.length + byteLength (highlightWith t theme s).toList ≤ device.capacity) :
    write t theme s device =
      (.ok (), { device with
        received := device.received ++ toBytes (highlightWith t theme s).toList }) := by
  have hroom : (toBytes (highlightWith t theme s).toList).length ≤ device.room := by
    rw [length_toBytes, Sink.room]
    omega
  rw [write_eq, Sink.write_of_le hroom]

/-- Highlighted text is UTF-8, so reading its bytes changes nothing. -/
theorem highlight_eq_highlightWith (theme : Theme) (s : String) :
    highlight theme s = highlightWith Tokenizer.json theme s := by
  rw [highlight, flatMap_toBytes_chunks, decodeLossy_toBytes, String.ofList_toList]

/-- Highlighted text of a text without escape characters is read as its tokens, in
the colours of their classes, and what stands between them, and is the text once
the sequences are deleted.  It is what a device with room for it gets, and for
the rules of JSON also the result as a text.  No JSON text has an escape
character. -/
theorem highlightWith_faithful (t : Tokenizer) (theme : Theme) :
    (∀ s : String, escapeChar ∉ s.toList →
      decode (highlightWith t theme s).toList =
          some (runsFrom theme s.toList 0 (t.tokens s.toList)) ∧
        (runsFrom theme s.toList 0 (t.tokens s.toList)).flatMap Run.text = s.toList ∧
        stripSequences (highlightWith t theme s).toList = s.toList) ∧
      (∀ (s : String) (device : Sink),
        device.received.length + byteLength (highlightWith t theme s).toList ≤ device.capacity →
        write t theme s device =
          (.ok (), { device with
            received := device.received ++ toBytes (highlightWith t theme s).toList })) ∧
      (∀ s : String, highlight theme s = highlightWith Tokenizer.json theme s) ∧
      ∀ (v : Json.Value) (ps : List Segment), Json.TextSpelled v ps → escapeChar ∉ join ps := by
  refine ⟨fun s hs => ⟨decode_highlightWith hs, flatMap_text_runsFrom t theme s.toList,
    stripSequences_highlightWith hs⟩, fun s device => write_of_le,
    highlight_eq_highlightWith theme, fun v ps h => ?_⟩
  exact Json.not_mem_of_textSpelled h (by decide)

/-- The text `"[0m":12,` has two tokens with nothing between them, the first of
which looks like the end of a colour.  Highlighted, both are read in their
colours, and a device for 49 bytes gets all of it. -/
theorem highlightWith_faithful_adjacent :
    escapeChar ∉ "\"[0m\":12,".toList ∧
      decode (highlightWith Tokenizer.json Theme.standard "\"[0m\":12,").toList =
        some [.plain [], .colored (255, 0, 0) "\"[0m\":".toList, .plain [],
          .colored (255, 140, 0) "12".toList, .plain [',']] ∧
      byteLength (highlightWith Tokenizer.json Theme.standard "\"[0m\":12,").toList ≤ 49 ∧
      (write Tokenizer.json Theme.standard "\"[0m\":12," ⟨49, []⟩).1.toOption = some () ∧
      Json.TextSpelled .null [gap [], token .null "null".toList, gap ['\n']] ∧
      escapeChar ∉ "null\n".toList := by
  have h := highlightWith_faithful Tokenizer.json Theme.standard
  have htext : escapeChar ∉ "\"[0m\":12,".toList := by decide
  have hroom : byteLength (highlightWith Tokenizer.json Theme.standard "\"[0m\":12,").toList ≤
      49 := by decide +kernel
  have hspelled : Json.TextSpelled .null [gap [], token .null "null".toList, gap ['\n']] :=
    .text rfl .null rfl
  refine ⟨htext, ?_, hroom, ?_, hspelled, h.2.2.2 _ _ hspelled⟩
  · rw [(h.1 _ htext).1]
    decide +kernel
  · rw [h.2.1 _ ⟨49, []⟩ (by rwa [List.length_nil, Nat.zero_add])]
    rfl

end Ansi
end JsonTint
