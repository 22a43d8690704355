import JsonTint.Proofs.Json.Escaping
import JsonTint.Proofs.Json.Spelling

/-!
# JSON texts are read lexeme by lexeme

On a spelling of a JSON value the scanner takes each lexeme of the grammar as
one token and nothing else.  A spelled value is read whatever stands before and
behind it, as long as no word character stands before it and what stands behind
it ends a value.

Main results:

- Theorem `merge_lex_of_reads`: a row that is read as it stands is the row of
  its text.
- Theorem `ValueSpelled.readsBefore` and its companions: each part of a spelling
  is read as it stands.
- Theorem `json_tokens_of_textSpelled`: the tokens of a spelled value are its
  lexemes.
-/

namespace JsonTint
namespace Json

open Html Segment

/-! ## Rows that are read as they stand -/

/-- Behind the character `previous`, each token of the row is the lexeme at its
place, and no lexeme begins in a gap. -/
def Reads : Option Char → List Segment → Prop
  | _, [] => True
  | previous, gap w :: ps => isInertText previous w = true ∧ Reads (w.getLast?.or previous) ps
  | previous, token cls s :: ps =>
    lexeme? previous (s ++ join ps) = some (s.length, cls) ∧ Reads s.getLast? ps

/-- A row that is read as it stands is the row of its text. -/
theorem merge_lex_of_reads {previous : Option Char} {ps : List Segment}
    (h : Reads previous ps) (g : List Char) :
    merge g (lex previous (join ps)) = merge g ps := by
  induction ps generalizing previous g with
  | nil => rw [join_nil, lex_nil]
  | cons p ps ih =>
      cases p with
      | gap w => rw [join_cons, text, merge_lex_append h.1, ih h.2, merge]
      | token cls s =>
          have hne : s ++ join ps ≠ [] := by
            have hpos := lexeme?_pos h.1
            intro hnil
            rw [(List.append_eq_nil_iff.1 hnil).1] at hpos
            exact Nat.lt_irrefl _ hpos
          rw [join_cons, text, lex_of_lexeme? hne h.1, List.take_left, List.drop_left, merge,
            merge, ih h.2]

/-- The row is read as it stands behind a character that is not a word character
and before a row that ends a value. -/
def ReadsBefore (ps : List Segment) : Prop :=
  ∀ previous qs, previous.any Assertion.isWordChar = false → EndsValue (join qs) →
    (∀ previous, Reads previous qs) → Reads previous (ps ++ qs)

/-! ## White space, brackets and commas -/

/-- No lexeme begins in white space. -/
theorem isInertText_of_all_isSpace {w : List Char} (hw : w.all isSpace = true)
    (previous : Option Char) : isInertText previous w = true := by
  induction w generalizing previous with
  | nil => rfl
  | cons c w ih =>
      rw [List.all_cons, Bool.and_eq_true] at hw
      have hinert : isInert previous c = true := by
        rcases isSpace_iff.1 hw.1 with rfl | rfl | rfl | rfl <;> simp [isInert]
      rw [isInertText, hinert, ih hw.2, Bool.and_self]

/-- White space is not a word character. -/
theorem any_getLast?_or {w : List Char} (hw : w.all isSpace = true) {previous : Option Char}
    (h : previous.any Assertion.isWordChar = false) :
    (w.getLast?.or previous).any Assertion.isWordChar = false := by
  cases hlast : w.getLast? with
  | none => exact h
  | some c =>
      have hc := List.all_eq_true.1 hw c (List.mem_of_getLast? hlast)
      exact (isGap_of_isSpace hc).2.1

/-- The brackets and the comma. -/
def isPunctuation (c : Char) : Bool :=
  c == '[' || c == ']' || c == '{' || c == '}' || c == ','

/-- No lexeme begins with a bracket or a comma, and neither is a word character. -/
theorem isInertText_of_isPunctuation {c : Char} (hc : isPunctuation c = true)
    (previous : Option Char) :
    isInertText previous [c] = true ∧ Assertion.isWordChar c = false := by
  have hcases : (((c = '[' ∨ c = ']') ∨ c = '{') ∨ c = '}') ∨ c = ',' := by
    simpa [isPunctuation] using hc
  rcases hcases with (((rfl | rfl) | rfl) | rfl) | rfl <;> simp [isInertText, isInert] <;> decide

/-- White space behind which a row is read. -/
theorem reads_gap {w : List Char} (hw : w.all isSpace = true) {ps : List Segment}
    (h : ∀ previous, Reads previous ps) (previous : Option Char) :
    Reads previous (gap w :: ps) := by
  constructor
  · exact isInertText_of_all_isSpace hw previous
  · exact h _

/-- A bracket or a comma behind which a row is read. -/
theorem reads_punctuation {c : Char} (hc : isPunctuation c = true) {ps : List Segment}
    (h : ∀ previous, previous.any Assertion.isWordChar = false → Reads previous ps)
    (previous : Option Char) : Reads previous (gap [c] :: ps) := by
  rcases isInertText_of_isPunctuation hc previous with ⟨hinert, hword⟩
  constructor
  · exact hinert
  · exact h _ hword

/-! ## Ways to put rows together -/

variable {ps qs : List Segment}

theorem readsBefore_nil : ReadsBefore [] := by
  intro previous qs _ _ hqs
  exact hqs previous

/-- White space may stand before a row. -/
theorem ReadsBefore.space_cons {w : List Char} (hw : w.all isSpace = true)
    (h : ReadsBefore ps) : ReadsBefore (gap w :: ps) := by
  intro previous qs hprevious hends hqs
  constructor
  · exact isInertText_of_all_isSpace hw previous
  · exact h _ qs (any_getLast?_or hw hprevious) hends hqs

/-- White space may stand behind a row. -/
theorem ReadsBefore.append_space {w : List Char} (hw : w.all isSpace = true)
    (h : ReadsBefore ps) : ReadsBefore (ps ++ [gap w]) := by
  intro previous qs hprevious hends hqs
  rw [List.append_assoc]
  exact h _ (gap w :: qs) hprevious (hends.append hw) (reads_gap hw hqs)

/-- A comma stands between two rows. -/
theorem ReadsBefore.comma (hps : ReadsBefore ps) (hqs : ReadsBefore qs) :
    ReadsBefore (ps ++ gap [','] :: qs) := by
  intro previous rs hprevious hends hrs
  rw [List.append_assoc]
  apply hps _ (gap [','] :: (qs ++ rs)) hprevious
  · exact endsValue_cons (Or.inl rfl) _
  · apply reads_punctuation (by decide)
    intro previous hprevious
    exact hqs _ rs hprevious hends hrs

/-- Brackets stand around a row. -/
theorem ReadsBefore.brackets {left right : Char} (hleft : isPunctuation left = true)
    (hright : right = ']' ∨ right = '}') (h : ReadsBefore ps) :
    ReadsBefore (gap [left] :: ps ++ [gap [right]]) := by
  have hpunctuation : isPunctuation right = true := by
    rcases hright with rfl | rfl <;> rfl
  intro previous qs _ _ hqs
  rw [List.append_assoc]
  apply reads_punctuation hleft
  intro previous hprevious
  apply h _ (gap [right] :: qs) hprevious (endsValue_cons (Or.inr hright) _)
  apply reads_punctuation hpunctuation
  exact fun previous _ => hqs previous

/-- A lexeme before the end of a value. -/
theorem readsBefore_token {cls : TokenClass} {s : List Char}
    (h : ∀ previous rest, previous.any Assertion.isWordChar = false → EndsValue rest →
      lexeme? previous (s ++ rest) = some (s.length, cls)) :
    ReadsBefore [token cls s] := by
  intro previous qs hprevious hends hqs
  constructor
  · exact h previous (join qs) hprevious hends
  · exact hqs _

/-- A key before a row. -/
theorem ReadsBefore.key_cons {units : List UInt16} {name tail : List Char}
    (hname : StringSpelled units name) (htail : tail.all isSpace = true) (h : ReadsBefore ps) :
    ReadsBefore (token .key (quote name ++ tail ++ [':']) :: ps) := by
  intro previous qs _ hends hqs
  constructor
  · exact lexeme?_key hname htail _ previous
  · rw [List.getLast?_concat]
    exact h _ qs (by decide) hends hqs

/-! ## Spellings are read as they stand -/

mutual

/-- A spelled value is read as it stands. -/
theorem ValueSpelled.readsBefore {v : Value} {ps : List Segment} (h : ValueSpelled v ps) :
    ReadsBefore ps :=
  match h with
  | .null => readsBefore_token fun _ _ hprevious hends =>
      lexeme?_keyword (by decide : "null" ∈ keywords) hprevious hends.not_isWordChar
  | .boolTrue => readsBefore_token fun _ _ hprevious hends =>
      lexeme?_keyword (by decide : "true" ∈ keywords) hprevious hends.not_isWordChar
  | .boolFalse => readsBefore_token fun _ _ hprevious hends =>
      lexeme?_keyword (by decide : "false" ∈ keywords) hprevious hends.not_isWordChar
  | .number hnumber => readsBefore_token fun previous _ _ hends =>
      lexeme?_of_numberSpelled hnumber hends previous
  | .string hstring => readsBefore_token fun previous _ _ hends =>
      lexeme?_quote hstring hends previous
  | .array helements => helements.readsBefore.brackets rfl (Or.inl rfl)
  | .object hmembers => hmembers.readsBefore.brackets rfl (Or.inr rfl)

/-- A spelled value with white space around it is read as it stands. -/
theorem TextSpelled.readsBefore {v : Value} {ps : List Segment} (h : TextSpelled v ps) :
    ReadsBefore ps :=
  match h with
  | .text hbefore hvalue hbehind => (hvalue.readsBefore.space_cons hbefore).append_space hbehind

/-- Spelled elements are read as they stand. -/
theorem ElementsSpelled.readsBefore {vs : List Value} {ps : List Segment}
    (h : ElementsSpelled vs ps) : ReadsBefore ps :=
  match h with
  | .none hw => readsBefore_nil.space_cons hw
  | .one htext => htext.readsBefore
  | .cons htext helements => htext.readsBefore.comma helements.readsBefore

/-- A spelled member is read as it stands. -/
theorem MemberSpelled.readsBefore {m : List UInt16 × Value} {ps : List Segment}
    (h : MemberSpelled m ps) : ReadsBefore ps :=
  match h with
  | .member hbefore hname htail htext =>
      (htext.readsBefore.key_cons hname htail).space_cons hbefore

/-- Spelled members are read as they stand. -/
theorem MembersSpelled.readsBefore {ms : List (List UInt16 × Value)} {ps : List Segment}
    (h : MembersSpelled ms ps) : ReadsBefore ps :=
  match h with
  | .none hw => readsBefore_nil.space_cons hw
  | .one hmember => hmember.readsBefore
  | .cons hmember hmembers => hmember.readsBefore.comma hmembers.readsBefore

end

/-! ## The lexemes of a value -/

mutual

/-- The tokens of a spelled value are one for each of its lexemes. -/
theorem ValueSpelled.tokenClasses_eq {v : Value} {ps : List Segment} (h : ValueSpelled v ps) :
    tokenClasses ps = v.classes :=
  match h with
  | .null => by rw [Value.classes]; rfl
  | .boolTrue => by rw [Value.classes]; rfl
  | .boolFalse => by rw [Value.classes]; rfl
  | .number _ => by rw [Value.classes]; rfl
  | .string _ => by rw [Value.classes]; rfl
  | .array helements => by simp [Value.classes, helements.tokenClasses_eq]
  | .object hmembers => by simp [Value.classes, hmembers.tokenClasses_eq]

/-- White space around a value adds no token. -/
theorem TextSpelled.tokenClasses_eq {v : Value} {ps : List Segment} (h : TextSpelled v ps) :
    tokenClasses ps = v.classes :=
  match h with
  | .text _ hvalue _ => by simp [hvalue.tokenClasses_eq]

/-- The tokens of spelled elements are those of the elements in turn. -/
theorem ElementsSpelled.tokenClasses_eq {vs : List Value} {ps : List Segment}
    (h : ElementsSpelled vs ps) : tokenClasses ps = vs.flatMap Value.classes :=
  match h with
  | .none _ => rfl
  | .one htext => by simp [htext.tokenClasses_eq]
  | .cons htext helements => by
      rw [List.flatMap_cons, ← htext.tokenClasses_eq, ← helements.tokenClasses_eq]
      simp

/-- The tokens of a spelled member are the key and those of the value. -/
theorem MemberSpelled.tokenClasses_eq {m : List UInt16 × Value} {ps : List Segment}
    (h : MemberSpelled m ps) : tokenClasses ps = .key :: m.2.classes :=
  match h with
  | .member _ _ _ htext => by simp [htext.tokenClasses_eq]

/-- The tokens of spelled members are those of the members in turn. -/
theorem MembersSpelled.tokenClasses_eq {ms : List (List UInt16 × Value)} {ps : List Segment}
    (h : MembersSpelled ms ps) :
    tokenClasses ps = ms.flatMap fun m => .key :: m.2.classes :=
  match h with
  | .none _ => rfl
  | .one hmember => by simp [hmember.tokenClasses_eq]
  | .cons hmember hmembers => by
      rw [List.flatMap_cons, ← hmember.tokenClasses_eq, ← hmembers.tokenClasses_eq]
      simp

end

/-! ## The tokens of a spelled value -/

/-- The segments of a spelled value are its row with the gaps joined. -/
theorem segments_of_textSpelled {v : Value} {ps : List Segment} (h : TextSpelled v ps) :
    Tokenizer.json.segments (join ps) = merge [] ps := by
  have hreads : Reads none ps := by
    have hwhole := h.readsBefore none [] rfl endsValue_nil fun _ => trivial
    rwa [List.append_nil] at hwhole
  rw [segments_json, merge_lex_of_reads hreads]

/-- The tokens of a spelled value are its lexemes, each in its place and with its
class, as many as the value has.  Highlighting escapes the text and puts a `span`
with the name of its class around each lexeme, and nothing around the gaps. -/
theorem json_tokens_of_textSpelled {v : Value} {ps : List Segment} (h : TextSpelled v ps) :
    Tokenizer.json.tokens (join ps) = tokensFrom 0 ps ∧
      (Tokenizer.json.tokens (join ps)).map Token.cls = v.classes ∧
      highlightText Tokenizer.json (join ps) =
        ps.flatMap fun
          | .gap s => escapeText s
          | .token cls s =>
            "<span class=\"".toList ++ cls.name.toList ++ "\">".toList ++ escapeText s ++
              "</span>".toList := by
  have htokens : Tokenizer.json.tokens (join ps) = tokensFrom 0 ps := by
    rw [tokens_json_eq_tokensFrom_segments, segments_of_textSpelled h, tokensFrom_merge]
    rfl
  refine ⟨htokens, ?_, ?_⟩
  · rw [htokens, map_cls_tokensFrom, h.tokenClasses_eq]
  · have hgap : ∀ s t, renderSegment ((gap (s ++ t)).mapText escapeText) =
        renderSegment ((gap s).mapText escapeText) ++
          renderSegment ((gap t).mapText escapeText) := fun s t => escapeText_append s t
    rw [highlightText, segments_escapeText, segments_of_textSpelled h, List.flatMap_map,
      flatMap_merge hgap]
    apply List.flatMap_congr
    intro p _
    cases p <;> rfl

/-- The text ` {"\u00e9" : [-1.5e2, "x"]}` spells an object with an array, and
its tokens are the name with its colon, the number and the string, each in a
`span` of its own. -/
theorem json_tokens_of_textSpelled_nested :
    TextSpelled (.object [([0xe9], .array [.number (-150), .string [0x78]])])
        [gap [' '], gap ['{'], gap [], token .key "\"\\u00e9\" :".toList, gap [' '], gap ['['],
          gap [], token .number "-1.5e2".toList, gap [], gap [','], gap [' '],
          token .string "\"x\"".toList, gap [], gap [']'], gap [], gap ['}'], gap []] ∧
      Tokenizer.json.tokens " \x7b\"\\u00e9\" : [-1.5e2, \"x\"]\x7d".toList =
        [⟨2, 12, .key⟩, ⟨14, 20, .number⟩, ⟨22, 25, .string⟩] ∧
      highlightText Tokenizer.json " \x7b\"\\u00e9\" : [-1.5e2, \"x\"]\x7d".toList =
        (" \x7b<span class=\"key\">\"\\u00e9\" :</span> " ++
          "[<span class=\"number\">-1.5e2</span>, " ++
          "<span class=\"string\">\"x\"</span>]\x7d").toList := by
  have hwhole : WholeSpelled ['1'] := .digits (by decide) rfl rfl
  have hfraction : FractionSpelled ['5'] ".5".toList := .digits (by decide) rfl
  have hexponent : ExponentSpelled (1 * natOfDigits 10 ['2']) "e2".toList :=
    .digits (Or.inl rfl) .none (by decide) rfl
  have hnumber : NumberSpelled (-150) "-1.5e2".toList :=
    .parts .minus hwhole hfraction hexponent
  have hstring : StringSpelled [0x78] ['x'] :=
    @StringSpelled.plain [] [] 'x' (by decide) (by decide) (by decide) .nil
  have hname : StringSpelled [0xe9] "\\u00e9".toList :=
    @StringSpelled.unicode [] [] "00e9".toList rfl rfl .nil
  have hempty : ([] : List Char).all isSpace = true := rfl
  have hspace : [' '].all isSpace = true := rfl
  have hfirst := TextSpelled.text hempty (.number hnumber) hempty
  have hsecond := TextSpelled.text hspace (.string hstring) hempty
  have harray := ValueSpelled.array (.cons hfirst (.one hsecond))
  have hmember := MemberSpelled.member hempty hname hspace (.text hspace harray hempty)
  have htext := TextSpelled.text hspace (.object (.one hmember)) hempty
  rcases json_tokens_of_textSpelled htext with ⟨htokens, -, hhighlight⟩
  exact ⟨htext, htokens, hhighlight.trans (by decide)⟩

end Json
end JsonTint
