import JsonTint.CommandLine.Run
import JsonTint.Proofs.Config.Frame
import JsonTint.Proofs.Html.Lossless
import JsonTint.Proofs.Html.Markup

/-!
# No markup gets into a page from outside

A page has a fixed skeleton of tags.  The style sheet of an accepted
configuration holds no less-than sign and so no tag, and a highlighted fragment
only those that stand around its tokens.

Main results:

- Theorem `toList_renderPage`: a page as a row of tags and texts.
- Theorem `tags_renderPage`: the tags of a page are those of its skeleton and of
  its fragment.
- Theorem `renderPage_markup`: for every accepted configuration and every text,
  the page has no other tags, and its style sheet and its fragment are found
  between theirs.
-/

namespace JsonTint

open Html Html.Markup Text

namespace Html

/-! ## Fragments as rows of tags and texts -/

/-- What stands in the brackets of the tag that opens a token. -/
def spanName (cls : TokenClass) : List Char :=
  "span class=\"".toList ++ cls.name.toList ++ ['"']

/-- A segment of escaped text as tags and texts. -/
def segmentMarkup : Segment → List Markup
  | .gap w => [text w]
  | .token cls w => [tag (spanName cls), text w, tag "/span".toList]

/-- The tags around the tokens of a highlighted text. -/
def tokenTags (ts : List Token) : List (List Char) :=
  ts.flatMap fun t =>
    ["<span class=\"".toList ++ t.cls.name.toList ++ "\">".toList, "</span>".toList]

/-- The tag that opens a token. -/
theorem bracket_spanName (cls : TokenClass) : bracket (spanName cls) = openTag cls := by
  cases cls <;> decide

/-- The tags and texts of a segment make up its HTML form. -/
theorem html_segmentMarkup (p : Segment) : html (segmentMarkup p) = renderSegment p := by
  cases p with
  | gap w => exact List.append_nil w
  | token cls w =>
      have hclose : bracket "/span".toList = closeTag := by decide
      simp only [segmentMarkup, html_cons, render, bracket_spanName, hclose, html_nil,
        renderSegment, List.append_nil, List.append_assoc]

/-- So do those of a row of segments. -/
theorem html_flatMap_segmentMarkup (ps : List Segment) :
    html (ps.flatMap segmentMarkup) = ps.flatMap renderSegment := by
  induction ps with
  | nil => rfl
  | cons p ps ih => rw [List.flatMap_cons, html_append, html_segmentMarkup, ih, List.flatMap_cons]

/-- The tags of a row of segments are those around its tokens. -/
theorem tagsOf_flatMap_segmentMarkup (last : Nat) (ps : List Segment) :
    tagsOf (ps.flatMap segmentMarkup) = tokenTags (Segment.tokensFrom last ps) := by
  induction ps generalizing last with
  | nil => rfl
  | cons p ps ih =>
      cases p with
      | gap w => exact ih _
      | token cls w =>
          have hclose : bracket "/span".toList = closeTag := by decide
          rw [List.flatMap_cons, tagsOf_append, ih (last + byteLength w), Segment.tokensFrom,
            tokenTags, tokenTags, List.flatMap_cons]
          simp only [segmentMarkup, tagsOf_tag_cons, tagsOf_text_cons, tagsOf_nil,
            bracket_spanName, hclose]
          rfl

/-- The tags and texts of a segment are plain if its text is a run. -/
theorem isPlain_segmentMarkup {p : Segment} (h : IsRun p.text) :
    ∀ m ∈ segmentMarkup p, m.IsPlain := by
  cases p with
  | gap w =>
      intro m hm
      rw [segmentMarkup, List.mem_singleton] at hm
      subst hm
      exact h.1
  | token cls w =>
      have hname : '<' ∉ spanName cls ∧ '>' ∉ spanName cls := by
        cases cls <;> decide
      have hclose : '<' ∉ "/span".toList ∧ '>' ∉ "/span".toList := by decide
      intro m hm
      simp only [segmentMarkup, List.mem_cons, List.not_mem_nil, or_false] at hm
      rcases hm with rfl | rfl | rfl
      · exact hname
      · exact h.1
      · exact hclose

/-- A highlighted text as a row of tags and texts. -/
def fragmentRow (t : Tokenizer) (s : List Char) : List Markup :=
  (t.segments (escapeText s)).flatMap segmentMarkup

/-- The row of a highlighted text makes up that text. -/
theorem html_fragmentRow (t : Tokenizer) (s : List Char) :
    html (fragmentRow t s) = highlightText t s :=
  html_flatMap_segmentMarkup _

/-- Its tags are those around the tokens of the escaped text. -/
theorem tagsOf_fragmentRow (t : Tokenizer) (s : List Char) :
    tagsOf (fragmentRow t s) = tokenTags (t.tokens (escapeText s)) := by
  rw [fragmentRow, tagsOf_flatMap_segmentMarkup 0, t.tokensFrom_segments]

/-- The tags and texts of a highlighted text are plain. -/
theorem isPlain_fragmentRow (t : Tokenizer) (s : List Char) :
    ∀ m ∈ fragmentRow t s, m.IsPlain := by
  intro m hm
  rcases List.mem_flatMap.1 hm with ⟨p, hp, hm⟩
  exact isPlain_segmentMarkup (isRun_of_mem_segments t s p hp) m hm

/-- The only tags in a highlighted text are those around its tokens. -/
theorem tag_not_mem_fragmentRow {name : List Char} (hspan : ∀ cls, name ≠ spanName cls)
    (hclose : name ≠ "/span".toList) (t : Tokenizer) (s : List Char) :
    tag name ∉ fragmentRow t s := by
  intro hm
  rcases List.mem_flatMap.1 hm with ⟨p, -, hm⟩
  cases p with
  | gap w => simp [segmentMarkup] at hm
  | token cls w =>
      simp only [segmentMarkup, List.mem_cons, tag.injEq, reduceCtorEq, List.not_mem_nil,
        or_false, false_or] at hm
      rcases hm with hm | hm
      · exact hspan cls hm
      · exact hclose hm

end Html

namespace Page

/-! ## The skeleton -/

/-- The tags of a page with one style sheet, up to the fragment. -/
def tagsBefore : List (List Char) :=
  ["<!DOCTYPE html>", "<html>", "<head>", "<meta charset=\"utf-8\">",
    "<style type=\"text/css\" id=\"json-highlight\">", "</style>", "</head>", "<body>",
    "<pre>"].map String.toList

/-- The tags of a page behind the fragment. -/
def tagsBehind : List (List Char) :=
  ["</pre>", "</body>", "</html>"].map String.toList

/-- The text between two tags of the skeleton that stand on lines of their own. -/
def lineBreak : Markup :=
  text ['\n']

/-- What stands in the brackets of the tag before the style sheet. -/
def styleName : List Char :=
  "style type=\"text/css\" id=\"json-highlight\"".toList

/-- A page up to its style sheet. -/
def headRow : List Markup :=
  [tag "!DOCTYPE html".toList, lineBreak, tag "html".toList, lineBreak, tag "head".toList,
    lineBreak, tag "meta charset=\"utf-8\"".toList, lineBreak]

/-- What stands between the style sheet and the fragment. -/
def bodyRow : List Markup :=
  [lineBreak, tag "/head".toList, lineBreak, tag "body".toList, lineBreak]

/-- What stands behind the fragment. -/
def tailRow : List Markup :=
  [lineBreak, tag "/body".toList, lineBreak, tag "/html".toList, lineBreak]

theorem isPlain_headRow : ∀ m ∈ headRow, m.IsPlain := by
  decide +kernel

theorem isPlain_bodyRow : ∀ m ∈ bodyRow, m.IsPlain := by
  decide

theorem isPlain_tailRow : ∀ m ∈ tailRow, m.IsPlain := by
  decide

/-- The style sheet of a theme stands between its tags. -/
theorem toList_styleLines (theme : Theme) :
    (styleLines (StyleSheets.empty.install theme).2).toList =
      bracket styleName ++ (theme.css.toList ++ (bracket "/style".toList ++ ['\n'])) := by
  have hsheet : styleLines (StyleSheets.empty.install theme).2 =
      "<style type=\"text/css\" id=\"" ++ "json-highlight" ++ "\">" ++ theme.css ++ "</style>" ++
        "\n" := rfl
  have hopen : "<style type=\"text/css\" id=\"".toList ++ "json-highlight".toList ++
      "\">".toList = bracket styleName := by decide
  have hclose : "</style>".toList = bracket "/style".toList := by decide
  rw [hsheet]
  simp only [String.toList_append, hopen, hclose, List.append_assoc]
  rfl

/-- A page as a row of tags and texts. -/
theorem toList_renderPage (theme : Theme) (s : String) :
    (CommandLine.renderPage theme s).toList =
      html headRow ++ (bracket styleName ++ (theme.css.toList ++ (bracket "/style".toList ++
        (html bodyRow ++ (bracket "pre".toList ++ (highlightText .json s.toList ++
          (bracket "/pre".toList ++ html tailRow))))))) := by
  have hhead : "<!DOCTYPE html>\n<html>\n<head>\n<meta charset=\"utf-8\">\n".toList =
      html headRow := by decide +kernel
  have hbody : ['\n'] ++ "</head>\n<body>\n<pre>".toList =
      html bodyRow ++ bracket "pre".toList := by decide
  have htail : "</pre>\n</body>\n</html>\n".toList =
      bracket "/pre".toList ++ html tailRow := by decide
  have hfragment : (highlight s).toList = highlightText .json s.toList :=
    String.toList_ofList
  unfold CommandLine.renderPage render
  rw [String.toList_append, String.toList_append, String.toList_append, String.toList_append,
    hhead, toList_styleLines, hfragment, htail, ← List.append_assoc (html bodyRow), ← hbody]
  simp only [List.append_assoc]

/-! ## The tags of a page -/

section Accepted

variable {theme : Theme} (hcss : '<' ∉ theme.css.toList)
include hcss

/-- The tags of a page are those of its skeleton and of its fragment. -/
theorem tags_renderPage (s : String) :
    tags (CommandLine.renderPage theme s).toList =
      tagsBefore ++ tokenTags (Tokenizer.json.tokens (escapeText s.toList)) ++ tagsBehind := by
  have hbefore : tagsBefore = tagsOf headRow ++ bracket styleName :: bracket "/style".toList ::
      (tagsOf bodyRow ++ [bracket "pre".toList]) := by decide +kernel
  have hbehind : tagsBehind = bracket "/pre".toList :: (tagsOf tailRow ++ tags []) := by decide
  have htail : html tailRow = html tailRow ++ [] := (List.append_nil _).symm
  rw [toList_renderPage, tags_html_append isPlain_headRow,
    tags_bracket_append (by decide) (by decide), tags_append_of_not_mem hcss,
    tags_bracket_append (by decide) (by decide), tags_html_append isPlain_bodyRow,
    tags_bracket_append (by decide) (by decide), ← html_fragmentRow,
    tags_html_append (isPlain_fragmentRow _ _), tagsOf_fragmentRow,
    tags_bracket_append (by decide) (by decide), htail, tags_html_append isPlain_tailRow,
    hbefore, hbehind]
  simp only [List.append_assoc, List.cons_append, List.nil_append]

/-- The style sheet stands between its tags. -/
theorem between?_style (s : String) :
    between? (bracket styleName) (bracket "/style".toList)
      (CommandLine.renderPage theme s).toList = some theme.css.toList := by
  have hright (rest : List Char) :
      splitFirst? (bracket "/style".toList)
          (theme.css.toList ++ (bracket "/style".toList ++ rest)) =
        some (theme.css.toList, rest) := by
    rw [splitFirst?_bracket_append hcss, splitFirst?_append (bracket_ne_nil _),
      Option.map_some, List.append_nil]
  rw [toList_renderPage]
  exact between?_of_splitFirst?
    (splitFirst?_html_append isPlain_headRow (by decide) (by decide) _) (hright _)

/-- The fragment stands between its tags. -/
theorem between?_pre (s : String) :
    between? (bracket "pre".toList) (bracket "/pre".toList)
      (CommandLine.renderPage theme s).toList = some (highlightText .json s.toList) := by
  have hplain : ∀ m ∈ headRow ++ tag styleName :: text theme.css.toList ::
      tag "/style".toList :: bodyRow, m.IsPlain := by
    intro m hm
    simp only [List.mem_append, List.mem_cons] at hm
    rcases hm with hm | rfl | rfl | rfl | hm
    · exact isPlain_headRow m hm
    · decide
    · exact hcss
    · decide
    · exact isPlain_bodyRow m hm
  have hleft : tag "pre".toList ∉ headRow ++ tag styleName :: text theme.css.toList ::
      tag "/style".toList :: bodyRow := by
    simp only [List.mem_append, List.mem_cons, not_or]
    exact ⟨by decide, by decide, by simp, by decide, by decide⟩
  have hright : tag "/pre".toList ∉ fragmentRow .json s.toList := by
    apply tag_not_mem_fragmentRow
    · intro cls
      cases cls <;> decide
    · decide
  have hpage : (CommandLine.renderPage theme s).toList =
      html (headRow ++ tag styleName :: text theme.css.toList :: tag "/style".toList :: bodyRow) ++
        (bracket "pre".toList ++ (html (fragmentRow .json s.toList) ++
          (bracket "/pre".toList ++ html tailRow))) := by
    rw [toList_renderPage, html_fragmentRow]
    simp only [html_append, html_cons, Markup.render, List.append_assoc]
  rw [hpage, ← html_fragmentRow]
  exact between?_of_splitFirst?
    (splitFirst?_html_append hplain (by decide) hleft _)
    (splitFirst?_html_append (isPlain_fragmentRow _ _) (by decide) hright _)

end Accepted

/-- A tag that does not belong to tokens is not found around them. -/
theorem count_tokenTags {w : List Char}
    (hopen : ∀ cls : TokenClass,
      "<span class=\"".toList ++ cls.name.toList ++ "\">".toList ≠ w)
    (hclose : "</span>".toList ≠ w) (ts : List Token) : (tokenTags ts).count w = 0 := by
  rw [List.count_eq_zero]
  intro hw
  rcases List.mem_flatMap.1 hw with ⟨t, -, hw⟩
  rw [List.mem_cons, List.mem_singleton] at hw
  rcases hw with rfl | rfl
  · exact hopen t.cls rfl
  · exact hclose rfl

/-- For every accepted configuration and every text, each less-than sign of the
page begins a tag of the skeleton or, between `<pre>` and `</pre>`, one of the
two tags around a token.  So the style element and the fragment each end once,
and what stands in them is the style sheet and the highlighted text. -/
theorem renderPage_markup {c : String} {config : Config} (h : Config.parse c = .ok config)
    (s : String) :
    tags (CommandLine.renderPage config.theme s).toList =
        tagsBefore ++ tokenTags (Tokenizer.json.tokens (escapeText s.toList)) ++ tagsBehind ∧
      occurrences "</style>".toList (CommandLine.renderPage config.theme s).toList = 1 ∧
      occurrences "</pre>".toList (CommandLine.renderPage config.theme s).toList = 1 ∧
      between? "<style type=\"text/css\" id=\"json-highlight\">".toList "</style>".toList
        (CommandLine.renderPage config.theme s).toList = some config.theme.css.toList ∧
      between? "<pre>".toList "</pre>".toList (CommandLine.renderPage config.theme s).toList =
        some (highlight s).toList := by
  have hcss := less_not_mem_css_of_parse h
  have htags := tags_renderPage hcss s
  have hstyle : bracket styleName =
      "<style type=\"text/css\" id=\"json-highlight\">".toList := by decide
  have hstyleEnd : bracket "/style".toList = "</style>".toList := by decide
  have hpre : bracket "pre".toList = "<pre>".toList := by decide
  have hpreEnd : bracket "/pre".toList = "</pre>".toList := by decide
  refine ⟨htags, ?_, ?_, ?_, ?_⟩
  · have hnone := count_tokenTags (w := "</style>".toList)
      (by intro cls; cases cls <;> decide) (by decide)
    rw [← hstyleEnd, occurrences_bracket (by decide), htags, hstyleEnd, List.count_append,
      List.count_append, hnone]
    decide +kernel
  · have hnone := count_tokenTags (w := "</pre>".toList)
      (by intro cls; cases cls <;> decide) (by decide)
    rw [← hpreEnd, occurrences_bracket (by decide), htags, hpreEnd, List.count_append,
      List.count_append, hnone]
    decide +kernel
  · rw [← hstyle, ← hstyleEnd]
    exact between?_style hcss s
  · rw [← hpre, ← hpreEnd, between?_pre hcss, highlight, highlightWith, String.toList_ofList]

/-- A margin with a greater-than sign and a key colour that is written with an
escape are accepted, and the page for `</pre>` has one end of its fragment. -/
theorem renderPage_markup_margin :
    Config.parse "[theme]\nmargin = \"2px > 1px\"\nkey = \"\\u0023abc\"" =
        .ok ⟨⟨none, { margin := some "2px > 1px", key := some "#abc" }⟩, .html,
          { frame := { margin := "2px > 1px" }, key := .rgb 170 187 204 }⟩ ∧
      occurrences "</pre>".toList (CommandLine.renderPage
        { frame := { margin := "2px > 1px" }, key := .rgb 170 187 204 } "</pre>").toList = 1 := by
  have hparse : Config.parse "[theme]\nmargin = \"2px > 1px\"\nkey = \"\\u0023abc\"" =
      .ok ⟨⟨none, { margin := some "2px > 1px", key := some "#abc" }⟩, .html,
        { frame := { margin := "2px > 1px" }, key := .rgb 170 187 204 }⟩ :=
    eq_ok_of_toOption (by decide +kernel)
  exact ⟨hparse, (renderPage_markup hparse "</pre>").2.2.1⟩

end Page
end JsonTint
