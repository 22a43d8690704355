import JsonTint.Theme

/-!
# Style sheets of a page

A page holds style sheets in the order they were added, each under an id.  Ids
may repeat, and looking one up finds the sheet that was added first.  The sheet
of a theme is installed under a fixed id unless that id is taken.
-/

namespace JsonTint

/-- A style sheet and the id it is known by. -/
structure StyleSheet where
  id : String
  css : String
  deriving DecidableEq, Repr

/-- The style sheets of a page, the first one first. -/
structure StyleSheets where
  sheets : List StyleSheet := []
  deriving DecidableEq, Repr

namespace StyleSheets

/-- The id under which themes are installed. -/
def themeId : String :=
  "json-highlight"

/-- No style sheets. -/
def empty : StyleSheets where
  sheets := []

/-- The number of style sheets. -/
def size (s : StyleSheets) : Nat :=
  s.sheets.length

/-- Whether there are none. -/
def isEmpty (s : StyleSheets) : Bool :=
  s.sheets.isEmpty

/-- The CSS text of the first sheet with an id. -/
def get? (s : StyleSheets) (id : String) : Option String :=
  (s.sheets.find? fun sheet => sheet.id == id).map (·.css)

/-- Whether some sheet has an id. -/
def has (s : StyleSheets) (id : String) : Bool :=
  (s.get? id).isSome

/-- Adds a sheet behind the others. -/
def append (s : StyleSheets) (id css : String) : StyleSheets where
  sheets := s.sheets ++ [⟨id, css⟩]

/-- Adds the sheet of a theme unless its id is taken, and says whether it was
added. -/
def install (s : StyleSheets) (t : Theme) : Bool × StyleSheets :=
  if s.has themeId then (false, s) else (true, s.append themeId t.css)

/-- A sheet as an HTML element. -/
def sheetHtml (sheet : StyleSheet) : String :=
  "<style type=\"text/css\" id=\"" ++ sheet.id ++ "\">" ++ sheet.css ++ "</style>"

/-- The sheets as HTML elements, one on each line. -/
def html (s : StyleSheets) : String :=
  "\n".intercalate (s.sheets.map sheetHtml)

end StyleSheets
end JsonTint
