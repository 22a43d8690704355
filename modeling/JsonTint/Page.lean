import JsonTint.StyleSheets

/-!
# Standalone pages

A page is a complete HTML document around a highlighted fragment, with its
style sheets in the head.
-/

namespace JsonTint

/-- The lines of the head that hold style sheets; without sheets there are
none. -/
def Page.styleLines (sheets : StyleSheets) : String :=
  if sheets.isEmpty then "" else sheets.html ++ "\n"

/-- An HTML document that shows a fragment. -/
def Page.render (fragment : String) (sheets : StyleSheets) : String :=
  "<!DOCTYPE html>\n<html>\n<head>\n<meta charset=\"utf-8\">\n" ++ Page.styleLines sheets ++
    "</head>\n<body>\n<pre>" ++ fragment ++ "</pre>\n</body>\n</html>\n"

end JsonTint
