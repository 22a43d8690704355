import JsonTint.StyleSheets

/-!
# What has been done to the style sheets of a page

Themes are installed and sheets are appended in any order.  A history holds the
sheets that there are, together with what has come of each operation so far.
-/

namespace JsonTint
namespace StyleSheets

/-- What can be done to the style sheets of a page. -/
inductive Operation where
  | install (theme : Theme)
  | append (id css : String)
  deriving DecidableEq, Repr

/-- The theme that an operation is to install. -/
def Operation.theme? : Operation → Option Theme
  | install t => some t
  | append .. => none

/-- What has come of an operation.  A theme is refused if its id is taken. -/
inductive Event where
  | installed (theme : Theme)
  | refused (theme : Theme)
  | appended (id css : String)
  deriving DecidableEq, Repr

namespace Event

/-- The operation that an event has come of. -/
def operation : Event → Operation
  | installed t => .install t
  | refused t => .install t
  | appended id css => .append id css

/-- The sheet that has been added. -/
def sheet? : Event → Option StyleSheet
  | installed t => some ⟨themeId, t.css⟩
  | refused _ => none
  | appended id css => some ⟨id, css⟩

/-- A theme has been installed. -/
def isInstalled : Event → Bool
  | installed _ => true
  | _ => false

/-- A sheet has been appended under an id of its own. -/
def isAppended : Event → Bool
  | appended .. => true
  | _ => false

end Event

/-- Does one thing to the sheets, and says what has come of it. -/
def perform (s : StyleSheets) : Operation → Event × StyleSheets
  | .install t =>
    match s.install t with
    | (true, s') => (.installed t, s')
    | (false, s') => (.refused t, s')
  | .append id css => (.appended id css, s.append id css)

/-- The style sheets of a page, and what has come of the operations on them. -/
structure History where
  events : List Event := []
  sheets : StyleSheets := empty

namespace History

/-- The history with one operation more. -/
def next (h : History) (op : Operation) : History where
  events := h.events ++ [(h.sheets.perform op).1]
  sheets := (h.sheets.perform op).2

/-- The history of a page that has no sheets in the beginning. -/
def ofOperations (ops : List Operation) : History :=
  ops.foldl next {}

/-- The sheets that have been added, in this order. -/
def added (h : History) : List StyleSheet :=
  h.events.filterMap Event.sheet?

/-- The sheets that there are agree with what has come of the operations. -/
structure Consistent (h : History) : Prop where
  /-- No sheet that has been added is lost, and none has moved. -/
  sheets : h.sheets.sheets = h.added
  /-- There is one for each append and for each theme that was installed. -/
  size : h.sheets.size = h.events.countP Event.isAppended + h.events.countP Event.isInstalled
  /-- A theme will be installed exactly if no sheet has been added under its id. -/
  installs : ∀ t, (h.sheets.install t).1 = true ↔ ∀ sheet ∈ h.added, sheet.id ≠ themeId
  /-- A theme that is refused changes nothing. -/
  refuses : ∀ t, (h.sheets.install t).1 = false → (h.sheets.install t).2 = h.sheets
  /-- Of the sheets under one id, the one that was added first is found. -/
  finds : ∀ id css, h.sheets.get? id = some css ↔
    ∃ before after, h.added = before ++ ⟨id, css⟩ :: after ∧ ∀ sheet ∈ before, sheet.id ≠ id
  /-- An id is there exactly if a sheet is found under it. -/
  has : ∀ id, h.sheets.has id = true ↔ ∃ css, h.sheets.get? id = some css

end History

/-- The sheets under the id of themes. -/
def themed (s : StyleSheets) : List StyleSheet :=
  s.sheets.filter (·.id == themeId)

end StyleSheets
end JsonTint
