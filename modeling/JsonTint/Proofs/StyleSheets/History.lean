import JsonTint.StyleSheets.History
import Mathlib.Data.List.Induction

/-!
# A theme is installed at most once

Each operation adds at most one sheet, behind those that there are.  So at any
time the sheets of a page are those that have been added, and whether a theme is
installed depends on what has been added under its id.

Main results:

- Theorem `get?_eq_some_iff`: which sheet is found under an id.
- Theorem `sheets_perform` and theorem `sheets_eq_added`: what one operation adds,
  and what all of them have added.
- Theorem `themed_perform` and theorem `themed_ofOperations`: the sheet of the
  first theme, unless its id is used for something else.
- Theorem `install_at_most_once`: what holds after any operations.
-/

namespace JsonTint
namespace StyleSheets

variable {s : StyleSheets} {id css : String} {t : Theme} {op : Operation}

/-! ## Looking up a sheet -/

/-- The sheet that is found is the first one under its id. -/
theorem get?_eq_some_iff :
    s.get? id = some css ↔
      ∃ before after, s.sheets = before ++ ⟨id, css⟩ :: after ∧ ∀ sheet ∈ before, sheet.id ≠ id := by
  rw [get?, Option.map_eq_some_iff]
  constructor
  · rintro ⟨sheet, hfind, rfl⟩
    rcases List.find?_eq_some_iff_append.1 hfind with ⟨hid, before, after, hsplit, hbefore⟩
    rw [beq_iff_eq] at hid
    subst hid
    exact ⟨before, after, hsplit, by simpa using hbefore⟩
  · rintro ⟨before, after, hsplit, hbefore⟩
    refine ⟨⟨id, css⟩, ?_, rfl⟩
    rw [List.find?_eq_some_iff_append]
    exact ⟨beq_self_eq_true id, before, after, hsplit, by simpa using hbefore⟩

/-- An id is there if a sheet under it can be found. -/
theorem has_iff_exists_get? : s.has id = true ↔ ∃ css, s.get? id = some css := by
  rw [has, Option.isSome_iff_exists]

/-- An id is there if some sheet has it. -/
theorem has_iff : s.has id = true ↔ ∃ sheet ∈ s.sheets, sheet.id = id := by
  rw [has, get?, Option.isSome_map, List.find?_isSome]
  simp only [beq_iff_eq]

/-! ## One operation -/

/-- A theme is refused if there is a sheet under the id of themes. -/
theorem install_of_has (h : s.has themeId = true) (t : Theme) : s.install t = (false, s) := by
  rw [install, if_pos h]

/-- Otherwise its sheet is added. -/
theorem install_of_not_has (h : s.has themeId ≠ true) (t : Theme) :
    s.install t = (true, s.append themeId t.css) := by
  rw [install, if_neg h]

/-- A theme is installed exactly if its id is free. -/
theorem install_eq_true_iff : (s.install t).1 = true ↔ ∀ sheet ∈ s.sheets, sheet.id ≠ themeId := by
  by_cases h : s.has themeId = true
  · rw [install_of_has h]
    rcases has_iff.1 h with ⟨sheet, hmem, hid⟩
    exact iff_of_false Bool.false_ne_true fun hfree => hfree sheet hmem hid
  · rw [install_of_not_has h]
    rw [has_iff] at h
    exact iff_of_true rfl fun sheet hmem hid => h ⟨sheet, hmem, hid⟩

/-- A theme that is not installed leaves the sheets as they are. -/
theorem install_of_eq_false (h : (s.install t).1 = false) : (s.install t).2 = s := by
  by_cases hhas : s.has themeId = true
  · rw [install_of_has hhas]
  · rw [install_of_not_has hhas] at h
    contradiction

/-- What comes of an operation says which operation it was. -/
theorem operation_perform (s : StyleSheets) (op : Operation) : (s.perform op).1.operation = op := by
  cases op with
  | append => rfl
  | install t =>
      rw [perform]
      split <;> rfl

/-- An operation adds the sheet of its event behind the others, if there is one. -/
theorem sheets_perform (s : StyleSheets) (op : Operation) :
    (s.perform op).2.sheets = s.sheets ++ (s.perform op).1.sheet?.toList := by
  cases op with
  | append id css => rfl
  | install t =>
      by_cases h : s.has themeId = true
      · simp [perform, install_of_has h, Event.sheet?]
      · simp [perform, install_of_not_has h, Event.sheet?, append]

/-! ## All operations -/

namespace History

/-- One more operation is performed on what the others have left. -/
theorem ofOperations_append_singleton (ops : List Operation) (op : Operation) :
    ofOperations (ops ++ [op]) = (ofOperations ops).next op := by
  rw [ofOperations, List.foldl_append]
  rfl

/-- Each event has come of its operation. -/
theorem map_operation_events (ops : List Operation) :
    (ofOperations ops).events.map Event.operation = ops := by
  induction ops using List.reverseRecOn with
  | nil => rfl
  | append_singleton ops op ih =>
      rw [ofOperations_append_singleton, next, List.map_append, ih, List.map_singleton,
        operation_perform]

/-- The sheets are those that have been added. -/
theorem sheets_eq_added (ops : List Operation) :
    (ofOperations ops).sheets.sheets = (ofOperations ops).added := by
  induction ops using List.reverseRecOn with
  | nil => rfl
  | append_singleton ops op ih =>
      rw [ofOperations_append_singleton, next, sheets_perform, ih, added, added,
        List.filterMap_append]
      cases hsheet : ((ofOperations ops).sheets.perform op).1.sheet? <;> simp [hsheet]

/-- Each sheet has been added by an append or by a theme that was installed. -/
theorem size_eq (ops : List Operation) :
    (ofOperations ops).sheets.size =
      (ofOperations ops).events.countP Event.isAppended +
        (ofOperations ops).events.countP Event.isInstalled := by
  rw [size, sheets_eq_added, added]
  induction (ofOperations ops).events with
  | nil => rfl
  | cons event events ih =>
      rw [List.filterMap_cons, List.countP_cons, List.countP_cons]
      cases event <;> simp only [Event.sheet?, Event.isAppended, Event.isInstalled,
        List.length_cons, ih, if_true, Bool.false_eq_true, if_false] <;> omega

/-- Whatever is done later on, the sheets that are there stay in front. -/
theorem sheets_prefix_ofOperations (ops later : List Operation) :
    (ofOperations ops).sheets.sheets <+: (ofOperations (ops ++ later)).sheets.sheets := by
  induction later using List.reverseRecOn with
  | nil => simp
  | append_singleton later op ih =>
      rw [← List.append_assoc, ofOperations_append_singleton, next, sheets_perform]
      exact ih.trans (List.prefix_append _ _)

/-- At any time the sheets agree with what has come of the operations. -/
theorem consistent_ofOperations (ops : List Operation) : (ofOperations ops).Consistent where
  sheets := sheets_eq_added ops
  size := size_eq ops
  installs t := by rw [install_eq_true_iff, sheets_eq_added]
  refuses t := install_of_eq_false
  finds id css := by rw [get?_eq_some_iff, sheets_eq_added]
  has id := has_iff_exists_get?

end History

/-! ## The sheets under the id of themes -/

/-- A sheet that is appended is one under the id of themes if it has that id. -/
theorem themed_append (s : StyleSheets) (id css : String) :
    (s.append id css).themed = s.themed ++ if id = themeId then [⟨id, css⟩] else [] := by
  rw [themed, append, List.filter_append]
  by_cases hid : id = themeId <;> simp [themed, hid]

/-- There is no sheet under the id of themes exactly if that id is free. -/
theorem themed_eq_nil_iff : s.themed = [] ↔ s.has themeId ≠ true := by
  rw [themed, List.filter_eq_nil_iff, Ne, has_iff]
  simp

/-- Unless a sheet is appended under the id of themes, the first theme stays the
only one. -/
theorem themed_perform (hop : ∀ css, op ≠ .append themeId css) :
    (s.perform op).2.themed =
      if s.themed = [] then (op.theme?.map fun t => ⟨themeId, t.css⟩).toList else s.themed := by
  cases op with
  | append id css =>
      have hid : id ≠ themeId := by
        rintro rfl
        exact hop css rfl
      rw [perform, themed_append, if_neg hid, List.append_nil]
      split
      · assumption
      · rfl
  | install t =>
      by_cases h : s.has themeId = true
      · have hne : s.themed ≠ [] := fun hnil => themed_eq_nil_iff.1 hnil h
        rw [perform, install_of_has h, if_neg hne]
      · have hnil : s.themed = [] := themed_eq_nil_iff.2 h
        rw [perform, install_of_not_has h, if_pos hnil, themed_append, hnil]
        rfl

/-- Without such a sheet there is the one of the first theme. -/
theorem themed_ofOperations {ops : List Operation} (hops : ∀ css, .append themeId css ∉ ops) :
    (History.ofOperations ops).sheets.themed =
      ((ops.filterMap Operation.theme?).head?.map fun t => ⟨themeId, t.css⟩).toList := by
  induction ops using List.reverseRecOn with
  | nil => rfl
  | append_singleton ops op ih =>
      have hop : ∀ css, op ≠ .append themeId css := by
        rintro css rfl
        exact hops css (by simp)
      rw [History.ofOperations_append_singleton, History.next, themed_perform hop,
        ih fun css hmem => hops css (List.mem_append_left _ hmem), List.filterMap_append]
      cases ops.filterMap Operation.theme? with
      | nil => cases op <;> rfl
      | cons t rest => rfl

/-- On a page that had no sheets, themes are installed at most once.  After any
operations the sheets agree with what has come of each of them, and later
operations leave them in front.  If no sheet is appended under the id of themes,
then there is one under it as soon as a theme is to be installed, that of the
first such theme. -/
theorem install_at_most_once (ops : List Operation) :
    (History.ofOperations ops).events.map Event.operation = ops ∧
      (History.ofOperations ops).Consistent ∧
      (∀ later, (History.ofOperations ops).sheets.sheets <+:
        (History.ofOperations (ops ++ later)).sheets.sheets) ∧
      ∀ t later, (∀ css, .append themeId css ∉ ops) →
        ops.filterMap Operation.theme? = t :: later →
        (History.ofOperations ops).sheets.themed = [⟨themeId, t.css⟩] := by
  refine ⟨History.map_operation_events ops, History.consistent_ofOperations ops,
    History.sheets_prefix_ofOperations ops, ?_⟩
  intro t later hops hthemes
  rw [themed_ofOperations hops, hthemes]
  rfl

/-- A theme between two sheets under one id of their own, and one that comes too
late. -/
theorem install_at_most_once_refused :
    (History.ofOperations [.append "a" "b", .install .standard, .append "a" "c",
        .install { key := .black }]).sheets.themed = [⟨themeId, Theme.standard.css⟩] ∧
      (History.ofOperations [.append "a" "b", .install .standard]).sheets.install
          { key := .black } =
        (false, (History.ofOperations [.append "a" "b", .install .standard]).sheets) := by
  have hother : "a" ≠ themeId := by decide
  constructor
  · refine (install_at_most_once _).2.2.2 Theme.standard [{ key := .black }] ?_ rfl
    intro css
    simp [Ne.symm hother]
  · have hconsistent :=
      (install_at_most_once [.append "a" "b", .install Theme.standard]).2.1
    have hrefused : ((History.ofOperations [.append "a" "b",
        .install .standard]).sheets.install { key := .black }).1 = false := by
      decide
    exact Prod.ext hrefused (hconsistent.refuses _ hrefused)

end StyleSheets
end JsonTint
