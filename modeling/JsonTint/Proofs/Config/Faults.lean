import JsonTint.Config.Shape

/-!
# The faults of a config file

A field of a config file is refused exactly if it does not have the documented
shape, and the first field that is refused is reported.  The same holds of the
fields of a theme and of the elements of a row.

Main results:

- Theorem `ofValue_eq_error_iff` and theorem `ofEntries_eq_error_iff`: the first
  fault is reported.
- Theorem `forall_not_fieldFault_iff`: what has the documented shape has no fault.
- Theorem `exists_ofEntries_eq_ok_iff`: the files that are read.
-/

namespace JsonTint

/-! ## Names of settings -/

namespace ThemePart

theorem named_eq : named = all.map fun part => (part.name, part) := rfl

theorem names_eq : names = all.map name := rfl

/-- A part is listed under its name only. -/
theorem mem_named_iff {s : String} {part : ThemePart} :
    (s, part) ∈ named ↔ s = part.name := by
  rw [named_eq, List.mem_map]
  constructor
  · rintro ⟨_, -, h⟩
    cases h
    rfl
  · rintro rfl
    exact ⟨part, mem_all part, rfl⟩

theorem ofName?_name (part : ThemePart) : ofName? part.name = some part := by
  rcases part with cls | - | - | -
  · cases cls <;> rfl
  all_goals rfl

/-- Nothing is found exactly by what is no name of a part. -/
theorem ofName?_eq_none_iff {s : String} : ofName? s = none ↔ s ∉ names := by
  rw [ofName?, List.find?_eq_none, names_eq, List.mem_map]
  constructor
  · rintro h ⟨part, hpart, rfl⟩
    exact h part hpart (beq_self_eq_true _)
  · intro h part hpart heq
    exact h ⟨part, hpart, beq_iff_eq.1 heq⟩

/-- A name that is found is that of the part. -/
theorem ofName?_eq_some_iff {s : String} {part : ThemePart} :
    ofName? s = some part ↔ s = part.name := by
  constructor
  · intro h
    have hfound := List.find?_some h
    exact (beq_iff_eq.1 hfound).symm
  · rintro rfl
    exact ofName?_name part

/-- Different parts have different names. -/
theorem name_inj {part q : ThemePart} : part.name = q.name ↔ part = q := by
  constructor
  · intro h
    have hsome := ofName?_name part
    rw [h, ofName?_name] at hsome
    exact (Option.some.inj hsome).symm
  · rintro rfl
    rfl

end ThemePart

/-! ## Faults -/

theorem Toml.Value.isText_iff {v : Toml.Value} : v.IsText ↔ ∃ w, v = .string w := by
  constructor
  · rintro ⟨w⟩
    exact ⟨w, rfl⟩
  · rintro ⟨w, rfl⟩
    exact .string w

namespace ThemeSettings

/-- A string is read as its text, and nothing else is. -/
theorem text_eq_ok_iff {v : Toml.Value} {w : String} : text v = .ok w ↔ v = .string w := by
  cases v <;> simp [text]

/-- Any other value is refused as being of the wrong type. -/
theorem text_eq_error_iff {v : Toml.Value} {fault : ConfigFault} :
    text v = .error fault ↔ TextFault v fault := by
  have hfault : TextFault v fault ↔ ¬ v.IsText ∧ fault = .wrongType v .string := by
    constructor
    · rintro ⟨h⟩
      exact ⟨h, rfl⟩
    · rintro ⟨h, rfl⟩
      exact .wrongType h
  rw [hfault, Toml.Value.isText_iff]
  cases v <;> simp [text, eq_comm]

/-- A field of a theme is refused for its fault, whatever was read before. -/
theorem addField_eq_error_iff {s : ThemeSettings} {field : String × Toml.Value}
    {fault : ConfigFault} : s.addField field = .error fault ↔ ThemeFieldFault field fault := by
  rcases field with ⟨name, v⟩
  unfold addField
  cases hname : ThemePart.ofName? name with
  | none =>
      have hunknown := ThemePart.ofName?_eq_none_iff.1 hname
      simp only
      constructor
      · intro h
        cases h
        exact .unknown hunknown
      · intro h
        cases h with
        | unknown => rfl
        | value hknown => exact (hunknown hknown).elim
  | some part =>
      have hknown : name ∈ ThemePart.names := Classical.not_not.1 fun hunknown => by
        rw [ThemePart.ofName?_eq_none_iff.2 hunknown] at hname
        contradiction
      simp only
      rw [bind_pure_eq_error_iff, text_eq_error_iff]
      constructor
      · exact .value hknown
      · intro h
        cases h with
        | unknown hunknown => exact (hunknown hknown).elim
        | value _ h => exact h

/-- So is an element of a row. -/
theorem addElement_eq_error_iff {s : ThemeSettings} {element : ThemePart × Toml.Value}
    {fault : ConfigFault} : s.addElement element = .error fault ↔ TextFault element.2 fault := by
  rw [addElement, bind_pure_eq_error_iff, text_eq_error_iff]

/-- Each of two rows that are paired up is cut to the length of the other one. -/
theorem map_zip_eq_take {α β : Type} (as : List α) (bs : List β) :
    (as.zip bs).map (·.1) = as.take bs.length ∧ (as.zip bs).map (·.2) = bs.take as.length := by
  induction as generalizing bs with
  | nil => exact ⟨List.take_nil.symm, rfl⟩
  | cons a as ih =>
      cases bs with
      | nil => exact ⟨rfl, List.take_nil.symm⟩
      | cons b bs =>
          rw [List.zip_cons_cons, List.map_cons, List.map_cons, (ih bs).1, (ih bs).2]
          exact ⟨rfl, rfl⟩

/-- The first fault in a value for a theme is reported. -/
theorem ofValue_eq_error_iff {v : Toml.Value} {fault : ConfigFault} :
    ofValue v = .error fault ↔ ThemeFault v fault := by
  cases v with
  | table fields =>
      have hfields : ofValue (.table fields) = .error fault ↔
          FirstFault ThemeFieldFault fields fault :=
        foldlM_eq_error_iff (f := addField) fun s field fault => addField_eq_error_iff
      rw [hfields]
      constructor
      · exact .table
      · rintro ⟨h⟩
        exact h
  | array items =>
      have hitems : ofValue (.array items) = .error fault ↔
          FirstFault (fun element => TextFault element.2) (ThemePart.all.zip items) fault :=
        foldlM_eq_error_iff (f := addElement) fun s element fault => addElement_eq_error_iff
      rw [hitems, ← firstFault_map (f := Prod.snd), (map_zip_eq_take _ _).2]
      constructor
      · exact .array
      · intro h
        cases h with
        | array h => exact h
  | dateTime s | string s | integer i | float x | boolean b =>
      constructor
      · intro h
        cases h
        constructor
      · rintro ⟨⟩
        rfl

end ThemeSettings

/-- The faults of a field, by its name. -/
theorem fieldFault_iff {name : String} {v : Toml.Value} {fault : ConfigFault} :
    FieldFault (name, v) fault ↔
      name = "output" ∧ TextFault v fault ∨ name = "theme" ∧ ThemeFault v fault ∨
        name ≠ "output" ∧ name ≠ "theme" ∧ fault = .unknownField name ["output", "theme"] := by
  constructor
  · rintro (⟨houtput, htheme⟩ | h | h)
    · exact Or.inr (Or.inr ⟨houtput, htheme, rfl⟩)
    · exact Or.inl ⟨rfl, h⟩
    · exact Or.inr (Or.inl ⟨rfl, h⟩)
  · rintro (⟨rfl, h⟩ | ⟨rfl, h⟩ | ⟨houtput, htheme, rfl⟩)
    · exact .output h
    · exact .theme h
    · exact .unknown houtput htheme

namespace Settings

/-- A field of the file is refused for its fault, whatever was read before. -/
theorem addField_eq_error_iff {s : Settings} {field : String × Toml.Value}
    {fault : ConfigFault} : s.addField field = .error fault ↔ FieldFault field fault := by
  rcases field with ⟨name, v⟩
  rw [fieldFault_iff]
  unfold addField
  by_cases houtput : name = "output"
  · subst houtput
    rw [if_pos rfl, bind_pure_eq_error_iff, ThemeSettings.text_eq_error_iff]
    simp
  · rw [if_neg houtput]
    by_cases htheme : name = "theme"
    · subst htheme
      rw [if_pos rfl, bind_pure_eq_error_iff, ThemeSettings.ofValue_eq_error_iff]
      simp
    · rw [if_neg htheme]
      simp [houtput, htheme, throw, throwThe, MonadExceptOf.throw, eq_comm]

/-- The first fault in the fields of a file is reported. -/
theorem ofEntries_eq_error_iff {fields : Toml.Entries} {fault : ConfigFault} :
    ofEntries fields = .error fault ↔ FirstFault FieldFault fields fault :=
  foldlM_eq_error_iff (f := addField) fun _ _ _ => addField_eq_error_iff

end Settings

/-! ## Files that have the shape -/

/-- Only texts have no fault as texts. -/
theorem forall_not_textFault_iff {v : Toml.Value} : (∀ fault, ¬ TextFault v fault) ↔ v.IsText := by
  constructor
  · intro h
    exact Classical.not_not.1 fun hnot => h _ (.wrongType hnot)
  · rintro hv fault ⟨h⟩
    exact h hv

/-- A field of a theme without a fault is a text under a name of a part. -/
theorem forall_not_themeFieldFault_iff {field : String × Toml.Value} :
    (∀ fault, ¬ ThemeFieldFault field fault) ↔ field.1 ∈ ThemePart.names ∧ field.2.IsText := by
  rw [← forall_not_textFault_iff]
  constructor
  · intro h
    have hknown : field.1 ∈ ThemePart.names := Classical.not_not.1 fun hnot => h _ (.unknown hnot)
    exact ⟨hknown, fun fault hfault => h fault (.value hknown hfault)⟩
  · rintro ⟨hknown, h⟩ fault (hunknown | ⟨-, hfault⟩)
    · exact hunknown hknown
    · exact h fault hfault

/-- A value without a fault has the documented shape of a theme. -/
theorem forall_not_themeFault_iff {v : Toml.Value} :
    (∀ fault, ¬ ThemeFault v fault) ↔ ThemeShape v := by
  constructor
  · intro h
    cases v with
    | table fields =>
        exact .table fun field hfield => forall_not_themeFieldFault_iff.1
          (forall_not_firstFault_iff.1 (fun fault hfault => h fault (.table hfault)) field hfield)
    | array items =>
        exact .array fun v hv => forall_not_textFault_iff.1
          (forall_not_firstFault_iff.1 (fun fault hfault => h fault (.array hfault)) v hv)
    | dateTime s => exact (h _ .dateTime).elim
    | string s => exact (h _ .string).elim
    | integer i => exact (h _ .integer).elim
    | float x => exact (h _ .float).elim
    | boolean b => exact (h _ .boolean).elim
  · intro h fault hfault
    cases h with
    | table h =>
        cases hfault with
        | table hfirst =>
            exact forall_not_firstFault_iff.2
              (fun field hfield => forall_not_themeFieldFault_iff.2 (h field hfield)) fault hfirst
    | array h =>
        cases hfault with
        | array hfirst =>
            exact forall_not_firstFault_iff.2
              (fun v hv => forall_not_textFault_iff.2 (h v hv)) fault hfirst

/-- The shape of a field, by its name. -/
theorem fieldShape_iff {name : String} {v : Toml.Value} :
    FieldShape (name, v) ↔ name = "output" ∧ v.IsText ∨ name = "theme" ∧ ThemeShape v := by
  constructor
  · rintro (h | h)
    · exact Or.inl ⟨rfl, h⟩
    · exact Or.inr ⟨rfl, h⟩
  · rintro (⟨rfl, h⟩ | ⟨rfl, h⟩)
    · exact .output h
    · exact .theme h

/-- A field that has the documented shape is one that has no fault. -/
theorem forall_not_fieldFault_iff {field : String × Toml.Value} :
    (∀ fault, ¬ FieldFault field fault) ↔ FieldShape field := by
  rcases field with ⟨name, v⟩
  simp only [fieldFault_iff, fieldShape_iff]
  by_cases houtput : name = "output"
  · subst houtput
    simp [forall_not_textFault_iff]
  · by_cases htheme : name = "theme"
    · subst htheme
      simp [forall_not_themeFault_iff]
    · simp [houtput, htheme]

/-- A value gives theme settings exactly if it has the documented shape. -/
theorem ThemeSettings.exists_ofValue_eq_ok_iff {v : Toml.Value} :
    (∃ s, ofValue v = .ok s) ↔ ThemeShape v := by
  rw [exists_eq_ok_iff, ← forall_not_themeFault_iff]
  simp only [ne_eq, ofValue_eq_error_iff]

/-- A file is read exactly if all its fields have the documented shape. -/
theorem Settings.exists_ofEntries_eq_ok_iff {fields : Toml.Entries} :
    (∃ s, ofEntries fields = .ok s) ↔ ∀ field ∈ fields, FieldShape field := by
  simp only [exists_eq_ok_iff, ne_eq, ofEntries_eq_error_iff, forall_not_firstFault_iff,
    forall_not_fieldFault_iff]

end JsonTint
