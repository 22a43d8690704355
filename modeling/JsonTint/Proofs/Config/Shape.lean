import Mathlib
import JsonTint.Proofs.Config.Faults
import JsonTint.Proofs.Config.Values
import JsonTint.Proofs.Toml.Distinct
import JsonTint.Proofs.Toml.Order

/-!
# Reading a config file follows its documented shape

A file that has the documented shape is read, and gives each setting the text
that it has in the file.  Of any other file the first fault is reported, with the
fields in the order of the document and the contents of the theme in its place.

Main results:

- Theorem `get_ofValue`: the texts that a value gives the parts of a theme.
- Theorem `of_ofEntries`: the settings are those of the file.
- Theorem `Rearranged.fieldShape` and theorem `Rearranged.given_iff`: the order of
  entries does not matter.
- Theorem `parse_documented`: reading a config file.
-/

namespace JsonTint

/-! ## The texts of the settings -/

/-- The text that stands at a key is the only one, if no key appears twice. -/
theorem some_eq_some_iff_mem {κ : Type} {items : List (κ × Toml.Value)} {k : κ} {v w : String}
    (hkeys : (items.map (·.1)).Nodup) (hmem : (k, .string v) ∈ items) :
    some v = some w ↔ (k, .string w) ∈ items := by
  constructor
  · intro h
    cases h
    exact hmem
  · intro hmem'
    cases List.inj_on_of_nodup_map hkeys hmem hmem' rfl
    rfl

namespace ThemeSettings

theorem get_empty (part : ThemePart) : ({} : ThemeSettings).get part = none := by
  rcases part with (_ | _ | _ | _ | _) | _ | _ | _ <;> rfl

/-- A text that is set is that of its part, and the other parts keep theirs. -/
theorem get_set (s : ThemeSettings) (part q : ThemePart) (w : String) :
    (s.set part w).get q = if part = q then some w else s.get q := by
  rcases part with (_ | _ | _ | _ | _) | _ | _ | _ <;>
    rcases q with (_ | _ | _ | _ | _) | _ | _ | _ <;> rfl

theorem get_set_self (s : ThemeSettings) (part : ThemePart) (w : String) :
    (s.set part w).get part = some w :=
  (s.get_set part part w).trans (if_pos rfl)

theorem get_set_of_ne {s : ThemeSettings} {part q : ThemePart} {w : String} (hne : part ≠ q) :
    (s.set part w).get q = s.get q :=
  (s.get_set part q w).trans (if_neg hne)

/-- Theme settings are the texts of all parts. -/
theorem ext_get {s t : ThemeSettings} (h : ∀ part, s.get part = t.get part) : s = t := by
  cases s
  cases t
  rw [mk.injEq]
  exact ⟨h (.color .string), h (.color .number), h (.color .boolean), h (.color .null),
    h (.color .key), h .outline, h .padding, h .margin⟩

/-- A field that is accepted sets the text of the part it names. -/
theorem addField_eq_ok {s t : ThemeSettings} {name : String} {v : Toml.Value}
    (h : s.addField (name, v) = .ok t) :
    ∃ part w, name = part.name ∧ v = .string w ∧ t = s.set part w := by
  unfold addField at h
  cases hname : ThemePart.ofName? name with
  | none =>
      simp only [hname] at h
      contradiction
  | some part =>
      simp only [hname] at h
      rcases exists_of_bind_eq_ok h with ⟨w, hw, ht⟩
      cases ht
      exact ⟨part, w, ThemePart.ofName?_eq_some_iff.1 hname, text_eq_ok_iff.1 hw, rfl⟩

/-- An element that is accepted sets the text of its part. -/
theorem addElement_eq_ok {s t : ThemeSettings} {part : ThemePart} {v : Toml.Value}
    (h : s.addElement (part, v) = .ok t) : ∃ w, v = .string w ∧ t = s.set part w := by
  rcases exists_of_bind_eq_ok h with ⟨w, hw, ht⟩
  cases ht
  exact ⟨w, text_eq_ok_iff.1 hw, rfl⟩

/-- The text of a part in a table is the one that stands at the name of the
part. -/
theorem get_addFields {fields : Toml.Entries} {s : ThemeSettings}
    (hnames : (Toml.names fields).Nodup) (h : fields.foldlM addField {} = .ok s)
    (part : ThemePart) (w : String) :
    s.get part = some w ↔ (part.name, .string w) ∈ fields := by
  have hother : ∀ s field t, addField s field = .ok t → field.1 ≠ part.name →
      t.get part = s.get part := by
    rintro s ⟨name, v⟩ t hfield hne
    rcases addField_eq_ok hfield with ⟨q, w, rfl, -, rfl⟩
    exact get_set_of_ne fun heq => hne (heq ▸ rfl)
  rcases foldlM_settles hother h with ⟨v, u, u', hmem, hfield, hget⟩ | ⟨hnone, hget⟩
  · rcases addField_eq_ok hfield with ⟨q, w', hname, rfl, rfl⟩
    cases ThemePart.name_inj.1 hname
    rw [hget, get_set_self]
    exact some_eq_some_iff_mem hnames hmem
  · rw [hget, get_empty]
    exact ⟨fun hnot => by contradiction, fun hmem => (hnone _ hmem).elim⟩

/-- The text of a part in a row is the one that stands at the place of the
part. -/
theorem get_addElements {items : List Toml.Value} {s : ThemeSettings}
    (h : (ThemePart.all.zip items).foldlM addElement {} = .ok s) (part : ThemePart) (w : String) :
    s.get part = some w ↔ (part, Toml.Value.string w) ∈ ThemePart.all.zip items := by
  have hother : ∀ s element t, addElement s element = .ok t → element.1 ≠ part →
      t.get part = s.get part := by
    rintro s ⟨q, v⟩ t helement hne
    rcases addElement_eq_ok helement with ⟨w, -, rfl⟩
    exact get_set_of_ne hne
  have hparts : ((ThemePart.all.zip items).map (·.1)).Nodup := by
    rw [(map_zip_eq_take _ _).1]
    exact (List.take_sublist _ _).nodup (by decide)
  rcases foldlM_settles hother h with ⟨v, u, u', hmem, helement, hget⟩ | ⟨hnone, hget⟩
  · rcases addElement_eq_ok helement with ⟨w', rfl, rfl⟩
    rw [hget, get_set_self]
    exact some_eq_some_iff_mem hparts hmem
  · rw [hget, get_empty]
    exact ⟨fun hnot => by contradiction, fun hmem => (hnone _ hmem).elim⟩

/-- A setting of a theme has the text that a value gives it, and none if the value
gives none. -/
theorem get_ofValue {v : Toml.Value} {s : ThemeSettings} (hv : v.Distinct)
    (h : ofValue v = .ok s) (part : ThemePart) (w : String) :
    s.get part = some w ↔ part.Given v w := by
  cases exists_ofValue_eq_ok_iff.1 ⟨s, h⟩ with
  | table =>
      cases hv with
      | table hnames =>
          rw [get_addFields hnames h]
          constructor
          · exact .field (ThemePart.mem_named_iff.2 rfl)
          · rintro (⟨hname, hmem⟩ | _)
            exact ThemePart.mem_named_iff.1 hname ▸ hmem
  | array =>
      rw [get_addElements h, List.mem_iff_getElem?]
      simp only [List.getElem?_zip_eq_some]
      constructor
      · rintro ⟨i, hpart, hitem⟩
        have hname : ThemePart.named[i]? = some (part.name, part) := by
          rw [ThemePart.named_eq, List.getElem?_map, hpart]
          rfl
        exact .element hname hitem
      · intro hgiven
        cases hgiven with
        | element hname hitem =>
          rw [ThemePart.named_eq, List.getElem?_map] at hname
          rcases Option.map_eq_some_iff.1 hname with ⟨part', hpart, heq⟩
          cases heq
          exact ⟨_, hpart, hitem⟩

end ThemeSettings

namespace Setting

/-- The text that a field gives a setting, by the name of the field. -/
theorem given_iff {x : Setting} {name w : String} {v : Toml.Value} :
    x.Given (name, v) w ↔
      name = "output" ∧ x = .output ∧ v = .string w ∨
        name = "theme" ∧ ∃ part, x = .part part ∧ part.Given v w := by
  constructor
  · rintro (_ | h)
    · exact Or.inl ⟨rfl, rfl, rfl⟩
    · exact Or.inr ⟨rfl, _, rfl, h⟩
  · rintro (⟨rfl, rfl, rfl⟩ | ⟨rfl, part, rfl, h⟩)
    · exact .output
    · exact .part h

/-- Only the output field gives the output mode a text. -/
theorem exists_given_output_iff {fields : Toml.Entries} {w : String} :
    (∃ field ∈ fields, output.Given field w) ↔ ("output", .string w) ∈ fields := by
  constructor
  · rintro ⟨⟨name, v⟩, hmem, hgiven⟩
    rcases given_iff.1 hgiven with ⟨rfl, -, rfl⟩ | ⟨-, part, hpart, -⟩
    · exact hmem
    · contradiction
  · exact fun hmem => ⟨_, hmem, .output⟩

/-- Only the theme field gives a part of the theme a text. -/
theorem exists_given_part_iff {fields : Toml.Entries} {p : ThemePart} {w : String} :
    (∃ field ∈ fields, (part p).Given field w) ↔ ∃ v, ("theme", v) ∈ fields ∧ p.Given v w := by
  constructor
  · rintro ⟨⟨name, v⟩, hmem, hgiven⟩
    rcases given_iff.1 hgiven with ⟨-, hpart, -⟩ | ⟨rfl, q, hpart, hv⟩
    · contradiction
    · cases hpart
      exact ⟨v, hmem, hv⟩
  · rintro ⟨v, hmem, hv⟩
    exact ⟨_, hmem, .part hv⟩

end Setting

namespace Settings

/-- A field that is accepted sets the output mode or replaces the theme, by its
name. -/
theorem addField_eq_ok {s t : Settings} {name : String} {v : Toml.Value}
    (h : s.addField (name, v) = .ok t) :
    (∃ w, name = "output" ∧ v = .string w ∧ t = { s with output := some w }) ∨
      ∃ theme, name = "theme" ∧ ThemeSettings.ofValue v = .ok theme ∧ t = { s with theme } := by
  unfold addField at h
  by_cases houtput : name = "output"
  · simp only [if_pos houtput] at h
    rcases exists_of_bind_eq_ok h with ⟨w, hw, ht⟩
    cases ht
    exact Or.inl ⟨w, houtput, ThemeSettings.text_eq_ok_iff.1 hw, rfl⟩
  · simp only [if_neg houtput] at h
    by_cases htheme : name = "theme"
    · simp only [if_pos htheme] at h
      rcases exists_of_bind_eq_ok h with ⟨theme, hv, ht⟩
      cases ht
      exact Or.inr ⟨theme, htheme, hv, rfl⟩
    · simp only [if_neg htheme] at h
      contradiction

/-- The output mode is the text that stands at its name. -/
theorem output_ofEntries {fields : Toml.Entries} {s : Settings}
    (hnames : (Toml.names fields).Nodup) (h : ofEntries fields = .ok s) (w : String) :
    s.output = some w ↔ ("output", .string w) ∈ fields := by
  have hother : ∀ s field t, addField s field = .ok t → field.1 ≠ "output" →
      t.output = s.output := by
    rintro s ⟨name, v⟩ t hfield hne
    rcases addField_eq_ok hfield with ⟨w, hname, -, rfl⟩ | ⟨theme, -, -, rfl⟩
    · exact (hne hname).elim
    · rfl
  rcases foldlM_settles hother h with ⟨v, u, u', hmem, hfield, houtput⟩ | ⟨hnone, houtput⟩
  · rcases addField_eq_ok hfield with ⟨w', -, rfl, rfl⟩ | ⟨theme, hname, -⟩
    · rw [houtput]
      exact some_eq_some_iff_mem hnames hmem
    · contradiction
  · rw [houtput]
    exact ⟨fun hnot => by contradiction, fun hmem => (hnone _ hmem).elim⟩

/-- The theme settings are those of the value that stands at their name, if there
is one. -/
theorem theme_ofEntries {fields : Toml.Entries} {s : Settings} (h : ofEntries fields = .ok s) :
    (∃ v, ("theme", v) ∈ fields ∧ ThemeSettings.ofValue v = .ok s.theme) ∨
      (∀ v, ("theme", v) ∉ fields) ∧ s.theme = {} := by
  have hother : ∀ s field t, addField s field = .ok t → field.1 ≠ "theme" →
      t.theme = s.theme := by
    rintro s ⟨name, v⟩ t hfield hne
    rcases addField_eq_ok hfield with ⟨w, -, -, rfl⟩ | ⟨theme, hname, -⟩
    · rfl
    · exact (hne hname).elim
  rcases foldlM_settles hother h with ⟨v, u, u', hmem, hfield, htheme⟩ | hnone
  · rcases addField_eq_ok hfield with ⟨w, hname, -⟩ | ⟨theme, -, hv, rfl⟩
    · contradiction
    · exact Or.inl ⟨v, hmem, htheme ▸ hv⟩
  · exact Or.inr hnone

/-- The settings are those of the file. -/
theorem of_ofEntries {fields : Toml.Entries} {s : Settings}
    (hdistinct : Toml.Value.Distinct (.table fields)) (h : ofEntries fields = .ok s) :
    s.Of fields := by
  cases hdistinct with
  | table hnames hbelow =>
      rintro (_ | part) w
      · rw [Setting.text, Setting.exists_given_output_iff]
        exact output_ofEntries hnames h w
      · rw [Setting.text, Setting.exists_given_part_iff]
        rcases theme_ofEntries h with ⟨v, hmem, hv⟩ | ⟨hnone, hempty⟩
        · rw [ThemeSettings.get_ofValue (hbelow _ hmem) hv]
          constructor
          · exact fun hpart => ⟨v, hmem, hpart⟩
          · rintro ⟨v', hmem', hpart⟩
            cases List.inj_on_of_nodup_map hnames hmem hmem' rfl
            exact hpart
        · rw [hempty, ThemeSettings.get_empty]
          constructor
          · intro hnot
            contradiction
          · rintro ⟨v, hmem, -⟩
            exact (hnone v hmem).elim

/-! ## The order of entries -/

/-- Settings of files that give the same texts are the same. -/
theorem Of.eq {s s' : Settings} {fields fields' : Toml.Entries} (h : s.Of fields)
    (h' : s'.Of fields') (hsame : ∀ (x : Setting) w,
      (∃ field ∈ fields, x.Given field w) ↔ ∃ field ∈ fields', x.Given field w) : s = s' := by
  have htext : ∀ x : Setting, x.text s = x.text s' := fun x =>
    Option.ext fun w => (h x w).trans ((hsame x w).trans (h' x w).symm)
  have hget : ∀ part, s.theme.get part = s'.theme.get part := fun part => htext (.part part)
  rcases s with ⟨output, theme⟩
  rcases s' with ⟨output', theme'⟩
  have houtput : output = output' := htext .output
  have htheme : theme = theme' := ThemeSettings.ext_get hget
  rw [houtput, htheme]

end Settings

namespace Toml.Value.Rearranged

/-- A value can be put back into order. -/
theorem symm {v v' : Toml.Value} (h : v.Rearranged v') : v'.Rearranged v := by
  cases h with
  | refl => exact .refl v
  | table h => exact .table h.symm

/-- A text stays a text in any order. -/
theorem isText {v v' : Toml.Value} (h : v.Rearranged v') (hv : v.IsText) : v'.IsText := by
  cases h with
  | refl => exact hv
  | table => contradiction

/-- The shape of a theme does not depend on the order of its entries. -/
theorem themeShape {v v' : Toml.Value} (h : v.Rearranged v') (hv : ThemeShape v) :
    ThemeShape v' := by
  cases h with
  | refl => exact hv
  | table h =>
      cases hv with
      | table hv => exact .table fun field hfield => hv field (h.mem_iff.2 hfield)

/-- Neither does the text that it gives a part. -/
theorem given {v v' : Toml.Value} (h : v.Rearranged v') {part : ThemePart} {w : String}
    (hv : part.Given v w) : part.Given v' w := by
  cases h with
  | refl => exact hv
  | table h =>
      cases hv with
      | field hname hmem => exact .field hname (h.mem_iff.1 hmem)

end Toml.Value.Rearranged

namespace Rearranged

variable {fields fields' : Toml.Entries}

/-- What holds of a field whatever the order in it holds of some field of two files
alike. -/
theorem exists_iff {P : String × Toml.Value → Prop}
    (hP : ∀ name v v', v.Rearranged v' → P (name, v) → P (name, v'))
    (h : Rearranged fields fields') : (∃ field ∈ fields, P field) ↔ ∃ field ∈ fields', P field := by
  rcases h with ⟨between, hperm, hpairs⟩
  -- The order of the fields does not matter to `∃`, so only the order in each of them is left.
  have hbetween : (∃ field ∈ fields, P field) ↔ ∃ field ∈ between, P field :=
    exists_congr fun field => and_congr_left fun _ => hperm.mem_iff
  rw [hbetween]
  clear hbetween hperm
  induction hpairs with
  | nil => rfl
  | @cons field field' _ _ hpair _ ih =>
      rcases field with ⟨name, v⟩
      rcases field' with ⟨name', v'⟩
      rcases hpair with ⟨hname, hv⟩
      have hhead : P (name, v) ↔ P (name', v') := by
        subst hname
        exact ⟨hP name v v' hv, hP name v' v hv.symm⟩
      simp only [List.exists_mem_cons_iff, hhead, ih]

/-- Fields that have the documented shape have it in any order. -/
theorem fieldShape (h : Rearranged fields fields') (hshape : ∀ field ∈ fields, FieldShape field) :
    ∀ field ∈ fields', FieldShape field := by
  have hunshaped := h.exists_iff (P := fun field => ¬ FieldShape field) <| by
    intro name v v' hv hnot hshape'
    refine hnot (fieldShape_iff.2 ?_)
    rcases fieldShape_iff.1 hshape' with ⟨rfl, hv'⟩ | ⟨rfl, hv'⟩
    · exact Or.inl ⟨rfl, hv.symm.isText hv'⟩
    · exact Or.inr ⟨rfl, hv.symm.themeShape hv'⟩
  intro field hfield
  refine Classical.not_not.1 fun hnot => ?_
  rcases hunshaped.2 ⟨field, hfield, hnot⟩ with ⟨other, hother, hnot'⟩
  exact hnot' (hshape other hother)

/-- The texts that fields give the settings do not depend on their order. -/
theorem given_iff (h : Rearranged fields fields') (x : Setting) (w : String) :
    (∃ field ∈ fields, x.Given field w) ↔ ∃ field ∈ fields', x.Given field w := by
  refine h.exists_iff fun name v v' hv hgiven => ?_
  rw [Setting.given_iff] at hgiven ⊢
  rcases hgiven with ⟨hname, hx, rfl⟩ | ⟨hname, part, hx, hpart⟩
  · cases hv
    exact Or.inl ⟨hname, hx, rfl⟩
  · exact Or.inr ⟨hname, part, hx, hv.given hpart⟩

end Rearranged

/-! ## Reading a config file -/

namespace Config

/-- A document is read as the settings of its fields. -/
theorem readSettings_eq_ok_iff {s : String} {fields : Toml.Entries}
    (h : Toml.parse? s.toList = some fields) {settings : Settings} :
    readSettings s = .ok settings ↔ Settings.ofEntries fields = .ok settings := by
  simp only [readSettings, h]
  cases Settings.ofEntries fields <;> simp

/-- Reading a document fails with the first fault of its fields. -/
theorem readSettings_eq_error_iff {s : String} {fields : Toml.Entries}
    (h : Toml.parse? s.toList = some fields) {e : Error} :
    readSettings s = .error e ↔
      ∃ fault, FirstFault FieldFault fields fault ∧ e = .config fault := by
  simp only [readSettings, h, ← Settings.ofEntries_eq_error_iff]
  cases Settings.ofEntries fields <;> simp [eq_comm]

/-- Checking settings never reports the file they are from. -/
theorem ofSettings_ne_config {settings : Settings} {fault : ConfigFault} :
    ofSettings settings ≠ .error (.config fault) := by
  intro h
  rcases (ofSettings_eq_error_iff.1 h).exists_mem with ⟨x, -, v, -, -, hfault⟩
  rcases x with _ | _ | _ | _ | _ <;> contradiction

/-- A fault of the document is reported exactly if it is the first one. -/
theorem parse_eq_error_config_iff {s : String} {fields : Toml.Entries}
    (h : Toml.parse? s.toList = some fields) {fault : ConfigFault} :
    parse s = .error (.config fault) ↔ FirstFault FieldFault fields fault := by
  rw [parse, bind_eq_error_iff, readSettings_eq_error_iff h]
  constructor
  · rintro (⟨fault', hfirst, heq⟩ | ⟨settings, -, hcheck⟩)
    · cases heq
      exact hfirst
    · exact (ofSettings_ne_config hcheck).elim
  · exact fun hfirst => Or.inl ⟨fault, hfirst, rfl⟩

/-- Reading a config file succeeds exactly if the document has the documented
shape.  The settings are then those of the document, whatever the order of its
entries, and what else can be wrong with them is looked at later.  Otherwise the
first fault is reported, with the entries of each table in the order of what the
statements of the document mention, and those of an inline table in the order in
which they are read. -/
theorem parse_documented {s : String} {fields : Toml.Entries}
    (h : Toml.parse? s.toList = some fields) :
    ((∃ settings, readSettings s = .ok settings) ↔ ∀ field ∈ fields, FieldShape field) ∧
      (∀ settings, readSettings s = .ok settings →
        parse s = ofSettings settings ∧ settings.Of fields ∧
          ∀ s' fields', Toml.parse? s'.toList = some fields' → Rearranged fields fields' →
            readSettings s' = .ok settings) ∧
      ((¬ ∀ field ∈ fields, FieldShape field) → ∃ fault, parse s = .error (.config fault)) ∧
      (∀ fault, parse s = .error (.config fault) ↔ FirstFault FieldFault fields fault) ∧
      ∃ ss, Toml.statements.readAll? s.toList = some ss ∧
        Toml.InPlace (Toml.mentions [] ss) fields ∧
        ∀ depth inline v rest, Toml.value (depth + 1) ('\x7b' :: inline) = some (v, rest) →
          ∃ entries sub, Toml.inlineEntries (Toml.value depth) inline = some (entries, rest) ∧
            v = .table sub ∧ Toml.InPlace (Toml.inlineMentions entries) sub := by
  have hok : ∀ settings, readSettings s = .ok settings ↔
      Settings.ofEntries fields = .ok settings := fun _ => readSettings_eq_ok_iff h
  have herror : ∀ fault, parse s = .error (.config fault) ↔
      FirstFault FieldFault fields fault := fun _ => parse_eq_error_config_iff h
  refine ⟨?_, ?_, ?_, herror, ?_⟩
  · simp only [hok, Settings.exists_ofEntries_eq_ok_iff]
  · intro settings hread
    have hof := Settings.of_ofEntries (Toml.distinct_of_parse? h) ((hok settings).1 hread)
    refine ⟨by rw [parse, hread]; rfl, hof, ?_⟩
    intro s' fields' h' hsame
    have hshape := Settings.exists_ofEntries_eq_ok_iff.1 ⟨settings, (hok settings).1 hread⟩
    rcases Settings.exists_ofEntries_eq_ok_iff.2 (hsame.fieldShape hshape) with ⟨settings', hread'⟩
    have hof' := Settings.of_ofEntries (Toml.distinct_of_parse? h') hread'
    rw [hof.eq hof' hsame.given_iff]
    exact (readSettings_eq_ok_iff h').2 hread'
  · intro hshape
    cases hread : Settings.ofEntries fields with
    | ok settings => exact (hshape (Settings.exists_ofEntries_eq_ok_iff.1 ⟨settings, hread⟩)).elim
    | error fault => exact ⟨fault, (herror fault).2 (Settings.ofEntries_eq_error_iff.1 hread)⟩
  · rcases Option.bind_eq_some_iff.1 h with ⟨ss, hread, hbuild⟩
    exact ⟨ss, hread, Toml.inPlace_of_build? hbuild, fun _ _ _ _ => Toml.inPlace_of_value⟩

/-- Two files with the same entries in another order give the same settings.  Of a
third file an unknown name in the theme is reported, though a value of the wrong
type and another unknown name come after it, and so it is of a fourth one with an
inline table for the theme. -/
theorem parse_documented_orders :
    readSettings "output = 'page'\n[theme]\nmargin = '0'\nkey = 'red'" =
        .ok ⟨some "page", { key := some "red", margin := some "0" }⟩ ∧
      readSettings "theme.key = 'red'\noutput = 'page'\ntheme.margin = '0'" =
        .ok ⟨some "page", { key := some "red", margin := some "0" }⟩ ∧
      parse "[theme]\nkey = 'red'\nzz = true\nnull = 3\n[foo]" =
        .error (.config (.unknownField "zz" ThemePart.names)) ∧
      parse "theme = \x7bkey = 'red', zz = true, null = 3\x7d\n[foo]" =
        .error (.config (.unknownField "zz" ThemePart.names)) := by
  have hfirst : Toml.parse? "output = 'page'\n[theme]\nmargin = '0'\nkey = 'red'".toList =
      some [("output", .string "page"),
        ("theme", .table [("margin", .string "0"), ("key", .string "red")])] := by cbv
  have hsecond : Toml.parse? "theme.key = 'red'\noutput = 'page'\ntheme.margin = '0'".toList =
      some [("theme", .table [("key", .string "red"), ("margin", .string "0")]),
        ("output", .string "page")] := by cbv
  have hthird : Toml.parse? "[theme]\nkey = 'red'\nzz = true\nnull = 3\n[foo]".toList =
      some [("theme", .table [("key", .string "red"), ("zz", .boolean true),
        ("null", .integer 3)]), ("foo", .table [])] := by cbv
  have hfourth : Toml.parse? "theme = \x7bkey = 'red', zz = true, null = 3\x7d\n[foo]".toList =
      some [("theme", .table [("key", .string "red"), ("zz", .boolean true),
        ("null", .integer 3)]), ("foo", .table [])] := by cbv
  have hfault : FirstFault FieldFault [("theme", .table [("key", .string "red"),
      ("zz", .boolean true), ("null", .integer 3)]), ("foo", .table [])]
      (.unknownField "zz" ThemePart.names) := by
    refine .here (.theme (.table (.later ?_ (.here ?_))))
    · exact forall_not_themeFieldFault_iff.2 ⟨by decide, .string "red"⟩
    · exact .unknown (by decide)
  have hread : readSettings "output = 'page'\n[theme]\nmargin = '0'\nkey = 'red'" =
      .ok ⟨some "page", { key := some "red", margin := some "0" }⟩ :=
    eq_ok_of_toOption (by decide +kernel)
  refine ⟨hread, ?_, ((parse_documented hthird).2.2.2.1 _).2 hfault,
    ((parse_documented hfourth).2.2.2.1 _).2 hfault⟩
  · refine ((parse_documented hfirst).2.1 _ hread).2.2 _ _ hsecond ?_
    exact ⟨_, List.Perm.swap _ _ _,
      .cons ⟨rfl, .table (List.Perm.swap _ _ _)⟩ (.cons ⟨rfl, .refl _⟩ .nil)⟩

/-- A row of nine elements is taken for a theme, though the last one is no text.
In the second file the theme is mentioned before the field that is reported, as
its own header comes later. -/
theorem parse_nine_elements :
    Toml.parse? "theme = ['red', 'red', 'red', 'red', 'red', '', '', '', 1]".toList =
        some [("theme", .array [.string "red", .string "red", .string "red", .string "red",
          .string "red", .string "", .string "", .string "", .integer 1])] ∧
      (∃ config, parse "theme = ['red', 'red', 'red', 'red', 'red', '', '', '', 1]" =
        .ok config) ∧
      (Toml.statements.readAll? "[theme.zz]\n[foo]\n[theme]".toList).map (Toml.mentions []) =
        some [.table ["theme", "zz"], .table ["foo"], .table ["theme"]] ∧
      parse "[theme.zz]\n[foo]\n[theme]" =
        .error (.config (.unknownField "foo" ["output", "theme"])) := by
  have hrow : parse "theme = ['red', 'red', 'red', 'red', 'red', '', '', '', 1]" =
      .ok ⟨{ theme := ⟨"red", "red", "red", "red", "red", "", "", ""⟩ }, .html,
        ⟨⟨"", "", ""⟩, .red, .red, .red, .red, .red⟩⟩ := eq_ok_of_toOption (by decide +kernel)
  exact ⟨by cbv, ⟨_, hrow⟩, by cbv, by cbv⟩

end Config
end JsonTint
