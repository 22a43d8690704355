import JsonTint.Proofs.Config.Values

/-!
# No style sheet closes its element

The texts for the frame of a theme go into the style sheet as they are, so they
are refused if they hold a less-than sign; all else in a style sheet is chosen
by the program.

Main results:

- Theorem `frame_isPlain_of_toTheme`: no value of the frame that settings give
  holds a less-than sign.
- Theorem `less_not_mem_css`: nor does the style sheet of such a theme.
- Theorem `less_not_mem_css_of_parse`: nor that of a configuration that has been
  accepted.
-/

namespace JsonTint

/-- No value of a frame holds a less-than sign. -/
structure Frame.IsPlain (f : Frame) : Prop where
  outline : '<' ∉ f.outline.toList
  padding : '<' ∉ f.padding.toList
  margin : '<' ∉ f.margin.toList

/-! ## Style sheets -/

theorem Color.less_not_mem_hexByte (b : UInt8) : '<' ∉ hexByte b := by
  have hdigit : ∀ n < 16, '<' ≠ Nat.digitChar n := by decide
  have hb := b.toNat_lt
  rw [hexByte, List.mem_cons, List.mem_singleton, not_or]
  exact ⟨hdigit _ (by omega), hdigit _ (by omega)⟩

/-- Neither has the CSS value of a colour. -/
theorem Color.less_not_mem_css (c : Color) : '<' ∉ c.css.toList := by
  cases c with
  | rgb r g b =>
      rw [css, String.toList_ofList]
      simp [less_not_mem_hexByte]
  | _ => decide

namespace Theme

/-- The rule for a frame has no less-than sign if its texts have none. -/
theorem less_not_mem_frameCss {f : Frame} (h : f.IsPlain) : '<' ∉ (frameCss f).toList := by
  unfold frameCss
  simp only [String.toList_append, List.mem_append, not_or]
  exact ⟨⟨⟨⟨⟨⟨by decide, h.outline⟩, by decide⟩, h.padding⟩, by decide⟩, h.margin⟩, by decide⟩

/-- The rule for a class of tokens has no less-than sign. -/
theorem less_not_mem_classCss (t : Theme) (cls : TokenClass) :
    '<' ∉ (t.classCss cls).toList := by
  have hname : '<' ∉ cls.name.toList := by cases cls <;> decide
  have hcolor := Color.less_not_mem_css (t.color cls)
  unfold classCss
  simp only [String.toList_append, List.mem_append, not_or]
  exact ⟨⟨⟨⟨by decide, hname⟩, by decide⟩, hcolor⟩, by decide⟩

/-- Rules for classes add no less-than sign to a style sheet. -/
theorem less_not_mem_foldl_classCss (t : Theme) (classes : List TokenClass) {sheet : String}
    (h : '<' ∉ sheet.toList) :
    '<' ∉ (classes.foldl (fun sheet cls => sheet ++ t.classCss cls) sheet).toList := by
  induction classes generalizing sheet with
  | nil => exact h
  | cons cls classes ih =>
      apply ih
      rw [String.toList_append, List.mem_append, not_or]
      exact ⟨h, t.less_not_mem_classCss cls⟩

/-- The style sheet of a theme holds a less-than sign only if its frame does. -/
theorem less_not_mem_css {t : Theme} (h : t.frame.IsPlain) : '<' ∉ t.css.toList :=
  less_not_mem_foldl_classCss t TokenClass.all (less_not_mem_frameCss h)

end Theme

/-! ## Settings -/

/-- A text for the frame holds no less-than sign, whether it is given or the
standard one. -/
theorem Theme.Follows.less_not_mem {t : Theme} {s : ThemeSettings} (h : t.Follows s)
    (part : ThemePart) {w : String} (hpart : t.part part = .inr w) : '<' ∉ w.toList := by
  have hvalue := h part
  rw [hpart] at hvalue
  cases hget : s.get part with
  | none =>
      rw [hget] at hvalue
      cases part with
      | color cls => cases hvalue
      | outline =>
          cases hvalue
          decide
      | padding =>
          cases hvalue
          decide
      | margin =>
          cases hvalue
          decide
  | some v =>
      rw [hget] at hvalue
      cases hvalue with
      | outline hless => exact hless
      | padding hless => exact hless
      | margin hless => exact hless

/-- No value of the frame that settings give holds a less-than sign. -/
theorem ThemeSettings.frame_isPlain_of_toTheme {s : ThemeSettings} {t : Theme}
    (h : s.toTheme = .ok t) : t.frame.IsPlain := by
  have hfollows := follows_of_toTheme h
  exact ⟨hfollows.less_not_mem .outline rfl, hfollows.less_not_mem .padding rfl,
    hfollows.less_not_mem .margin rfl⟩

/-- The theme of a configuration that has been accepted is the one its settings
give. -/
theorem Config.toTheme_of_parse {s : String} {config : Config}
    (h : Config.parse s = .ok config) : config.settings.theme.toTheme = .ok config.theme := by
  rcases exists_of_bind_eq_ok h with ⟨settings, hread, -⟩
  rcases parse_eq_ok hread h with ⟨rfl, -, htheme⟩
  exact htheme

/-- The style sheet of a configuration that has been accepted holds no less-than
sign. -/
theorem less_not_mem_css_of_parse {s : String} {config : Config}
    (h : Config.parse s = .ok config) : '<' ∉ config.theme.css.toList :=
  Theme.less_not_mem_css (ThemeSettings.frame_isPlain_of_toTheme (Config.toTheme_of_parse h))

end JsonTint
