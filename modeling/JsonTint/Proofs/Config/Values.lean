import JsonTint.Config.Values
import JsonTint.Proofs.Text.Spelling
import JsonTint.Steps

/-!
# Settings are checked one by one, in a fixed order

Reading a config file checks the output mode, then the colours, then the texts
for the frame.  The first setting in this order whose text is not valid is
reported with that text.  If there is none, each part of the theme follows its
own setting and nothing else.

Main results:

- Theorem `OutputMode.parse_eq_ok_iff`: the texts that name an output mode.
- Theorem `applyPart_eq_ok` and theorem `applyPart_eq_error_iff`: what one setting
  does to a theme.
- Theorem `follows_of_toTheme`: a theme follows the settings it is made from.
- Theorem `ofSettings_eq_error_iff`: the first setting that is not valid is
  reported.
- Theorem `parse_checks_settings`: reading a config file whose settings are given.
-/

namespace JsonTint

/-! ## Output modes -/

namespace OutputMode

/-- The table of names lists the spellings of each output mode, and no others. -/
theorem mem_names_iff {name : String} {mode : OutputMode} :
    (name, mode) ∈ names ↔ name ∈ mode.spellings := by
  cases mode <;> simp [names, spellings]

/-- A text is read as the output mode that it names. -/
theorem parse?_eq_some_iff {v : String} {mode : OutputMode} :
    parse? v = some mode ↔ mode.NamedBy v := by
  have hnodup : (names.map (·.1)).Nodup := by decide
  have hlower : ∀ entry ∈ names, entry.1.toList.all Char.isLower = true := by decide
  rw [parse?, Text.find?_name_eq_some_iff hnodup]
  apply exists_congr
  intro name
  rw [mem_names_iff, and_congr_right_iff]
  intro hname
  have hletters := hlower _ (mem_names_iff.2 hname)
  rw [Text.spellsName_iff (List.all_eq_true.1 hletters), Text.foldName]

/-- The texts that name an output mode. -/
theorem parse_eq_ok_iff {v : String} {mode : OutputMode} :
    parse v = .ok mode ↔ mode.NamedBy v := by
  rw [← parse?_eq_some_iff, parse]
  cases parse? v with
  | some other => rw [Except.ok.injEq, Option.some.injEq]
  | none => exact ⟨fun h => by contradiction, fun h => by contradiction⟩

/-- A text that names no output mode is reported. -/
theorem parse_eq_error_iff {v : String} {e : Error} :
    parse v = .error e ↔ (¬ ∃ mode : OutputMode, mode.NamedBy v) ∧ e = .invalidOutput v := by
  simp only [← parse?_eq_some_iff, parse]
  cases parse? v with
  | some mode => simp
  | none => simp [eq_comm]

end OutputMode

/-! ## One part of a theme -/

/-- A text that is no colour is reported. -/
theorem Color.parse_eq_error_iff {v : String} {e : Error} :
    Color.parse v = .error e ↔ (¬ ∃ c, Color.parse v = .ok c) ∧ e = .invalidColor v := by
  rw [Color.parse]
  cases Color.parse? v with
  | some c => simp
  | none => simp [eq_comm]

/-- A text for the frame is accepted as it is, unless it has a less-than sign. -/
theorem Frame.parseValue_eq_ok_iff {v w : String} :
    Frame.parseValue v = .ok w ↔ '<' ∉ v.toList ∧ w = v := by
  by_cases h : '<' ∈ v.toList <;> simp [Frame.parseValue, h, eq_comm]

/-- A text for the frame with a less-than sign is reported. -/
theorem Frame.parseValue_eq_error_iff {v : String} {e : Error} :
    Frame.parseValue v = .error e ↔ '<' ∈ v.toList ∧ e = .invalidStyle v := by
  by_cases h : '<' ∈ v.toList <;> simp [Frame.parseValue, h, eq_comm]

/-- A text stands for at most one value of a part. -/
theorem ThemePart.Reads.unique {part : ThemePart} {v : String} {x y : Color ⊕ String}
    (hx : part.Reads v x) (hy : part.Reads v y) : x = y := by
  cases hx with
  | color hx =>
      cases hy with
      | color hy =>
          rw [hx] at hy
          cases hy
          rfl
  | outline => cases hy; rfl
  | padding => cases hy; rfl
  | margin => cases hy; rfl

namespace ThemeSettings

/-- A part that is given a text has the value that the text stands for, and the
other parts are as they were. -/
theorem applyPart_eq_ok {t t' : Theme} {part : ThemePart} {v : String}
    (h : applyPart t part v = .ok t') :
    part.Reads v (t'.part part) ∧ ∀ q, q ≠ part → t'.part q = t.part q := by
  cases part with
  | color cls =>
      rcases exists_of_bind_eq_ok h with ⟨c, hc, hset⟩
      cases hset
      constructor
      · rw [Theme.part, Theme.color_setColor, if_pos rfl]
        exact .color hc
      · intro q hq
        cases q with
        | color other =>
            have hne : other ≠ cls := fun heq => hq (heq ▸ rfl)
            rw [Theme.part, Theme.part, Theme.color_setColor, if_neg hne]
        | outline => rw [Theme.part, Theme.part, Theme.frame_setColor]
        | padding => rw [Theme.part, Theme.part, Theme.frame_setColor]
        | margin => rw [Theme.part, Theme.part, Theme.frame_setColor]
  | outline =>
      rcases exists_of_bind_eq_ok h with ⟨w, hw, hset⟩
      rcases Frame.parseValue_eq_ok_iff.1 hw with ⟨hless, rfl⟩
      cases hset
      refine ⟨.outline hless, ?_⟩
      intro q hq
      cases q with
      | outline => exact (hq rfl).elim
      | _ => rfl
  | padding =>
      rcases exists_of_bind_eq_ok h with ⟨w, hw, hset⟩
      rcases Frame.parseValue_eq_ok_iff.1 hw with ⟨hless, rfl⟩
      cases hset
      refine ⟨.padding hless, ?_⟩
      intro q hq
      cases q with
      | padding => exact (hq rfl).elim
      | _ => rfl
  | margin =>
      rcases exists_of_bind_eq_ok h with ⟨w, hw, hset⟩
      rcases Frame.parseValue_eq_ok_iff.1 hw with ⟨hless, rfl⟩
      cases hset
      refine ⟨.margin hless, ?_⟩
      intro q hq
      cases q with
      | margin => exact (hq rfl).elim
      | _ => rfl

/-- The texts that stand for a value of a colour are those that are read as one. -/
theorem exists_reads_color_iff {cls : TokenClass} {v : String} :
    (∃ x, (ThemePart.color cls).Reads v x) ↔ ∃ c, Color.parse v = .ok c := by
  constructor
  · rintro ⟨x, ⟨h⟩⟩
    exact ⟨_, h⟩
  · rintro ⟨c, h⟩
    exact ⟨_, .color h⟩

/-- The texts that stand for a value of the frame are those without a less-than
sign. -/
theorem exists_reads_frame_iff {part : ThemePart} {v : String}
    (hpart : part = .outline ∨ part = .padding ∨ part = .margin) :
    (∃ x, part.Reads v x) ↔ '<' ∉ v.toList := by
  constructor
  · rintro ⟨x, hx⟩
    cases hx with
    | color => rcases hpart with h | h | h <;> contradiction
    | outline h => exact h
    | padding h => exact h
    | margin h => exact h
  · intro h
    rcases hpart with rfl | rfl | rfl
    · exact ⟨_, .outline h⟩
    · exact ⟨_, .padding h⟩
    · exact ⟨_, .margin h⟩

/-- A text that stands for no value of a part is reported. -/
theorem applyPart_eq_error_iff {t : Theme} {part : ThemePart} {v : String} {e : Error} :
    applyPart t part v = .error e ↔
      ¬ (Setting.part part).Accepts v ∧ e = (Setting.part part).fault v := by
  cases part with
  | color cls =>
      rw [applyPart, bind_pure_eq_error_iff, Color.parse_eq_error_iff, Setting.Accepts,
        exists_reads_color_iff]
      rfl
  | outline =>
      rw [applyPart, bind_pure_eq_error_iff, Frame.parseValue_eq_error_iff, Setting.Accepts,
        exists_reads_frame_iff (Or.inl rfl), not_not]
      rfl
  | padding =>
      rw [applyPart, bind_pure_eq_error_iff, Frame.parseValue_eq_error_iff, Setting.Accepts,
        exists_reads_frame_iff (Or.inr (Or.inl rfl)), not_not]
      rfl
  | margin =>
      rw [applyPart, bind_pure_eq_error_iff, Frame.parseValue_eq_error_iff, Setting.Accepts,
        exists_reads_frame_iff (Or.inr (Or.inr rfl)), not_not]
      rfl

/-! ## All parts of a theme -/

/-- A setting changes its own part, if it is set, and no other. -/
theorem applySetting_eq_ok {s : ThemeSettings} {t t' : Theme} {part : ThemePart}
    (h : s.applySetting t part = .ok t') :
    part.Follows (t.part part) (t'.part part) (s.get part) ∧
      ∀ q, q ≠ part → t'.part q = t.part q := by
  unfold applySetting at h
  cases hget : s.get part with
  | none =>
      simp only [hget] at h
      cases h
      exact ⟨rfl, fun q _ => rfl⟩
  | some v =>
      simp only [hget] at h
      exact applyPart_eq_ok h

/-- A setting is reported if it is set to a text that is not valid. -/
theorem applySetting_eq_error_iff {s : Settings} {t : Theme} {part : ThemePart} {e : Error} :
    s.theme.applySetting t part = .error e ↔ (Setting.part part).Faulty s e := by
  simp only [applySetting, Setting.Faulty, Setting.text]
  cases s.theme.get part with
  | none => simp
  | some v => simp only [applyPart_eq_error_iff, Option.some.injEq, exists_eq_left']

/-- Some settings change their own parts, as far as they are set, and no others. -/
theorem foldlM_applySetting_eq_ok {s : ThemeSettings} {parts : List ThemePart} {t t' : Theme}
    (hnodup : parts.Nodup) (h : parts.foldlM s.applySetting t = .ok t') (q : ThemePart) :
    (q ∈ parts → q.Follows (t.part q) (t'.part q) (s.get q)) ∧
      (q ∉ parts → t'.part q = t.part q) := by
  induction parts generalizing t with
  | nil =>
      cases h
      exact ⟨fun hq => (List.not_mem_nil hq).elim, fun _ => rfl⟩
  | cons part parts ih =>
      rw [List.foldlM_cons] at h
      rcases exists_of_bind_eq_ok h with ⟨u, hu, hrest⟩
      rcases applySetting_eq_ok hu with ⟨hpart, hother⟩
      rw [List.nodup_cons] at hnodup
      rcases ih hnodup.2 hrest with ⟨hmem, hnot⟩
      by_cases hq : q = part
      · subst hq
        refine ⟨fun _ => ?_, fun hq => (hq List.mem_cons_self).elim⟩
        rw [hnot hnodup.1]
        exact hpart
      · rw [List.mem_cons, or_iff_right hq, ← hother q hq]
        exact ⟨hmem, hnot⟩

/-- A theme follows the settings it is made from. -/
theorem follows_of_toTheme {s : ThemeSettings} {t : Theme} (h : s.toTheme = .ok t) :
    t.Follows s := by
  have hnodup : ThemePart.all.Nodup := by decide
  intro part
  exact (foldlM_applySetting_eq_ok hnodup h part).1 part.mem_all

end ThemeSettings

/-- Two themes give a part one value if it has one text in the settings that they
follow. -/
theorem Theme.Follows.part_eq {t t' : Theme} {s s' : ThemeSettings} (h : t.Follows s)
    (h' : t'.Follows s') {part : ThemePart} (hpart : s.get part = s'.get part) :
    t.part part = t'.part part := by
  have hx := h part
  have hy := h' part
  rw [← hpart] at hy
  cases hget : s.get part with
  | none =>
      rw [hget] at hx hy
      exact hx.trans hy.symm
  | some v =>
      rw [hget] at hx hy
      exact hx.unique hy

/-! ## All settings -/

namespace Config

/-- The output mode is reported if it is set to a text that is not valid. -/
theorem modeOf_eq_error_iff {s : Settings} {e : Error} :
    modeOf s = .error e ↔ Setting.output.Faulty s e := by
  unfold modeOf Setting.Faulty Setting.text
  cases s.output with
  | none => simp
  | some v =>
      simp only [OutputMode.parse_eq_error_iff, Option.some.injEq, exists_eq_left']
      rfl

/-- The output mode follows its setting. -/
theorem follows_of_modeOf {s : Settings} {mode : OutputMode} (h : modeOf s = .ok mode) :
    mode.Follows s.output := by
  unfold modeOf at h
  cases houtput : s.output with
  | none =>
      simp only [houtput] at h
      cases h
      rfl
  | some v =>
      simp only [houtput] at h
      exact OutputMode.parse_eq_ok_iff.1 h

/-- A name stands for one output mode only. -/
theorem mode_eq_of_follows {mode mode' : OutputMode} {v? : Option String}
    (h : mode.Follows v?) (h' : mode'.Follows v?) : mode = mode' := by
  cases v? with
  | none => exact h.trans h'.symm
  | some v =>
      have hmode := OutputMode.parse_eq_ok_iff.2 h
      rw [OutputMode.parse_eq_ok_iff.2 h'] at hmode
      cases hmode
      rfl

/-- The first setting that is not valid is reported with its text. -/
theorem ofSettings_eq_error_iff {s : Settings} {e : Error} :
    ofSettings s = .error e ↔ FirstFault (Setting.Faulty s) Setting.order e := by
  have horder : Setting.order = .output :: ThemePart.all.map Setting.part := rfl
  have htheme : s.theme.toTheme = .error e ↔
      FirstFault (Setting.Faulty s) (ThemePart.all.map Setting.part) e := by
    rw [firstFault_map]
    exact foldlM_eq_error_iff (f := s.theme.applySetting) fun t part e =>
      ThemeSettings.applySetting_eq_error_iff
  rw [horder, firstFault_cons, ← htheme, ofSettings, bind_eq_error_iff, modeOf_eq_error_iff]
  simp only [bind_pure_eq_error_iff, ← modeOf_eq_error_iff]
  apply or_congr_right
  cases modeOf s with
  | error e' => simp
  | ok mode => simp

/-- A configuration is made of the settings that are read from a text, the output
mode and the theme that they give. -/
theorem parse_eq_ok {s : String} {settings : Settings} {config : Config}
    (hread : readSettings s = .ok settings) (h : parse s = .ok config) :
    config.settings = settings ∧ modeOf settings = .ok config.mode ∧
      settings.theme.toTheme = .ok config.theme := by
  have hchecked : ofSettings settings = .ok config := by
    rw [parse, hread] at h
    exact h
  rcases exists_of_bind_eq_ok hchecked with ⟨mode, hmode, hrest⟩
  rcases exists_of_bind_eq_ok hrest with ⟨theme, htheme, hconfig⟩
  cases hconfig
  exact ⟨rfl, hmode, htheme⟩

/-- What is reported of the settings that are read from a text is the first one
that is not valid. -/
theorem parse_eq_error_iff {s : String} {settings : Settings}
    (hread : readSettings s = .ok settings) {e : Error} :
    parse s = .error e ↔ FirstFault (Setting.Faulty settings) Setting.order e := by
  rw [parse, hread, ← ofSettings_eq_error_iff]
  rfl

/-- The settings that are read from a text are accepted if they are all valid. -/
theorem exists_parse_eq_ok_iff {s : String} {settings : Settings}
    (hread : readSettings s = .ok settings) :
    (∃ config, parse s = .ok config) ↔ ∀ x : Setting, x.Valid settings := by
  have horder : ∀ x : Setting, x ∈ Setting.order := by
    rintro (- | (cls | - | - | -))
    · decide
    · cases cls <;> decide
    all_goals decide
  constructor
  · rintro ⟨config, hconfig⟩ x v hv
    refine Classical.byContradiction fun hnot => ?_
    have hfaulty : x.Faulty settings (x.fault v) := ⟨v, hv, hnot, rfl⟩
    rcases exists_firstFault (horder x) hfaulty with ⟨e, hfirst⟩
    rw [(parse_eq_error_iff hread).2 hfirst] at hconfig
    contradiction
  · intro hvalid
    cases hparse : parse s with
    | ok config => exact ⟨config, rfl⟩
    | error e =>
        rcases ((parse_eq_error_iff hread).1 hparse).exists_mem with ⟨x, -, v, hv, hnot, -⟩
        exact (hnot (hvalid x v hv)).elim

/-- Reading a config file whose settings are given succeeds exactly if each of
them is valid, and otherwise reports the first one that is not, with its text.
On success the output mode and the theme that are asked for later are there, and
each part follows its own setting; so where two config files agree on a setting,
they agree on the part. -/
theorem parse_checks_settings {s : String} {settings : Settings}
    (hread : readSettings s = .ok settings) :
    ((∃ config, parse s = .ok config) ↔ ∀ x : Setting, x.Valid settings) ∧
      (∀ e, parse s = .error e ↔ FirstFault (Setting.Faulty settings) Setting.order e) ∧
      ∀ config, parse s = .ok config →
        config.settings = settings ∧
        modeOf config.settings = .ok config.mode ∧ config.mode.Follows settings.output ∧
        config.settings.theme.toTheme = .ok config.theme ∧ config.theme.Follows settings.theme ∧
        ∀ s' settings' config', readSettings s' = .ok settings' → parse s' = .ok config' →
          (settings.output = settings'.output → config.mode = config'.mode) ∧
          ∀ part, settings.theme.get part = settings'.theme.get part →
            config.theme.part part = config'.theme.part part := by
  refine ⟨exists_parse_eq_ok_iff hread, fun e => parse_eq_error_iff hread, ?_⟩
  intro config hconfig
  rcases parse_eq_ok hread hconfig with ⟨rfl, hmode, htheme⟩
  have hmodeFollows := follows_of_modeOf hmode
  have hthemeFollows := ThemeSettings.follows_of_toTheme htheme
  refine ⟨rfl, hmode, hmodeFollows, htheme, hthemeFollows, ?_⟩
  intro s' settings' config' hread' hconfig'
  rcases parse_eq_ok hread' hconfig' with ⟨rfl, hmode', htheme'⟩
  constructor
  · intro houtput
    exact mode_eq_of_follows hmodeFollows (houtput ▸ follows_of_modeOf hmode')
  · intro part hpart
    exact hthemeFollows.part_eq (ThemeSettings.follows_of_toTheme htheme') hpart

/-- Of three texts that are not valid, the first in the order of the checks is
reported, though it stands last in the file.  Two files that differ in the
colour of keys are both accepted, with one margin. -/
theorem parse_checks_settings_order :
    parse "theme.margin = '<'\ntheme.key = ''\ntheme.null = ' nope '" =
        .error (.invalidColor " nope ") ∧
      ∃ config config',
        parse "output = ' ANSI'\ntheme = \x7b key = '#FA0', margin = '1px > 0' \x7d" =
          .ok config ∧
        parse "[theme]\nmargin = '1px > 0'" = .ok config' ∧
        config.mode.Follows (some " ANSI") ∧ config.theme.key = .rgb 255 170 0 ∧
        config.theme.part .margin = config'.theme.part .margin := by
  constructor
  · have hnope : ¬ (Setting.part (.color .null)).Accepts " nope " := by
      rintro ⟨x, ⟨hc⟩⟩
      have hnone : (Color.parse " nope ").toOption = none := by decide +kernel
      rw [hc] at hnone
      contradiction
    have hunset : ∀ {x : Setting} {settings : Settings}, x.text settings = none →
        ∀ e, ¬ x.Faulty settings e := by
      rintro x settings hx e ⟨v, hv, -⟩
      rw [hx] at hv
      contradiction
    have hread : readSettings "theme.margin = '<'\ntheme.key = ''\ntheme.null = ' nope '" =
        .ok { theme := { margin := some "<", key := some "", null := some " nope " } } :=
      eq_ok_of_toOption (by decide +kernel)
    refine ((parse_checks_settings hread).2.1 _).2 ?_
    exact .later (hunset rfl) (.later (hunset rfl) (.later (hunset rfl) (.later (hunset rfl)
      (.here ⟨" nope ", rfl, hnope, rfl⟩))))
  · have hread : readSettings
        "output = ' ANSI'\ntheme = \x7b key = '#FA0', margin = '1px > 0' \x7d" =
          .ok ⟨some " ANSI", { key := some "#FA0", margin := some "1px > 0" }⟩ :=
      eq_ok_of_toOption (by decide +kernel)
    have hread' : readSettings "[theme]\nmargin = '1px > 0'" =
        .ok { theme := { margin := some "1px > 0" } } := eq_ok_of_toOption (by decide +kernel)
    have hparse : parse
        "output = ' ANSI'\ntheme = \x7b key = '#FA0', margin = '1px > 0' \x7d" =
          .ok ⟨⟨some " ANSI", { key := some "#FA0", margin := some "1px > 0" }⟩, .ansi,
            { frame := { margin := "1px > 0" }, key := .rgb 255 170 0 }⟩ :=
      eq_ok_of_toOption (by decide +kernel)
    have hparse' : parse "[theme]\nmargin = '1px > 0'" =
        .ok ⟨{ theme := { margin := some "1px > 0" } }, .html,
          { frame := { margin := "1px > 0" } }⟩ := eq_ok_of_toOption (by decide +kernel)
    rcases (parse_checks_settings hread).2.2 _ hparse with ⟨-, -, hmode, -, -, hagree⟩
    exact ⟨_, _, hparse, hparse', hmode, rfl, (hagree _ _ _ hread' hparse').2 .margin rfl⟩

end Config
end JsonTint
