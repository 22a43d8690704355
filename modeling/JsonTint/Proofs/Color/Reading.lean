import JsonTint.Color.Bytes
import JsonTint.Color.Spelling
import JsonTint.Config.Basic
import JsonTint.Proofs.Text.Spelling

/-!
# Colours are read from exactly the texts that spell them

A text is read as a colour if it spells one once the blanks around it are gone.
Lower case in full would make no difference, and no step of the reading can fail
for want of a character boundary or of room in a byte.

Main results:

- Theorem `ofHex?_eq_some_iff`: rows of hexadecimal digits.
- Theorem `ofName?_eq_some_iff`: names.
- Theorem `parse?_eq_some_iff`: the texts that are read as a colour.
- Theorem `hexByBytes?_eq`: reading digits by their byte offsets never fails.
- Theorem `ofLower?_eq_of_lowerCase`: lower case in full gives the same colours.
- Theorem `parse_eq_language`: all of this about the colours of settings, and that
  the CSS value of a colour is read as that colour.
-/

namespace JsonTint
namespace Color

open Text

/-! ## Digits -/

/-- The digits to base 16 are in ASCII. -/
theorem isAscii_of_isHexDigit {x : Char} (h : isHexDigit x = true) : IsAscii x := by
  have hle : ∀ {y : Char}, x ≤ y → y.toNat < 128 → IsAscii x := fun hxy hy =>
    Nat.lt_of_le_of_lt (UInt32.le_iff_toNat_le.1 hxy) hy
  simp only [isHexDigit, Char.isDigit, Bool.or_eq_true, Bool.and_eq_true, decide_eq_true_eq] at h
  rcases h with (⟨-, h⟩ | ⟨-, h⟩) | ⟨-, h⟩
  · exact hle (y := '9') h (by decide)
  · exact hle h (by decide)
  · exact hle h (by decide)

/-- Each of them is worth less than 16. -/
theorem digitValue_lt {x : Char} (h : isHexDigit x = true) : digitValue x < 16 := by
  refine IsAscii.of_forall_lt (P := fun x => isHexDigit x = true → digitValue x < 16) ?_
    (isAscii_of_isHexDigit h) h
  decide +kernel

/-- A digit folds to a digit of the same value, and nothing else folds to one. -/
theorem digit_foldChar (x : Char) :
    isHexDigit (foldChar x) = isHexDigit x ∧ digitValue (foldChar x) = digitValue x := by
  by_cases hx : IsAscii x
  · refine IsAscii.of_forall_lt (P := fun x =>
      isHexDigit (foldChar x) = isHexDigit x ∧ digitValue (foldChar x) = digitValue x) ?_ hx
    decide +kernel
  · by_cases hkelvin : x = '\u212a'
    · subst hkelvin
      decide
    · rw [foldChar_of_not_isAscii hx hkelvin]
      exact ⟨rfl, rfl⟩

/-- The number that two digits spell, the high one first, fits into a byte. -/
theorem toNat_component {high low : Char} (hhigh : isHexDigit high = true)
    (hlow : isHexDigit low = true) :
    (component high low).toNat = 16 * digitValue high + digitValue low := by
  have := digitValue_lt hhigh
  have := digitValue_lt hlow
  have hsize : UInt8.size = 256 := rfl
  rw [component, UInt8.toNat_ofNat_of_lt' (by omega)]

/-- The letter case of digits makes no difference. -/
theorem ofHex?_map_foldChar (digits : List Char) :
    ofHex? (digits.map foldChar) = ofHex? digits := by
  have hall : (digits.map foldChar).all isHexDigit = digits.all isHexDigit := by
    rw [List.all_map]
    congr 1
    exact funext fun x => (digit_foldChar x).1
  have hcomponent : ∀ x y, component (foldChar x) (foldChar y) = component x y := by
    intro x y
    rw [component, component, (digit_foldChar x).2, (digit_foldChar y).2]
  unfold ofHex?
  rw [hall]
  congr 1
  rcases digits with - | ⟨a, - | ⟨b, - | ⟨c, - | ⟨d, - | ⟨e, - | ⟨f, - | ⟨g, rest⟩⟩⟩⟩⟩⟩⟩ <;>
    simp only [List.map_cons, List.map_nil, hcomponent]

/-! ## Names -/

/-- The table of names lists the spellings of each colour, and no others. -/
theorem mem_names_iff {name : String} {c : Color} :
    (name, c) ∈ names ↔ name ∈ c.spellings := by
  cases c <;> simp [names, spellings]

/-- The names of colours are in lower case. -/
theorem isLower_of_mem_spellings {name : String} {c : Color} (h : name ∈ c.spellings) :
    ∀ y ∈ name.toList, y.isLower = true := by
  have hnames : ∀ entry ∈ names, entry.1.toList.all Char.isLower = true := by decide
  exact List.all_eq_true.1 (hnames _ (mem_names_iff.2 h))

/-- A name is read as the colour that it spells. -/
theorem ofName?_eq_some_iff {t : List Char} {c : Color} :
    ofName? t = some c ↔ ∃ name ∈ c.spellings, t = name.toList := by
  have hnodup : (names.map (·.1)).Nodup := by decide
  rw [ofName?, find?_name_eq_some_iff hnodup]
  simp only [mem_names_iff]

/-- What begins with a hash spells no name. -/
theorem not_spellsName_hash {digits : List Char} {name : String} {c : Color}
    (hname : name ∈ c.spellings) : ¬ SpellsName ('#' :: digits) name := by
  have hlower := isLower_of_mem_spellings hname
  rw [spellsName_iff hlower, List.map_cons]
  intro heq
  have hhash := hlower (foldChar '#') (heq ▸ List.mem_cons_self)
  revert hhash
  decide

/-! ## The language -/

/-- Six digits behind a hash spell one colour. -/
theorem spells_hash_iff {r r' g g' b b' : Char} {c : Color} :
    Spells ['#', r, r', g, g', b, b'] c ↔
      [r, r', g, g', b, b'].all isHexDigit = true ∧
        c = rgb (component r r') (component g g') (component b b') := by
  have hcomponents : [r, r', g, g', b, b'].all isHexDigit = true →
      (component r r').toNat = 16 * digitValue r + digitValue r' ∧
        (component g g').toNat = 16 * digitValue g + digitValue g' ∧
        (component b b').toNat = 16 * digitValue b + digitValue b' := by
    simp only [List.all_cons, List.all_nil, Bool.and_true, Bool.and_eq_true]
    rintro ⟨hr, hr', hg, hg', hb, hb'⟩
    exact ⟨toNat_component hr hr', toNat_component hg hg', toNat_component hb hb'⟩
  constructor
  · intro h
    cases h with
    | name hname hspells => exact (not_spellsName_hash hname hspells).elim
    | long hdigits hx hy hz =>
        rcases hcomponents hdigits with ⟨hr, hg, hb⟩
        refine ⟨hdigits, ?_⟩
        rw [UInt8.toNat_inj.1 (hx.trans hr.symm), UInt8.toNat_inj.1 (hy.trans hg.symm),
          UInt8.toNat_inj.1 (hz.trans hb.symm)]
  · rintro ⟨hdigits, rfl⟩
    rcases hcomponents hdigits with ⟨hr, hg, hb⟩
    exact .long hdigits hr hg hb

/-- Digits are read as a colour if they spell it behind a hash. -/
theorem ofHex?_eq_some_iff {digits : List Char} {c : Color} :
    ofHex? digits = some c ↔ Spells ('#' :: digits) c := by
  constructor
  · intro h
    unfold ofHex? at h
    split at h <;> rename_i hdigits
    · split at h
      · cases h
        refine .short (spells_hash_iff.2 ⟨?_, rfl⟩)
        simpa using hdigits
      · cases h
        exact spells_hash_iff.2 ⟨hdigits, rfl⟩
      · contradiction
    · contradiction
  · intro h
    cases h with
    | name hname hspells => exact (not_spellsName_hash hname hspells).elim
    | long hdigits hx hy hz =>
        rcases spells_hash_iff.1 (.long hdigits hx hy hz) with ⟨-, hc⟩
        rw [ofHex?, if_pos hdigits, hc]
    | short h =>
        rcases spells_hash_iff.1 h with ⟨hdigits, rfl⟩
        rw [ofHex?, if_pos (by simpa using hdigits)]

/-- What is read in lower case is a name, or digits behind a hash. -/
theorem ofLower?_eq_some_iff {t : List Char} {c : Color} :
    ofLower? t = some c ↔
      (∃ name ∈ c.spellings, t = name.toList) ∨
        ∃ digits, t = '#' :: digits ∧ ofHex? digits = some c := by
  rw [← ofName?_eq_some_iff]
  constructor
  · intro h
    unfold ofLower? at h
    split at h <;> rename_i hname
    · exact Or.inl (hname.trans h)
    · split at h
      · exact Or.inr ⟨_, rfl, h⟩
      · contradiction
  · rintro (hname | ⟨digits, rfl, hhex⟩)
    · simp only [ofLower?, hname]
    · have hname : ofName? ('#' :: digits) = none := by
        rw [Option.eq_none_iff_forall_ne_some]
        intro d hd
        rcases ofName?_eq_some_iff.1 hd with ⟨name, hmem, heq⟩
        have hlower := isLower_of_mem_spellings hmem '#' (heq ▸ List.mem_cons_self)
        contradiction
      simp only [ofLower?, hname, hhex]

/-- Only the hash folds to a hash. -/
theorem foldChar_eq_hash_iff {x : Char} : foldChar x = '#' ↔ x = '#' := by
  by_cases hx : IsAscii x
  · refine IsAscii.of_forall_lt (P := fun x => foldChar x = '#' ↔ x = '#') ?_ hx
    decide +kernel
  · by_cases hkelvin : x = '\u212a'
    · subst hkelvin
      decide
    · rw [foldChar_of_not_isAscii hx hkelvin]

/-- A folded text is read as the colours that the text spells. -/
theorem ofLower?_map_foldChar_eq_some_iff {w : List Char} {c : Color} :
    ofLower? (w.map foldChar) = some c ↔ Spells w c := by
  rw [ofLower?_eq_some_iff]
  constructor
  · rintro (⟨name, hname, hw⟩ | ⟨digits, hw, hhex⟩)
    · exact .name hname ((spellsName_iff (isLower_of_mem_spellings hname)).2 hw)
    · rcases List.map_eq_cons_iff.1 hw with ⟨x, rest, rfl, hx, rfl⟩
      rw [foldChar_eq_hash_iff] at hx
      subst hx
      rwa [ofHex?_map_foldChar, ofHex?_eq_some_iff] at hhex
  · intro h
    cases w with
    | nil =>
        cases h with
        | name hname hspells =>
            exact Or.inl ⟨_, hname, (spellsName_iff (isLower_of_mem_spellings hname)).1 hspells⟩
    | cons x rest =>
        by_cases hx : x = '#'
        · subst hx
          refine Or.inr ⟨rest.map foldChar, rfl, ?_⟩
          rwa [ofHex?_map_foldChar, ofHex?_eq_some_iff]
        · cases h with
          | name hname hspells =>
              exact Or.inl ⟨_, hname, (spellsName_iff (isLower_of_mem_spellings hname)).1 hspells⟩
          | long => contradiction
          | short => contradiction

theorem parse?_eq (s : String) : parse? s = ofLower? ((trim s.toList).map foldChar) :=
  rfl

/-- The texts that are read as a colour are those that spell it. -/
theorem parse?_eq_some_iff {s : String} {c : Color} :
    parse? s = some c ↔ Spells (trim s.toList) c := by
  rw [parse?_eq, ofLower?_map_foldChar_eq_some_iff]

/-! ## Reading byte by byte -/

/-- Each digit takes one byte. -/
theorem byteLength_of_isHexDigit {s : List Char} (h : ∀ x ∈ s, isHexDigit x = true) :
    byteLength s = s.length := by
  induction s with
  | nil => rfl
  | cons x s ih =>
      rw [List.forall_mem_cons] at h
      have hsize : x.utf8Size = 1 := by
        rw [Char.utf8Size_eq_one_iff]
        exact UInt32.le_iff_toNat_le.2 (Nat.le_of_lt_succ (isAscii_of_isHexDigit h.1))
      rw [byteLength_cons, hsize, ih h.2, List.length_cons, Nat.add_comm]

theorem byteOfDigits?_singleton {x : Char} (h : isHexDigit x = true) :
    byteOfDigits? [x] = some (UInt8.ofNat (digitValue x)) := by
  have hvalue : natOfDigits 16 [x] = digitValue x := Nat.zero_add _
  have := digitValue_lt h
  rw [byteOfDigits?, hvalue, if_pos ⟨List.cons_ne_nil _ _, by simpa using h, by omega⟩]

theorem byteOfDigits?_pair {x y : Char} (hx : isHexDigit x = true) (hy : isHexDigit y = true) :
    byteOfDigits? [x, y] = some (component x y) := by
  have hvalue : natOfDigits 16 [x, y] = 16 * digitValue x + digitValue y := by
    simp only [natOfDigits, List.foldl_cons, List.foldl_nil]
    omega
  have := digitValue_lt hx
  have := digitValue_lt hy
  rw [byteOfDigits?, hvalue, if_pos ⟨List.cons_ne_nil _ _, by simp [hx, hy], by omega⟩, component]

/-- Seventeen times a digit is the digit doubled, and fits into a byte. -/
theorem timesByte?_digit {x : Char} (h : isHexDigit x = true) :
    timesByte? (UInt8.ofNat (digitValue x)) 17 = some (component x x) := by
  have hlt := digitValue_lt h
  have hsize : UInt8.size = 256 := rfl
  have hdigit : (UInt8.ofNat (digitValue x)).toNat = digitValue x :=
    UInt8.toNat_ofNat_of_lt' (by omega)
  have hfactor : (17 : UInt8).toNat = 17 := rfl
  have hproduct : (UInt8.ofNat (digitValue x)).toNat * (17 : UInt8).toNat = 17 * digitValue x := by
    rw [hdigit, hfactor, Nat.mul_comm]
  rw [timesByte?, if_pos (by omega), Option.some.injEq, ← UInt8.toNat_inj, toNat_component h h,
    UInt8.toNat_mul, hproduct]
  omega

section Offsets

variable (front : List Char) {rest : List Char} {x y : Char}

/-- The digit behind `front` is found at its byte offset, and doubled. -/
theorem digitAt?_eq (h : ∀ z ∈ front ++ ([x] ++ rest), isHexDigit z = true) :
    digitAt? (front ++ ([x] ++ rest)) front.length = some (component x x) := by
  have hfront := byteLength_of_isHexDigit fun z hz => h z (List.mem_append_left _ hz)
  have hx : isHexDigit x = true := h x (by simp)
  have hpiece := byteLength_of_isHexDigit (s := [x]) (by simpa using hx)
  have hslice := slice?_append front [x] rest
  rw [hfront, hpiece] at hslice
  change slice? _ front.length (front.length + 1) = some [x] at hslice
  simp only [digitAt?, hslice, byteOfDigits?_singleton hx, timesByte?_digit hx, Option.bind_eq_bind,
    Option.bind_some]

/-- The pair of digits behind `front` is found at its byte offset. -/
theorem pairAt?_eq (h : ∀ z ∈ front ++ ([x, y] ++ rest), isHexDigit z = true) :
    pairAt? (front ++ ([x, y] ++ rest)) front.length = some (component x y) := by
  have hfront := byteLength_of_isHexDigit fun z hz => h z (List.mem_append_left _ hz)
  have hx : isHexDigit x = true := h x (by simp)
  have hy : isHexDigit y = true := h y (by simp)
  have hpiece := byteLength_of_isHexDigit (s := [x, y]) (by simp [hx, hy])
  have hslice := slice?_append front [x, y] rest
  rw [hfront, hpiece] at hslice
  change slice? _ front.length (front.length + 2) = some [x, y] at hslice
  simp only [pairAt?, hslice, byteOfDigits?_pair hx hy, Option.bind_eq_bind, Option.bind_some]

end Offsets

/-- Reading a row of digits by byte offsets never fails, and gives the same
colour. -/
theorem hexByBytes?_eq (digits : List Char) : hexByBytes? digits = some (ofHex? digits) := by
  unfold hexByBytes? ofHex?
  by_cases hall : digits.all isHexDigit = true
  · have hhex : ∀ x ∈ digits, isHexDigit x = true := List.all_eq_true.1 hall
    rw [if_pos hall, if_pos hall, byteLength_of_isHexDigit hhex]
    by_cases hthree : digits.length = 3
    · rcases List.length_eq_three.1 hthree with ⟨r, g, b, rfl⟩
      have hr : digitAt? [r, g, b] 0 = _ := digitAt?_eq [] hhex
      have hg : digitAt? [r, g, b] 1 = _ := digitAt?_eq [r] hhex
      have hb : digitAt? [r, g, b] 2 = _ := digitAt?_eq [r, g] hhex
      simp only [hthree, if_true, hr, hg, hb]
      rfl
    · by_cases hsix : digits.length = 6
      · rcases digits with - | ⟨r, - | ⟨r', - | ⟨g, - | ⟨g', - | ⟨b, - | ⟨b', - | ⟨x, rest⟩⟩⟩⟩⟩⟩⟩ <;>
          simp at hsix
        have hr : pairAt? [r, r', g, g', b, b'] 0 = _ := pairAt?_eq [] hhex
        have hg : pairAt? [r, r', g, g', b, b'] 2 = _ := pairAt?_eq [r, r'] hhex
        have hb : pairAt? [r, r', g, g', b, b'] 4 = _ :=
          pairAt?_eq [r, r', g, g'] hhex
        simp only [List.length_cons, List.length_nil, hr, hg, hb]
        rfl
      · rw [if_neg hthree, if_neg hsix]
        split
        · exact (hthree rfl).elim
        · exact (hsix rfl).elim
        · rfl
  · rw [if_neg hall, if_neg hall]

/-- Reading a text in lower case byte by byte never fails, and gives the same
colour. -/
theorem lowerByBytes?_eq (t : List Char) : lowerByBytes? t = some (ofLower? t) := by
  unfold lowerByBytes? ofLower?
  split
  · rfl
  · split
    · exact hexByBytes?_eq _
    · rfl

/-! ## Lower case in full -/

theorem isBlank_of_isHexDigit {x : Char} (h : isHexDigit x = true) : isBlank x = false := by
  refine IsAscii.of_forall_lt (P := fun x => isHexDigit x = true → isBlank x = false) ?_
    (isAscii_of_isHexDigit h) h
  decide +kernel

theorem isBlank_of_isLower {x : Char} (h : x.isLower = true) : isBlank x = false := by
  refine IsAscii.of_forall_lt (P := fun x => x.isLower = true → isBlank x = false) ?_
    (isAscii_of_isLower h) h
  decide +kernel

/-- Only texts in ASCII and without blanks are read as colours. -/
theorem isAscii_of_ofLower?_eq_some {t : List Char} {c : Color} (h : ofLower? t = some c) :
    ∀ x ∈ t, IsAscii x ∧ isBlank x = false := by
  rcases ofLower?_eq_some_iff.1 h with ⟨name, hname, rfl⟩ | ⟨digits, rfl, hhex⟩
  · intro x hx
    have hlower := isLower_of_mem_spellings hname x hx
    exact ⟨isAscii_of_isLower hlower, isBlank_of_isLower hlower⟩
  · unfold ofHex? at hhex
    split at hhex <;> rename_i hdigits
    · rw [List.forall_mem_cons]
      refine ⟨by decide, ?_⟩
      intro x hx
      have hdigit := List.all_eq_true.1 hdigits x hx
      exact ⟨isAscii_of_isHexDigit hdigit, isBlank_of_isHexDigit hdigit⟩
    · contradiction

/-- A text with a character outside ASCII is no colour. -/
theorem ofLower?_eq_none_of_exists {t : List Char} (h : ∃ x ∈ t, ¬ IsAscii x) :
    ofLower? t = none := by
  rcases h with ⟨x, hx, hascii⟩
  rw [Option.eq_none_iff_forall_ne_some]
  exact fun c hc => hascii (isAscii_of_ofLower?_eq_some hc x hx).1

/-- Lower case in full gives the same colours as folding. -/
theorem ofLower?_eq_of_lowerCase {w t : List Char} (h : LowerCase w t) :
    ofLower? t = ofLower? (w.map foldChar) := by
  rcases h.eq_or_exists with rfl | ⟨ht, hw⟩
  · rfl
  · rw [ofLower?_eq_none_of_exists ht, ofLower?_eq_none_of_exists hw]

/-! ## CSS values -/

/-- A component is read from the two digits it is written with. -/
theorem component_hexByte (b : UInt8) :
    component (Nat.digitChar (b.toNat / 16)) (Nat.digitChar (b.toNat % 16)) = b := by
  have hdigit : ∀ n < 16, digitValue (Nat.digitChar n) = n := by decide
  have hlt := b.toNat_lt
  rw [component, hdigit _ (by omega), hdigit _ (by omega), Nat.div_add_mod, UInt8.ofNat_toNat]

/-- The CSS value of a colour is in lower case, and is read as that colour. -/
theorem ofLower?_css (c : Color) : ofLower? c.css.toList = some c := by
  have hdigit : ∀ n < 16, isHexDigit (Nat.digitChar n) = true := by decide
  have hhex : ∀ b, (hexByte b).all isHexDigit = true := by
    intro b
    have hlt := b.toNat_lt
    simp [hexByte, hdigit (b.toNat / 16) (by omega), hdigit (b.toNat % 16) (by omega)]
  cases c with
  | rgb r g b =>
      rw [ofLower?_eq_some_iff]
      refine Or.inr ⟨hexByte r ++ hexByte g ++ hexByte b, String.toList_ofList, ?_⟩
      have hall : (hexByte r ++ hexByte g ++ hexByte b).all isHexDigit = true := by
        rw [List.all_append, List.all_append, hhex, hhex, hhex]
        rfl
      have hr := component_hexByte r
      have hg := component_hexByte g
      have hb := component_hexByte b
      unfold ofHex?
      rw [if_pos hall]
      simp only [hexByte, List.cons_append, List.nil_append]
      rw [hr, hg, hb]
  | _ => rfl

/-- A text that is a CSS value but for its letter case holds no blanks, and folds
to the CSS value. -/
theorem of_map_toLower_eq_css {w : List Char} {c : Color}
    (h : w.map Char.toLower = c.css.toList) :
    (∀ x ∈ w, isBlank x = false) ∧ w.map foldChar = c.css.toList := by
  have hcss := isAscii_of_ofLower?_eq_some (ofLower?_css c)
  have hlower : ∀ x ∈ w, IsAscii x.toLower ∧ isBlank x.toLower = false := by
    intro x hx
    exact hcss _ (h ▸ List.mem_map_of_mem hx)
  have hascii : ∀ x ∈ w, IsAscii x := by
    intro x hx
    refine Decidable.byContradiction fun hnot => ?_
    have hx' := (hlower x hx).1
    rw [toLower_of_not_isAscii hnot] at hx'
    exact hnot hx'
  constructor
  · intro x hx
    refine IsAscii.of_forall_lt (P := fun x => isBlank x.toLower = false → isBlank x = false) ?_
      (hascii x hx) (hlower x hx).2
    decide +kernel
  · rw [← h]
    exact List.map_congr_left fun x hx => (hascii x hx).foldChar_eq

/-! ## The colours of settings -/

/-- The colours that a setting is accepted as are those that it spells. -/
theorem parse_eq_ok_iff {s : String} {c : Color} :
    Color.parse s = .ok c ↔ Spells (trim s.toList) c := by
  rw [← parse?_eq_some_iff, Color.parse]
  cases parse? s with
  | some d => rw [Except.ok.injEq, Option.some.injEq]
  | none => exact ⟨fun h => by contradiction, fun h => by contradiction⟩

/-- A text is accepted as a colour exactly if it spells one when the blanks around
it are gone, and is then read as the colour it spells; any other text is reported
as it is.  Lower case in full makes no difference, and reading byte by byte never
fails.  The CSS value of a colour, in any letter case and with any blanks around
it, is read as that colour. -/
theorem parse_eq_language (s : String) :
    (∀ c, Color.parse s = .ok c ↔ Spells (trim s.toList) c) ∧
      ((∀ c, ¬ Spells (trim s.toList) c) → Color.parse s = .error (.invalidColor s)) ∧
      (∀ t, LowerCase (trim s.toList) t → lowerByBytes? t = some (parse? s)) ∧
      ∀ c before w behind, (∀ x ∈ before, isBlank x = true) → (∀ x ∈ behind, isBlank x = true) →
        w.map Char.toLower = c.css.toList → s.toList = before ++ (w ++ behind) →
          Color.parse s = .ok c := by
  refine ⟨fun c => parse_eq_ok_iff, ?_, ?_, ?_⟩
  · intro h
    have hnone : parse? s = none := by
      rw [Option.eq_none_iff_forall_ne_some]
      exact fun c hc => h c (parse?_eq_some_iff.1 hc)
    rw [Color.parse, hnone]
  · intro t ht
    rw [lowerByBytes?_eq, ofLower?_eq_of_lowerCase ht, parse?_eq]
  · intro c before w behind hbefore hbehind hw hs
    rcases of_map_toLower_eq_css hw with ⟨hblank, hfold⟩
    have htrim : trim s.toList = w := by rw [hs, trim_append hbefore hblank hbehind]
    rw [parse_eq_ok_iff, htrim, ← ofLower?_map_foldChar_eq_some_iff, hfold, ofLower?_css]

/-- A name with the Kelvin sign in it, between an ideographic space and a line
feed; a text of five digits; and a CSS value in mixed case. -/
theorem parse_eq_language_kelvin :
    Color.parse "\u3000bLAC\u212a\n" = .ok black ∧
      lowerByBytes? "black".toList = some (parse? "\u3000bLAC\u212a\n") ∧
      Color.parse "#12345" = .error (.invalidColor "#12345") ∧
      Color.parse "\t#0A0bFf " = .ok (rgb 10 11 255) := by
  have hfold : (trim "\u3000bLAC\u212a\n".toList).map foldChar = "black".toList := by
    decide +kernel
  have hname : "black" ∈ black.spellings := List.mem_singleton_self _
  have hspells : Spells (trim "\u3000bLAC\u212a\n".toList) black :=
    .name hname ((spellsName_iff (isLower_of_mem_spellings hname)).2 hfold)
  have hfive : parse? "#12345" = none := by decide +kernel
  refine ⟨((parse_eq_language _).1 black).2 hspells, ?_, ?_, ?_⟩
  · exact (parse_eq_language _).2.2.1 _ (hfold ▸ lowerCase_map_foldChar _)
  · refine (parse_eq_language _).2.1 fun c hc => ?_
    rw [← parse?_eq_some_iff, hfive] at hc
    contradiction
  · exact (parse_eq_language _).2.2.2 (rgb 10 11 255) ['\t'] "#0A0bFf".toList [' ']
      (List.forall_mem_singleton.2 rfl) (List.forall_mem_singleton.2 rfl) (by decide +kernel)
      (by decide)

end Color
end JsonTint
