import JsonTint.CommandLine.Meaning
import Mathlib.Data.List.Induction

/-!
# The first item that settles the matter

A command line spells one row of items.  Taking it in argument by argument, with
the choices made so far at hand, comes to the answer of the first item that
settles the matter, or else to the choices of all items.

Main results:

- Theorem `rowSpelled_iff`: a command line spells its row of items and no other.
- Theorem `undecided_iff`: the rows in which no item settles the matter.
- Theorem `Pending.append_singleton` and theorem `means_parseFrom`: what one more
  item does, and what is left of a command line.
- Theorem `Means.unique`: a row has one meaning.
- Theorem `parse_answers_first_settling`: a command line is taken in as its items
  mean, and reordering one that is accepted makes no difference.
-/

namespace JsonTint

namespace Argument

variable {s : String} {argument : Argument}

/-- An argument is the option under its name, or it is no option. -/
theorem ofString_eq_or (s : String) :
    (s, ofString s) ∈ options ∨
      s ∉ Item.optionNames ∧
        ofString s = if s.toList.head? = some '-' ∧ s ≠ "-" then unknownOption else operand := by
  rw [ofString]
  cases hfind : options.find? fun entry => entry.1 == s with
  | some entry =>
      have hname : entry.1 = s := by simpa using List.find?_some hfind
      exact Or.inl (hname ▸ List.mem_of_find?_eq_some hfind)
  | none =>
      refine Or.inr ⟨?_, by simp⟩
      have hnames : Item.optionNames = options.map (·.1) := rfl
      rw [hnames, List.mem_map]
      rintro ⟨entry, hmem, rfl⟩
      exact (List.find?_eq_none.1 hfind entry hmem) (beq_self_eq_true _)

/-- An option is what its name says. -/
theorem ofString_of_mem (h : (s, argument) ∈ options) : ofString s = argument := by
  have hall : ∀ entry ∈ options, ofString entry.1 = entry.2 := by decide
  exact hall _ h

/-- An argument is one of the options exactly under a name of that option. -/
theorem ofString_eq_iff (hunknown : argument ≠ unknownOption) (hoperand : argument ≠ operand) :
    ofString s = argument ↔ (s, argument) ∈ options := by
  refine ⟨?_, ofString_of_mem⟩
  rintro rfl
  rcases ofString_eq_or s with hmem | ⟨-, h⟩
  · exact hmem
  · split at h
    · exact (hunknown h).elim
    · exact (hoperand h).elim

/-- An argument is an unknown option if it begins with a hyphen, is more than
that and has no name of an option. -/
theorem ofString_eq_unknownOption_iff :
    ofString s = unknownOption ↔
      s.toList.head? = some '-' ∧ s ≠ "-" ∧ s ∉ Item.optionNames := by
  rcases ofString_eq_or s with hmem | ⟨hname, h⟩
  · have hknown : ∀ entry ∈ options, entry.2 ≠ unknownOption ∧ entry.1 ∈ Item.optionNames := by
      decide
    exact iff_of_false (hknown _ hmem).1 fun h => h.2.2 (hknown _ hmem).2
  · rw [h]
    split <;> simp_all

/-- An argument is an operand if it is a hyphen or does not begin with one. -/
theorem ofString_eq_operand_iff :
    ofString s = operand ↔ s = "-" ∨ s.toList.head? ≠ some '-' := by
  rcases ofString_eq_or s with hmem | ⟨-, h⟩
  · have hknown : ∀ entry ∈ options,
        entry.2 ≠ operand ∧ entry.1 ≠ "-" ∧ entry.1.toList.head? = some '-' := by decide
    rcases hknown _ hmem with ⟨hoperand, hhyphen, hhead⟩
    exact iff_of_false hoperand fun h => h.elim hhyphen fun hne => hne hhead
  · rw [h]
    split <;> simp_all [or_iff_not_imp_right]

end Argument

namespace Item

variable {args group rest : List String} {items before after : List Item} {item : Item}
  {o : Options} {result : Except UsageFault Request}

/-! ## Spellings -/

/-- A group of arguments at the front of a command line is its first item. -/
theorem row_append_of_spelled (h : Spelled group item)
    (hend : ∀ option, item = missingPath option → rest = []) :
    row (group ++ rest) = item :: row rest := by
  cases h with
  | help h =>
      exact row_help (Argument.ofString_of_mem (by simpa [Argument.options] using h))
  | version h =>
      exact row_version (Argument.ofString_of_mem (by simpa [Argument.options] using h))
  | html => exact row_mode (by decide)
  | page => exact row_mode (by decide)
  | ansi => exact row_mode (by decide)
  | config h =>
      exact row_config (Argument.ofString_of_mem (by simpa [Argument.options] using h))
  | missingPath h =>
      cases hend _ rfl
      exact row_missingPath (Argument.ofString_of_mem (by simpa [Argument.options] using h))
  | unknownOption h hhyphen hunknown =>
      exact row_unknownOption (Argument.ofString_eq_unknownOption_iff.2 ⟨h, hhyphen, hunknown⟩)
  | operand h => exact row_operand (Argument.ofString_eq_operand_iff.2 h)

/-- The items of a command line are spelled by it. -/
theorem rowSpelled_row (args : List String) : RowSpelled args (row args) := by
  fun_induction row args with
  | case1 => exact .nil
  | case2 s rest h ih =>
      rw [Argument.ofString_eq_iff (by decide) (by decide)] at h
      exact .cons (.help (by simpa [Argument.options] using h)) (by simp) ih
  | case3 s rest h ih =>
      rw [Argument.ofString_eq_iff (by decide) (by decide)] at h
      exact .cons (.version (by simpa [Argument.options] using h)) (by simp) ih
  | case4 s rest m h ih =>
      rw [Argument.ofString_eq_iff (by simp) (by simp)] at h
      have hname : s = "--html" ∧ m = .html ∨ s = "--page" ∧ m = .page ∨
          s = "--ansi" ∧ m = .ansi := by
        simpa [Argument.options] using h
      rcases hname with ⟨rfl, rfl⟩ | ⟨rfl, rfl⟩ | ⟨rfl, rfl⟩
      · exact .cons .html (by simp) ih
      · exact .cons .page (by simp) ih
      · exact .cons .ansi (by simp) ih
  | case5 s h =>
      rw [Argument.ofString_eq_iff (by decide) (by decide)] at h
      exact .cons (.missingPath (by simpa [Argument.options] using h)) (by simp) .nil
  | case6 s h path rest ih =>
      rw [Argument.ofString_eq_iff (by decide) (by decide)] at h
      exact .cons (.config (by simpa [Argument.options] using h)) (by simp) ih
  | case7 s rest h ih =>
      rcases Argument.ofString_eq_unknownOption_iff.1 h with ⟨hhead, hhyphen, hunknown⟩
      exact .cons (.unknownOption hhead hhyphen hunknown) (by simp) ih
  | case8 s rest h ih =>
      exact .cons (.operand (Argument.ofString_eq_operand_iff.1 h)) (by simp) ih

/-- A command line spells its row of items and no other. -/
theorem rowSpelled_iff : RowSpelled args items ↔ items = row args := by
  constructor
  · intro h
    induction h with
    | nil => rfl
    | cons h hend _ ih => rw [row_append_of_spelled h hend, ih]
  · rintro rfl
    exact rowSpelled_row args

/-! ## Rows in which nothing is settled -/

/-- One item more settles nothing if it settles nothing behind the others. -/
theorem undecided_append_singleton :
    Undecided (before ++ [item]) ↔ Undecided before ∧ ∀ result, ¬ Settles before item result := by
  constructor
  · intro h
    refine ⟨?_, fun result => h before item [] result rfl⟩
    rintro front x behind result rfl
    exact h front x (behind ++ [item]) result (by simp)
  · rintro ⟨hbefore, hitem⟩ front x behind result hsplit
    rcases List.eq_nil_or_concat behind with rfl | ⟨behind, last, rfl⟩
    · rcases List.append_inj' hsplit rfl with ⟨rfl, hlast⟩
      cases hlast
      exact hitem result
    · have hfront : before = front ++ x :: behind := by
        rw [List.concat_eq_append, ← List.cons_append, ← List.append_assoc] at hsplit
        exact (List.append_inj' hsplit rfl).1
      exact hbefore front x behind result hfront

/-- An item that chooses something, so that it settles nothing by itself. -/
def IsChoice : Item → Prop
  | mode _ | config _ | operand _ => True
  | _ => False

/-- An item settles nothing if it chooses something, and is no operand behind
another one. -/
theorem not_settles_iff :
    (∀ result, ¬ Settles before item result) ↔
      IsChoice item ∧ (item.operand?.isSome → before.filterMap operand? = []) := by
  constructor
  · intro h
    cases item with
    | help => exact (h _ .help).elim
    | version => exact (h _ .version).elim
    | missingPath option => exact (h _ (.missingPath option)).elim
    | unknownOption option => exact (h _ (.unknownOption option)).elim
    | mode m => exact ⟨trivial, nofun⟩
    | config path => exact ⟨trivial, nofun⟩
    | operand s =>
        refine ⟨trivial, fun _ => ?_⟩
        rw [List.filterMap_eq_nil_iff]
        intro first hmem
        cases first with
        | operand first => exact (h _ (.extraOperand hmem s)).elim
        | _ => rfl
  · rintro ⟨hchoice, hfirst⟩ result h
    cases h with
    | extraOperand hmem s =>
        have hnone := List.filterMap_eq_nil_iff.1 (hfirst rfl) _ hmem
        contradiction
    | _ => exact hchoice

/-- Rows in which no item settles the matter. -/
theorem undecided_iff :
    Undecided items ↔ (∀ item ∈ items, IsChoice item) ∧ (items.filterMap operand?).length ≤ 1 := by
  induction items using List.reverseRecOn with
  | nil => simp [Undecided]
  | append_singleton items item ih =>
      have hchoices : (∀ x ∈ items ++ [item], IsChoice x) ↔
          (∀ x ∈ items, IsChoice x) ∧ IsChoice item := by
        simp [or_imp, forall_and]
      rw [undecided_append_singleton, ih, not_settles_iff, and_and_and_comm, hchoices]
      apply and_congr_right
      intro _
      rw [List.filterMap_append, List.length_append, ← List.length_eq_zero_iff]
      cases hitem : item.operand? with
      | none => simp [hitem]
      | some s =>
          simp only [Option.isSome_some, forall_const, List.filterMap_cons_some hitem,
            List.filterMap_nil, List.length_singleton]
          omega

/-! ## Choices -/

/-- A row chooses at most one thing. -/
theorem Chooses.unique {o' : Options} (h : Chooses items o) (h' : Chooses items o') : o = o' := by
  have hoperand : o.operand = o'.operand := by
    simpa using congrArg List.head? (h.operand.trans h'.operand.symm)
  cases o
  cases o'
  simp only [Options.mk.injEq]
  exact ⟨h.mode.trans h'.mode.symm, h.config.trans h'.config.symm, hoperand⟩

/-- The path of the input is that of the only operand. -/
theorem namesInput_inputPath? (o : Options) : NamesInput o.operand.toList o.inputPath? := by
  rw [Options.inputPath?]
  cases o.operand with
  | none => exact .absent
  | some s =>
      by_cases hhyphen : s = "-"
      · subst hhyphen
        exact .hyphen
      · rw [Option.filter_some_pos (by simpa using hhyphen)]
        exact .file hhyphen

/-- Options with the last choices and the only operand of a row are what it
chooses. -/
theorem chooses_of_operand (hmode : o.mode = last? mode? items)
    (hconfig : o.config = last? config? items)
    (hoperand : o.operand.toList = items.filterMap operand?) : Chooses items o :=
  ⟨hmode, hconfig, hoperand, hoperand ▸ namesInput_inputPath? o⟩

/-- The operands of a row are those of its items. -/
theorem mem_filterMap_operand? {s : String} :
    s ∈ items.filterMap operand? ↔ operand s ∈ items := by
  rw [List.mem_filterMap]
  constructor
  · rintro ⟨item, hmem, hitem⟩
    cases item with
    | operand s' =>
        cases hitem
        exact hmem
    | _ => contradiction
  · intro hmem
    exact ⟨operand s, hmem, rfl⟩

/-- The last choice of a row is that of its last item, if this chooses. -/
theorem last?_append_singleton {α : Type} (choice : Item → Option α) (items : List Item)
    (item : Item) : last? choice (items ++ [item]) = (choice item).or (last? choice items) := by
  rw [last?, last?, List.filterMap_append]
  cases hchoice : choice item with
  | none => simp [hchoice]
  | some a => simp [hchoice]

/-! ## Taking in a command line -/

/-- The items that have been taken in settle nothing, and choose what is at
hand. -/
structure Pending (before : List Item) (o : Options) : Prop where
  undecided : Undecided before
  chooses : Chooses before o

/-- Before any item nothing is settled and nothing is chosen. -/
theorem pending_nil : Pending [] {} where
  undecided := by simp [Undecided]
  chooses := chooses_of_operand rfl rfl rfl

/-- One more choice is taken in on top of the others. -/
theorem Pending.append_singleton {o' : Options} (h : Pending before o) (hchoice : IsChoice item)
    (hfirst : item.operand?.isSome → o.operand = none)
    (hmode : o'.mode = item.mode?.or o.mode) (hconfig : o'.config = item.config?.or o.config)
    (hoperand : o'.operand = item.operand?.or o.operand) : Pending (before ++ [item]) o' := by
  have hnone : item.operand?.isSome → before.filterMap operand? = [] := fun hsome => by
    rw [← h.chooses.operand, hfirst hsome, Option.toList_none]
  refine ⟨undecided_append_singleton.2 ⟨h.undecided, not_settles_iff.2 ⟨hchoice, hnone⟩⟩,
    chooses_of_operand ?_ ?_ ?_⟩
  · rw [last?_append_singleton, ← h.chooses.mode, hmode]
  · rw [last?_append_singleton, ← h.chooses.config, hconfig]
  · rw [List.filterMap_append, hoperand]
    cases hitem : item.operand? with
    | none => simp [hitem, h.chooses.operand]
    | some s => simp [hitem, hnone (by rw [hitem]; rfl)]

/-- What is left of a command line goes on from what has been taken in. -/
theorem means_parseFrom (h : Pending before o) (args : List String) :
    Means (before ++ row args) (Request.parseFrom o args) := by
  fun_induction Request.parseFrom o args generalizing before with
  | case1 o =>
      rw [row, List.append_nil]
      exact .chosen h.undecided h.chooses
  | case2 o arg rest harg =>
      rw [row_help harg]
      exact .settled rfl h.undecided .help
  | case3 o arg rest harg =>
      rw [row_version harg]
      exact .settled rfl h.undecided .version
  | case4 o arg rest mode harg ih =>
      rw [row_mode harg, List.append_cons]
      exact ih (h.append_singleton trivial nofun rfl rfl rfl)
  | case5 o arg harg =>
      rw [row_missingPath harg]
      exact .settled rfl h.undecided (.missingPath arg)
  | case6 o arg harg path rest ih =>
      rw [row_config harg, List.append_cons]
      exact ih (h.append_singleton trivial nofun rfl rfl rfl)
  | case7 o arg rest harg =>
      rw [row_unknownOption harg]
      exact .settled rfl h.undecided (.unknownOption arg)
  | case8 o arg rest harg hsome =>
      rw [row_operand harg]
      rcases Option.isSome_iff_exists.1 hsome with ⟨first, hfirst⟩
      have hmem : operand first ∈ before := by
        rw [← mem_filterMap_operand?, ← h.chooses.operand, hfirst]
        exact List.mem_singleton.2 rfl
      exact .settled rfl h.undecided (.extraOperand hmem arg)
  | case9 o arg rest harg hnone ih =>
      rw [row_operand harg, List.append_cons]
      refine ih (h.append_singleton trivial (fun _ => ?_) rfl rfl rfl)
      simpa using hnone

/-! ## One meaning -/

/-- The item that settles the matter first is the same however the row is
split. -/
theorem split_unique {before' after' : List Item} {item' : Item}
    {result' : Except UsageFault Request} (h : Undecided before) (h' : Undecided before')
    (hsettles : Settles before item result) (hsettles' : Settles before' item' result')
    (heq : before ++ item :: after = before' ++ item' :: after') :
    before = before' ∧ item = item' := by
  rcases List.append_eq_append_iff.1 heq with ⟨x, rfl, hx⟩ | ⟨x, rfl, hx⟩
  · cases x with
    | nil =>
        cases hx
        simp
    | cons y x =>
        cases hx
        exact (h' before item x result rfl hsettles).elim
  · cases x with
    | nil =>
        cases hx
        simp
    | cons y x =>
        cases hx
        exact (h before' item' x result' rfl hsettles').elim

/-- An item settles the matter in one way. -/
theorem Settles.unique {result' : Except UsageFault Request} (h : Settles before item result)
    (h' : Settles before item result') : result = result' := by
  cases h <;> cases h' <;> rfl

/-- A row has one meaning. -/
theorem Means.unique {result' : Except UsageFault Request} (h : Means items result)
    (h' : Means items result') : result = result' := by
  cases h with
  | settled hsplit hbefore hsettles =>
      cases h' with
      | settled hsplit' hbefore' hsettles' =>
          rcases split_unique hbefore hbefore' hsettles hsettles' (hsplit.symm.trans hsplit') with
            ⟨rfl, rfl⟩
          exact hsettles.unique hsettles'
      | chosen hundecided _ => exact (hundecided _ _ _ _ hsplit hsettles).elim
  | chosen hundecided hchooses =>
      cases h' with
      | settled hsplit' _ hsettles' => exact (hundecided _ _ _ _ hsplit' hsettles').elim
      | chosen _ hchooses' => rw [hchooses.unique hchooses']

/-- A row that means a choice settles nothing before. -/
theorem Means.chooses (h : Means items (.ok (.highlight o))) :
    Undecided items ∧ Chooses items o := by
  cases h with
  | settled _ _ hsettles => cases hsettles
  | chosen hundecided hchooses => exact ⟨hundecided, hchooses⟩

/-! ## Reordered rows -/

/-- A reordered row settles nothing either. -/
theorem Reordered.undecided {items' : List Item} (h : Reordered items items')
    (hundecided : Undecided items) : Undecided items' := by
  rw [undecided_iff] at hundecided ⊢
  refine ⟨fun item hmem => hundecided.1 item (h.perm.mem_iff.2 hmem), ?_⟩
  rw [← (h.perm.filterMap operand?).length_eq]
  exact hundecided.2

/-- A reordered row chooses the same. -/
theorem Reordered.chooses {items' : List Item} (h : Reordered items items')
    (hchooses : Chooses items o) : Chooses items' o := by
  apply chooses_of_operand
  · rw [hchooses.mode, last?, last?, h.mode]
  · rw [hchooses.config, last?, last?, h.config]
  · have hperm := h.perm.filterMap operand?
    rw [← hchooses.operand] at hperm
    cases hoperand : o.operand with
    | none =>
        rw [hoperand, Option.toList_none] at hperm
        rw [Option.toList_none, List.nil_perm.1 hperm]
    | some s =>
        rw [hoperand, Option.toList_some] at hperm
        rw [Option.toList_some, List.singleton_perm.1 hperm]

end Item

/-! ## Faults -/

/-- The message of a fault names the argument that the fault is about. -/
theorem UsageFault.argument_infix_message (fault : UsageFault) :
    fault.argument.toList <:+: fault.message.toList := by
  cases fault with
  | missingPath option =>
      change option.toList <:+: (option ++ " requires a path").toList
      rw [String.toList_append]
      exact (List.prefix_append _ _).isInfix
  | unknownOption option =>
      change option.toList <:+: ("Unknown option: " ++ option).toList
      rw [String.toList_append]
      exact (List.suffix_append _ _).isInfix
  | extraArgument argument =>
      change argument.toList <:+: ("Unexpected extra argument: " ++ argument).toList
      rw [String.toList_append]
      exact (List.suffix_append _ _).isInfix

namespace Request

/-- A fault is about one of the arguments. -/
theorem argument_mem_of_parseFrom {o : Options} {args : List String} {fault : UsageFault}
    (h : parseFrom o args = .error fault) : fault.argument ∈ args := by
  fun_induction parseFrom o args with
  | case1 | case2 | case3 => contradiction
  | case4 _ _ _ _ _ ih | case9 _ _ _ _ _ ih => exact List.mem_cons_of_mem _ (ih h)
  | case6 _ _ _ _ _ ih => exact List.mem_cons_of_mem _ (List.mem_cons_of_mem _ (ih h))
  | case5 | case7 | case8 =>
      cases h
      exact List.mem_cons_self

open Item

/-- A command line is taken in as its items mean.  It spells one row of items, in
which a path behind a config option is part of this option, whatever it looks
like.  The first item that settles the matter gives the answer, whatever comes
behind it; a fault names the argument that it is about.  If there is none, the
last mode, the last config file and the only operand are chosen, so it makes no
difference how the operand stands among the options, and how modes and config
files stand among each other. -/
theorem parse_answers_first_settling (args : List String) :
    (∀ items, RowSpelled args items ↔ items = row args) ∧
      (∀ result, parse args = result ↔ Means (row args) result) ∧
      (∀ fault, parse args = .error fault →
        fault.argument ∈ args ∧ fault.argument.toList <:+: fault.message.toList) ∧
      ∀ o args', parse args = .ok (.highlight o) → Reordered (row args) (row args') →
        parse args' = .ok (.highlight o) := by
  have hmeans (args : List String) : Means (row args) (parse args) :=
    means_parseFrom pending_nil args
  refine ⟨fun items => rowSpelled_iff, ?_, ?_, ?_⟩
  · intro result
    constructor
    · rintro rfl
      exact hmeans args
    · exact (hmeans args).unique
  · intro fault h
    exact ⟨argument_mem_of_parseFrom h, fault.argument_infix_message⟩
  · intro o args' h hreordered
    have hchosen := hmeans args
    rw [h] at hchosen
    rcases hchosen.chooses with ⟨hundecided, hchooses⟩
    exact (hmeans args').unique
      (.chosen (hreordered.undecided hundecided) (hreordered.chooses hchooses))

/-- Paths that look like operands and options, and an empty operand, which is
moved from behind the options to a place among them.  A hyphen behind it would be
refused, although help is asked for later on. -/
theorem parse_answers_first_settling_moved :
    parse ["-c", "-", "--ansi", "-c", "-h", "--page", ""] =
        .ok (.highlight ⟨some .page, some "-h", some ""⟩) ∧
      parse ["--ansi", "-c", "-", "", "--page", "--config", "-h"] =
        .ok (.highlight ⟨some .page, some "-h", some ""⟩) ∧
      parse ["-c", "-h", "", "-", "--help"] = .error (.extraArgument "-") ∧
      "-".toList <:+: (UsageFault.extraArgument "-").message.toList := by
  have hparse : parse ["-c", "-", "--ansi", "-c", "-h", "--page", ""] =
      .ok (.highlight ⟨some .page, some "-h", some ""⟩) := by decide
  have hreordered : Reordered (row ["-c", "-", "--ansi", "-c", "-h", "--page", ""])
      (row ["--ansi", "-c", "-", "", "--page", "--config", "-h"]) :=
    ⟨by decide, by decide, by decide⟩
  have hrefused : parse ["-c", "-h", "", "-", "--help"] = .error (.extraArgument "-") := by decide
  exact ⟨hparse, (parse_answers_first_settling _).2.2.2 _ _ hparse hreordered, hrefused,
    ((parse_answers_first_settling _).2.2.1 _ hrefused).2⟩

end Request
end JsonTint
