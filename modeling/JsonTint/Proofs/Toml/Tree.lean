import JsonTint.Toml.Names

/-!
# Changing a table under construction

Every change of a table under construction is made by `alter`, at one name of
one table, or by a header of that table.

Main results:

- Theorem `names_alter`: the changed name stays where it is, or comes last.
- Theorem `lookup_alter` and theorem `lookup_alter_of_ne`: what names stand for
  after a change.
- Theorem `forall_alter` and theorem `forall_alterLast`: a property of all parts
  that a change keeps.
- Theorem `setDotted_cons` and theorem `alterAt_cons`: a statement changes the
  tables below the first name on its way.
- Theorem `defineTable_eq_some`: what a header does to its own table.
- Theorem `toEntries_eq_map`: the entries of a finished table.
-/

namespace JsonTint
namespace Toml

variable {α : Type}

@[simp]
theorem names_cons (entry : String × α) (entries : List (String × α)) :
    names (entry :: entries) = entry.1 :: names entries := rfl

@[simp]
theorem names_append (entries others : List (String × α)) :
    names (entries ++ others) = names entries ++ names others := List.map_append

/-- Without the entries under a name, that name is missing and the others stay. -/
theorem names_filter_ne (name : String) (entries : List (String × α)) :
    names (entries.filter fun entry => entry.1 != name) = (names entries).filter (· != name) := by
  rw [names, names, List.filter_map]
  rfl

theorem mem_names_of_mem {entry : String × α} {entries : List (String × α)}
    (h : entry ∈ entries) : entry.1 ∈ names entries :=
  List.mem_map_of_mem h

/-- Nothing is found exactly under a name that is missing. -/
theorem lookup_eq_none_iff {name : String} {entries : List (String × α)} :
    entries.lookup name = none ↔ name ∉ names entries := by
  rw [List.lookup_eq_none_iff, names, List.mem_map]
  constructor
  · rintro h ⟨entry, hmem, rfl⟩
    exact bne_iff_ne.1 (h entry hmem) rfl
  · intro h entry hmem
    exact bne_iff_ne.2 fun heq => h ⟨entry, hmem, heq.symm⟩

/-- What is found under a name is one of the entries. -/
theorem mem_of_lookup_eq_some {name : String} {a : α} {entries : List (String × α)}
    (h : entries.lookup name = some a) : (name, a) ∈ entries := by
  rcases List.lookup_eq_some_iff.1 h with ⟨front, back, rfl, -⟩
  exact List.mem_append_right _ List.mem_cons_self

/-! ## A table at a header -/

/-- The entry that is put last is found under its name if no other one is left. -/
theorem lookup_filter_append_self (name : String) (a : α) (entries : List (String × α)) :
    (entries.filter (fun entry => entry.1 != name) ++ [(name, a)]).lookup name = some a := by
  have hnone : (entries.filter fun entry => entry.1 != name).lookup name = none := by
    rw [lookup_eq_none_iff, names_filter_ne]
    exact fun hmem => bne_iff_ne.1 (List.mem_filter.1 hmem).2 rfl
  rw [List.lookup_append, hnone, Option.none_or]
  exact List.lookup_cons_self

/-- All other names stand for what they did. -/
theorem lookup_filter_append_of_ne {name other : String} (hne : other ≠ name) (a : α)
    (entries : List (String × α)) :
    (entries.filter (fun entry => entry.1 != name) ++ [(name, a)]).lookup other =
      entries.lookup other := by
  have hlast : [(name, a)].lookup other = none :=
    lookup_eq_none_iff.2 fun hmem => hne (List.mem_singleton.1 hmem)
  rw [List.lookup_append, hlast, Option.or_none]
  induction entries with
  | nil => rfl
  | cons entry entries ih =>
      by_cases hentry : entry.1 = name
      · have hbeq : (other == entry.1) = false := beq_eq_false_iff_ne.2 (hentry ▸ hne)
        have hdropped : (entry.1 != name) = false := bne_eq_false_iff_eq.2 hentry
        simp only [List.filter_cons, hdropped, Bool.false_eq_true, if_false]
        rw [ih, List.lookup_cons, hbeq]
      · have hkept : (entry.1 != name) = true := bne_iff_ne.2 hentry
        simp only [List.filter_cons, hkept, if_true]
        rw [List.lookup_cons, List.lookup_cons, ih]

namespace Tree

variable {name : String} {f : Option Tree → Option Tree} {b b' : Branches}

/-! ## One name -/

/-- The changed name stays where it is, or comes last if it is new. -/
theorem names_alter (h : alter name f b = some b') :
    names b' = if name ∈ names b then names b else names b ++ [name] := by
  induction b generalizing b' with
  | nil =>
      rcases Option.map_eq_some_iff.1 h with ⟨t, -, rfl⟩
      rfl
  | cons branch b ih =>
      rcases branch with ⟨other, t⟩
      rw [alter] at h
      split at h
      · next heq =>
        rcases Option.map_eq_some_iff.1 h with ⟨t', -, rfl⟩
        simp only [names_cons, heq, List.mem_cons_self, if_true]
      · next hne =>
        rcases Option.map_eq_some_iff.1 h with ⟨rest, hrest, rfl⟩
        have hmem : name ∈ other :: names b ↔ name ∈ names b :=
          List.mem_cons.trans (or_iff_right (Ne.symm hne))
        simp only [names_cons, ih hrest, hmem]
        split <;> rfl

/-- A change gives the name what it makes of what the name stood for. -/
theorem lookup_alter (h : alter name f b = some b') :
    ∃ t, f (b.lookup name) = some t ∧ b'.lookup name = some t := by
  induction b generalizing b' with
  | nil =>
      rcases Option.map_eq_some_iff.1 h with ⟨t, ht, rfl⟩
      exact ⟨t, ht, List.lookup_cons_self⟩
  | cons branch b ih =>
      rcases branch with ⟨other, t⟩
      rw [alter] at h
      split at h
      · next heq =>
        subst heq
        rcases Option.map_eq_some_iff.1 h with ⟨t', ht, rfl⟩
        rw [List.lookup_cons_self, List.lookup_cons_self]
        exact ⟨t', ht, rfl⟩
      · next hne =>
        rcases Option.map_eq_some_iff.1 h with ⟨rest, hrest, rfl⟩
        have hbeq : (name == other) = false := beq_eq_false_iff_ne.2 (Ne.symm hne)
        rw [List.lookup_cons, List.lookup_cons, hbeq]
        exact ih hrest

/-- A change leaves all other names alone. -/
theorem lookup_alter_of_ne (h : alter name f b = some b') {other : String}
    (hne : other ≠ name) : b'.lookup other = b.lookup other := by
  have hbeq : (other == name) = false := beq_eq_false_iff_ne.2 hne
  induction b generalizing b' with
  | nil =>
      rcases Option.map_eq_some_iff.1 h with ⟨t, -, rfl⟩
      rw [List.lookup_cons, hbeq]
  | cons branch b ih =>
      rcases branch with ⟨first, t⟩
      rw [alter] at h
      split at h
      · next heq =>
        subst heq
        rcases Option.map_eq_some_iff.1 h with ⟨t', -, rfl⟩
        rw [List.lookup_cons, List.lookup_cons, hbeq]
      · rcases Option.map_eq_some_iff.1 h with ⟨rest, hrest, rfl⟩
        rw [List.lookup_cons, List.lookup_cons, ih hrest]

/-- What holds of all parts of a table holds after a change too, if it holds of
what is made of one part. -/
theorem forall_alter {P : Tree → Prop} (h : alter name f b = some b')
    (hb : ∀ branch ∈ b, P branch.2)
    (hf : ∀ t? t', (∀ t ∈ t?, P t) → f t? = some t' → P t') : ∀ branch ∈ b', P branch.2 := by
  induction b generalizing b' with
  | nil =>
      rcases Option.map_eq_some_iff.1 h with ⟨t, ht, rfl⟩
      rw [List.forall_mem_singleton]
      exact hf none t (fun t ht => by contradiction) ht
  | cons branch b ih =>
      rcases branch with ⟨other, t⟩
      rw [List.forall_mem_cons] at hb
      rw [alter] at h
      split at h
      · rcases Option.map_eq_some_iff.1 h with ⟨t', ht, rfl⟩
        exact List.forall_mem_cons.2
          ⟨hf (some t) t' (fun u hu => Option.mem_some.1 hu ▸ hb.1) ht, hb.2⟩
      · rcases Option.map_eq_some_iff.1 h with ⟨rest, hrest, rfl⟩
        exact List.forall_mem_cons.2 ⟨hb.1, ih hrest hb.2⟩

/-- What holds of all elements of an array holds after a change of the last one
too, if the change keeps it. -/
theorem forall_alterLast {P : Branches → Prop} {g : Branches → Option Branches}
    {elements elements' : List Branches} (h : alterLast g elements = some elements')
    (helements : ∀ b ∈ elements, P b) (hg : ∀ b b', P b → g b = some b' → P b') :
    ∀ b ∈ elements', P b := by
  induction elements generalizing elements' with
  | nil => contradiction
  | cons first rest ih =>
      rw [List.forall_mem_cons] at helements
      cases rest with
      | nil =>
          rcases Option.map_eq_some_iff.1 h with ⟨last, hlast, rfl⟩
          rw [List.forall_mem_singleton]
          exact hg first last helements.1 hlast
      | cons second rest =>
          rcases Option.map_eq_some_iff.1 h with ⟨rest', hrest, rfl⟩
          exact List.forall_mem_cons.2 ⟨helements.1, ih hrest helements.2⟩

/-! ## Changes further down -/

/-- A change of the tables below a name makes a new table, changes the table that
the name stands for, or changes the last element of an array of tables. -/
inductive ChangedBelow (g : Branches → Option Branches) : Option Tree → Tree → Prop
  | new {origin : Origin} {sub : Branches} (h : g [] = some sub) :
      ChangedBelow g none (.table origin sub)
  | table {origin origin' : Origin} {sub sub' : Branches} (h : g sub = some sub') :
      ChangedBelow g (some (.table origin sub)) (.table origin' sub')
  | tables {elements elements' : List Branches} (h : alterLast g elements = some elements') :
      ChangedBelow g (some (.tables elements)) (.tables elements')

/-- A dotted key changes the tables below its first name. -/
theorem setDotted_cons {v : Value} {part : String} {path : List String}
    (h : setDotted name v (part :: path) b = some b') :
    ∃ f, alter part f b = some b' ∧
      ∀ t? t', f t? = some t' → ChangedBelow (setDotted name v path) t? t' := by
  refine ⟨_, h, fun t? t' ht => ?_⟩
  rcases t? with - | (_ | ⟨_ | _ | _, sub⟩ | elements)
  · rcases Option.map_eq_some_iff.1 ht with ⟨sub', hsub, rfl⟩
    exact .new hsub
  · contradiction
  · contradiction
  · simp only at ht
    split at ht
    · contradiction
    · rcases Option.map_eq_some_iff.1 ht with ⟨sub', hsub, rfl⟩
      exact .table hsub
  · rcases Option.map_eq_some_iff.1 ht with ⟨sub', hsub, rfl⟩
    exact .table hsub
  · simp only at ht
    split at ht
    · contradiction
    · rcases Option.map_eq_some_iff.1 ht with ⟨elements', helements, rfl⟩
      exact .tables helements

/-- A header changes the tables below its first name. -/
theorem alterAt_cons {g : Branches → Option Branches} {part : String} {path : List String}
    (h : alterAt g (part :: path) b = some b') :
    ∃ f, alter part f b = some b' ∧
      ∀ t? t', f t? = some t' → ChangedBelow (alterAt g path) t? t' := by
  refine ⟨_, h, fun t? t' ht => ?_⟩
  rcases t? with - | (_ | ⟨origin, sub⟩ | elements)
  · rcases Option.map_eq_some_iff.1 ht with ⟨sub', hsub, rfl⟩
    exact .new hsub
  · contradiction
  · rcases Option.map_eq_some_iff.1 ht with ⟨sub', hsub, rfl⟩
    exact .table hsub
  · rcases Option.map_eq_some_iff.1 ht with ⟨elements', helements, rfl⟩
    exact .tables helements

/-- A header puts its table behind all entries that are there.  Up to then the
table was missing or implied, and it keeps what it held. -/
theorem defineTable_eq_some (h : defineTable name b = some b') :
    ∃ sub, b' = b.filter (fun branch => branch.1 != name) ++ [(name, table .header sub)] ∧
      (b.lookup name = none ∧ sub = [] ∨ b.lookup name = some (table .implied sub)) := by
  unfold defineTable at h
  cases hlookup : b.lookup name with
  | none =>
      simp only [hlookup] at h
      cases h
      have hall : ∀ branch ∈ b, (branch.1 != name) = true := fun branch hbranch =>
        bne_iff_ne.2 fun heq => lookup_eq_none_iff.1 hlookup (heq ▸ mem_names_of_mem hbranch)
      exact ⟨[], by rw [List.filter_eq_self.2 hall], Or.inl ⟨rfl, rfl⟩⟩
  | some t =>
      rcases t with _ | ⟨_ | _ | _, sub⟩ | elements
      · simp only [hlookup] at h
        contradiction
      · simp only [hlookup] at h
        contradiction
      · simp only [hlookup] at h
        cases h
        exact ⟨sub, rfl, Or.inr rfl⟩
      · simp only [hlookup] at h
        contradiction
      · simp only [hlookup] at h
        contradiction

/-! ## Finished tables -/

/-- The entries of a finished table. -/
theorem toEntries_eq_map (b : Branches) :
    toEntries b = b.map fun branch => (branch.1, branch.2.toValue) := by
  induction b with
  | nil => rw [toEntries, List.map_nil]
  | cons branch b ih => rw [toEntries, ih, List.map_cons]

/-- The elements of a finished array of tables. -/
theorem toTables_eq_map (elements : List Branches) :
    toTables elements = elements.map fun b => .table (toEntries b) := by
  induction elements with
  | nil => rw [toTables, List.map_nil]
  | cons b elements ih => rw [toTables, ih, List.map_cons]

@[simp]
theorem names_toEntries (b : Branches) : names (toEntries b) = names b := by
  rw [toEntries_eq_map, names, names, List.map_map]
  rfl

/-- Finishing a table finishes what each name stands for. -/
theorem lookup_toEntries (name : String) (b : Branches) :
    (toEntries b).lookup name = (b.lookup name).map toValue := by
  induction b with
  | nil => rw [toEntries]; rfl
  | cons branch b ih =>
      rw [toEntries, List.lookup_cons, List.lookup_cons, ih]
      cases name == branch.1 <;> rfl

end Tree
end Toml
end JsonTint
