import Mathlib.Data.List.Nodup
import JsonTint.Proofs.Text.Reader
import JsonTint.Proofs.Toml.Tree

/-!
# No name appears twice in one table

A new name is only ever added to a table that does not have it, and what a name
stands for is replaced at its place.  So the names of each table stay distinct
while a document is read, in the tables of headers and in inline tables alike.

Main results:

- Theorems `setDotted_distinct`, `alterAt_distinct`, `defineTable_distinct` and
  `extendArray_distinct`: what one statement does.
- Theorem `value_distinct`: every value that is read.
- Theorem `distinct_of_parse?`: every table of a document.
-/

namespace JsonTint
namespace Toml

namespace Tree

/-- No name appears twice in a table under construction, at any depth. -/
inductive Distinct : Tree → Prop
  | leaf {v : Value} (h : v.Distinct) : Distinct (.leaf v)
  | table {origin : Origin} {entries : Branches} (hnames : (names entries).Nodup)
      (h : ∀ branch ∈ entries, Distinct branch.2) : Distinct (.table origin entries)
  | tables {elements : List Branches} (hnames : ∀ entries ∈ elements, (names entries).Nodup)
      (h : ∀ entries ∈ elements, ∀ branch ∈ entries, Distinct branch.2) :
      Distinct (.tables elements)

/-- No name appears twice among some entries, nor in the tables below them. -/
structure DistinctBranches (b : Branches) : Prop where
  nodup : (names b).Nodup
  below : ∀ branch ∈ b, branch.2.Distinct

theorem distinctBranches_nil : DistinctBranches [] :=
  ⟨List.nodup_nil, fun _ h => (List.not_mem_nil h).elim⟩

/-- A table is distinct exactly if its entries are. -/
theorem distinct_table_iff {origin : Origin} {b : Branches} :
    Distinct (.table origin b) ↔ DistinctBranches b := by
  constructor
  · intro h
    cases h with
    | table hnames h => exact ⟨hnames, h⟩
  · rintro ⟨hnames, h⟩
    exact .table hnames h

/-- Tables in a row are distinct exactly if the entries of each are. -/
theorem distinct_tables_iff {elements : List Branches} :
    Distinct (.tables elements) ↔ ∀ b ∈ elements, DistinctBranches b := by
  constructor
  · intro h b hb
    cases h with
    | tables hnames h => exact ⟨hnames b hb, h b hb⟩
  · intro h
    exact .tables (fun b hb => (h b hb).nodup) fun b hb => (h b hb).below

/-! ## One statement -/

section
variable {name : String} {v : Value} {path : List String} {b b' : Branches}

/-- Altering what one name stands for keeps the names distinct, if what it
stands for afterwards is. -/
theorem alter_distinct {f : Option Tree → Option Tree} (h : alter name f b = some b')
    (hb : DistinctBranches b)
    (hf : ∀ t? t', (∀ t ∈ t?, Distinct t) → f t? = some t' → Distinct t') :
    DistinctBranches b' := by
  refine ⟨?_, forall_alter h hb.below hf⟩
  rw [names_alter h]
  split
  · exact hb.nodup
  · next hnew =>
    rw [← List.concat_eq_append]
    exact .concat hnew hb.nodup

/-- Giving a new name a value keeps the names distinct. -/
theorem setLeaf_distinct (hv : v.Distinct) (hb : DistinctBranches b)
    (h : setLeaf name v b = some b') : DistinctBranches b' := by
  refine alter_distinct h hb fun t? t' _ ht => ?_
  cases t? with
  | none =>
      cases ht
      exact .leaf hv
  | some t => contradiction

/-- A table that is changed below one name stays distinct if the change keeps
names distinct. -/
theorem ChangedBelow.distinct {g : Branches → Option Branches} {t? : Option Tree} {t' : Tree}
    (h : ChangedBelow g t? t')
    (hg : ∀ b b', DistinctBranches b → g b = some b' → DistinctBranches b')
    (hold : ∀ t ∈ t?, Distinct t) : Distinct t' := by
  cases h with
  | new hsub => exact distinct_table_iff.2 (hg _ _ distinctBranches_nil hsub)
  | table hsub =>
      exact distinct_table_iff.2 (hg _ _ (distinct_table_iff.1 (hold _ rfl)) hsub)
  | tables helements =>
      exact distinct_tables_iff.2
        (forall_alterLast helements (distinct_tables_iff.1 (hold _ rfl)) hg)

/-- Giving a dotted name a value keeps the names distinct. -/
theorem setDotted_distinct (hv : v.Distinct) (hb : DistinctBranches b)
    (h : setDotted name v path b = some b') : DistinctBranches b' := by
  induction path generalizing b b' with
  | nil => exact setLeaf_distinct hv hb h
  | cons part path ih =>
      rcases setDotted_cons h with ⟨f, halter, hf⟩
      exact alter_distinct halter hb fun t? t' hold ht =>
        (hf t? t' ht).distinct (fun _ _ => ih) hold

/-- A change at the end of a path keeps the names distinct if it does so there. -/
theorem alterAt_distinct {g : Branches → Option Branches}
    (hg : ∀ b b', DistinctBranches b → g b = some b' → DistinctBranches b')
    (hb : DistinctBranches b) (h : alterAt g path b = some b') : DistinctBranches b' := by
  induction path generalizing b b' with
  | nil => exact hg b b' hb h
  | cons part path ih =>
      rcases alterAt_cons h with ⟨f, halter, hf⟩
      exact alter_distinct halter hb fun t? t' hold ht =>
        (hf t? t' ht).distinct (fun _ _ => ih) hold

/-- A header of a table keeps the names distinct, though it may move the table
behind the others. -/
theorem defineTable_distinct (hb : DistinctBranches b) (h : defineTable name b = some b') :
    DistinctBranches b' := by
  rcases defineTable_eq_some h with ⟨sub, rfl, hold⟩
  have hsub : DistinctBranches sub := by
    rcases hold with ⟨-, rfl⟩ | hlookup
    · exact distinctBranches_nil
    · exact distinct_table_iff.1 (hb.below _ (mem_of_lookup_eq_some hlookup))
  constructor
  · have hnew : name ∉ (names b).filter (· != name) := by
      intro hmem
      exact bne_iff_ne.1 (List.mem_filter.1 hmem).2 rfl
    have hnames : Toml.names [(name, Tree.table .header sub)] = [name] := rfl
    rw [names_append, names_filter_ne, hnames, ← List.concat_eq_append]
    exact .concat hnew (hb.nodup.filter _)
  · refine List.forall_mem_append.2 ⟨fun branch hbranch => ?_, ?_⟩
    · exact hb.below branch (List.mem_filter.1 hbranch).1
    · exact List.forall_mem_singleton.2 (distinct_table_iff.2 hsub)

/-- A header of an array of tables keeps the names distinct. -/
theorem extendArray_distinct (hb : DistinctBranches b) (h : extendArray name b = some b') :
    DistinctBranches b' := by
  refine alter_distinct h hb fun t? t' hold ht => ?_
  rcases t? with - | (_ | ⟨origin, sub⟩ | elements)
  · cases ht
    exact distinct_tables_iff.2 (List.forall_mem_singleton.2 distinctBranches_nil)
  · contradiction
  · contradiction
  · cases ht
    exact distinct_tables_iff.2 (List.forall_mem_append.2
      ⟨distinct_tables_iff.1 (hold _ rfl), List.forall_mem_singleton.2 distinctBranches_nil⟩)

end

/-- A finished table has distinct names if it had them under construction. -/
theorem toValue_distinct {t : Tree} (h : t.Distinct) : t.toValue.Distinct := by
  induction h with
  | leaf h => exact h
  | table hnames h ih =>
      rw [toValue]
      refine .table ((names_toEntries _).symm ▸ hnames) ?_
      rw [toEntries_eq_map, List.forall_mem_map]
      exact ih
  | tables hnames h ih =>
      rw [toValue, toTables_eq_map]
      refine .array (List.forall_mem_map.2 fun entries hentries => ?_)
      refine .table ((names_toEntries _).symm ▸ hnames entries hentries) ?_
      rw [toEntries_eq_map, List.forall_mem_map]
      exact ih entries hentries

/-- The entries of a finished table have distinct names if the branches had. -/
theorem toEntries_distinct {b : Branches} (h : DistinctBranches b) :
    Value.Distinct (.table (toEntries b)) := by
  have ht : Distinct (.table .header b) := distinct_table_iff.2 h
  have hv := toValue_distinct ht
  rwa [toValue] at hv

end Tree

/-! ## Values that are read -/

section
open Reader

theorem dateTime_distinct : Yields dateTime Value.Distinct := by
  intro s v rest h
  cases hread : dateAndTime s with
  | none =>
      simp only [dateTime, hread] at h
      contradiction
  | some read =>
      simp only [dateTime, hread] at h
      cases h
      exact .dateTime

theorem decimalFloat_distinct : Yields decimalFloat Value.Distinct := by
  refine .bind_any fun negative => .bind_any fun whole => .bind_any fun ⟨fraction, e⟩ => ?_
  exact .bind_any fun _ => .pure .float

theorem specialFloat_distinct : Yields specialFloat Value.Distinct := by
  refine .bind_any fun negative => .orElse ?_ ?_
  · exact .bind_any fun _ => .pure .float
  · exact .bind_any fun _ => .pure .float

theorem inRange_distinct (i : Int) : Yields (inRange i) Value.Distinct :=
  .bind_any fun _ => .pure .integer

theorem basedInteger_distinct (mark : List Char) (base : Nat) (ok : Char → Bool) :
    Yields (basedInteger mark base ok) Value.Distinct :=
  .bind_any fun _ => .bind_any fun _ => inRange_distinct _

/-- No integer holds a table. -/
theorem integer_distinct : Yields integer Value.Distinct := by
  refine .bind_any fun s => ?_
  split
  · exact basedInteger_distinct _ _ _
  · exact basedInteger_distinct _ _ _
  · exact basedInteger_distinct _ _ _
  · exact .bind_any fun _ => .bind_any fun _ => inRange_distinct _

theorem boolean_distinct : Yields boolean Value.Distinct := by
  refine .orElse ?_ ?_
  · exact .bind_any fun _ => .pure .boolean
  · exact .bind_any fun _ => .pure .boolean

/-- No value but an array or an inline table holds a table. -/
theorem scalar_distinct : Yields scalar Value.Distinct := by
  refine .bind_any fun c? => ?_
  split
  · exact .bind_any fun _ => .pure .string
  · exact .bind_any fun _ => .pure .string
  · exact .orElse dateTime_distinct (.orElse decimalFloat_distinct
      (.orElse specialFloat_distinct (.orElse integer_distinct boolean_distinct)))

/-- Giving one dotted name after the other a value keeps the names distinct. -/
theorem foldlM_setDotted_distinct {entries : List (Key × Value)} {b b' : Tree.Branches}
    (hentries : ∀ entry ∈ entries, entry.2.Distinct) (hb : Tree.DistinctBranches b)
    (h : entries.foldlM (fun branches (entry : Key × Value) =>
      Tree.setDotted entry.1.name entry.2 entry.1.path branches) b = some b') :
    Tree.DistinctBranches b' := by
  induction entries generalizing b with
  | nil =>
      cases h
      exact hb
  | cons entry entries ih =>
      rcases Option.bind_eq_some_iff.1 h with ⟨b₁, hfirst, hrest⟩
      rw [List.forall_mem_cons] at hentries
      exact ih hentries.2 (Tree.setDotted_distinct hentries.1 hb hfirst) hrest

/-- An inline table has distinct names if the values in it have. -/
theorem inlineTable_distinct {entries : List (Key × Value)} {v : Value}
    (hentries : ∀ entry ∈ entries, entry.2.Distinct) (h : inlineTable entries = some v) :
    v.Distinct := by
  rcases Option.map_eq_some_iff.1 h with ⟨b, hb, rfl⟩
  exact Tree.toEntries_distinct
    (foldlM_setDotted_distinct hentries Tree.distinctBranches_nil hb)

/-- The values in an inline table are distinct if those that are read are. -/
theorem inlineEntries_distinct {value : Reader Value} (h : Yields value Value.Distinct) :
    Yields (inlineEntries value) fun entries => ∀ entry ∈ entries, entry.2.Distinct := by
  refine .bind (.option (.sepBy1 (P := fun entry => entry.2.Distinct) ?_)) ?_
  · refine .bind_any fun k => .bind_any fun _ => .bind_any fun _ => .bind h fun v hv => ?_
    exact .bind_any fun _ => .pure hv
  · intro entries? hentries
    exact .bind_any fun _ => .bind_any fun _ => .pure (Yields.forall_mem_getD hentries)

/-- Every value that is read has distinct names in all its tables. -/
theorem value_distinct (depth : Nat) : Yields (value depth) Value.Distinct := by
  induction depth with
  | zero => exact scalar_distinct
  | succ depth ih =>
      refine .bind_any fun c? => ?_
      split
      · refine .bind_any fun _ => .bind (.option (P := fun items => ∀ v ∈ items, v.Distinct) ?_) ?_
        · refine .bind (.sepBy1 (P := Value.Distinct) ?_) fun items hitems => ?_
          · exact .bind_any fun _ => .bind ih fun v hv => .bind_any fun _ => .pure hv
          · exact .bind_any fun _ => .pure hitems
        · intro items? hitems
          exact .bind_any fun _ => .bind_any fun _ => .pure (.array (Yields.forall_mem_getD hitems))
      · refine .bind_any fun _ => .bind (inlineEntries_distinct ih) fun entries hentries => ?_
        split
        · next v hv => exact .pure (inlineTable_distinct hentries hv)
        · exact .failure
      · exact scalar_distinct

/-- The value of a statement has distinct names. -/
theorem statement_distinct :
    Yields statement fun st => ∀ k v, st = .entry k v → v.Distinct := by
  refine .bind_any fun s => ?_
  split
  · exact .bind_any fun _ => .bind_any fun _ => .bind_any fun _ => .bind_any fun _ =>
      .pure fun k v h => by contradiction
  · exact .bind_any fun _ => .bind_any fun _ => .bind_any fun _ => .bind_any fun _ =>
      .pure fun k v h => by contradiction
  · refine .bind_any fun _ => .bind_any fun _ => .bind_any fun _ => ?_
    refine .bind (value_distinct _) fun v hv => .bind_any fun _ => .pure ?_
    intro k' v' h
    cases h
    exact hv

/-- The value of the statement on a line, if any, has distinct names. -/
theorem line_distinct :
    Yields line fun st? => ∀ st ∈ st?, ∀ k v, st = .entry k v → v.Distinct := by
  refine .bind (.orElse ?_ (.orElse ?_ ?_)) fun st? hst => .bind_any fun _ => .pure hst
  · exact .bind_any fun _ => .pure fun st h => by contradiction
  · exact .bind_any fun _ => .bind_any fun _ => .pure fun st h => by contradiction
  · exact .bind statement_distinct fun st hst => .pure fun st' h => Option.mem_some.1 h ▸ hst

/-- The values of all statements that are read have distinct names. -/
theorem statements_distinct :
    Yields statements fun ss => ∀ st ∈ ss, ∀ k v, st = .entry k v → v.Distinct := by
  refine .bind_any fun _ => .bind_any fun _ => .bind (.many line_distinct) fun found hfound => ?_
  refine .bind_any fun _ => .pure fun st hst => ?_
  rcases List.mem_filterMap.1 hst with ⟨st?, hmem, rfl⟩
  exact hfound _ hmem st rfl

end

/-! ## Documents -/

/-- A statement keeps the names of a draft distinct. -/
theorem apply_distinct {d d' : Draft} {st : Statement} (h : d.apply st = some d')
    (hst : ∀ k v, st = .entry k v → v.Distinct) (hd : Tree.DistinctBranches d.branches) :
    Tree.DistinctBranches d'.branches := by
  cases st with
  | table k =>
      rcases Option.bind_eq_some_iff.1 h with ⟨b, hb, hd'⟩
      cases hd'
      exact Tree.alterAt_distinct (fun _ _ => Tree.defineTable_distinct) hd hb
  | arrayTable k =>
      rcases Option.bind_eq_some_iff.1 h with ⟨b, hb, hd'⟩
      cases hd'
      exact Tree.alterAt_distinct (fun _ _ => Tree.extendArray_distinct) hd hb
  | entry k v =>
      rcases Option.bind_eq_some_iff.1 h with ⟨b, hb, hd'⟩
      cases hd'
      exact Tree.alterAt_distinct
        (fun _ _ => Tree.setDotted_distinct (hst k v rfl)) hd hb

/-- A row of statements keeps the names of a draft distinct. -/
theorem foldlM_apply_distinct {ss : List Statement} {d d' : Draft}
    (h : ss.foldlM Draft.apply d = some d')
    (hss : ∀ st ∈ ss, ∀ k v, st = .entry k v → v.Distinct)
    (hd : Tree.DistinctBranches d.branches) : Tree.DistinctBranches d'.branches := by
  induction ss generalizing d with
  | nil =>
      cases h
      exact hd
  | cons st ss ih =>
      rcases Option.bind_eq_some_iff.1 h with ⟨d₁, hfirst, hrest⟩
      rw [List.forall_mem_cons] at hss
      exact ih hrest hss.2 (apply_distinct hfirst hss.1 hd)

/-- No name appears twice in a table of a document. -/
theorem distinct_of_parse? {s : List Char} {fields : Entries} (h : parse? s = some fields) :
    Value.Distinct (.table fields) := by
  rcases Option.bind_eq_some_iff.1 h with ⟨ss, hread, hbuild⟩
  rcases Option.bind_eq_some_iff.1 hbuild with ⟨d, hd, hfields⟩
  cases hfields
  exact Tree.toEntries_distinct (foldlM_apply_distinct hd
    (Reader.Yields.readAll? statements_distinct hread) Tree.distinctBranches_nil)

end Toml
end JsonTint
