import JsonTint.Proofs.Toml.Tree

/-!
# Where the entries of a table stand

A statement changes the tables on the way to what it mentions, and no others.
In each of them the name that is mentioned stays where it is or comes last, and
only the header of a table moves a name that is there already.

Main results:

- Theorem `moves_alter`: a change at one name, from the change below it.
- Theorem `moves_alterAt` and theorem `moves_setDotted`: a statement moves names as
  its mention says.
- Theorem `inPlace_of_build?`: the order of all tables of a document that are not
  part of the value of an entry.
- Theorem `inPlace_of_value`: the order of the tables in an inline table, as it is
  read.
-/

namespace JsonTint
namespace Toml

/-! ## Mentions below a path -/

/-- What is mentioned, seen from further out. -/
def Mention.within (outer : List String) : Mention → Mention
  | table path => table (outer ++ path)
  | element path => element (outer ++ path)
  | entry path v => entry (outer ++ path) v

/-- The path of what is seen from further out begins with the names on the way. -/
@[simp]
theorem Mention.path_within (outer : List String) (m : Mention) :
    (m.within outer).path = outer ++ m.path := by
  cases m <;> rfl

/-- Only the header of a table has one. -/
theorem Mention.header?_eq_some_iff {m : Mention} {path : List String} :
    m.header? = some path ↔ m = .table path := by
  cases m <;> simp [Mention.header?]

/-- Seen from where one stands, a mention is the same. -/
theorem Mention.within_nil (m : Mention) : m.within [] = m := by
  cases m <;> rfl

/-- A mention is seen from further out name by name. -/
theorem Mention.within_cons (part : String) (outer : List String) (m : Mention) :
    m.within (part :: outer) = (m.within outer).within [part] := by
  cases m <;> rfl

/-- A mention counts for the tables below a name as it does seen from there. -/
theorem place_within (part : String) (path known : List String) (m : Mention) :
    place (part :: path) known (m.within [part]) = place path known m := by
  have htable : ∀ name, (m.within [part]).header? = some (part :: path ++ [name]) ↔
      m.header? = some (path ++ [name]) := by
    intro name
    cases m <;> simp [Mention.within, Mention.header?]
  have hpath : (part :: path).isPrefixOf? (part :: m.path) = path.isPrefixOf? m.path :=
    if_pos (beq_self_eq_true part)
  unfold place
  simp only [Mention.path_within, List.singleton_append, hpath, htable]

/-- A mention of another name does not count. -/
theorem place_of_ne {name part : String} (hne : name ≠ part) (path known : List String)
    (m : Mention) : place (name :: path) known (m.within [part]) = known := by
  have hpath : (name :: path).isPrefixOf? (part :: m.path) = none :=
    if_neg (beq_eq_false_iff_ne.2 hne ▸ Bool.false_ne_true)
  unfold place
  simp only [Mention.path_within, List.singleton_append, hpath]

/-- A mention of something in a table, other than its header, puts a new name
last. -/
theorem place_nil {part : String} {m : Mention} (hm : m ≠ .table []) (known : List String) :
    place [] known (m.within [part]) = if part ∈ known then known else known ++ [part] := by
  have hne : (m.within [part]).header? ≠ some [part] := by
    rw [ne_eq, Mention.header?_eq_some_iff]
    cases m with
    | table path =>
        intro h
        cases h
        exact hm rfl
    | element path => exact fun h => by contradiction
    | entry path v => exact fun h => by contradiction
  unfold place
  rw [Mention.path_within, List.singleton_append]
  exact if_neg hne

/-- The header of a table in a table puts its name last. -/
theorem place_nil_table (name : String) (known : List String) :
    place [] known (.table [name]) = known.filter (· != name) ++ [name] :=
  if_pos rfl

/-- The header of a table does not count for the tables in it. -/
theorem place_cons_table (other name : String) (path known : List String) :
    place (other :: path) known (.table [name]) = known := by
  by_cases hother : other = name
  · subst hother
    refine (place_within other path known (.table [])).trans ?_
    cases path <;> rfl
  · exact place_of_ne hother path known (.table [])

namespace Tree

/-! ## Tables and values below a path -/

/-- The names of the table at a path, which may still be missing. -/
def namesAt? : List String → Branches → Option (List String)
  | [], b => some (names b)
  | name :: path, b =>
    match b.lookup name with
    | none => some []
    | some (.table _ sub) => namesAt? path sub
    | some _ => none

/-- The value of an entry that names at the front of a path lead to, and the names
behind them. -/
def leafAt? : List String → Branches → Option (Value × List String)
  | [], _ => none
  | name :: path, b =>
    match b.lookup name with
    | some (.leaf v) => some (v, path)
    | some (.table _ sub) => leafAt? path sub
    | _ => none

/-- All tables in an empty table are missing. -/
theorem namesAt?_nil (path : List String) : namesAt? path [] = some [] := by
  cases path <;> rfl

/-- There are no values in an empty table. -/
theorem leafAt?_nil (path : List String) : leafAt? path [] = none := by
  cases path <;> rfl

/-! ## Changes -/

/-- A change moves the names of all tables as a mention says, and makes no values
but those of the entries mentioned. -/
structure Moves (m : Mention) (b b' : Branches) : Prop where
  names : ∀ path known', namesAt? path b' = some known' →
    ∃ known, namesAt? path b = some known ∧ known' = place path known m
  leaf : ∀ path v rest, leafAt? path b' = some (v, rest) →
    leafAt? path b = some (v, rest) ∨ ∃ q, m = .entry q v ∧ path = q ++ rest

/-- What becomes of one name of a table, where a mention is seen from that
name. -/
inductive Grows (m : Mention) : Option Tree → Tree → Prop
  | new {origin : Origin} {sub : Branches} (h : Moves m [] sub) :
      Grows m none (.table origin sub)
  | table {origin origin' : Origin} {sub sub' : Branches} (h : Moves m sub sub') :
      Grows m (some (.table origin sub)) (.table origin' sub')
  | tables {t? : Option Tree} {elements : List Branches} : Grows m t? (.tables elements)
  | leaf {v : Value} (h : m = .entry [] v) : Grows m none (.leaf v)

section
variable {m : Mention} {name : String} {path : List String} {b b' : Branches}

/-- The names of the tables below a name that has grown. -/
theorem Grows.names {t' : Tree} (h : Grows m (b.lookup name) t')
    (hlookup' : b'.lookup name = some t') {known' : List String}
    (hknown' : namesAt? (name :: path) b' = some known') :
    ∃ known, namesAt? (name :: path) b = some known ∧ known' = place path known m := by
  simp only [namesAt?, hlookup'] at hknown' ⊢
  generalize b.lookup name = t? at h ⊢
  cases h with
  | new hsub =>
      rcases hsub.names path known' hknown' with ⟨known, hknown, rfl⟩
      exact ⟨known, (namesAt?_nil path).symm.trans hknown, rfl⟩
  | table hsub => exact hsub.names path known' hknown'
  | tables => contradiction
  | leaf => contradiction

/-- The values below a name that has grown. -/
theorem Grows.leafAt? {t' : Tree} (h : Grows m (b.lookup name) t')
    (hlookup' : b'.lookup name = some t') {v : Value} {rest : List String}
    (hleaf : Tree.leafAt? (name :: path) b' = some (v, rest)) :
    Tree.leafAt? (name :: path) b = some (v, rest) ∨ ∃ q, m = .entry q v ∧ path = q ++ rest := by
  simp only [Tree.leafAt?, hlookup'] at hleaf ⊢
  generalize b.lookup name = t? at h ⊢
  cases h with
  | new hsub =>
      have hnone : Tree.leafAt? path [] ≠ some (v, rest) := by
        rw [leafAt?_nil]
        exact nofun
      exact Or.inr ((hsub.leaf path v rest hleaf).resolve_left hnone)
  | table hsub => exact hsub.leaf path v rest hleaf
  | tables => contradiction
  | leaf hentry =>
      cases hleaf
      exact Or.inr ⟨[], hentry, rfl⟩

/-- A change at one name moves names as the change below that name does. -/
theorem moves_alter {f : Option Tree → Option Tree} (h : alter name f b = some b')
    (hm : m ≠ .table []) (hf : ∀ t? t', f t? = some t' → Grows m t? t') :
    Moves (m.within [name]) b b' := by
  rcases lookup_alter h with ⟨t', ht', hlookup'⟩
  have hgrows := hf _ t' ht'
  constructor
  · intro path known' hknown'
    cases path with
    | nil =>
        cases hknown'
        exact ⟨_, rfl, by rw [names_alter h, place_nil hm]⟩
    | cons other path =>
        -- Only what the changed name itself stands for can have other tables now.
        by_cases hother : other = name
        · subst hother
          rcases hgrows.names hlookup' hknown' with ⟨known, hknown, hplace⟩
          exact ⟨known, hknown, hplace.trans (place_within other path known m).symm⟩
        · rw [namesAt?, lookup_alter_of_ne h hother] at hknown'
          exact ⟨known', hknown', (place_of_ne hother path known' m).symm⟩
  · intro path v rest hleaf
    cases path with
    | nil => contradiction
    | cons other path =>
        by_cases hother : other = name
        · subst hother
          refine (hgrows.leafAt? hlookup' hleaf).imp_right ?_
          rintro ⟨q, rfl, rfl⟩
          exact ⟨other :: q, rfl, rfl⟩
        · rw [leafAt?, lookup_alter_of_ne h hother] at hleaf
          exact Or.inl hleaf

/-- A change below a name grows what the name stands for. -/
theorem ChangedBelow.grows {g : Branches → Option Branches} {t? : Option Tree} {t' : Tree}
    (h : ChangedBelow g t? t') (hg : ∀ b b', g b = some b' → Moves m b b') : Grows m t? t' := by
  cases h with
  | new hsub => exact .new (hg _ _ hsub)
  | table hsub => exact .table (hg _ _ hsub)
  | tables => exact .tables

/-- A new value moves names as a mention of its name says. -/
theorem moves_setLeaf {v : Value} (h : setLeaf name v b = some b') :
    Moves (.entry [name] v) b b' := by
  refine moves_alter (m := .entry [] v) h (fun hm => by contradiction) fun t? t' ht => ?_
  cases t? with
  | none =>
      cases ht
      exact .leaf rfl
  | some t => contradiction

/-- A dotted key moves names as a mention of it says. -/
theorem moves_setDotted {v : Value} (h : setDotted name v path b = some b') :
    Moves (.entry (path ++ [name]) v) b b' := by
  induction path generalizing b b' with
  | nil => exact moves_setLeaf h
  | cons part path ih =>
      rcases setDotted_cons h with ⟨f, halter, hf⟩
      exact moves_alter (m := .entry (path ++ [name]) v) halter (fun hm => by contradiction)
        fun t? t' ht => (hf t? t' ht).grows fun _ _ => ih

/-- A change of the table that a header leads to moves names as it does there. -/
theorem moves_alterAt {g : Branches → Option Branches} (hm : m.path ≠ [])
    (hg : ∀ b b', g b = some b' → Moves m b b') (h : alterAt g path b = some b') :
    Moves (m.within path) b b' := by
  induction path generalizing b b' with
  | nil => exact m.within_nil.symm ▸ hg b b' h
  | cons part path ih =>
      -- The header of the table in question is no case of this: it has no name left.
      have hne : m.within path ≠ .table [] := by
        intro heq
        have hpath := m.path_within path
        rw [heq] at hpath
        exact hm (List.append_eq_nil_iff.1 hpath.symm).2
      rcases alterAt_cons h with ⟨f, halter, hf⟩
      rw [Mention.within_cons]
      exact moves_alter halter hne fun t? t' ht => (hf t? t' ht).grows fun _ _ => ih

/-- A new element of an array of tables moves names as its header says. -/
theorem moves_extendArray (h : extendArray name b = some b') :
    Moves (.element [name]) b b' := by
  -- An array of tables has no names of its own, so nothing is said of what is in it.
  refine moves_alter (m := .element []) h (fun hm => by contradiction) fun t? t' ht => ?_
  rcases t? with - | (_ | ⟨origin, sub⟩ | elements)
  · cases ht
    exact .tables
  · contradiction
  · contradiction
  · cases ht
    exact .tables

/-- The header of a table moves names as a mention of it says. -/
theorem moves_defineTable (h : defineTable name b = some b') :
    Moves (.table [name]) b b' := by
  rcases defineTable_eq_some h with ⟨sub, rfl, hold⟩
  constructor
  · intro path known' hknown'
    cases path with
    | nil =>
        cases hknown'
        refine ⟨_, rfl, ?_⟩
        rw [place_nil_table, names_append, names_filter_ne]
        rfl
    | cons other path =>
        refine ⟨known', ?_, (place_cons_table other name path known').symm⟩
        by_cases hother : other = name
        · subst hother
          simp only [namesAt?, lookup_filter_append_self] at hknown' ⊢
          rcases hold with ⟨hnone, rfl⟩ | himplied
          · rw [hnone]
            exact (namesAt?_nil path).symm.trans hknown'
          · rw [himplied]
            exact hknown'
        · rw [namesAt?, lookup_filter_append_of_ne hother] at hknown'
          exact hknown'
  · intro path v rest hleaf
    cases path with
    | nil => contradiction
    | cons other path =>
        refine Or.inl ?_
        by_cases hother : other = name
        · subst hother
          simp only [leafAt?, lookup_filter_append_self] at hleaf ⊢
          rcases hold with ⟨-, rfl⟩ | himplied
          · rw [leafAt?_nil] at hleaf
            contradiction
          · rw [himplied]
            exact hleaf
        · rw [leafAt?, lookup_filter_append_of_ne hother] at hleaf
          exact hleaf

end

/-! ## Documents -/

/-- What some mentions say of a table under construction. -/
structure Ordered (ms : List Mention) (b : Branches) : Prop where
  names : ∀ path known, namesAt? path b = some known → known = order path ms
  leaf : ∀ path v rest, leafAt? path b = some (v, rest) →
    ∃ q, Mention.entry q v ∈ ms ∧ path = q ++ rest

/-- Nothing is said of an empty table. -/
theorem ordered_nil : Ordered [] [] := by
  constructor
  · intro path known h
    rw [namesAt?_nil] at h
    cases h
    rfl
  · intro path v rest h
    rw [leafAt?_nil] at h
    contradiction

/-- A change that moves names as a mention says adds the mention. -/
theorem Moves.ordered {m : Mention} {ms : List Mention} {b b' : Branches} (h : Moves m b b')
    (hb : Ordered ms b) : Ordered (ms ++ [m]) b' := by
  constructor
  · intro path known' hknown'
    rcases h.names path known' hknown' with ⟨known, hknown, rfl⟩
    rw [hb.names path known hknown, order, order, List.foldl_append]
    rfl
  · intro path v rest hleaf
    rcases h.leaf path v rest hleaf with hold | ⟨q, rfl, hq⟩
    · rcases hb.leaf path v rest hold with ⟨q, hmem, hq⟩
      exact ⟨q, List.mem_append_left _ hmem, hq⟩
    · exact ⟨q, List.mem_append_right _ List.mem_cons_self, hq⟩

/-- A table of a finished document was a table under construction, or is part of
the value of an entry. -/
theorem exists_names_of_tableAt? {path : List String} {b : Branches} {sub : Entries}
    (h : tableAt? path (toEntries b) = some sub) :
    namesAt? path b = some (Toml.names sub) ∨
      ∃ v rest, leafAt? path b = some (v, rest) ∧ v.tableAt? rest = some sub := by
  induction path generalizing b with
  | nil =>
      cases h
      exact Or.inl (congrArg some (names_toEntries b).symm)
  | cons name path ih =>
      rw [tableAt?, lookup_toEntries] at h
      simp only [namesAt?, leafAt?]
      generalize b.lookup name = t? at h ⊢
      rcases t? with - | (v | ⟨origin, entries⟩ | elements)
      · contradiction
      · refine Or.inr ⟨v, path, rfl, ?_⟩
        rw [Option.map_some, toValue] at h
        split at h
        · next sub' heq =>
          cases heq
          exact h
        · contradiction
      · rw [Option.map_some, toValue] at h
        exact ih h
      · rw [Option.map_some, toValue] at h
        contradiction

end Tree

/-- A statement adds its mention to those that a table under construction follows. -/
theorem apply_ordered (ss : List Statement) {d d' : Draft} {st : Statement} {ms : List Mention}
    (h : d.apply st = some d') (hd : Tree.Ordered ms d.branches) :
    ∃ m, mentions d.header (st :: ss) = m :: mentions d'.header ss ∧
      Tree.Ordered (ms ++ [m]) d'.branches := by
  have hname : ∀ k : Key, k.names ≠ [] := fun k => List.append_ne_nil_of_right_ne_nil _ (by simp)
  cases st with
  | table k =>
      rcases Option.bind_eq_some_iff.1 h with ⟨b, hb, hd'⟩
      cases hd'
      exact ⟨_, rfl, (Tree.moves_alterAt (m := .table [k.name]) (List.cons_ne_nil _ _)
        (fun _ _ => Tree.moves_defineTable) hb).ordered hd⟩
  | arrayTable k =>
      rcases Option.bind_eq_some_iff.1 h with ⟨b, hb, hd'⟩
      cases hd'
      exact ⟨_, rfl, (Tree.moves_alterAt (m := .element [k.name]) (List.cons_ne_nil _ _)
        (fun _ _ => Tree.moves_extendArray) hb).ordered hd⟩
  | entry k v =>
      rcases Option.bind_eq_some_iff.1 h with ⟨b, hb, hd'⟩
      cases hd'
      exact ⟨_, rfl, (Tree.moves_alterAt (m := .entry k.names v) (hname k)
        (fun _ _ => Tree.moves_setDotted) hb).ordered hd⟩

/-- Statements add their mentions. -/
theorem foldlM_apply_ordered {ss : List Statement} {d d' : Draft} {ms : List Mention}
    (h : ss.foldlM Draft.apply d = some d') (hd : Tree.Ordered ms d.branches) :
    Tree.Ordered (ms ++ mentions d.header ss) d'.branches := by
  induction ss generalizing d ms with
  | nil =>
      cases h
      rw [mentions, List.append_nil]
      exact hd
  | cons st ss ih =>
      rcases Option.bind_eq_some_iff.1 h with ⟨d₁, hfirst, hrest⟩
      rcases apply_ordered ss hfirst hd with ⟨m, hm, hd₁⟩
      rw [hm, List.append_cons]
      exact ih hrest hd₁

/-- A table that follows some mentions is finished in place. -/
theorem Tree.Ordered.inPlace {ms : List Mention} {b : Tree.Branches} (h : Tree.Ordered ms b) :
    InPlace ms (Tree.toEntries b) := by
  intro path sub hsub
  rcases Tree.exists_names_of_tableAt? hsub with hnames | ⟨v, rest, hleaf, hpart⟩
  · exact Or.inl (h.names path _ hnames)
  · rcases h.leaf path v rest hleaf with ⟨q, hmem, hpath⟩
    exact Or.inr ⟨q, v, rest, hmem, hpath, hpart⟩

/-- The entries of every table stand in the order of what the statements mention,
unless the table is part of the value of an entry. -/
theorem inPlace_of_build? {ss : List Statement} {fields : Entries}
    (h : build? ss = some fields) : InPlace (mentions [] ss) fields := by
  rcases Option.bind_eq_some_iff.1 h with ⟨d, hd, hfields⟩
  cases hfields
  exact (foldlM_apply_ordered hd Tree.ordered_nil).inPlace

/-! ## Inline tables -/

/-- The entries of an inline table add their mentions. -/
theorem foldlM_setDotted_ordered {entries : List (Key × Value)} {b b' : Tree.Branches}
    {ms : List Mention} (h : entries.foldlM (fun branches (entry : Key × Value) =>
      Tree.setDotted entry.1.name entry.2 entry.1.path branches) b = some b')
    (hb : Tree.Ordered ms b) : Tree.Ordered (ms ++ inlineMentions entries) b' := by
  induction entries generalizing b ms with
  | nil =>
      cases h
      rw [inlineMentions, List.map_nil, List.append_nil]
      exact hb
  | cons entry entries ih =>
      rcases Option.bind_eq_some_iff.1 h with ⟨b₁, hfirst, hrest⟩
      rw [inlineMentions, List.map_cons, List.append_cons]
      exact ih hrest ((Tree.moves_setDotted hfirst).ordered hb)

/-- An inline table is a table, and its entries stand in the order in which they are
given. -/
theorem inPlace_of_inlineTable {entries : List (Key × Value)} {v : Value}
    (h : inlineTable entries = some v) :
    ∃ sub, v = .table sub ∧ InPlace (inlineMentions entries) sub := by
  rcases Option.map_eq_some_iff.1 h with ⟨b, hb, rfl⟩
  exact ⟨_, rfl, (foldlM_setDotted_ordered hb Tree.ordered_nil).inPlace⟩

/-- A value that begins with an opening brace is an inline table.  Its entries are
read from left to right, and stand in this order. -/
theorem inPlace_of_value {depth : Nat} {s rest : List Char} {v : Value}
    (h : value (depth + 1) ('\x7b' :: s) = some (v, rest)) :
    ∃ entries sub, inlineEntries (value depth) s = some (entries, rest) ∧ v = .table sub ∧
      InPlace (inlineMentions entries) sub := by
  rcases Option.bind_eq_some_iff.1 h with ⟨⟨entries, behind⟩, hentries, hv⟩
  cases htable : inlineTable entries with
  | none =>
      simp only [htable] at hv
      contradiction
  | some v' =>
      simp only [htable] at hv
      cases hv
      rcases inPlace_of_inlineTable htable with ⟨sub, hsub, hplace⟩
      exact ⟨entries, sub, hentries, hsub, hplace⟩

end Toml
end JsonTint
