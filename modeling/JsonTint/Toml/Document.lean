import JsonTint.Toml.Statement

/-!
# Reading a TOML document

The statements of a document are carried out one after the other, and each
entry goes into the table of the last header before it.
-/

namespace JsonTint
namespace Toml

/-- The tables built so far, and the names of the header that entries belong
to. -/
structure Draft where
  branches : Tree.Branches := []
  header : List String := []

/-- Carries out a statement, unless it contradicts an earlier one. -/
def Draft.apply (d : Draft) : Statement → Option Draft
  | .table k => do
    let branches ← Tree.alterAt (Tree.defineTable k.name) k.path d.branches
    return ⟨branches, k.path ++ [k.name]⟩
  | .arrayTable k => do
    let branches ← Tree.alterAt (Tree.extendArray k.name) k.path d.branches
    return ⟨branches, k.path ++ [k.name]⟩
  | .entry k v => do
    let branches ← Tree.alterAt (Tree.setDotted k.name v k.path) d.header d.branches
    return { d with branches }

/-- The entries of the document that some statements make up. -/
def build? (ss : List Statement) : Option Entries := do
  let d ← ss.foldlM Draft.apply {}
  return Tree.toEntries d.branches

/-- The entries of the document that a text writes, if it writes one. -/
def parse? (s : List Char) : Option Entries := do
  let ss ← statements.readAll? s
  build? ss

end Toml
end JsonTint
