import RoutineBridge.Proofs.ByteOrder
import RoutineBridge.Proofs.Extensionality

/-!
# What a table has been given

A table is loaded from a list of definitions, and grows by single definitions and by other tables
(`TypeTable.History`). Under every name it holds the first definition that it was given for it,
directly or with another table, cursors apart (`TypeTable.History.get?_table`). The list of its
definitions says everything about it (`TypeTable.ofList_toList`). Main statement: a table is the
left-biased union of what it was given, and comes back from its list
(`TypeTable.History.table_leftBiased`).
-/

namespace RoutineBridge.TypeTable

variable {t u v : TypeTable}

/-- Loaded from the list of its definitions, a table comes back. -/
theorem ofList_toList (h : t.Proper) : ofList t.toList = t := by
  refine ext_get? fun n => ?_
  rw [ofList, get?_insertAll, h.find?_toList]
  exact Option.none_or

/-- The definitions are listed in the order of the bytes of their names. -/
theorem pairwise_toList (h : t.Proper) :
    t.toList.Pairwise fun c d => c.name.bytes < d.name.bytes := by
  have hname : ∀ e ∈ t.definitions.entries, e.2.name = e.1 := fun e he =>
    (h e.1 e.2 (SortedMap.get?_eq_some_iff.mpr he)).1
  rw [toList, SortedMap.values, List.pairwise_map]
  refine t.definitions.increasing.imp_of_mem fun {a b} ha hb hlt => ?_
  rw [hname a ha, hname b hb]
  exact TypeName.bytes_lt_of_compare hlt

/-- To be extended by two tables is to be extended by what they make together. -/
theorem extend_assoc (t : TypeTable) (hu : u.Proper) (hv : v.Proper) :
    (t.extend u).extend v = t.extend (u.extend v) := by
  refine ext_get? fun n => ?_
  rw [get?_extend _ hv, get?_extend _ hu, get?_extend _ (hu.extend v), get?_extend _ hv,
    Option.or_assoc]

/-- A table gains nothing from itself. -/
theorem extend_self (h : t.Proper) : t.extend t = t := by
  refine ext_get? fun n => ?_
  rw [get?_extend _ h, Option.or_self]

/-! ## Histories -/

/-- How a table came about. -/
inductive History where
  /-- It was loaded from a list of definitions. -/
  | load (cs : List Composite)
  /-- A definition was added. -/
  | insert (h : History) (c : Composite)
  /-- The definitions of another table were added. -/
  | extend (h other : History)

namespace History

/-- The table with this history. -/
def table : History → TypeTable
  | load cs => ofList cs
  | insert h c => h.table.insert c
  | extend h other => h.table.extend other.table

/-- All definitions that were given, the first one first. -/
def given : History → List Composite
  | load cs => cs
  | insert h c => h.given ++ [c]
  | extend h other => h.given ++ other.given

/-- Whatever happens, definitions stand under their own names and cursors are not stored. -/
theorem proper_table (h : History) : h.table.Proper := by
  induction h with
  | load cs => exact proper_empty.insertAll cs
  | insert h c ih => exact ih.insert c
  | extend h other ih _ => exact ih.extend other.table

/-- **The first definition that was given for a name counts**, cursors apart. -/
theorem get?_table (h : History) (n : TypeName) :
    h.table.get? n = h.given.find? fun c => c.kind ≠ .cursor ∧ c.name = n := by
  induction h with
  | load cs =>
      rw [table, ofList, get?_insertAll]
      exact Option.none_or
  | insert h c ih =>
      rw [table, get?_insert, ih, given, List.find?_append]
      congr 1
      split <;> simp_all
  | extend h other ih ih' =>
      rw [table, get?_extend _ other.proper_table, ih, ih', given, List.find?_append]

/-- **A table is the left-biased union** of what it was given. Each name stands for a definition of
that name, and for the first one; no cursor is stored. The list of the definitions is in the order
of bytes, and the table can be loaded from it. To extend tables is associative and idempotent, and of
two tables the first one goes before. -/
theorem table_leftBiased (h : History) :
    (∀ n c, h.table.get? n = some c → c.name = n ∧ c.kind ≠ .cursor) ∧
      (∀ n, h.table.get? n = h.given.find? fun c => c.kind ≠ .cursor ∧ c.name = n) ∧
      ofList h.table.toList = h.table ∧
      (h.table.toList.Pairwise fun c d => c.name.bytes < d.name.bytes) ∧
      (∀ other n, (h.table.extend (table other)).get? n =
        (h.table.get? n).or (other.table.get? n)) ∧
      (∀ other third, (h.table.extend (table other)).extend (table third) =
        h.table.extend (other.table.extend third.table)) ∧
      h.table.extend h.table = h.table := by
  have hproper := h.proper_table
  refine ⟨hproper, h.get?_table, ofList_toList hproper, pairwise_toList hproper, ?_, ?_,
    extend_self hproper⟩
  · exact fun other => get?_extend _ other.proper_table
  · exact fun other third => extend_assoc _ other.proper_table third.proper_table

end History

end RoutineBridge.TypeTable
