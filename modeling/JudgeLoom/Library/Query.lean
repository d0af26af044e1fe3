import Mathlib.Data.List.Dedup
import Mathlib.Tactic.Common

/-!
# Queries with joins

A query with left outer joins tests a condition on every joined row and returns the
row of its own table once for each joined row that passes (`selectJoined`).  A
joined column is `none` where nothing is related, so a condition on a joined column
fails there; `leftJoin` always has a row, so a condition that reads no joined column
is decided by the table's own row.  The `exists_mem_leftJoin` lemmas turn a
disjunction of such conditions into one statement for each relation.
-/

namespace Query

variable {α β γ : Type*}

/-- The rows that a left outer join pairs with a row related to `related`. -/
def leftJoin (related : List β) : List (Option β) :=
  if related.isEmpty then [none] else related.map some

theorem leftJoin_ne_nil (related : List β) : leftJoin related ≠ [] := by
  cases related <;> simp [leftJoin]

theorem some_mem_leftJoin {related : List β} {b : β} : some b ∈ leftJoin related ↔ b ∈ related := by
  cases related <;> simp [leftJoin]

section Conditions

variable {related : List β} {p : Prop} {q : Option β → Prop}

/-- A left outer join has a row, so a condition that reads no joined column is kept. -/
@[simp] theorem exists_mem_leftJoin : ∃ column, column ∈ leftJoin related :=
  List.exists_mem_of_ne_nil _ (leftJoin_ne_nil related)

@[simp] theorem exists_mem_leftJoin_or {q' : Option β → Prop} :
    (∃ column ∈ leftJoin related, q column ∨ q' column) ↔
      (∃ column ∈ leftJoin related, q column) ∨ ∃ column ∈ leftJoin related, q' column := by
  simp only [and_or_left, exists_or]

@[simp] theorem exists_mem_leftJoin_and :
    (∃ column ∈ leftJoin related, p ∧ q column) ↔ p ∧ ∃ column ∈ leftJoin related, q column := by
  constructor
  · rintro ⟨column, hcolumn, hp, hq⟩
    exact ⟨hp, column, hcolumn, hq⟩
  · rintro ⟨hp, column, hcolumn, hq⟩
    exact ⟨column, hcolumn, hp, hq⟩

/-- A condition on a joined column fails where nothing is related. -/
@[simp] theorem exists_mem_leftJoin_any {test : β → Bool} :
    (∃ column ∈ leftJoin related, column.any test = true) ↔ ∃ b ∈ related, test b = true := by
  constructor
  · rintro ⟨_ | b, hcolumn, h⟩
    · simp at h
    · exact ⟨b, some_mem_leftJoin.mp hcolumn, h⟩
  · rintro ⟨b, hb, h⟩
    exact ⟨some b, some_mem_leftJoin.mpr hb, h⟩

end Conditions

/-- The rows of a table, each once for every joined row that passes the condition. -/
def selectJoined (joins : α → List γ) (condition : α → γ → Bool) (rows : List α) : List α :=
  rows.flatMap fun row => ((joins row).filter (condition row)).map fun _ => row

theorem mem_selectJoined {joins : α → List γ} {condition : α → γ → Bool} {rows : List α} {row : α} :
    row ∈ selectJoined joins condition rows ↔
      row ∈ rows ∧ ∃ joined ∈ joins row, condition row joined = true := by
  simp only [selectJoined, List.mem_flatMap, List.mem_map, List.mem_filter]
  constructor
  · rintro ⟨other, hother, joined, ⟨hjoined, hcondition⟩, rfl⟩
    exact ⟨hother, joined, hjoined, hcondition⟩
  · rintro ⟨hrow, joined, hjoined, hcondition⟩
    exact ⟨row, hrow, joined, ⟨hjoined, hcondition⟩, rfl⟩

/-- The order in which the database returns the rows of a query. -/
structure Order (α : Type*) where
  arrange : List α → List α
  perm : ∀ rows, (arrange rows).Perm rows

/-- `SELECT DISTINCT`. -/
def distinct [DecidableEq α] (order : Order α) (rows : List α) : List α := order.arrange rows.dedup

section Distinct

variable [DecidableEq α] {order : Order α} {rows : List α}

@[simp] theorem mem_distinct {row : α} : row ∈ distinct order rows ↔ row ∈ rows := by
  rw [distinct, (order.perm _).mem_iff, List.mem_dedup]

theorem nodup_distinct : (distinct order rows).Nodup :=
  (order.perm _).nodup_iff.mpr (List.nodup_dedup rows)

end Distinct

end Query
