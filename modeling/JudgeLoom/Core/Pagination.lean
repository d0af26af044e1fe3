import Mathlib.Algebra.Order.Ring.Int
import Mathlib.Data.List.Basic
import Mathlib.Tactic.Common
import Mathlib.Tactic.Zify

/-!
# Pagination

`core/pagination.py`.  The parameters of a page carry their bounds, so
`paginateQueryset` never divides by zero, and what it returns is the dictionary that
its callers read by key.  The pages from the first to the last, read under `results`,
are the queryset cut into pieces (`flatMap_results`).
-/

namespace JudgeLoom

/-- `settings.JUDGELOOM["MAX_PAGE_SIZE"]`. -/
def maxPageSize : ℤ := 200

/-- Query parameters for paginated list endpoints. -/
structure PaginationParams where
  page : ℤ
  pageSize : ℤ
  one_le_page : 1 ≤ page
  one_le_pageSize : 1 ≤ pageSize
  pageSize_le : pageSize ≤ maxPageSize

/-- `PaginationParams(page=…, page_size=…)`; an error lists the fields it names. -/
def PaginationParams.ofQuery (page pageSize : ℤ) : Except (List String) PaginationParams :=
  if hpage : 1 ≤ page then
    if hsize : 1 ≤ pageSize ∧ pageSize ≤ maxPageSize then
      .ok { page, pageSize, one_le_page := hpage, one_le_pageSize := hsize.1, pageSize_le := hsize.2 }
    else .error ["page_size"]
  else if 1 ≤ pageSize ∧ pageSize ≤ maxPageSize then .error ["page"]
  else .error ["page", "page_size"]

/-- A value of the dictionary of a page. -/
inductive PageValue (α : Type*)
  | number (value : ℤ)
  | rows (items : List α)

variable {α : Type*}

/-- `max(1, (total + page_size - 1) // page_size)`. -/
def totalPages (total pageSize : ℤ) : ℤ := max 1 ((total + pageSize - 1) / pageSize)

/-- Slice a queryset according to pagination parameters. -/
def paginateQueryset (queryset : List α) (params : PaginationParams) : List (String × PageValue α) :=
  let total : ℤ := queryset.length
  let pages := totalPages total params.pageSize
  -- clamp page to valid range
  let page := min (max params.page 1) pages
  let offset := (page - 1) * params.pageSize
  let items := (queryset.drop offset.toNat).take params.pageSize.toNat
  [("count", .number total), ("page", .number page), ("page_size", .number params.pageSize),
    ("total_pages", .number pages), ("results", .rows items)]

/-- `page.get(key, [])`, as the list it has to be; a number cannot be iterated. -/
def rowsAt (key : String) (page : List (String × PageValue α)) : Option (List α) :=
  match page.lookup key with
  | none => some []
  | some (.rows items) => some items
  | some (.number _) => none

/-- A list cut into pieces of one size. -/
theorem flatMap_range_pieces (rows : List α) (size pages : ℕ) :
    ((List.range pages).flatMap fun k => (rows.drop (k * size)).take size) =
      rows.take (pages * size) := by
  induction pages with
  | zero => simp
  | succ pages ih =>
      rw [List.range_succ, List.flatMap_append, ih, Nat.succ_mul, List.take_add]
      simp

theorem rowsAt_results (queryset : List α) (params : PaginationParams)
    (hpage : params.page ≤ totalPages queryset.length params.pageSize) :
    rowsAt "results" (paginateQueryset queryset params) =
      some ((queryset.drop ((params.page - 1) * params.pageSize).toNat).take
        params.pageSize.toNat) := by
  have hclamp : min (max params.page 1) (totalPages queryset.length params.pageSize) =
      params.page := by
    rw [max_eq_left params.one_le_page, min_eq_left hpage]
  change some ((queryset.drop ((min (max params.page 1) (totalPages queryset.length
    params.pageSize) - 1) * params.pageSize).toNat).take params.pageSize.toNat) = _
  rw [hclamp]

/-- The last page ends at or after the last row. -/
theorem length_le_totalPages_mul (queryset : List α) {size : ℤ} (hsize : 1 ≤ size) :
    queryset.length ≤ (totalPages queryset.length size).toNat * size.toNat := by
  have hpages : ((queryset.length : ℤ) + size - 1) / size ≤ totalPages queryset.length size :=
    le_max_right _ _
  have hdiv := Int.lt_ediv_add_one_mul_self ((queryset.length : ℤ) + size - 1)
    (show 0 < size by omega)
  have hlast : (queryset.length : ℤ) ≤ totalPages queryset.length size * size := by
    have hmul : ((queryset.length : ℤ) + size - 1) / size * size ≤
        totalPages queryset.length size * size :=
      mul_le_mul_of_nonneg_right hpages (by omega)
    rw [add_mul, one_mul] at hdiv
    omega
  have hone : 1 ≤ totalPages queryset.length size := le_max_left _ _
  zify
  rwa [Int.toNat_of_nonneg (by omega), Int.toNat_of_nonneg (by omega)]

/-- The results of the pages, from the first to the last, are the queryset. -/
theorem flatMap_results (queryset : List α) {size : ℤ} (hsize : 1 ≤ size ∧ size ≤ maxPageSize) :
    ((List.range (totalPages queryset.length size).toNat).flatMap fun k : ℕ =>
      (rowsAt "results" (paginateQueryset queryset
        { page := (k : ℤ) + 1
          pageSize := size
          one_le_page := by omega
          one_le_pageSize := hsize.1
          pageSize_le := hsize.2 })).getD []) = queryset := by
  rw [List.flatMap_congr (g := fun k => (queryset.drop (k * size.toNat)).take size.toNat),
    flatMap_range_pieces, List.take_of_length_le (length_le_totalPages_mul queryset hsize.1)]
  intro k hk
  rw [List.mem_range] at hk
  rw [rowsAt_results queryset _ (by simp only; omega)]
  have hoffset : (((k : ℤ) + 1 - 1) * size).toNat = k * size.toNat := by
    rw [add_sub_cancel_right, Int.toNat_mul (by omega) (by omega), Int.toNat_natCast]
  simp only [hoffset, Option.getD_some]

end JudgeLoom
