import Mathlib.Data.List.Sort
import Mathlib.Data.List.Nodup
import Mathlib.Tactic.Common

/-!
# Keyed tables

A `Table α key` is a list of rows in strictly increasing order of a numeric key.
The order is a field of the structure, so a table never holds two rows of one
key, and two tables with the same rows are equal (`Table.ext_get?`).

The operations are those of a relational table reached through its primary key:
`get?` looks a row up, `save` inserts a row or replaces the row of its key,
`updateWhere` rewrites every row that passes a filter, `modify` rewrites the row
of one key, and `filter` keeps the rows that pass a filter; `row?` is `get?` with
the key in the type of the row.  Each has one lemma
saying what `get?` returns afterwards; nothing else about the representation is
used outside this file.
-/

/-- Rows in strictly increasing order of their key. -/
structure Table (α : Type*) (key : α → ℕ) where
  rows : List α
  sorted : rows.Pairwise fun first second => key first < key second

namespace Table

variable {α : Type*} {key : α → ℕ}

/-- The table without rows. -/
def empty : Table α key := ⟨[], List.Pairwise.nil⟩

instance : EmptyCollection (Table α key) := ⟨empty⟩

instance : Inhabited (Table α key) := ⟨empty⟩

/-- The row of key `k`. -/
def get? (t : Table α key) (k : ℕ) : Option α := t.rows.find? fun row => key row = k

/-- Insert `row` into an ordered list of rows, replacing the row of its key. -/
def insertRow (key : α → ℕ) (row : α) : List α → List α
  | [] => [row]
  | head :: rest =>
      if key row < key head then row :: head :: rest
      else if key row = key head then row :: rest
      else head :: insertRow key row rest

theorem mem_insertRow_of {row other : α} {rows : List α} (h : other ∈ insertRow key row rows) :
    other = row ∨ other ∈ rows := by
  induction rows with
  | nil => exact Or.inl (by simpa [insertRow] using h)
  | cons head rest ih =>
      simp only [insertRow] at h
      split_ifs at h <;> simp only [List.mem_cons] at h ⊢ <;> tauto

theorem sorted_insertRow (row : α) {rows : List α}
    (hsorted : rows.Pairwise fun first second => key first < key second) :
    (insertRow key row rows).Pairwise fun first second => key first < key second := by
  induction rows with
  | nil => simp [insertRow]
  | cons head rest ih =>
      rw [List.pairwise_cons] at hsorted
      obtain ⟨hhead, hrest⟩ := hsorted
      simp only [insertRow]
      split_ifs with hlt heq
      · refine List.pairwise_cons.mpr ⟨?_, List.pairwise_cons.mpr ⟨hhead, hrest⟩⟩
        rintro other (_ | ⟨_, hother⟩)
        · exact hlt
        · exact hlt.trans (hhead other hother)
      · exact List.pairwise_cons.mpr ⟨fun other hother => heq ▸ hhead other hother, hrest⟩
      · refine List.pairwise_cons.mpr ⟨fun other hother => ?_, ih hrest⟩
        rcases mem_insertRow_of hother with rfl | hother
        · omega
        · exact hhead other hother

/-- Insert `row`, replacing the row of its key if there is one. -/
def save (t : Table α key) (row : α) : Table α key :=
  ⟨insertRow key row t.rows, sorted_insertRow row t.sorted⟩

/-- Rewrite by `f` every row that passes the filter `p`. -/
def updateWhere (t : Table α key) (p : α → Bool) (f : α → α)
    (hkey : ∀ row, key (f row) = key row := by intro _; rfl) : Table α key where
  rows := t.rows.map fun row => if p row then f row else row
  sorted := by
    rw [List.pairwise_map]
    refine t.sorted.imp fun {first second} hlt => ?_
    have hkeep : ∀ row, key (if p row then f row else row) = key row := by
      intro row
      split
      · exact hkey row
      · rfl
    rwa [hkeep, hkeep]

/-- Rewrite by `f` the row of key `k`. -/
def modify (t : Table α key) (k : ℕ) (f : α → α)
    (hkey : ∀ row, key (f row) = key row := by intro _; rfl) : Table α key :=
  t.updateWhere (fun row => key row = k) f hkey

/-- Rewrite every row by `f`. -/
def map (t : Table α key) (f : α → α) (hkey : ∀ row, key (f row) = key row := by intro _; rfl) :
    Table α key where
  rows := t.rows.map f
  sorted := by
    rw [List.pairwise_map]
    exact t.sorted.imp fun {first second} hlt => by rwa [hkey, hkey]

/-- The rows that pass the filter `p`. -/
def filter (t : Table α key) (p : α → Bool) : Table α key :=
  ⟨t.rows.filter p, t.sorted.filter p⟩

/-- A key that is larger than every key in use. -/
def nextKey (t : Table α key) : ℕ := (t.rows.map key).foldr max 0 + 1

/-! ## Lookups -/

theorem nodup_keys (t : Table α key) : (t.rows.map key).Nodup := by
  rw [List.Nodup, List.pairwise_map]
  exact t.sorted.imp fun hlt => hlt.ne

theorem key_injOn (t : Table α key) {first second : α} (hfirst : first ∈ t.rows)
    (hsecond : second ∈ t.rows) (hkey : key first = key second) : first = second :=
  List.inj_on_of_nodup_map t.nodup_keys hfirst hsecond hkey

theorem get?_eq_some {t : Table α key} {k : ℕ} {row : α} :
    t.get? k = some row ↔ row ∈ t.rows ∧ key row = k := by
  unfold get?
  constructor
  · intro h
    exact ⟨List.mem_of_find?_eq_some h, by simpa using List.find?_some h⟩
  · rintro ⟨hmem, hkey⟩
    cases hfind : t.rows.find? fun row => key row = k with
    | none =>
        rw [List.find?_eq_none] at hfind
        exact absurd (by simpa using hkey) (hfind row hmem)
    | some other =>
        have hother : key other = k := by simpa using List.find?_some hfind
        rw [t.key_injOn (List.mem_of_find?_eq_some hfind) hmem (hother.trans hkey.symm)]

theorem key_of_get? {t : Table α key} {k : ℕ} {row : α} (h : t.get? k = some row) :
    key row = k :=
  (get?_eq_some.mp h).2

theorem mem_of_get? {t : Table α key} {k : ℕ} {row : α} (h : t.get? k = some row) :
    row ∈ t.rows :=
  (get?_eq_some.mp h).1

theorem get?_key_of_mem {t : Table α key} {row : α} (h : row ∈ t.rows) :
    t.get? (key row) = some row :=
  get?_eq_some.mpr ⟨h, rfl⟩

/-- A table is determined by its lookups. -/
theorem ext_get? {s t : Table α key} (h : ∀ k, s.get? k = t.get? k) : s = t := by
  have hmem : ∀ row, row ∈ s.rows ↔ row ∈ t.rows := by
    intro row
    constructor <;> intro hrow
    · exact mem_of_get? ((h (key row)).symm.trans (get?_key_of_mem hrow))
    · exact mem_of_get? ((h (key row)).trans (get?_key_of_mem hrow))
  have hperm : s.rows.Perm t.rows :=
    (List.perm_ext_iff_of_nodup s.nodup_keys.of_map t.nodup_keys.of_map).mpr hmem
  have hrows : s.rows = t.rows :=
    hperm.eq_of_pairwise (fun _ _ _ _ hlt hgt => absurd hgt hlt.asymm) s.sorted t.sorted
  cases s
  cases t
  cases hrows
  rfl

@[simp] theorem rows_empty : (∅ : Table α key).rows = [] := rfl

@[simp] theorem get?_empty (k : ℕ) : (∅ : Table α key).get? k = none := rfl

theorem mem_save_iff {t : Table α key} {row other : α} :
    other ∈ (t.save row).rows ↔ other = row ∨ (other ∈ t.rows ∧ key other ≠ key row) := by
  obtain ⟨rows, hsorted⟩ := t
  change other ∈ insertRow key row rows ↔ _ ∨ (other ∈ rows ∧ _)
  induction rows with
  | nil => simp [insertRow]
  | cons head rest ih =>
      rw [List.pairwise_cons] at hsorted
      obtain ⟨hhead, hrest⟩ := hsorted
      have hlarger : ∀ candidate ∈ rest, key head < key candidate := hhead
      simp only [insertRow]
      split_ifs with hlt heq
      · have hall : ∀ candidate ∈ head :: rest, key candidate ≠ key row := by
          rintro candidate (_ | ⟨_, hcandidate⟩)
          · omega
          · have := hlarger candidate hcandidate
            omega
        rw [List.mem_cons]
        exact or_congr_right ⟨fun h => ⟨h, hall other h⟩, fun h => h.1⟩
      · rw [List.mem_cons, List.mem_cons]
        refine or_congr_right ⟨fun h => ⟨Or.inr h, ?_⟩, ?_⟩
        · have := hlarger other h
          omega
        · rintro ⟨rfl | h, hne⟩
          · exact absurd heq.symm hne
          · exact h
      · rw [List.mem_cons, ih hrest, List.mem_cons]
        constructor
        · rintro (rfl | rfl | ⟨h, hne⟩)
          · exact Or.inr ⟨Or.inl rfl, fun h => heq h.symm⟩
          · exact Or.inl rfl
          · exact Or.inr ⟨Or.inr h, hne⟩
        · rintro (rfl | ⟨rfl | h, hne⟩)
          · exact Or.inr (Or.inl rfl)
          · exact Or.inl rfl
          · exact Or.inr (Or.inr ⟨h, hne⟩)

@[simp] theorem get?_save (t : Table α key) (row : α) (k : ℕ) :
    (t.save row).get? k = if k = key row then some row else t.get? k := by
  refine Option.ext fun other => ?_
  rw [get?_eq_some, mem_save_iff]
  split_ifs with hk
  · subst hk
    simp only [Option.some.injEq]
    constructor
    · rintro ⟨rfl | ⟨_, hne⟩, hkey⟩
      · rfl
      · exact absurd hkey hne
    · rintro rfl
      exact ⟨Or.inl rfl, rfl⟩
  · rw [get?_eq_some]
    constructor
    · rintro ⟨rfl | ⟨h, _⟩, hkey⟩
      · exact absurd hkey.symm hk
      · exact ⟨h, hkey⟩
    · rintro ⟨h, hkey⟩
      exact ⟨Or.inr ⟨h, fun heq => hk (hkey.symm.trans heq)⟩, hkey⟩

/-- Saving a row that the table holds changes nothing. -/
theorem save_of_get? {t : Table α key} {row : α} (h : t.get? (key row) = some row) :
    t.save row = t := by
  refine ext_get? fun k => ?_
  rw [get?_save]
  split_ifs with hk
  · rw [hk, h]
  · rfl

@[simp] theorem get?_updateWhere (t : Table α key) (p : α → Bool) (f : α → α)
    (hkey : ∀ row, key (f row) = key row) (k : ℕ) :
    (t.updateWhere p f hkey).get? k = (t.get? k).map fun row => if p row then f row else row := by
  have hkeep : ∀ row, key (if p row then f row else row) = key row := by
    intro row
    split
    · exact hkey row
    · rfl
  unfold get? updateWhere
  simp only [List.find?_map, Function.comp_def, hkeep]

/-- The rows that an update selects, after the update. -/
theorem filter_rows_updateWhere (t : Table α key) (p : α → Bool) (f : α → α)
    (hkey : ∀ row, key (f row) = key row) (hp : ∀ row, p (f row) = p row) :
    (t.updateWhere p f hkey).rows.filter p = (t.rows.filter p).map f := by
  rw [updateWhere, List.filter_map]
  have hkeep : (p ∘ fun row => if p row then f row else row) = p := by
    funext row
    rw [Function.comp_apply]
    split
    · exact hp row
    · rfl
  rw [hkeep]
  refine List.map_congr_left fun row hrow => ?_
  rw [if_pos (List.of_mem_filter hrow)]

@[simp] theorem get?_map (t : Table α key) (f : α → α) (hkey : ∀ row, key (f row) = key row)
    (k : ℕ) : (t.map f hkey).get? k = (t.get? k).map f := by
  unfold get? map
  simp only [List.find?_map, Function.comp_def, hkey]

theorem map_save (t : Table α key) (f : α → α) (hkey : ∀ row, key (f row) = key row) (row : α) :
    (t.save row).map f hkey = (t.map f hkey).save (f row) := by
  refine ext_get? fun k => ?_
  rw [get?_map, get?_save, get?_save, get?_map, hkey]
  split_ifs <;> rfl

theorem map_updateWhere (t : Table α key) (f : α → α) (hf : ∀ row, key (f row) = key row)
    {p : α → Bool} {g : α → α} (hg : ∀ row, key (g row) = key row) (hp : ∀ row, p (f row) = p row)
    (hfg : ∀ row, f (g row) = g (f row)) :
    (t.updateWhere p g hg).map f hf = (t.map f hf).updateWhere p g hg := by
  refine ext_get? fun k => ?_
  rw [get?_map, get?_updateWhere, get?_updateWhere, get?_map, Option.map_map, Option.map_map]
  congr 1
  funext row
  rw [Function.comp_apply, Function.comp_apply, hp]
  split
  · exact hfg row
  · rfl

theorem map_map_of_idempotent (t : Table α key) {f : α → α} (hkey : ∀ row, key (f row) = key row)
    (hf : ∀ row, f (f row) = f row) : (t.map f hkey).map f hkey = t.map f hkey := by
  refine ext_get? fun k => ?_
  rw [get?_map, get?_map, Option.map_map]
  exact congrArg (Option.map · _) (funext hf)

@[simp] theorem map_empty (f : α → α) (hkey : ∀ row, key (f row) = key row) :
    (∅ : Table α key).map f hkey = ∅ := rfl

theorem nextKey_map (t : Table α key) (f : α → α) (hkey : ∀ row, key (f row) = key row) :
    (t.map f hkey).nextKey = t.nextKey := by
  have hkeys : (t.rows.map f).map key = t.rows.map key := by
    rw [List.map_map]
    exact List.map_congr_left fun row _ => hkey row
  unfold nextKey map
  rw [hkeys]

/-- An update keeps the columns that it does not write. -/
theorem map_rows_updateWhere {β : Type*} (t : Table α key) (p : α → Bool) (f : α → α)
    (hkey : ∀ row, key (f row) = key row) {g : α → β} (hg : ∀ row, g (f row) = g row) :
    (t.updateWhere p f hkey).rows.map g = t.rows.map g := by
  rw [updateWhere, List.map_map]
  refine List.map_congr_left fun row _ => ?_
  rw [Function.comp_apply]
  split
  · exact hg row
  · rfl

/-- An update keeps the columns that it does not write. -/
theorem map_get?_updateWhere {β : Type*} (t : Table α key) (p : α → Bool) (f : α → α)
    (hkey : ∀ row, key (f row) = key row) {g : α → β} (hg : ∀ row, g (f row) = g row) (k : ℕ) :
    ((t.updateWhere p f hkey).get? k).map g = (t.get? k).map g := by
  rw [get?_updateWhere, Option.map_map]
  congr 1
  funext row
  rw [Function.comp_apply]
  split
  · exact hg row
  · rfl

@[simp] theorem get?_modify (t : Table α key) (j : ℕ) (f : α → α)
    (hkey : ∀ row, key (f row) = key row) (k : ℕ) :
    (t.modify j f hkey).get? k = if k = j then (t.get? k).map f else t.get? k := by
  rw [modify, get?_updateWhere]
  cases hrow : t.get? k with
  | none => simp
  | some row =>
      have hk := key_of_get? hrow
      by_cases hkj : k = j <;> simp [hk, hkj]

theorem modify_of_none {t : Table α key} {k : ℕ} (h : t.get? k = none) (f : α → α)
    (hkey : ∀ row, key (f row) = key row) : t.modify k f hkey = t := by
  refine ext_get? fun j => ?_
  rw [get?_modify]
  split_ifs with hj
  · rw [hj, h, Option.map_none]
  · rfl

theorem modify_of_some {t : Table α key} {k : ℕ} {row : α} (h : t.get? k = some row) (f : α → α)
    (hkey : ∀ row, key (f row) = key row) : t.modify k f hkey = t.save (f row) := by
  have hk : key (f row) = k := (hkey row).trans (key_of_get? h)
  refine ext_get? fun j => ?_
  rw [get?_modify, get?_save, hk]
  split_ifs with hj
  · rw [hj, h, Option.map_some]
  · rfl

/-- A replaced row keeps the columns that it shares with the old one. -/
theorem map_get?_save {β : Type*} {t : Table α key} {row old : α} {g : α → β}
    (hold : t.get? (key row) = some old) (hg : g row = g old) (k : ℕ) :
    ((t.save row).get? k).map g = (t.get? k).map g := by
  rw [get?_save]
  split_ifs with hk
  · rw [hk, hold, Option.map_some, Option.map_some, hg]
  · rfl

/-- A replaced row keeps the columns that it shares with the old one. -/
theorem map_rows_save {β : Type*} {t : Table α key} {row old : α} {g : α → β}
    (hold : t.get? (key row) = some old) (hg : g row = g old) :
    (t.save row).rows.map g = t.rows.map g := by
  classical
  let f : α → α := fun other => if key other = key row ∧ g other = g row then row else other
  have hkey : ∀ other, key (f other) = key other := by
    intro other
    dsimp only [f]
    split_ifs with hsame
    · exact hsame.1.symm
    · rfl
  have hkeep : ∀ other, g (f other) = g other := by
    intro other
    dsimp only [f]
    split_ifs with hsame
    · exact hsame.2.symm
    · rfl
  have hrow : f old = row := if_pos ⟨key_of_get? hold, hg.symm⟩
  rw [← hrow, ← modify_of_some hold f hkey]
  exact map_rows_updateWhere t _ f hkey hkeep

/-- Two updates of one row are one update. -/
theorem modify_modify (t : Table α key) (k : ℕ) {f g h : α → α}
    (hf : ∀ row, key (f row) = key row) (hg : ∀ row, key (g row) = key row)
    (hh : ∀ row, key (h row) = key row) (hgf : ∀ row, g (f row) = h row) :
    (t.modify k f hf).modify k g hg = t.modify k h hh := by
  refine ext_get? fun j => ?_
  rw [get?_modify, get?_modify, get?_modify]
  split_ifs with hj
  · rw [Option.map_map]
    exact congrArg (fun map => Option.map map (t.get? j)) (funext hgf)
  · rfl

/-- Saving rows leaves the rows of the other keys alone. -/
theorem get?_foldl_save_of_notMem {rows : List α} {k : ℕ} (h : k ∉ rows.map key)
    (t : Table α key) : (rows.foldl save t).get? k = t.get? k := by
  induction rows generalizing t with
  | nil => rfl
  | cons row rest ih =>
      rw [List.map_cons, List.mem_cons, not_or] at h
      rw [List.foldl_cons, ih h.2, get?_save, if_neg h.1]

/-- Saving rows of different keys saves each of them. -/
theorem get?_foldl_save_of_mem {rows : List α} (hnodup : (rows.map key).Nodup) {row : α}
    (hrow : row ∈ rows) (t : Table α key) : (rows.foldl save t).get? (key row) = some row := by
  induction rows generalizing t with
  | nil => cases hrow
  | cons head rest ih =>
      rw [List.map_cons, List.nodup_cons] at hnodup
      rw [List.foldl_cons]
      rcases List.mem_cons.mp hrow with rfl | hrow
      · rw [get?_foldl_save_of_notMem hnodup.1, get?_save, if_pos rfl]
      · exact ih hnodup.2 hrow _

/-- Rows that replace every row of a table are its rows afterwards. -/
theorem rows_foldl_save {rows : List α}
    (hsorted : rows.Pairwise fun first second => key first < key second) {t : Table α key}
    (h : ∀ row ∈ t.rows, key row ∈ rows.map key) : (rows.foldl save t).rows = rows := by
  have hnodup : (rows.map key).Nodup :=
    List.pairwise_map.mpr (hsorted.imp fun hlt => hlt.ne)
  have heq : rows.foldl save t = ⟨rows, hsorted⟩ := by
    refine ext_get? fun k => ?_
    by_cases hk : k ∈ rows.map key
    · obtain ⟨row, hrow, rfl⟩ := List.mem_map.mp hk
      rw [get?_foldl_save_of_mem hnodup hrow]
      exact (get?_key_of_mem (t := ⟨rows, hsorted⟩) hrow).symm
    · rw [get?_foldl_save_of_notMem hk]
      have hleft : t.get? k = none := by
        refine Option.eq_none_iff_forall_not_mem.mpr fun row hrow => hk ?_
        have hget : t.get? k = some row := hrow
        rw [← key_of_get? hget]
        exact h row (mem_of_get? hget)
      have hright : get? (⟨rows, hsorted⟩ : Table α key) k = none := by
        refine Option.eq_none_iff_forall_not_mem.mpr fun row hrow => hk ?_
        have hget : get? (⟨rows, hsorted⟩ : Table α key) k = some row := hrow
        rw [← key_of_get? hget]
        exact List.mem_map_of_mem (mem_of_get? hget)
      rw [hleft, hright]
  rw [heq]

/-- Rows of different keys can be saved in either order. -/
theorem save_comm (t : Table α key) {first second : α} (h : key first ≠ key second) :
    (t.save first).save second = (t.save second).save first := by
  refine ext_get? fun k => ?_
  simp only [get?_save]
  split_ifs with hsecond hfirst
  · exact absurd (hfirst.symm.trans hsecond) h
  · rfl
  · rfl
  · rfl

@[simp] theorem get?_filter (t : Table α key) (p : α → Bool) (k : ℕ) :
    (t.filter p).get? k = (t.get? k).filter p := by
  refine Option.ext fun row => ?_
  rw [get?_eq_some, Option.filter_eq_some_iff, get?_eq_some]
  simp only [filter, List.mem_filter]
  tauto

theorem ext_mem {s t : Table α key} (h : ∀ row, row ∈ s.rows ↔ row ∈ t.rows) : s = t := by
  refine ext_get? fun k => Option.ext fun row => ?_
  rw [get?_eq_some, get?_eq_some, h]

theorem filter_eq_self {t : Table α key} {p : α → Bool} (h : ∀ row ∈ t.rows, p row) :
    t.filter p = t := by
  refine ext_get? fun k => ?_
  rw [get?_filter]
  cases hrow : t.get? k with
  | none => rfl
  | some row => rw [Option.filter_some, if_pos (h row (mem_of_get? hrow))]

/-- The rows that `f` makes of the rows of `t`, under the same keys. -/
def filterMap {β : Type*} {key' : β → ℕ} (t : Table α key) (f : α → Option β)
    (hkey : ∀ row row', f row = some row' → key' row' = key row) : Table β key' where
  rows := t.rows.filterMap f
  sorted := by
    rw [List.pairwise_filterMap]
    refine t.sorted.imp fun {first second} hlt first' hfirst second' hsecond => ?_
    rw [hkey first first' hfirst, hkey second second' hsecond]
    exact hlt

theorem get?_filterMap {β : Type*} {key' : β → ℕ} (t : Table α key) (f : α → Option β)
    (hkey : ∀ row row', f row = some row' → key' row' = key row) (k : ℕ) :
    (t.filterMap f hkey).get? k = (t.get? k).bind f := by
  refine Option.ext fun row' => ?_
  rw [get?_eq_some, Option.bind_eq_some_iff, filterMap]
  simp only [List.mem_filterMap, get?_eq_some]
  constructor
  · rintro ⟨⟨row, hrow, hf⟩, hk⟩
    exact ⟨row, ⟨hrow, (hkey row row' hf).symm.trans hk⟩, hf⟩
  · rintro ⟨row, ⟨hrow, hk⟩, hf⟩
    exact ⟨⟨row, hrow, hf⟩, (hkey row row' hf).trans hk⟩

/-- The row of key `k`, together with the fact that it has this key. -/
def row? (t : Table α key) (k : ℕ) : Option {row : α // key row = k} :=
  (t.get? k).pmap Subtype.mk fun _ h => key_of_get? h

@[simp] theorem map_val_row? (t : Table α key) (k : ℕ) :
    (t.row? k).map Subtype.val = t.get? k := by
  rw [row?, Option.map_pmap, Option.pmap_eq_map, Option.map_id']

theorem row?_eq_some {t : Table α key} {k : ℕ} {row : {row : α // key row = k}} :
    t.row? k = some row ↔ t.get? k = some row.1 := by
  rw [← map_val_row?, Option.map_eq_some_iff]
  constructor
  · intro h
    exact ⟨row, h, rfl⟩
  · rintro ⟨other, h, heq⟩
    rw [h, Subtype.ext heq]

theorem row?_eq_none {t : Table α key} {k : ℕ} : t.row? k = none ↔ t.get? k = none := by
  rw [← map_val_row?, Option.map_eq_none_iff]

theorem row?_save_self (t : Table α key) {k : ℕ} (row : {row : α // key row = k}) :
    (t.save row.1).row? k = some row := by
  rw [row?_eq_some, get?_save, if_pos row.2.symm]

theorem row?_save_of_ne (t : Table α key) {row : α} {k : ℕ} (h : k ≠ key row) :
    (t.save row).row? k = t.row? k := by
  refine Option.map_injective Subtype.val_injective ?_
  rw [map_val_row?, map_val_row?, get?_save, if_neg h]

theorem key_lt_nextKey {t : Table α key} {row : α} (h : row ∈ t.rows) : key row < t.nextKey := by
  have hle : ∀ keys : List ℕ, ∀ k ∈ keys, k ≤ keys.foldr max 0 := by
    intro keys
    induction keys with
    | nil => simp
    | cons head rest ih =>
        rintro k (_ | ⟨_, hk⟩)
        · exact le_max_left _ _
        · exact (ih k hk).trans (le_max_right _ _)
  exact Nat.lt_succ_of_le (hle _ _ (List.mem_map_of_mem h))

@[simp] theorem get?_nextKey (t : Table α key) : t.get? t.nextKey = none := by
  cases h : t.get? t.nextKey with
  | none => rfl
  | some row =>
      have := key_lt_nextKey (mem_of_get? h)
      rw [key_of_get? h] at this
      exact absurd this (lt_irrefl _)

theorem nodup_rows (t : Table α key) : t.rows.Nodup := List.Nodup.of_map _ t.nodup_keys

/-- A row of a new key is one more row. -/
theorem perm_rows_save {t : Table α key} {row : α} (h : t.get? (key row) = none) :
    (t.save row).rows.Perm (row :: t.rows) := by
  have hnew : row ∉ t.rows := by
    intro hrow
    rw [get?_key_of_mem hrow] at h
    cases h
  refine (List.perm_ext_iff_of_nodup (t.save row).nodup_rows
    (List.nodup_cons.mpr ⟨hnew, t.nodup_rows⟩)).mpr fun other => ?_
  rw [mem_save_iff, List.mem_cons]
  refine or_congr_right ⟨fun hother => hother.1, fun hother => ⟨hother, fun hkey => ?_⟩⟩
  rw [← hkey, get?_key_of_mem hother] at h
  cases h

end Table
