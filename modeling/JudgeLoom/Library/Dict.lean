import Mathlib.Data.List.Basic
import Mathlib.Data.List.Forall2
import Mathlib.Order.Defs.PartialOrder
import Mathlib.Data.List.Induction
import Mathlib.Data.List.Nodup
import Mathlib.Tactic.Common

/-!
# Insertion-ordered dictionaries

A `Dict κ α` is a dictionary that remembers the order in which its keys were
first written, as Python's `dict` does: writing a key that is present replaces
the value in place, writing a new key appends it.  That no key occurs twice is a
field of the structure.
-/

/-- Entries in the order of their keys' first write. -/
structure Dict (κ : Type*) (α : Type*) where
  entries : List (κ × α)
  nodup : (entries.map Prod.fst).Nodup

namespace Dict

variable {κ α β : Type*}

/-- The dictionary without entries. -/
def empty : Dict κ α := ⟨[], List.nodup_nil⟩

instance : EmptyCollection (Dict κ α) := ⟨empty⟩

@[simp] theorem entries_empty : (∅ : Dict κ α).entries = [] := rfl

def keys (d : Dict κ α) : List κ := d.entries.map Prod.fst

def values (d : Dict κ α) : List α := d.entries.map Prod.snd

/-- Replace every value by a function of its key and itself. -/
def mapEntries (d : Dict κ α) (f : κ → α → β) : Dict κ β where
  entries := d.entries.map fun entry => (entry.1, f entry.1 entry.2)
  nodup := by
    rw [List.map_map]
    exact d.nodup

@[ext] theorem ext_entries {c d : Dict κ α} (h : c.entries = d.entries) : c = d := by
  cases c
  cases d
  cases h
  rfl

@[simp] theorem keys_mapEntries (d : Dict κ α) (f : κ → α → β) :
    (d.mapEntries f).keys = d.keys := by
  simp [keys, mapEntries]

@[simp] theorem values_mapEntries (d : Dict κ α) (f : κ → α → β) :
    (d.mapEntries f).values = d.entries.map fun entry => f entry.1 entry.2 := by
  simp [values, mapEntries]

theorem mapEntries_mapEntries (d : Dict κ α) (f : κ → α → β) (g : κ → β → γ) :
    (d.mapEntries f).mapEntries g = d.mapEntries fun key value => g key (f key value) :=
  ext_entries (List.map_map)

variable [DecidableEq κ]

def get? (d : Dict κ α) (k : κ) : Option α :=
  (d.entries.find? fun entry => entry.1 = k).map Prod.snd

/-- `k in d`. -/
def contains (d : Dict κ α) (k : κ) : Bool := d.keys.contains k

/-- Write `v` at `k` in a list of entries: in place, or at the end. -/
def setEntry (k : κ) (v : α) : List (κ × α) → List (κ × α)
  | [] => [(k, v)]
  | head :: rest => if head.1 = k then (k, v) :: rest else head :: setEntry k v rest

theorem map_fst_setEntry (k : κ) (v : α) (entries : List (κ × α)) :
    (setEntry k v entries).map Prod.fst =
      if k ∈ entries.map Prod.fst then entries.map Prod.fst
      else entries.map Prod.fst ++ [k] := by
  induction entries with
  | nil => rfl
  | cons head rest ih =>
      by_cases hhead : head.1 = k
      · simp [setEntry, hhead]
      · have hne : k ≠ head.1 := fun h => hhead h.symm
        simp only [setEntry, if_neg hhead, List.map_cons, ih, List.mem_cons, hne, false_or]
        split_ifs <;> rfl

theorem setEntry_of_not_mem {k : κ} (v : α) {entries : List (κ × α)}
    (hk : k ∉ entries.map Prod.fst) : setEntry k v entries = entries ++ [(k, v)] := by
  induction entries with
  | nil => rfl
  | cons head rest ih =>
      rw [List.map_cons, List.mem_cons, not_or] at hk
      rw [setEntry, if_neg (Ne.symm hk.1), ih hk.2, List.cons_append]

/-- `d[k] = v`. -/
def set (d : Dict κ α) (k : κ) (v : α) : Dict κ α where
  entries := setEntry k v d.entries
  nodup := by
    rw [map_fst_setEntry]
    split_ifs with h
    · exact d.nodup
    · exact List.nodup_append.mpr ⟨d.nodup, List.nodup_singleton k, by
        rintro other hother _ (_ | ⟨_, hnil⟩) rfl
        · exact h hother
        · exact absurd hnil List.not_mem_nil⟩

/-- The dictionary that a comprehension builds from key-value pairs. -/
def ofList (pairs : List (κ × α)) : Dict κ α :=
  pairs.foldl (fun d pair => d.set pair.1 pair.2) ∅

/-- `d.setdefault(k, []).append(x)`. -/
def push (d : Dict κ (List α)) (k : κ) (x : α) : Dict κ (List α) :=
  d.set k ((d.get? k).getD [] ++ [x])

/-! ## Lookups -/

theorem get?_eq_some {d : Dict κ α} {k : κ} {v : α} :
    d.get? k = some v ↔ (k, v) ∈ d.entries := by
  obtain ⟨entries, hnodup⟩ := d
  unfold get?
  induction entries with
  | nil => simp
  | cons head rest ih =>
      rw [List.map_cons, List.nodup_cons] at hnodup
      by_cases hhead : head.1 = k
      · have hrest : (k, v) ∉ rest := fun h =>
          hnodup.1 (hhead ▸ List.mem_map_of_mem (f := Prod.fst) h)
        simp only [List.find?_cons, hhead, decide_true, Option.map_some, Option.some.injEq,
          List.mem_cons, hrest, or_false]
        constructor
        · rintro rfl
          exact Prod.ext hhead.symm rfl
        · intro h
          exact (congrArg Prod.snd h).symm
      · have hne : (k, v) ≠ head := fun h => hhead (h ▸ rfl)
        simp only [List.find?_cons, hhead, decide_false, List.mem_cons, hne, false_or]
        exact ih hnodup.2

@[simp] theorem get?_empty (k : κ) : (∅ : Dict κ α).get? k = none := rfl

theorem mem_keys_iff {d : Dict κ α} {k : κ} : k ∈ d.keys ↔ ∃ v, d.get? k = some v := by
  simp only [get?_eq_some, keys, List.mem_map, Prod.exists, exists_and_right, exists_eq_right]

@[simp] theorem contains_iff {d : Dict κ α} {k : κ} : d.contains k = true ↔ k ∈ d.keys := by
  simp [contains]

@[simp] theorem get?_set (d : Dict κ α) (k : κ) (v : α) (j : κ) :
    (d.set k v).get? j = if j = k then some v else d.get? j := by
  obtain ⟨entries, hnodup⟩ := d
  change ((setEntry k v entries).find? fun entry => entry.1 = j).map Prod.snd = _
  unfold get?
  induction entries with
  | nil =>
      by_cases hj : j = k
      · simp [setEntry, hj]
      · simp [setEntry, hj, Ne.symm hj]
  | cons head rest ih =>
      rw [List.map_cons, List.nodup_cons] at hnodup
      have ih := ih hnodup.2
      by_cases hhead : head.1 = k <;> by_cases hj : head.1 = j <;>
        by_cases hjk : j = k <;> simp_all [setEntry]

theorem keys_set (d : Dict κ α) (k : κ) (v : α) :
    (d.set k v).keys = if k ∈ d.keys then d.keys else d.keys ++ [k] :=
  map_fst_setEntry k v d.entries

theorem keys_set_of_mem {d : Dict κ α} {k : κ} (hk : k ∈ d.keys) (v : α) :
    (d.set k v).keys = d.keys := by
  rw [keys_set, if_pos hk]

@[simp] theorem get?_mapEntries (d : Dict κ α) (f : κ → α → β) (k : κ) :
    (d.mapEntries f).get? k = (d.get? k).map (f k) := by
  refine Option.ext fun v => ?_
  rw [get?_eq_some, Option.map_eq_some_iff]
  simp only [mapEntries, List.mem_map, get?_eq_some, Prod.mk.injEq, Prod.exists]
  constructor
  · rintro ⟨j, w, hmem, rfl, rfl⟩
    exact ⟨w, hmem, rfl⟩
  · rintro ⟨w, hmem, rfl⟩
    exact ⟨k, w, hmem, rfl, rfl⟩

/-- A dictionary is determined by its key order and its lookups. -/
theorem ext_get? {c d : Dict κ α} (hkeys : c.keys = d.keys)
    (hget : ∀ k ∈ c.keys, c.get? k = d.get? k) : c = d := by
  apply ext_entries
  refine List.ext_getElem (by simpa [keys] using congrArg List.length hkeys) ?_
  intro i hc hd
  have hfst : (c.entries[i]).1 = (d.entries[i]).1 := by
    have := List.getElem_of_eq hkeys (i := i) (by simpa [keys] using hc)
    simpa [keys] using this
  have hmem : c.entries[i] ∈ c.entries := List.getElem_mem hc
  have hc' : c.get? (c.entries[i]).1 = some (c.entries[i]).2 := get?_eq_some.mpr hmem
  have hd' : d.get? (d.entries[i]).1 = some (d.entries[i]).2 :=
    get?_eq_some.mpr (List.getElem_mem hd)
  have hkey : (c.entries[i]).1 ∈ c.keys := mem_keys_iff.mpr ⟨_, hc'⟩
  rw [hget _ hkey, hfst, hd'] at hc'
  exact Prod.ext hfst (Option.some.inj hc').symm

/-- Writing the value that is there changes nothing. -/
theorem set_of_get?_eq_some {d : Dict κ α} {k : κ} {v : α} (h : d.get? k = some v) :
    d.set k v = d := by
  have hkeys := keys_set_of_mem (mem_keys_iff.mpr ⟨v, h⟩) v
  refine ext_get? hkeys fun j _ => ?_
  rw [get?_set]
  split_ifs with hj
  · rw [hj, h]
  · rfl

theorem values_set_of_get?_eq_none {d : Dict κ α} {k : κ} (h : d.get? k = none) (v : α) :
    (d.set k v).values = d.values ++ [v] := by
  have hk : k ∉ d.entries.map Prod.fst := by
    intro hmem
    obtain ⟨w, hw⟩ := mem_keys_iff.mp hmem
    exact Option.some_ne_none w (hw.symm.trans h)
  simp [values, set, setEntry_of_not_mem v hk]

/-- Writing a larger value makes one of the values larger. -/
theorem forall₂_values_set [Preorder α] {d : Dict κ α} {k : κ} {v w : α} (h : d.get? k = some w)
    (hle : w ≤ v) : List.Forall₂ (· ≤ ·) d.values (d.set k v).values := by
  obtain ⟨entries, hnodup⟩ := d
  simp only [values, set, get?] at h ⊢
  clear hnodup
  induction entries with
  | nil => simp at h
  | cons head rest ih =>
      rw [List.find?_cons] at h
      by_cases hhead : head.1 = k
      · simp only [hhead, decide_true, Option.map_some, Option.some.injEq] at h
        rw [setEntry, if_pos hhead, List.map_cons, List.map_cons, h]
        exact .cons hle (List.forall₂_same.mpr fun _ _ => le_rfl)
      · simp only [hhead, decide_false] at h
        rw [setEntry, if_neg hhead, List.map_cons, List.map_cons]
        exact .cons le_rfl (ih h)

theorem mem_values_iff {d : Dict κ α} {v : α} : v ∈ d.values ↔ ∃ k, d.get? k = some v := by
  simp only [get?_eq_some, values, List.mem_map, Prod.exists, exists_eq_right]

/-- A comprehension keeps the last value of every key. -/
theorem get?_ofList (pairs : List (κ × α)) (k : κ) :
    (ofList pairs).get? k = (pairs.reverse.find? fun pair => pair.1 = k).map Prod.snd := by
  induction pairs using List.reverseRecOn with
  | nil => rfl
  | append_singleton pairs last ih =>
      rw [ofList, List.foldl_append, List.foldl_cons, List.foldl_nil, get?_set,
        List.reverse_append, List.reverse_singleton, List.singleton_append, List.find?_cons]
      by_cases hlast : last.1 = k
      · simp [hlast]
      · simp only [if_neg (Ne.symm hlast), hlast, decide_false]
        exact ih

theorem mem_keys_ofList {pairs : List (κ × α)} {k : κ} :
    k ∈ (ofList pairs).keys ↔ k ∈ pairs.map Prod.fst := by
  constructor
  · intro h
    obtain ⟨v, hv⟩ := mem_keys_iff.mp h
    rw [get?_ofList] at hv
    obtain ⟨pair, hpair, -⟩ := Option.map_eq_some_iff.mp hv
    have hkey : pair.1 = k := by simpa using List.find?_some hpair
    rw [← hkey]
    exact List.mem_map_of_mem (List.mem_reverse.mp (List.mem_of_find?_eq_some hpair))
  · intro h
    obtain ⟨pair, hpair, hkey⟩ := List.mem_map.mp h
    have hsome : (pairs.reverse.find? fun pair => decide (pair.1 = k)).isSome :=
      List.find?_isSome.mpr ⟨pair, List.mem_reverse.mpr hpair, by simpa using hkey⟩
    obtain ⟨last, hlast⟩ := Option.isSome_iff_exists.mp hsome
    exact mem_keys_iff.mpr ⟨last.2, by rw [get?_ofList, hlast, Option.map_some]⟩

theorem get?_push (d : Dict κ (List α)) (k : κ) (x : α) (j : κ) :
    (d.push k x).get? j = if j = k then some ((d.get? k).getD [] ++ [x]) else d.get? j :=
  get?_set _ _ _ _

theorem keys_push_of_mem {d : Dict κ (List α)} {k : κ} (hk : k ∈ d.keys) (x : α) :
    (d.push k x).keys = d.keys :=
  keys_set_of_mem hk _

/-- Pushing a list of keyed values collects, under each key of the dictionary,
the values pushed to it in order. -/
theorem get?_foldl_push {d : Dict κ (List α)} (pushes : List (κ × α))
    (hkeys : ∀ push ∈ pushes, push.1 ∈ d.keys) {k : κ} (hk : k ∈ d.keys) :
    (pushes.foldl (fun d push => d.push push.1 push.2) d).get? k =
      some ((d.get? k).getD [] ++ (pushes.filter fun push => push.1 = k).map Prod.snd) := by
  induction pushes generalizing d with
  | nil =>
      obtain ⟨v, hv⟩ := mem_keys_iff.mp hk
      simp [hv]
  | cons head rest ih =>
      have hhead : head.1 ∈ d.keys := hkeys head List.mem_cons_self
      have hsame := keys_push_of_mem hhead head.2
      rw [List.foldl_cons, ih (fun push hpush => hsame ▸ hkeys push (List.mem_cons_of_mem _ hpush))
        (hsame ▸ hk), get?_push]
      by_cases hkey : head.1 = k
      · simp [hkey]
      · simp [hkey, Ne.symm hkey]

theorem keys_foldl_push {d : Dict κ (List α)} (pushes : List (κ × α))
    (hkeys : ∀ push ∈ pushes, push.1 ∈ d.keys) :
    (pushes.foldl (fun d push => d.push push.1 push.2) d).keys = d.keys := by
  induction pushes generalizing d with
  | nil => rfl
  | cons head rest ih =>
      have hsame := keys_push_of_mem (hkeys head List.mem_cons_self) head.2
      rw [List.foldl_cons, ih fun push hpush => hsame ▸ hkeys push (List.mem_cons_of_mem _ hpush),
        hsame]

/-- A comprehension over pairs with distinct keys keeps the pairs as they are. -/
theorem entries_ofList {pairs : List (κ × α)} (hnodup : (pairs.map Prod.fst).Nodup) :
    (ofList pairs).entries = pairs := by
  have hfold : ∀ (done : Dict κ α) (todo : List (κ × α)),
      ((done.entries ++ todo).map Prod.fst).Nodup →
        (todo.foldl (fun d pair => d.set pair.1 pair.2) done).entries = done.entries ++ todo := by
    intro done todo
    induction todo generalizing done with
    | nil => simp
    | cons head rest ih =>
        intro hall
        have hfresh : head.1 ∉ done.entries.map Prod.fst := by
          rw [List.map_append, List.map_cons, List.nodup_append] at hall
          exact fun h => hall.2.2 _ h _ List.mem_cons_self rfl
        have hset : (done.set head.1 head.2).entries = done.entries ++ [head] :=
          setEntry_of_not_mem _ hfresh
        rw [List.foldl_cons, ih, hset, List.append_assoc, List.singleton_append]
        rwa [hset, List.append_assoc, List.singleton_append]
  simpa [ofList] using hfold ∅ pairs (by simpa using hnodup)

end Dict
