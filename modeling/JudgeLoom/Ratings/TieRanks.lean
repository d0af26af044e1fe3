import JudgeLoom.Library.FractionalRank
import JudgeLoom.Ratings.Ranks
import Mathlib.Algebra.BigOperators.Fin

/-!
# `_tie_ranks` is fractional ranking

`tieRanksLoop` is `_tie_ranks` as it is written: the outer loop stops at the first place
of each group, the inner loop looks for the end of the group, and the group is handed the
middle of its places.  `Scanned` is what holds each time the outer loop is entered: the
ranks so far are the fractional ranks of the places before `index`, and no group crosses
`index`.  Sorted standings keep equal keys together, so the group that the inner loop finds
is all of its key.

`calculate_ratings` is modelled with the ranks of the runs of `selected`; they are the same
list (`tieRanks_eq_loop`).  Ranks are halves of integers below the number of participants,
which a float holds exactly.
-/

namespace JudgeLoom

namespace RatingService

/-- The inner loop of `_tie_ranks`: `end`, from `stop` on, for the group of `first`. -/
def tieEnd (selected : List Selected) (first : Selected) (stop : ℕ) : ℕ :=
  if h : stop < selected.length then
    if selected[stop].rankKey = first.rankKey then tieEnd selected first (stop + 1) else stop
  else stop
termination_by selected.length - stop

theorem le_tieEnd (selected : List Selected) (first : Selected) (stop : ℕ) :
    stop ≤ tieEnd selected first stop := by
  fun_induction tieEnd selected first stop with
  | case1 stop h hkey ih => omega
  | case2 stop h hkey => exact le_rfl
  | case3 stop h => exact le_rfl

/-- The outer loop of `_tie_ranks`. -/
def tieRanksFrom (selected : List Selected) (index : ℕ) (ranks : List ℚ) : List ℚ :=
  if h : index < selected.length then
    let stop := tieEnd selected selected[index] (index + 1)
    let averageRank : ℚ := index + ((stop - index - 1 : ℕ) : ℚ) / 2
    tieRanksFrom selected stop (ranks ++ List.replicate (stop - index) averageRank)
  else ranks
termination_by selected.length - index
decreasing_by
  have hle := le_tieEnd selected selected[index] (index + 1)
  omega

/-- `_tie_ranks`, place by place. -/
def tieRanksLoop (selected : List Selected) : List ℚ := tieRanksFrom selected 0 []

variable {selected : List Selected} {first : Selected} {index stop : ℕ} {ranks : List ℚ}

/-! ## The inner loop -/

theorem tieEnd_le_length (h : stop ≤ selected.length) :
    tieEnd selected first stop ≤ selected.length := by
  fun_induction tieEnd selected first stop with
  | case1 stop hlt hkey ih => exact ih hlt
  | case2 stop hlt hkey => exact h
  | case3 stop hge => exact h

/-- Up to the end, every key is the key of the group. -/
theorem rankKey_of_lt_tieEnd {place : ℕ} (hplace : place < selected.length) (hle : stop ≤ place)
    (hlt : place < tieEnd selected first stop) : selected[place].rankKey = first.rankKey := by
  fun_induction tieEnd selected first stop with
  | case1 stop h hkey ih =>
      rcases hle.eq_or_lt with rfl | hnext
      · exact hkey
      · exact ih hnext hlt
  | case2 stop h hkey => omega
  | case3 stop h => omega

/-- At the end, there is another key. -/
theorem rankKey_tieEnd_ne (h : tieEnd selected first stop < selected.length) :
    selected[tieEnd selected first stop].rankKey ≠ first.rankKey := by
  fun_induction tieEnd selected first stop with
  | case1 stop hlt hkey ih => exact ih h
  | case2 stop hlt hkey => exact hkey
  | case3 stop hge => exact absurd h hge

/-! ## The outer loop -/

/-- The key at a place of the standings, best first. -/
def keyAt (selected : List Selected) (place : Fin selected.length) : ℚ ×ₗ ℚ := selected[place].key

/-- The fractional ranks of the standings. -/
def fractionalRanks (selected : List Selected) : List ℚ :=
  List.ofFn (FractionalRank.rank (keyAt selected))

@[simp] theorem length_fractionalRanks : (fractionalRanks selected).length = selected.length :=
  List.length_ofFn

@[simp] theorem getElem_fractionalRanks {place : ℕ} (h : place < (fractionalRanks selected).length) :
    (fractionalRanks selected)[place] =
      FractionalRank.rank (keyAt selected) ⟨place, length_fractionalRanks ▸ h⟩ := by
  simp [fractionalRanks]

theorem key_eq_key_iff {first second : Selected} :
    first.key = second.key ↔ first.rankKey = second.rankKey := by
  rw [Prod.ext_iff, Selected.key, Selected.key, toLex_inj, Prod.mk.injEq, neg_inj]

theorem monotone_keyAt (hsorted : selected.Pairwise fun a b => a.key ≤ b.key) :
    Monotone (keyAt selected) := by
  intro place other hle
  rcases hle.eq_or_lt with rfl | hlt
  · exact le_rfl
  · exact List.pairwise_iff_getElem.mp hsorted place other place.2 other.2 hlt

/-- What holds when the outer loop is entered. -/
structure Scanned (selected : List Selected) (index : ℕ) (ranks : List ℚ) : Prop where
  index_le : index ≤ selected.length
  ranks_eq : ranks = (fractionalRanks selected).take index
  boundary : ∀ before after : Fin selected.length, before < index → index ≤ after →
    keyAt selected before ≠ keyAt selected after

/-- The group that starts at `index` has no place before `index`, since no group crosses
it, and none from `end` on, since keys never decrease. -/
theorem Scanned.keyAt_eq_iff (h : Scanned selected index ranks)
    (hsorted : selected.Pairwise fun a b => a.key ≤ b.key) (hindex : index < selected.length)
    (other : Fin selected.length) :
    keyAt selected other = keyAt selected ⟨index, hindex⟩ ↔
      index ≤ other ∧ other < tieEnd selected selected[index] (index + 1) := by
  constructor
  · intro hkey
    have hfrom : index ≤ other := by
      by_contra hback
      exact h.boundary other ⟨index, hindex⟩ (Nat.lt_of_not_le hback) le_rfl hkey
    refine ⟨hfrom, ?_⟩
    by_contra hafter
    have hend : tieEnd selected selected[index] (index + 1) < selected.length := by omega
    have hstart := le_tieEnd selected selected[index] (index + 1)
    have hmono := monotone_keyAt hsorted
    -- the first place of the next group lies between two places with one key
    have hle : keyAt selected ⟨index, hindex⟩ ≤ keyAt selected ⟨_, hend⟩ :=
      hmono (Fin.mk_le_mk.mpr (by omega))
    have hge : keyAt selected ⟨_, hend⟩ ≤ keyAt selected other :=
      hmono (Fin.mk_le_of_le_val (by omega))
    have heq : keyAt selected ⟨_, hend⟩ = keyAt selected ⟨index, hindex⟩ :=
      le_antisymm (hge.trans hkey.le) hle
    exact rankKey_tieEnd_ne hend (key_eq_key_iff.mp heq)
  · rintro ⟨hfrom, hto⟩
    rcases hfrom.eq_or_lt with heq | hlt
    · exact congrArg (keyAt selected) (Fin.ext heq.symm)
    · exact key_eq_key_iff.mpr (rankKey_of_lt_tieEnd other.2 hlt hto)

/-- One round of the outer loop ranks one group. -/
theorem Scanned.step (h : Scanned selected index ranks)
    (hsorted : selected.Pairwise fun a b => a.key ≤ b.key) (hindex : index < selected.length) :
    Scanned selected (tieEnd selected selected[index] (index + 1))
      (ranks ++ List.replicate (tieEnd selected selected[index] (index + 1) - index)
        (index + ((tieEnd selected selected[index] (index + 1) - index - 1 : ℕ) : ℚ) / 2)) := by
  have hgroup := h.keyAt_eq_iff hsorted hindex
  have hstart := le_tieEnd selected selected[index] (index + 1)
  have hend : tieEnd selected selected[index] (index + 1) ≤ selected.length :=
    tieEnd_le_length hindex
  set stop := tieEnd selected selected[index] (index + 1)
  refine ⟨hend, ?_, ?_⟩
  · have hstop : stop = index + (stop - index) := by omega
    have hmiddle : ((fractionalRanks selected).drop index).take (stop - index) =
        List.replicate (stop - index) (index + ((stop - index - 1 : ℕ) : ℚ) / 2) := by
      refine List.eq_replicate_iff.mpr ⟨by simp; omega, fun rank hrank => ?_⟩
      obtain ⟨offset, hoffset, rfl⟩ := List.mem_iff_getElem.mp hrank
      rw [List.length_take, List.length_drop, length_fractionalRanks] at hoffset
      rw [List.getElem_take, List.getElem_drop, getElem_fractionalRanks]
      refine (FractionalRank.rank_eq_rank ?_).trans
        (FractionalRank.rank_eq_middle hend hgroup)
      exact (hgroup _).mpr ⟨Nat.le_add_right _ _, by simp only; omega⟩
    conv_rhs => rw [hstop, List.take_add, hmiddle, ← h.ranks_eq]
  · intro before after hbefore hafter hkey
    by_cases hback : (before : ℕ) < index
    · exact h.boundary before after hback (by omega) hkey
    · have hfirst := (hgroup before).mpr ⟨Nat.le_of_not_lt hback, hbefore⟩
      have hlast := ((hgroup after).mp (hkey.symm.trans hfirst)).2
      omega

theorem Scanned.tieRanksFrom_eq (h : Scanned selected index ranks)
    (hsorted : selected.Pairwise fun a b => a.key ≤ b.key) :
    tieRanksFrom selected index ranks = fractionalRanks selected := by
  fun_induction tieRanksFrom selected index ranks with
  | case1 index ranks hindex stop averageRank ih => exact ih (h.step hsorted hindex)
  | case2 index ranks hindex =>
      rw [h.ranks_eq]
      exact List.take_of_length_le (by rw [length_fractionalRanks]; omega)

theorem scanned_nil (selected : List Selected) : Scanned selected 0 [] :=
  ⟨Nat.zero_le _, rfl, fun _ _ hbefore => absurd hbefore (Nat.not_lt_zero _)⟩

/-- On sorted standings, the two loops compute the fractional ranking. -/
theorem tieRanksLoop_eq (hsorted : selected.Pairwise fun a b => a.key ≤ b.key) :
    tieRanksLoop selected = fractionalRanks selected :=
  (scanned_nil selected).tieRanksFrom_eq hsorted

/-! ## The groups as runs -/

/-- The group that the inner loop finds. -/
def tieGroup (selected : List Selected) (index stop : ℕ) : List Selected :=
  (selected.drop index).take (stop - index)

theorem rankKey_of_mem_tieGroup (hindex : index < selected.length) {item : Selected}
    (h : item ∈ tieGroup selected index (tieEnd selected selected[index] (index + 1))) :
    item.rankKey = selected[index].rankKey := by
  obtain ⟨offset, hoffset, rfl⟩ := List.mem_iff_getElem.mp h
  rw [tieGroup, List.length_take, List.length_drop] at hoffset
  simp only [tieGroup, List.getElem_take, List.getElem_drop]
  rcases Nat.eq_zero_or_pos offset with rfl | hpos
  · rfl
  · have hlt : index + offset < tieEnd selected selected[index] (index + 1) := by omega
    exact rankKey_of_lt_tieEnd (by omega) (show index + 1 ≤ index + offset by omega) hlt

/-- The inner loop cuts off the first run. -/
theorem splitBy_drop (hindex : index < selected.length) :
    (selected.drop index).splitBy (fun first second => first.rankKey == second.rankKey) =
      tieGroup selected index (tieEnd selected selected[index] (index + 1)) ::
        (selected.drop (tieEnd selected selected[index] (index + 1))).splitBy
          fun first second => first.rankKey == second.rankKey := by
  have hstart := le_tieEnd selected selected[index] (index + 1)
  have hkeys : ∀ item ∈ tieGroup selected index (tieEnd selected selected[index] (index + 1)),
      item.rankKey = selected[index].rankKey := fun item => rankKey_of_mem_tieGroup hindex
  have hnext := @rankKey_tieEnd_ne selected selected[index] (index + 1)
  set stop := tieEnd selected selected[index] (index + 1)
  have hcut : selected.drop index = tieGroup selected index stop ++ selected.drop stop := by
    have hdrop : (selected.drop index).drop (stop - index) = selected.drop stop := by
      rw [List.drop_drop, show index + (stop - index) = stop by omega]
    rw [← hdrop, tieGroup, List.take_append_drop]
  have hne : tieGroup selected index stop ≠ [] := by
    apply List.ne_nil_of_length_pos
    rw [tieGroup, List.length_take, List.length_drop]
    omega
  have hrun : (tieGroup selected index stop).IsChain fun a b => (a.rankKey == b.rankKey) = true := by
    refine (List.pairwise_of_forall_mem_list fun a ha b hb => ?_).isChain
    rw [beq_iff_eq, hkeys a ha, hkeys b hb]
  rw [hcut, List.splitBy_append, List.splitBy_of_isChain hne hrun, List.singleton_append]
  intro last hlast next hhead
  rw [List.head?_drop, Option.mem_def, List.getElem?_eq_some_iff] at hhead
  obtain ⟨hstop, rfl⟩ := hhead
  rw [beq_eq_false_iff_ne, hkeys last (List.mem_of_getLast? hlast)]
  exact (hnext hstop).symm

theorem tieRanksFrom_eq_groupRanks (selected : List Selected) (index : ℕ) (ranks : List ℚ) :
    tieRanksFrom selected index ranks = ranks ++ groupRanks index
      ((selected.drop index).splitBy fun first second => first.rankKey == second.rankKey) := by
  fun_induction tieRanksFrom selected index ranks with
  | case1 index ranks hindex stop averageRank ih =>
      have hstart : index + 1 ≤ stop := le_tieEnd selected selected[index] (index + 1)
      have hend : stop ≤ selected.length := tieEnd_le_length hindex
      have hlength : (tieGroup selected index stop).length = stop - index := by
        rw [tieGroup, List.length_take, List.length_drop]
        omega
      have hsize : ((stop - index - 1 : ℕ) : ℚ) = ((stop - index : ℕ) : ℚ) - 1 := by
        rw [Nat.cast_sub (by omega), Nat.cast_one]
      rw [ih, splitBy_drop hindex, groupRanks, List.append_assoc, hlength,
        show index + (stop - index) = stop by omega, ← hsize]
  | case2 index ranks hindex =>
      rw [List.drop_eq_nil_of_le (by omega), List.splitBy_nil, groupRanks, List.append_nil]

/-- The ranks of the runs are what the loops compute, in any order of the participants. -/
theorem tieRanks_eq_loop (selected : List Selected) :
    tieRanks selected = tieRanksLoop selected := by
  rw [tieRanksLoop, tieRanksFrom_eq_groupRanks, List.nil_append, List.drop_zero, tieRanks]

/-- `calculate_ratings` hands the rating engine the fractional ranking of the standings. -/
theorem tieRanks_selected (tables : RatingTables) (contest : ContestRow) :
    tieRanks (RatingService.selected tables contest) =
      fractionalRanks (RatingService.selected tables contest) := by
  rw [tieRanks_eq_loop, tieRanksLoop_eq (pairwise_selected tables contest)]

/-! ## The ranking -/

theorem getElem?_tieRanksLoop (hsorted : selected.Pairwise fun a b => a.key ≤ b.key)
    (place : Fin selected.length) :
    (tieRanksLoop selected)[(place : ℕ)]? =
      some (FractionalRank.rank (keyAt selected) place) := by
  rw [tieRanksLoop_eq hsorted, fractionalRanks, List.getElem?_ofFn, dif_pos place.2]

/-- On every list sorted by descending score and ascending tiebreaker, `_tie_ranks` gives
each place one rank, the ranks never decrease, two ranks are equal exactly if the keys are,
each is the mean of the places of its group, and they add up to what the places add up to. -/
theorem tieRanksLoop_fractional (selected : List Selected)
    (hsorted : selected.Pairwise fun a b => a.key ≤ b.key) :
    (tieRanksLoop selected).length = selected.length ∧
      (tieRanksLoop selected).Pairwise (· ≤ ·) ∧
      (∀ place other : Fin selected.length,
        (tieRanksLoop selected)[(place : ℕ)]? = (tieRanksLoop selected)[(other : ℕ)]? ↔
          selected[place].rankKey = selected[other].rankKey) ∧
      (∀ place : Fin selected.length,
        (tieRanksLoop selected)[(place : ℕ)]? =
          some (Finset.expect
            {tie : Fin selected.length | selected[tie].rankKey = selected[place].rankKey}
            fun tie => (tie : ℚ))) ∧
      (tieRanksLoop selected).sum = (selected.length : ℚ) * (selected.length - 1) / 2 := by
  have hmono := monotone_keyAt hsorted
  refine ⟨?_, ?_, fun place other => ?_, fun place => ?_, ?_⟩
  · rw [tieRanksLoop_eq hsorted, length_fractionalRanks]
  · rw [tieRanksLoop_eq hsorted, fractionalRanks]
    exact List.pairwise_ofFn.mpr fun place other hlt =>
      FractionalRank.rank_mono hmono hlt.le
  · rw [getElem?_tieRanksLoop hsorted, getElem?_tieRanksLoop hsorted, Option.some_inj,
      FractionalRank.rank_eq_rank_iff hmono]
    exact key_eq_key_iff
  · rw [getElem?_tieRanksLoop hsorted, FractionalRank.rank, FractionalRank.tied]
    simp only [keyAt, key_eq_key_iff, Fin.getElem_fin]
  · rw [tieRanksLoop_eq hsorted, fractionalRanks, List.sum_ofFn, FractionalRank.sum_rank_eq]

/-- Two participants share the first place, a third one is behind them. -/
def sampleStandings : List Selected :=
  [(1, 100, 7), (2, 100, 7), (3, 40, 2)].map fun entry =>
    { user := { id := entry.1, username := "" }
      participation := entry.1
      rankKey := (entry.2.1, entry.2.2)
      ratingBefore := EloMMR.ratingInit
      meanBefore := EloMMR.meanInit
      historical := []
      timesRanked := 0 }

/-- The two share the middle of the places 0 and 1, and the three ranks add up to 3. -/
theorem tieRanksLoop_fractional_sample :
    (tieRanksLoop sampleStandings).length = 3 ∧
      (tieRanksLoop sampleStandings)[0]? = (tieRanksLoop sampleStandings)[1]? ∧
      (tieRanksLoop sampleStandings).sum = 3 := by
  have hsorted : sampleStandings.Pairwise fun a b => a.key ≤ b.key := by
    have hlt : (40 : ℚ) < 100 := by norm_num
    simp [sampleStandings, Selected.key, Prod.Lex.toLex_le_toLex, hlt]
  obtain ⟨hlength, -, hequal, -, hsum⟩ := tieRanksLoop_fractional sampleStandings hsorted
  refine ⟨hlength, (hequal ⟨0, by decide⟩ ⟨1, by decide⟩).mpr rfl, ?_⟩
  rw [hsum, show sampleStandings.length = 3 from rfl]
  norm_num

end RatingService

end JudgeLoom
