import JudgeLoom.Contests.Submission
import JudgeLoom.Library.RelyGuarantee

/-!
# The submission limit of a contest problem

A transaction that holds a participation may rely on its usage: whoever creates a
submission of a participation holds it (`usage`).  The count of `submit_to_contest` is
taken under that lock, so it is still right when the submission is committed, and the
limit that was read holds after every commit (`withinLimit_run`), whatever else updates
the rows meanwhile.
-/

namespace JudgeLoom

open Transaction KeyedStore

/-! ## What a lock on a participation protects -/

/-- The usage of every problem by the participation of a key. -/
def SubmitKey.usage : SubmitKey → SubmitTables → ℕ → ℕ
  | participation id, db => db.used id
  | _, _ => fun _ => 0

/-- Locked rows stay as they are, and locked participations get no submissions. -/
abbrev usage : Rely SubmitTables SubmitKey := Rely.rows SubmitKey.usage

namespace SubmitTables

variable {db db' : SubmitTables} {participation problem : ℕ}

/-- The columns of a submission that bind it. -/
def binding (submission : Submission) : Option ℕ × ℕ :=
  (submission.contestParticipation, submission.problem)

theorem used_eq_count (db : SubmitTables) (participation problem : ℕ) :
    db.used participation problem =
      (db.submissions.rows.map binding).count (some participation, problem) := by
  rw [used, List.count_eq_countP, List.countP_map, List.countP_eq_length_filter]
  refine congrArg List.length (List.filter_congr fun submission _ => ?_)
  simp [binding, ← Bool.decide_and, beq_eq_decide]

theorem used_congr (h : db.submissions = db'.submissions) :
    db.used participation problem = db'.used participation problem := by
  rw [used, used, h]

/-- A new submission is one more for its own participation and problem. -/
theorem used_save {submission : Submission} (hrows : db'.submissions = db.submissions.save submission)
    (hfresh : db.submissions.get? submission.id = none) :
    db'.used participation problem = db.used participation problem +
      if submission.contestParticipation = some participation ∧ submission.problem = problem then 1
      else 0 := by
  have hperm := (Table.perm_rows_save hfresh).map binding
  rw [used_eq_count, used_eq_count, hrows, hperm.count_eq, List.map_cons, List.count_cons]
  simp [binding, Prod.ext_iff]

/-- An updated submission that stays bound. -/
theorem used_replace {submission old : Submission}
    (hold : db.submissions.get? submission.id = some old) (hbinding : binding submission = binding old)
    (hrows : db'.submissions = db.submissions.save submission) :
    db'.used participation problem = db.used participation problem := by
  rw [used_eq_count, used_eq_count, hrows, Table.map_rows_save hold hbinding]

end SubmitTables

/-! ## The statements of a submission -/

namespace SubmitTransaction

variable {held : Set SubmitKey} {db : SubmitTables} {writes : List (Write SubmitKey.Row)}

/-- The participation that is chosen is locked. -/
theorem ensures_lockParticipation {contest : ContestInfo} {user : Account}
    {post : Option ParticipationRow → Set SubmitKey → SubmitTables →
      List (Write SubmitKey.Row) → Prop} (rows : List ParticipationRow)
    (h : ∀ result held db, (∀ row ∈ result, .participation row.id ∈ held) →
      post result held db writes) :
    (lockParticipation contest user rows).Ensures usage post held db writes := by
  induction rows generalizing held db with
  | nil => exact h none held db fun row hrow => by cases hrow
  | cons row rest ih =>
      rw [lockParticipation, ensures_bind, ensures_forUpdate]
      intro db' _
      cases get? (apply db' writes) (SubmitKey.participation row.id) with
      | none => exact ih
      | some current =>
          dsimp only
          split_ifs
          · refine h _ _ _ fun row hrow => Set.mem_union_right _ ?_
            obtain rfl := Option.mem_some_iff.mp hrow
            rw [current.2]
            rfl
          · exact ih

/-- Locking the contest problem releases nothing. -/
theorem ensures_lockContestProblem {contest : ContestInfo} {code : String}
    {post : Option (ContestProblemRow × SubmitProblem) → Set SubmitKey → SubmitTables →
      List (Write SubmitKey.Row) → Prop} (rows : List ContestProblemRow) {key : SubmitKey}
    (hkey : key ∈ held) (h : ∀ result held db, key ∈ held → post result held db writes) :
    (lockContestProblem contest code rows).Ensures usage post held db writes := by
  induction rows generalizing held db with
  | nil => exact h none held db hkey
  | cons row rest ih =>
      rw [lockContestProblem, ensures_bind, ensures_forUpdate]
      intro db' _
      rw [ensures_bind, ensures_forUpdate]
      intro db'' _
      have hkey' : key ∈ held ∪ {SubmitKey.contestProblem row.id} ∪ {SubmitKey.problem row.problem} :=
        Set.mem_union_left _ (Set.mem_union_left _ hkey)
      split
      · split_ifs
        · exact h _ _ _ hkey'
        · exact ih hkey'
      · exact ih hkey'

/-- What is known after the check: the locked participation is below the limit. -/
def BelowLimit (participation problem : ℕ) (limit : Option ℕ) (held : Set SubmitKey)
    (db : SubmitTables) : Prop :=
  .participation participation ∈ held ∧ ∀ bound ∈ limit, db.used participation problem < bound

theorem BelowLimit.stable {participation problem : ℕ} {limit : Option ℕ} {db' : SubmitTables}
    (h : BelowLimit participation problem limit held db) (hrel : usage.rel held db db') :
    BelowLimit participation problem limit held db' := by
  refine ⟨h.1, fun bound hbound => ?_⟩
  have hused : db.used participation problem = db'.used participation problem :=
    congrFun (hrel _ h.1).2 problem
  exact hused ▸ h.2 bound hbound

theorem ensures_require {query : SubmitQuery} {test : SubmitTables → Bool}
    {post : PUnit → Set SubmitKey → SubmitTables → List (Write SubmitKey.Row) → Prop}
    (h : ∀ db', usage.rel held db db' → test (apply db' writes) = true →
      post ⟨⟩ held db' writes) :
    (require query test).Ensures usage post held db writes := by
  rw [require, ensures_bind, ensures_select]
  intro db' hrel
  split_ifs with htest
  · exact h db' hrel htest
  · trivial

/-- The usage is counted while the participation is locked, so it stays below the limit. -/
theorem ensures_checkUsage {participation : ParticipationRow} {contestProblem : ContestProblemRow}
    {problem : SubmitProblem}
    {post : PUnit → Set SubmitKey → SubmitTables → List (Write SubmitKey.Row) → Prop}
    (hkey : .participation participation.id ∈ held)
    (h : ∀ db, BelowLimit participation.id problem.id contestProblem.maxSubmissions held db →
      post ⟨⟩ held db []) :
    (checkUsage participation contestProblem problem).Ensures usage post held db [] := by
  unfold checkUsage
  cases hlimit : contestProblem.maxSubmissions with
  | none => exact h db ⟨hkey, fun bound hbound => by rw [hlimit] at hbound; cases hbound⟩
  | some limit =>
      refine ensures_require fun db' _ hused => h db' ⟨hkey, fun bound hbound => ?_⟩
      rw [hlimit] at hbound
      obtain rfl := Option.mem_some_iff.mp hbound
      exact of_decide_eq_true hused

section Checks

variable {settings : SubmitSettings} {request : SubmitRequest} {problem : SubmitProblem}
  {post : PUnit → Set SubmitKey → SubmitTables → List (Write SubmitKey.Row) → Prop}

theorem ensures_validateProblemAccess
    (h : ∀ db', usage.rel held db db' → post ⟨⟩ held db' writes) :
    (validateProblemAccess request problem).Ensures usage post held db writes := by
  rw [validateProblemAccess, ensures_bind, ensures_select]
  intro db' hrel
  split_ifs
  · exact h db' hrel
  · exact ensures_require fun db'' hrel' _ => h db'' (usage.trans hrel hrel')

theorem ensures_validateLanguage (h : ∀ db', usage.rel held db db' → post ⟨⟩ held db' writes) :
    (validateLanguage request problem).Ensures usage post held db writes := by
  unfold validateLanguage
  split_ifs
  · trivial
  · exact ensures_require fun db' hrel _ => h db' hrel

theorem ensures_checkRateLimit (h : ∀ db', usage.rel held db db' → post ⟨⟩ held db' writes) :
    (checkRateLimit settings request).Ensures usage post held db writes :=
  ensures_require fun db' hrel _ => h db' hrel

end Checks

/-- The rows of a new submission are written, and its participation is still locked. -/
structure Recorded (participation problem : ℕ) (limit : Option ℕ) (submission : Submission)
    (held : Set SubmitKey) (db : SubmitTables) (writes : List (Write SubmitKey.Row)) : Prop where
  below : BelowLimit participation problem limit held db
  bound : submission.contestParticipation = some participation ∧ submission.problem = problem
  locked : .submission submission.id ∈ held
  fresh : db.submissions.get? submission.id = none
  owned : ∀ write ∈ writes, write.key ∈ held
  rows : ∀ db : SubmitTables, (apply db writes).submissions = db.submissions.save submission

namespace Recorded

variable {participation problem : ℕ} {limit : Option ℕ} {submission : Submission}
  {db' : SubmitTables}

theorem stable (h : Recorded participation problem limit submission held db writes)
    (hrel : usage.rel held db db') :
    Recorded participation problem limit submission held db' writes where
  below := h.below.stable hrel
  bound := h.bound
  locked := h.locked
  fresh := by
    have hrow : db.submissions.row? submission.id = db'.submissions.row? submission.id :=
      (hrel _ h.locked).1
    rw [← Table.row?_eq_none, ← hrow, Table.row?_eq_none]
    exact h.fresh
  owned := h.owned
  rows := h.rows

/-- One more lock and one more row, which is no submission. -/
theorem write (h : Recorded participation problem limit submission held db writes)
    (hrel : usage.rel held db db') (key : SubmitKey) (row : key.Row)
    (hkey : ∀ db : SubmitTables, (db.setRow key row).submissions = db.submissions) :
    Recorded participation problem limit submission (held ∪ {key}) db' (writes ++ [⟨key, row⟩]) where
  below := ⟨Set.mem_union_left _ h.below.1, (h.below.stable hrel).2⟩
  bound := h.bound
  locked := Set.mem_union_left _ h.locked
  fresh := (h.stable hrel).fresh
  owned := by
    intro other hother
    rcases List.mem_append.mp hother with hother | hother
    · exact Set.mem_union_left _ (h.owned other hother)
    · obtain rfl := List.mem_singleton.mp hother
      exact Set.mem_union_right _ rfl
  rows := by
    intro db
    rw [apply_append]
    exact (hkey _).trans (h.rows db)

/-- The submission counts for the locked participation only. -/
theorem usage_apply (h : Recorded participation problem limit submission held db writes)
    (key : SubmitKey) (hkey : key ∉ held) : key.usage db = key.usage (apply db writes) := by
  cases key with
  | participation other =>
      funext problem'
      have hother : submission.contestParticipation ≠ some other := by
        rw [h.bound.1]
        intro heq
        exact hkey (Option.some.inj heq ▸ h.below.1)
      change db.used other problem' = (apply db writes).used other problem'
      rw [SubmitTables.used_save (h.rows db) h.fresh, if_neg fun hsame => hother hsame.1]
      rfl
  | _ => rfl

end Recorded

theorem ensures_insertSubmission {request : SubmitRequest} {problem : SubmitProblem}
    {participation : ParticipationRow} {package : ProblemPackage} {limit : Option ℕ}
    {languageLimit : Option LanguageLimit}
    {post : Submission → Set SubmitKey → SubmitTables → List (Write SubmitKey.Row) → Prop}
    (hbelow : BelowLimit participation.id problem.id limit held db)
    (h : ∀ submission held db writes,
      Recorded participation.id problem.id limit submission held db writes →
        post submission held db writes) :
    (insertSubmission request problem participation package languageLimit).Ensures usage post
      held db [] := by
  rw [insertSubmission, ensures_bind, ensures_create]
  intro db₁ hrel₁ hfresh
  split_ifs
  · trivial
  rw [ensures_bind, ensures_create]
  intro db₂ hrel₂ _
  rw [ensures_bind, ensures_create]
  intro db₃ hrel₃ _
  refine h _ _ _ _ (Recorded.write (Recorded.write ?_ hrel₂ _ _ fun _ => rfl) hrel₃ _ _
    fun _ => rfl)
  exact
    { below := ⟨Set.mem_union_left _ hbelow.1, (hbelow.stable hrel₁).2⟩
      bound := ⟨rfl, rfl⟩
      locked := Set.mem_union_right _ rfl
      fresh := Table.row?_eq_none.mp hfresh
      owned := by
        intro write hwrite
        obtain rfl := List.mem_singleton.mp hwrite
        exact Set.mem_union_right _ rfl
      rows := fun _ => rfl }

theorem ensures_createSubmission {settings : SubmitSettings} {request : SubmitRequest}
    {problem : SubmitProblem} {participation : ParticipationRow} {limit : Option ℕ}
    {post : Submission → Set SubmitKey → SubmitTables → List (Write SubmitKey.Row) → Prop}
    (hbelow : BelowLimit participation.id problem.id limit held db)
    (h : ∀ submission held db writes,
      Recorded participation.id problem.id limit submission held db writes →
        post submission held db writes) :
    (createSubmission settings request problem participation).Ensures usage post held db [] := by
  unfold createSubmission
  split_ifs
  · trivial
  rw [ensures_bind]
  refine ensures_validateProblemAccess fun db₁ hrel₁ => ?_
  rw [ensures_bind]
  refine ensures_validateLanguage fun db₂ hrel₂ => ?_
  rw [ensures_bind]
  refine ensures_checkRateLimit fun db₃ hrel₃ => ?_
  rw [ensures_bind, ensures_select]
  intro db₄ hrel₄
  rw [ensures_bind, ensures_select]
  intro db₅ hrel₅
  split
  · trivial
  · refine ensures_insertSubmission ?_ h
    exact ((((hbelow.stable hrel₁).stable hrel₂).stable hrel₃).stable hrel₄).stable hrel₅

theorem ensures_submitToContest {settings : SubmitSettings} {request : SubmitRequest}
    {post : ContestSubmission → Set SubmitKey → SubmitTables → List (Write SubmitKey.Row) → Prop}
    (h : ∀ result held db writes,
      Recorded result.participation.id result.submission.problem result.limit result.submission
        held db writes → post result held db writes) :
    (submitToContest settings request).Ensures usage post held db [] := by
  rw [submitToContest, ensures_bind, ensures_select]
  intro db₁ _
  rw [ensures_bind]
  refine ensures_lockParticipation _ fun locked held₁ db₂ hlocked => ?_
  cases locked with
  | none => trivial
  | some participation =>
      dsimp only
      split_ifs
      · trivial
      rw [ensures_bind, ensures_select]
      intro db₃ _
      rw [ensures_bind]
      refine ensures_lockContestProblem _ (hlocked participation rfl)
        fun lockedProblem held₂ db₄ hkey => ?_
      match lockedProblem with
      | none => trivial
      | some (contestProblem, problem) =>
          dsimp only
          rw [ensures_bind]
          refine ensures_checkUsage hkey fun db₅ hbelow => ?_
          rw [ensures_bind]
          refine ensures_createSubmission hbelow fun submission held₃ db₆ writes hrecorded => ?_
          have hproblem := hrecorded.bound.2
          exact h _ _ _ _ (hproblem ▸ hrecorded)

end SubmitTransaction

/-! ## Runs -/

/-- The submission is stored, bound to its participation, and not above the limit that
was read for it. -/
structure ContestSubmission.WithinLimit (result : ContestSubmission) (db : SubmitTables) : Prop where
  stored : db.submissions.get? result.submission.id = some result.submission
  bound : result.submission.contestParticipation = some result.participation.id
  used_le : ∀ limit ∈ result.limit,
    db.used result.participation.id result.submission.problem ≤ limit

/-- A submission to a contest, or any other update of a row that leaves submissions bound
to their participations and problems. -/
inductive SubmitCall
  | submitToContest (request : SubmitRequest)
  | updateRow (key : SubmitKey) (f : key.Row → key.Row) (other : ∀ id, key ≠ .submission id)
  | updateSubmission (id : ℕ) (f : {row : Submission // row.id = id} → {row // row.id = id})
      (bound : ∀ row, SubmitTables.binding (f row).1 = SubmitTables.binding row.1)

/-- The call as a transaction. -/
def SubmitCall.program (settings : SubmitSettings) :
    SubmitCall → SubmitTransaction (Option ContestSubmission)
  | submitToContest request => do
      let result ← SubmitTransaction.submitToContest settings request
      return some result
  | updateRow key f _ => do
      modify key f
      return none
  | updateSubmission id f _ => do
      modify (SubmitKey.submission id) f
      return none

/-- What a commit leaves behind. -/
def WithinLimits (value : Option ContestSubmission) (_ after : SubmitTables) : Prop :=
  ∀ result ∈ value, result.WithinLimit after

theorem SubmitTransaction.Recorded.commits {result : ContestSubmission} {held : Set SubmitKey}
    {db : SubmitTables} {writes : List (Write SubmitKey.Row)}
    (h : Recorded result.participation.id result.submission.problem result.limit result.submission
      held db writes) : Commits usage WithinLimits (some result) held db writes := by
  intro db' hrel
  have hthen := h.stable hrel
  refine ⟨fun other hother => ?_, fun others hdisjoint =>
    Rely.rows_apply hthen.owned hdisjoint hthen.usage_apply⟩
  obtain rfl := Option.mem_some_iff.mp hother
  constructor
  case stored => rw [hthen.rows db', Table.get?_save, if_pos rfl]
  case bound => exact hthen.bound.1
  case used_le =>
    intro limit hlimit
    rw [SubmitTables.used_save (hthen.rows db') hthen.fresh, if_pos ⟨hthen.bound.1, rfl⟩]
    exact hthen.below.2 limit hlimit

/-- An update that keeps every usage is verified. -/
theorem verified_modify {key : SubmitKey} {f : key.Row → key.Row}
    (h : ∀ (db : SubmitTables) row, db.row? key = some row → ∀ participation problem,
      db.used participation problem = (db.setRow key (f row)).used participation problem) :
    (do modify key f; return none : SubmitTransaction (Option ContestSubmission)).Verified usage
      WithinLimits := by
  intro db
  rw [ensures_bind, ensures_modify]
  intro db' _ db'' hrel
  refine ⟨fun _ hresult => absurd hresult (by simp), fun others hdisjoint => ?_⟩
  have hrow : get? db' key = get? db'' key := (hrel key (Set.mem_union_right _ rfl)).1
  rw [apply_nil, hrow]
  cases hcurrent : get? db'' key with
  | none => exact usage.refl _ _
  | some row =>
      refine Rely.rows_apply (fun write hwrite => ?_) hdisjoint fun other _ => ?_
      · obtain rfl := List.mem_singleton.mp hwrite
        exact Set.mem_union_right _ rfl
      · cases other with
        | participation id => exact funext fun problem => h db'' row hcurrent id problem
        | _ => rfl

theorem SubmitCall.verified (settings : SubmitSettings) (call : SubmitCall) :
    (call.program settings).Verified usage WithinLimits := by
  cases call with
  | submitToContest request =>
      intro db
      rw [program, ensures_bind]
      exact SubmitTransaction.ensures_submitToContest fun result held db writes h => h.commits
  | updateRow key f other =>
      refine verified_modify fun db row _ participation problem => SubmitTables.used_congr ?_
      cases key with
      | submission id => exact absurd rfl (other id)
      | _ => rfl
  | updateSubmission id f bound =>
      refine verified_modify fun db row hrow participation problem => Eq.symm ?_
      have hid : (f row).1.id = id := (f row).2
      have hold : db.submissions.get? (f row).1.id = some row.1 := by
        rw [hid]
        exact Table.row?_eq_some.mp hrow
      exact SubmitTables.used_replace hold (bound row) rfl

/-- Any number of sessions that submit to contests and update rows. -/
abbrev SubmitSystem (ι : Type) :=
  System ι SubmitQuery SubmitTables SubmitKey.Row (Option ContestSubmission)

namespace SubmitSystem

/-- The programs of the calls. -/
def Permitted (ι : Type) (settings : SubmitSettings) (_ : ι)
    (program : SubmitTransaction (Option ContestSubmission)) : Prop :=
  ∃ call : SubmitCall, program = call.program settings

/-- However the transactions interleave, a submission that is committed is within the limit
that its transaction read. -/
theorem withinLimit_run {ι : Type} [DecidableEq ι] {settings : SubmitSettings} {db : SubmitTables}
    {moves : List (Move ι SubmitQuery SubmitTables SubmitKey.Row (Option ContestSubmission))}
    {sys : SubmitSystem ι}
    (run : Run (System.Step (Permitted ι settings)) (System.start db) moves sys) {n : ℕ}
    {commit : Commit ι SubmitQuery SubmitTables SubmitKey.Row (Option ContestSubmission)}
    (hcommit : sys.commits[n]? = some commit) {result : ContestSubmission}
    (hresult : commit.value = some result) : result.WithinLimit (sys.version (n + 1)) := by
  have hverified : ∀ i program, Permitted ι settings i program →
      program.Verified usage WithinLimits := by
    rintro i program ⟨call, rfl⟩
    exact call.verified settings
  exact System.verified_run hverified run hcommit result hresult

/-- Two requests of one user begin before either holds the participation; the second is
left with the count after the first. -/
theorem withinLimit_two_requests :
    ∃ (sys : SubmitSystem Bool) (result : ContestSubmission),
      result.limit = some 1 ∧ sys.store.used 1 1 = 1 ∧ sys.commits.length = 1 ∧
        result.WithinLimit (sys.version 1) := by
  let participations : Table ParticipationRow ParticipationRow.id := (∅ : Table _ _).save
    { id := 1
      contest := 1
      user := 7 }
  let moves : List (Move Bool SubmitQuery SubmitTables SubmitKey.Row (Option ContestSubmission)) :=
    [false, true].map (fun session => .begin session <|
      (SubmitCall.submitToContest (sampleSubmit (60 * second) (if session then 2 else 1))).program
        {}) ++
      ([false, true] ++ List.replicate 14 false ++ List.replicate 6 true).map .step
  have hmoves : ((System.start (sampleTables participations) : SubmitSystem Bool).moves moves).map
      (fun sys => (sys.store.used 1 1, sys.commits.map fun commit =>
        commit.value.map ContestSubmission.limit)) = some (1, [some (some 1)]) := by
    decide +kernel
  obtain ⟨sys, hsys, hseen⟩ := Option.map_eq_some_iff.mp hmoves
  obtain ⟨hused, hcommits⟩ := Prod.mk.inj hseen
  have hrun : Run (System.Step (Permitted Bool {})) (System.start (sampleTables participations))
      moves sys :=
    System.run_of_sessions [false, true] hsys fun _ => ⟨_, rfl⟩
  obtain ⟨commit, hcommit⟩ := List.map_eq_singleton_iff.mp hcommits
  obtain ⟨result, hresult, hlimit⟩ := Option.map_eq_some_iff.mp hcommit.2
  exact ⟨sys, result, hlimit, hused, by rw [hcommit.1]; rfl,
    withinLimit_run hrun (n := 0) (by rw [hcommit.1]; rfl) hresult⟩

end SubmitSystem

end JudgeLoom
