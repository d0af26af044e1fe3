import JudgeLoom.Contests.Freshness
import JudgeLoom.Judge.Transactions

/-!
# Two submissions of one participation that end at the same time

`finish` and `fail` lock their job, not the participation.  Each reads the
submissions of the participation, problem by problem, and writes the aggregates.

Let two such transactions of different submissions interleave.  The one that
commits second reads its own new row and, depending on when its queries run, the
old or the new row of the other submission.  `Closing.serializable_iff` says when
the stored aggregates are those of a serial execution: when the query for the
problem of the other submission runs after the first commit, or when the new row of
the other submission makes no difference.  `Closing.lost_update` is a run in which
the points of one of the submissions are lost.
-/

namespace JudgeLoom

open Transaction KeyedStore

/-- A call that ends a job. -/
inductive Closing
  | finish (now : Time) (judge job : ℕ) (errorMessage : String)
  | fail (now : Time) (judge job : ℕ) (result errorMessage : String)

namespace Closing

/-- The job of the call. -/
def job : Closing → ℕ
  | finish _ _ job _ => job
  | fail _ _ job _ _ => job

/-- The call as a transaction. -/
def program (P : Python) : Closing → DbTransaction (List (ℕ × LeaseEvent))
  | finish now judge job errorMessage => .finish P now judge job errorMessage
  | fail now judge job result errorMessage => .fail P now judge job result errorMessage

/-- The call executed alone. -/
def perform (P : Python) (db : Database) : Closing → Except ServiceError Database
  | finish now judge job errorMessage =>
      (JudgeResultService.finish P now judge job errorMessage db).map Prod.snd
  | fail now judge job result errorMessage =>
      (JudgeResultService.fail P now judge job result errorMessage db).map Prod.snd

/-- What the call writes to its job. -/
def closeJob : Closing → JudgeJob → JudgeJob
  | finish now _ _ _ => JudgeJob.succeed now
  | fail now _ _ _ errorMessage => JudgeJob.fail now errorMessage

open JudgeResultService in
/-- The new row of the submission; `none` if the call repeats the one that ended the job. -/
def result (P : Python) (s : Judging) : Closing → Except ServiceError (Option Submission)
  | finish now judge _ errorMessage =>
      if s.job.status = .succeeded then
        if s.job.claimedBy ≠ some judge then
          .error (.permissionDenied "This job is claimed by another judge.")
        else .ok none
      else do
        assertOwned now judge s.job
        let submission ← outcome P s
        if ¬ storableText errorMessage then .error .database
        else
          .ok (some
            { submission with judgedAt := some now, judgedOn := some judge, errorMessage })
  | fail now judge _ result errorMessage =>
      if s.job.status = .failed then
        if s.job.claimedBy ≠ some judge then
          .error (.permissionDenied "This job is claimed by another judge.")
        else .ok none
      else do
        assertOwned now judge s.job
        if ¬ storableText errorMessage then .error .database
        else
          .ok (some (s.submission.erroneous (failResult result) errorMessage now (some judge)))

variable {P : Python} {closing : Closing} {s : Judging} {db : Database} {saved : Submission}

theorem id_closeJob (closing : Closing) (job : JudgeJob) : (closing.closeJob job).id = job.id := by
  cases closing <;> rfl

/-- The database after the call, given the new row of the submission. -/
def close (P : Python) (closing : Closing) (s : Judging) (saved : Submission) (db : Database) :
    Database :=
  (JudgeResultService.close P db
    { s with job := closing.closeJob s.job, submission := saved }).2

/-- Alone, the call writes what `result` says. -/
theorem perform_eq (hs : db.judging? closing.job = some s) :
    closing.perform P db =
      (closing.result P s).map fun saved => saved.elim db fun saved => closing.close P s saved db := by
  cases closing with
  | finish now judge id errorMessage =>
      have hlock : db.lockJob id = .ok s := JudgeResultService.lockJob_eq_ok.mpr hs
      simp only [perform, result, JudgeResultService.finish, hlock]
      change Except.map _ (if s.job.status = .succeeded then _ else _) = _
      by_cases hsucceeded : s.job.status = .succeeded
      · rw [if_pos hsucceeded, if_pos hsucceeded]
        split_ifs <;> rfl
      · rw [if_neg hsucceeded, if_neg hsucceeded]
        cases hassert : JudgeResultService.assertOwned now judge s.job with
        | error error => rfl
        | ok _ =>
            have hleased := (JudgeResultService.assertOwned_eq_ok.mp hassert).leased
            change Except.map _ (if ¬ s.job.status.leased then _ else _) = _
            rw [if_neg (not_not.mpr hleased)]
            cases JudgeResultService.outcome P s with
            | error error => rfl
            | ok submission =>
                change Except.map _ (if ¬ storableText errorMessage then _ else _) =
                  Except.map _ (if ¬ storableText errorMessage then _ else _)
                split_ifs <;> rfl
  | fail now judge id code errorMessage =>
      have hlock : db.lockJob id = .ok s := JudgeResultService.lockJob_eq_ok.mpr hs
      simp only [perform, result, JudgeResultService.fail, hlock]
      change Except.map _ (if s.job.status = .failed then _ else _) = _
      by_cases hfailed : s.job.status = .failed
      · rw [if_pos hfailed, if_pos hfailed]
        split_ifs <;> rfl
      · rw [if_neg hfailed, if_neg hfailed]
        cases hassert : JudgeResultService.assertOwned now judge s.job with
        | error error => rfl
        | ok _ =>
            have hleased := (JudgeResultService.assertOwned_eq_ok.mp hassert).leased
            change Except.map _ (if ¬ s.job.status.leased then _ else _) = _
            rw [if_neg (not_not.mpr hleased)]
            change Except.map _ (if ¬ storableText errorMessage then _ else _) =
              Except.map _ (if ¬ storableText errorMessage then _ else _)
            split_ifs <;> rfl

/-- The call rewrites the result of its submission and nothing else. -/
theorem unjudged_of_result (h : closing.result P s = .ok (some saved)) :
    saved.unjudged = s.submission.unjudged := by
  cases closing with
  | finish now judge id errorMessage =>
      simp only [result] at h
      by_cases hsucceeded : s.job.status = .succeeded
      · rw [if_pos hsucceeded] at h
        split_ifs at h
        cases h
      · rw [if_neg hsucceeded] at h
        obtain ⟨_, _, h⟩ := Except.bind_eq_ok.mp h
        obtain ⟨submission, houtcome, h⟩ := Except.bind_eq_ok.mp h
        split_ifs at h
        cases h
        have hkept := Judging.unjudged_of_outcome houtcome
        exact hkept
  | fail now judge id code errorMessage =>
      simp only [result] at h
      by_cases hfailed : s.job.status = .failed
      · rw [if_pos hfailed] at h
        split_ifs at h
        cases h
      · rw [if_neg hfailed] at h
        obtain ⟨_, _, h⟩ := Except.bind_eq_ok.mp h
        split_ifs at h
        cases h
        rfl

end Closing

/-- A row that differs in the columns of a result only is saved as a whole. -/
theorem Submission.saveResult_of_unjudged {saved row : Submission}
    (h : saved.unjudged = row.unjudged) : saved.saveResult row = saved := by
  cases saved
  cases row
  simp only [Submission.unjudged, Submission.mk.injEq] at h
  simp [Submission.saveResult, h]

/-! ## The transaction, given the versions that it reads -/

namespace DbTransaction

variable {V : ℕ → Database} {n : ℕ} {start final : Progress Query RowKey.Row}
  {participation : ContestParticipation}

/-- Each problem is queried once, on some version: `version problem` in the following. -/
theorem yields_queryProblems (problems : List ContestProblem)
    (hnodup : (problems.map ContestProblem.problem).Nodup) :
    ∀ {start answers final}, (queryProblems participation problems).Yields V n start answers final →
      final.writes = start.writes ∧ ∃ version : ℕ → ℕ,
        final.log = start.log ++ problems.map (fun contestProblem =>
          (.contestProblem participation.id contestProblem.problem,
            version contestProblem.problem)) ∧
        ∀ contestProblem ∈ problems, version contestProblem.problem ≤ n ∧
          answers.lookup contestProblem.problem =
            some (submissionView
              (start.view (V (version contestProblem.problem))).submissions.rows
              participation contestProblem) := by
  induction problems with
  | nil =>
      rintro start _ _ ⟨rfl, rfl⟩
      exact ⟨rfl, fun _ => 0, by simp, by simp⟩
  | cons contestProblem rest ih =>
      intro start answers final h
      rw [List.map_cons, List.nodup_cons] at hnodup
      obtain ⟨answer, _, ⟨m, hm, rfl, rfl⟩, h⟩ := yields_bind.mp h
      obtain ⟨others, _, hrest, rfl, rfl⟩ := yields_bind.mp h
      obtain ⟨hwrites, version, hlog, hall⟩ := ih hnodup.2 hrest
      have hother : ∀ other ∈ rest, other.problem ≠ contestProblem.problem :=
        fun other hmem heq => hnodup.1 (heq ▸ List.mem_map_of_mem hmem)
      refine ⟨hwrites, Function.update version contestProblem.problem m, ?_, ?_⟩
      · rw [hlog, List.map_cons, Function.update_self]
        have hsame : rest.map (fun other => (Query.contestProblem participation.id other.problem,
            Function.update version contestProblem.problem m other.problem)) =
            rest.map fun other =>
              (Query.contestProblem participation.id other.problem, version other.problem) :=
          List.map_congr_left fun other hmem => by
            rw [Function.update_of_ne (hother other hmem)]
        rw [hsame]
        exact List.append_assoc ..
      · rintro other (_ | ⟨_, hmem⟩)
        · rw [Function.update_self, List.lookup_cons, beq_self_eq_true]
          exact ⟨hm, rfl⟩
        · have hne := hother other hmem
          rw [Function.update_of_ne hne, List.lookup_cons, beq_eq_false_iff_ne.mpr hne]
          exact hall other hmem

end DbTransaction

/-- The participation of a key, recalculated from given answers. -/
def Database.recalculate (A : FloatArith) (id : ℕ) (view : ContestProblem → List Submission)
    (db : Database) : Database :=
  { db with
    participations := db.participations.modify id
      (fun participation => recalculateParticipation A participation view)
      (by
        intro participation
        unfold recalculateParticipation
        split <;> rfl) }

theorem Database.recalculate_eq {A : FloatArith} {id : ℕ}
    {view : ContestProblem → List Submission} {db : Database}
    {participation : ContestParticipation}
    (h : db.participations.get? id = some participation) :
    db.recalculate A id view = { db with
      participations :=
        db.participations.save (recalculateParticipation A participation view) } := by
  rw [recalculate, Table.modify_of_some h]

namespace DbTransaction

variable {V : ℕ → Database} {n : ℕ} {start final : Progress Query RowKey.Row}
  {participation : ContestParticipation} {A : FloatArith} {saved : Submission}

/-- The refresh stores what the answers of its queries give. -/
theorem yields_refreshContestScore {result : PUnit}
    (h : (refreshContestScore A saved).Yields V n start result final)
    (hbound : saved.contestParticipation = some participation.id)
    (hstored : ∀ m ≤ n, ∃ scores, (start.view (V m)).participations.get? participation.id =
      some (participation.withScores scores)) :
    ∃ (m : ℕ) (version : ℕ → ℕ),
      final.log = start.log ++ (.participation participation.id, m) ::
        participation.contest.problems.map (fun contestProblem =>
          (.contestProblem participation.id contestProblem.problem,
            version contestProblem.problem)) ∧
      (∀ contestProblem ∈ participation.contest.problems,
        version contestProblem.problem ≤ n) ∧
      final.view (V n) = (start.view (V n)).recalculate A participation.id fun contestProblem =>
        submissionView (start.view (V (version contestProblem.problem))).submissions.rows
          participation contestProblem := by
  unfold refreshContestScore at h
  rw [hbound] at h
  obtain ⟨found, _, ⟨m, hm, rfl, rfl⟩, h⟩ := yields_bind.mp h
  obtain ⟨scores, hfound⟩ := hstored m hm
  simp only [hfound] at h
  obtain ⟨answers, queried, hqueries, h⟩ := yields_bind.mp h
  obtain ⟨hwrites, version, hlog, hall⟩ := yields_queryProblems _
    participation.contest.problems_nodup hqueries
  have hview : ∀ store : Database, queried.view store = start.view store :=
    fun store => congrArg (apply store) hwrites
  have hcalculated : calculateParticipation A (participation.withScores scores)
        (fun contestProblem => (answers.lookup contestProblem.problem).getD []) =
      calculateParticipation A participation fun contestProblem =>
        submissionView (start.view (V (version contestProblem.problem))).submissions.rows
          participation contestProblem := by
    rw [calculateParticipation_withScores]
    refine calculateParticipation_congr fun contestProblem hmem => ?_
    rw [(hall contestProblem hmem).2]
    rfl
  refine ⟨m, version, ?_⟩
  have hqueried : queried.log = start.log ++ (.participation participation.id, m) ::
      participation.contest.problems.map (fun contestProblem =>
        (.contestProblem participation.id contestProblem.problem,
          version contestProblem.problem)) := by
    rw [hlog]
    exact List.append_assoc ..
  have hversions := fun contestProblem hmem => (hall contestProblem hmem).1
  obtain ⟨current, hcurrent⟩ := hstored n le_rfl
  rw [Database.recalculate_eq hcurrent]
  rw [hcalculated] at h
  cases hscores : calculateParticipation A participation fun contestProblem =>
      submissionView (start.view (V (version contestProblem.problem))).submissions.rows
        participation contestProblem with
  | none =>
      rw [hscores] at h
      obtain ⟨-, rfl⟩ := h
      refine ⟨hqueried, hversions, ?_⟩
      have hkept : recalculateParticipation A (participation.withScores current)
          (fun contestProblem =>
            submissionView (start.view (V (version contestProblem.problem))).submissions.rows
              participation contestProblem) = participation.withScores current := by
        rw [recalculateParticipation, calculateParticipation_withScores, hscores]
      rw [hview, hkept, Table.save_of_get? hcurrent]
  | some scores =>
      rw [hscores] at h
      have hwrite := yields_modify.mp h
      subst hwrite
      refine ⟨hqueried, hversions, ?_⟩
      have hrow : (queried.view (V n)).participations.get? participation.id =
          some (participation.withScores current) := hview (V n) ▸ hcurrent
      have hnew : recalculateParticipation A (participation.withScores current)
          (fun contestProblem =>
            submissionView (start.view (V (version contestProblem.problem))).submissions.rows
              participation contestProblem) =
            (participation.withScores current).withScores scores := by
        rw [recalculateParticipation, calculateParticipation_withScores, hscores]
      have hid : ∀ participation : ContestParticipation,
          (participation.withScores scores).id = participation.id :=
        fun participation => participation.id_withScores scores
      rw [Progress.view_update, rewriteRow_participation _ _ _ hid,
        Table.modify_of_some hrow _ hid, hview, hnew]

/-- The end of `finish` and `fail`, given the rows that it works on. -/
theorem yields_close {id : ℕ} {s : Judging} {f : JudgeJob → JudgeJob}
    {hid : ∀ job, (f job).id = job.id} {events : List (ℕ × LeaseEvent)}
    (h : (close A id s.job.submission saved f hid).Yields V n start events final)
    (hwrites : start.writes = [])
    (hs : (V n).judging? id = some s) (hsaved : saved.unjudged = s.submission.unjudged)
    (hbound : saved.contestParticipation = some participation.id)
    (hstored : ∀ m ≤ n, ∃ scores, (V m).participations.get? participation.id =
      some (participation.withScores scores)) :
    ∃ (m : ℕ) (version : ℕ → ℕ),
      final.log = start.log ++ (.participation participation.id, m) ::
        participation.contest.problems.map (fun contestProblem =>
          (.contestProblem participation.id contestProblem.problem,
            version contestProblem.problem)) ∧
      (∀ contestProblem ∈ participation.contest.problems,
        version contestProblem.problem ≤ n) ∧
      final.view (V n) = ((V n).store { s with job := f s.job, submission := saved }).recalculate
        A participation.id fun contestProblem =>
          submissionView ((V (version contestProblem.problem)).submissions.save saved).rows
            participation contestProblem := by
  obtain ⟨hjob, hsubmission, htestCases⟩ := Database.judging?_eq_some.mp hs
  obtain ⟨_, middle, hsave, h⟩ := yields_bind.mp h
  obtain ⟨_, refreshed, hrefresh, h⟩ := yields_bind.mp h
  obtain ⟨_, _, hfinal, rfl, rfl⟩ := yields_bind.mp h
  have hstart : ∀ store : Database, start.view store = store :=
    Progress.view_of_writes_nil hwrites
  -- the row of the submission is written, on whatever version
  have hmiddle : ∀ store : Database,
      middle.view store = { store with submissions := store.submissions.save saved } := by
    intro store
    have hrow : get? (start.view (V n)) (RowKey.submission s.job.submission) =
        some ⟨s.submission, Table.key_of_get? hsubmission⟩ := by
      rw [hstart]
      exact Table.row?_eq_some.mpr hsubmission
    have hwrite := yields_modify.mp hsave
    rw [hrow] at hwrite
    rw [← hwrite, Option.map_some, Progress.view_write, hstart]
    change { store with
      submissions := store.submissions.save (saved.saveResult s.submission) } = _
    rw [Submission.saveResult_of_unjudged hsaved]
  obtain ⟨m, version, hlog, hversions, hview⟩ := yields_refreshContestScore hrefresh hbound
    fun m hm => by
      rw [hmiddle]
      exact hstored m hm
  obtain ⟨hjobs, hsame⟩ := view_saveJob hfinal
  have hlogs : middle.log = start.log := (view_saveSubmission hsave).2
  refine ⟨m, version, by rw [hsame, hlog, hlogs], hversions, ?_⟩
  have hkey : saved.id = s.job.submission := by
    have hids := congrArg Submission.id hsaved
    change saved.id = s.submission.id at hids
    exact hids.trans (Table.key_of_get? hsubmission)
  have hsubmissions : ∀ version, (middle.view (V version)).submissions =
      (V version).submissions.save saved := fun version => by rw [hmiddle]
  simp only [hsubmissions] at hview
  have hjob' : (refreshed.view (V n)).jobs.get? id = some s.job := by
    rw [hview, hmiddle]
    exact hjob
  rw [hjobs, Table.modify_of_some hjob', hview, hmiddle]
  simp only [Database.recalculate, Database.store, hkey, ← htestCases, Function.update_eq_self]

end DbTransaction

namespace Closing

variable {P : Python} {closing : Closing} {s : Judging} {V : ℕ → Database} {n : ℕ}
  {final : Progress Query RowKey.Row} {participation : ContestParticipation}
  {events : List (ℕ × LeaseEvent)}

/-- What the transaction of a call read and wrote, when all versions show it the same
rows of its own: nothing, or the new row and the aggregates that its queries gave. -/
structure Wrote (P : Python) (closing : Closing) (s : Judging) (participation : ContestParticipation)
    (V : ℕ → Database) (n : ℕ) (final : Progress Query RowKey.Row) (version : ℕ → ℕ)
    (saved : Submission) : Prop where
  queries : ∀ problem m, (.contestProblem participation.id problem, m) ∈ final.log ↔
    ∃ contestProblem ∈ participation.contest.problems,
      contestProblem.problem = problem ∧ version problem = m
  versions : ∀ contestProblem ∈ participation.contest.problems, version contestProblem.problem ≤ n
  view : final.view (V n) =
    ((V n).store { s with job := closing.closeJob s.job, submission := saved }).recalculate
      P.arith participation.id fun contestProblem =>
        submissionView ((V (version contestProblem.problem)).submissions.save saved).rows
          participation contestProblem

/-- The log of `close`, after a log without contest queries. -/
theorem mem_closeLog {log : List (Query × ℕ)} {version : ℕ → ℕ} {m : ℕ}
    (hlog : ∀ problem m, (.contestProblem participation.id problem, m) ∉ log) (problem k : ℕ) :
    (.contestProblem participation.id problem, k) ∈ log ++
        (.participation participation.id, m) :: participation.contest.problems.map
          (fun contestProblem => (.contestProblem participation.id contestProblem.problem,
            version contestProblem.problem)) ↔
      ∃ contestProblem ∈ participation.contest.problems,
        contestProblem.problem = problem ∧ version problem = k := by
  simp only [List.mem_append, hlog, false_or, List.mem_cons, Prod.mk.injEq, reduceCtorEq,
    false_and, List.mem_map, Query.contestProblem.injEq, true_and]
  constructor
  · rintro ⟨contestProblem, hmem, rfl, rfl⟩
    exact ⟨contestProblem, hmem, rfl, rfl⟩
  · rintro ⟨contestProblem, hmem, rfl, rfl⟩
    exact ⟨contestProblem, hmem, rfl, rfl⟩

/-- The end of the call, on the rows `s`. -/
theorem wrote_of_close (closing : Closing) {id : ℕ} {hid : ∀ job, (closing.closeJob job).id = job.id}
    {start : Progress Query RowKey.Row} {saved : Submission}
    (h : (DbTransaction.close P.arith id s.job.submission saved closing.closeJob hid).Yields V n
      start events final)
    (hwrites : start.writes = [])
    (hlog : ∀ problem m, (.contestProblem participation.id problem, m) ∉ start.log)
    (hs : (V n).judging? id = some s) (hsaved : saved.unjudged = s.submission.unjudged)
    (hbound : s.submission.contestParticipation = some participation.id)
    (hstored : ∀ m ≤ n, ∃ scores, (V m).participations.get? participation.id =
      some (participation.withScores scores)) :
    ∃ version, closing.Wrote P s participation V n final version saved := by
  have hbound' : saved.contestParticipation = some participation.id := by
    have hsame : saved.unjudged.contestParticipation = s.submission.unjudged.contestParticipation :=
      congrArg Submission.contestParticipation hsaved
    exact hsame.trans hbound
  obtain ⟨m, version, hlogged, hversions, hview⟩ :=
    DbTransaction.yields_close h hwrites hs hsaved hbound' hstored
  refine ⟨version, fun problem k => ?_, hversions, hview⟩
  rw [hlogged]
  exact mem_closeLog hlog problem k

open DbTransaction in
theorem yields_program (h : (closing.program P).Yields V n {} events final)
    (hs : ∀ m ≤ n, (V m).judging? closing.job = some s)
    (hbound : s.submission.contestParticipation = some participation.id)
    (hstored : ∀ m ≤ n, ∃ scores, (V m).participations.get? participation.id =
      some (participation.withScores scores)) :
    (closing.result P s = .ok none ∧ final.view (V n) = V n ∧
        ∀ problem m, (.contestProblem participation.id problem, m) ∉ final.log) ∨
      ∃ saved version, closing.result P s = .ok (some saved) ∧
        closing.Wrote P s participation V n final version saved := by
  have hrow : ∀ m ≤ n, (V m).submissions.get? s.job.submission = some s.submission ∧
      (V m).testCases s.job.submission = s.testCases := fun m hm =>
    (Database.judging?_eq_some.mp (hs m hm)).2
  have hcurrent := (Database.judging?_eq_some.mp (hs n le_rfl)).1
  cases closing with
  | finish now judge id errorMessage =>
      obtain ⟨job, _, hlock, h⟩ := yields_bind.mp h
      obtain ⟨hjob, rfl⟩ := yields_lockJob hlock
      obtain rfl : s.job = job := Option.some.inj (hcurrent.symm.trans hjob)
      obtain ⟨found, _, ⟨m, hm, rfl, rfl⟩, h⟩ := yields_bind.mp h
      simp only [Progress.view_nil, (hrow m hm).1] at h
      by_cases hsucceeded : s.job.status = .succeeded
      · rw [if_pos hsucceeded] at h
        split_ifs at h with howner
        · exact h.elim
        · obtain ⟨rfl, rfl⟩ := h
          refine Or.inl ⟨?_, rfl, ?_⟩
          · simp [result, hsucceeded, not_not.mp howner]
          · simp [Progress.query]
      · rw [if_neg hsucceeded] at h
        obtain ⟨_, _, howned, h⟩ := yields_bind.mp h
        obtain ⟨hassert, rfl⟩ := yields_attempt.mp howned
        obtain ⟨rows, _, ⟨m', hm', rfl, rfl⟩, h⟩ := yields_bind.mp h
        simp only [Progress.view_query, Progress.view_nil, (hrow m' hm').2] at h
        obtain ⟨submission, _, hcomputed, h⟩ := yields_bind.mp h
        obtain ⟨houtcome, rfl⟩ := yields_attempt.mp hcomputed
        by_cases hstorable : storableText errorMessage
        · rw [if_neg (not_not.mpr hstorable)] at h
          have hresult : (Closing.finish now judge id errorMessage).result P s =
              .ok (some { submission with
                judgedAt := some now, judgedOn := some judge, errorMessage }) := by
            simp only [result, if_neg hsucceeded, hassert]
            change (do
              let submission ← JudgeResultService.outcome P s
              _ : Except ServiceError (Option Submission)) = _
            rw [houtcome]
            exact if_neg (not_not.mpr hstorable)
          obtain ⟨version, hwrote⟩ := wrote_of_close
            (.finish now judge id errorMessage) h rfl (by simp [Progress.query]) (hs n le_rfl) (unjudged_of_result hresult) hbound hstored
          exact Or.inr ⟨_, version, hresult, hwrote⟩
        · rw [if_pos hstorable] at h
          exact h.elim
  | fail now judge id code errorMessage =>
      obtain ⟨job, _, hlock, h⟩ := yields_bind.mp h
      obtain ⟨hjob, rfl⟩ := yields_lockJob hlock
      obtain rfl : s.job = job := Option.some.inj (hcurrent.symm.trans hjob)
      obtain ⟨found, _, ⟨m, hm, rfl, rfl⟩, h⟩ := yields_bind.mp h
      simp only [Progress.view_nil, (hrow m hm).1] at h
      by_cases hfailed : s.job.status = .failed
      · rw [if_pos hfailed] at h
        split_ifs at h with howner
        · exact h.elim
        · obtain ⟨rfl, rfl⟩ := h
          refine Or.inl ⟨?_, rfl, ?_⟩
          · simp [result, hfailed, not_not.mp howner]
          · simp [Progress.query]
      · rw [if_neg hfailed] at h
        obtain ⟨_, _, howned, h⟩ := yields_bind.mp h
        obtain ⟨hassert, rfl⟩ := yields_attempt.mp howned
        by_cases hstorable : storableText errorMessage
        · rw [if_neg (not_not.mpr hstorable)] at h
          have hresult : (Closing.fail now judge id code errorMessage).result P s =
              .ok (some (s.submission.erroneous (JudgeResultService.failResult code) errorMessage
                now (some judge))) := by
            simp only [result, if_neg hfailed, hassert]
            exact if_neg (not_not.mpr hstorable)
          obtain ⟨version, hwrote⟩ := wrote_of_close
            (.fail now judge id code errorMessage) h rfl (by simp [Progress.query]) (hs n le_rfl) (unjudged_of_result hresult) hbound hstored
          exact Or.inr ⟨_, version, hresult, hwrote⟩
        · rw [if_pos hstorable] at h
          exact h.elim

/-! ## The same call executed alone -/

/-- The row of the submission after the call. -/
def row (P : Python) (closing : Closing) (s : Judging) : Submission :=
  match closing.result P s with
  | .ok (some saved) => saved
  | _ => s.submission

/-- The database after the call, when it succeeds. -/
def after (P : Python) (closing : Closing) (s : Judging) (db : Database) : Database :=
  match closing.result P s with
  | .ok (some saved) => closing.close P s saved db
  | _ => db

variable {db : Database} {saved : Submission} {scores : ParticipationScores}

theorem perform_eq_after (hs : db.judging? closing.job = some s) {saved : Option Submission}
    (hresult : closing.result P s = .ok saved) :
    closing.perform P db = .ok (closing.after P s db) := by
  rw [perform_eq hs, after, hresult]
  cases saved <;> rfl

theorem unjudged_row (closing : Closing) : (closing.row P s).unjudged = s.submission.unjudged := by
  unfold row
  split
  · next saved hresult => exact unjudged_of_result hresult
  · rfl

theorem id_row (closing : Closing) : (closing.row P s).id = s.submission.id := by
  have hids := congrArg Submission.id (unjudged_row (P := P) (s := s) closing)
  exact hids

theorem problem_row (closing : Closing) : (closing.row P s).problem = s.submission.problem := by
  have hproblems := congrArg Submission.problem (unjudged_row (P := P) (s := s) closing)
  exact hproblems

/-- Alone, the call calculates the aggregates from all rows. -/
theorem close_eq (hbound : saved.contestParticipation = some participation.id)
    (hstored : db.participations.get? participation.id = some (participation.withScores scores)) :
    closing.close P s saved db =
      (db.store { s with job := closing.closeJob s.job, submission := saved }).recalculate P.arith
        participation.id (submissionView (db.submissions.save saved).rows participation) := by
  have hstored' : (db.store { s with
      job := closing.closeJob s.job, submission := saved }).participations.get? participation.id =
        some (participation.withScores scores) := hstored
  rw [Database.recalculate_eq hstored']
  unfold close JudgeResultService.close Database.refreshContestScore
  dsimp only
  rw [hbound]
  dsimp only
  rw [Table.modify_of_some hstored', submissionView_withScores]
  rfl

theorem submissions_after (hs : db.judging? closing.job = some s) :
    (closing.after P s db).submissions = db.submissions.save (closing.row P s) := by
  unfold after row
  split
  · next saved hresult =>
      unfold close JudgeResultService.close Database.refreshContestScore
      dsimp only
      split <;> rfl
  · have hrow := (Database.judging?_eq_some.mp hs).2.1
    rw [Table.save_of_get?]
    rw [Table.key_of_get? hrow, hrow]

/-- The call leaves the rows of other jobs as they are. -/
theorem judging?_after {other : ℕ} {t : Judging} (ht : db.judging? other = some t)
    (hjob : other ≠ s.job.id) (hsubmission : t.submission.id ≠ s.submission.id) :
    (closing.after P s db).judging? other = some t := by
  unfold after
  split
  · next saved hresult =>
      have hid : saved.id = s.submission.id := by
        have hids := congrArg Submission.id (unjudged_of_result hresult)
        exact hids
      obtain ⟨hother, hrow, hcases⟩ := Database.judging?_eq_some.mp ht
      have hne : t.job.submission ≠ saved.id := by
        rw [hid, ← Database.linked_of_judging? ht]
        exact hsubmission
      unfold close JudgeResultService.close
      rw [Database.judging?_refreshContestScore, Database.judging?_eq_some]
      simp only [Database.store, Table.get?_save, id_closeJob, if_neg hjob, if_neg hne,
        Function.update_of_ne hne]
      exact ⟨hother, hrow, hcases⟩
  · exact ht

/-- The participation after the call, when its queries have the answers `view`. -/
def rescore (P : Python) (closing : Closing) (s : Judging)
    (view : ContestProblem → List Submission) (participation : ContestParticipation) :
    ContestParticipation :=
  match closing.result P s with
  | .ok (some _) => recalculateParticipation P.arith participation view
  | _ => participation

theorem rescore_of_saved {view : ContestProblem → List Submission}
    (hresult : closing.result P s = .ok (some saved)) :
    closing.rescore P s view participation =
      recalculateParticipation P.arith participation view := by
  rw [rescore, hresult]

theorem rescore_of_none {view : ContestProblem → List Submission}
    (hresult : closing.result P s = .ok none) :
    closing.rescore P s view participation = participation := by
  rw [rescore, hresult]

theorem rescore_eq_withScores (closing : Closing) (view : ContestProblem → List Submission)
    (participation : ContestParticipation) :
    ∃ scores, closing.rescore P s view participation = participation.withScores scores := by
  unfold rescore
  split
  · exact recalculateParticipation_eq_withScores
  · exact ⟨participation.toParticipationScores, rfl⟩

theorem participation_after (hbound : s.submission.contestParticipation = some participation.id)
    (hstored : db.participations.get? participation.id = some (participation.withScores scores)) :
    (closing.after P s db).participations.get? participation.id =
      some (closing.rescore P s (submissionView (db.submissions.save (closing.row P s)).rows
        participation) (participation.withScores scores)) := by
  unfold after rescore row
  split
  · next saved hresult =>
      have hbound' : saved.contestParticipation = some participation.id := by
        have hsame := congrArg Submission.contestParticipation (unjudged_of_result hresult)
        exact hsame.trans hbound
      rw [close_eq hbound' hstored, Database.recalculate]
      dsimp only [Database.store]
      rw [Table.get?_modify, if_pos rfl, hstored]
      rfl
  · exact hstored

end Closing

/-! ## Answers of the queries -/

/-- A row of another problem does not enter into the query for a problem. -/
theorem submissionView_save_of_ne {submissions : Table Submission Submission.id}
    {participation : ContestParticipation} {contestProblem : ContestProblem} {old new : Submission}
    (hold : submissions.get? new.id = some old) (hsame : new.problem = old.problem)
    (hne : new.problem ≠ contestProblem.problem) :
    submissionView (submissions.save new).rows participation contestProblem =
      submissionView submissions.rows participation contestProblem := by
  unfold submissionView ContestFormat.submissionQueryset
  dsimp only
  refine congrArg (List.insertionSort ContestFormat.before) ?_
  -- the filtered rows are tables themselves, and these agree at every key
  refine congrArg Table.rows (?_ : (submissions.save new).filter _ = submissions.filter _)
  refine Table.ext_get? fun k => ?_
  rw [Table.get?_filter, Table.get?_filter, Table.get?_save]
  by_cases hk : k = new.id
  · subst hk
    have hne' : old.problem ≠ contestProblem.problem := hsame ▸ hne
    rw [if_pos rfl, hold]
    simp [Option.filter, hne, hne']
  · rw [if_neg hk]

section

variable {A : FloatArith} {participation : ContestParticipation}
  {view view' both : ContestProblem → List Submission}

theorem calculateParticipation_recalculateParticipation :
    calculateParticipation A (recalculateParticipation A participation view) view' =
      calculateParticipation A participation view' := by
  have hsame : ∃ scores, recalculateParticipation A participation view =
      participation.withScores scores := recalculateParticipation_eq_withScores
  obtain ⟨scores, hscores⟩ := hsame
  rw [hscores, calculateParticipation_withScores]

theorem scores_recalculateParticipation {scores : ParticipationScores}
    (h : calculateParticipation A participation view = some scores) :
    (recalculateParticipation A participation view).toParticipationScores = scores := by
  rw [recalculateParticipation, h]
  rfl

theorem recalculateParticipation_of_none (h : calculateParticipation A participation view = none) :
    recalculateParticipation A participation view = participation := by
  rw [recalculateParticipation, h]

/-- A recalculation from `view` and one from `view'`, compared with those in which the
second one is from `both`. -/
theorem recalculateParticipation_serial_iff :
    let stored := (recalculateParticipation A (recalculateParticipation A participation view)
      view').toParticipationScores
    (recalculateParticipation A (recalculateParticipation A participation view)
        both).toParticipationScores = stored ∨
      (recalculateParticipation A (recalculateParticipation A participation view')
        both).toParticipationScores = stored ↔
      ∀ scores ∈ calculateParticipation A participation both, stored = scores := by
  intro stored
  have hlast : ∀ {first second scores}, calculateParticipation A participation second = some scores →
      (recalculateParticipation A (recalculateParticipation A participation first)
        second).toParticipationScores = scores := fun h =>
    scores_recalculateParticipation (calculateParticipation_recalculateParticipation.trans h)
  have hnone : ∀ {first second}, calculateParticipation A participation second = none →
      recalculateParticipation A (recalculateParticipation A participation first) second =
        recalculateParticipation A participation first := fun h =>
    recalculateParticipation_of_none (calculateParticipation_recalculateParticipation.trans h)
  cases hboth : calculateParticipation A participation both with
  | some scores =>
      rw [hlast hboth, hlast hboth, or_self]
      simp only [Option.mem_def, Option.some.injEq, forall_eq']
      exact eq_comm
  | none =>
      rw [hnone hboth, hnone hboth]
      refine iff_of_true ?_ (by simp)
      -- either the last calculation raises as well, or it overwrites the first one
      cases hview' : calculateParticipation A participation view' with
      | none => exact Or.inl (congrArg _ (hnone hview').symm)
      | some scores =>
          exact Or.inr ((scores_recalculateParticipation hview').trans (hlast hview').symm)

end

/-- The stored aggregates of a participation. -/
def Database.scores (db : Database) (id : ℕ) : Option ParticipationScores :=
  (db.participations.get? id).map ContestParticipation.toParticipationScores

theorem Database.scores_recalculate {A : FloatArith} {id : ℕ}
    {view : ContestProblem → List Submission} {db : Database}
    {participation : ContestParticipation}
    (h : db.participations.get? id = some participation) :
    (db.recalculate A id view).scores id =
      some (recalculateParticipation A participation view).toParticipationScores := by
  rw [Database.scores, Database.recalculate]
  dsimp only
  rw [Table.get?_modify, if_pos rfl, h]
  rfl

/-! ## Two calls -/

namespace Closing

variable {P : Python} {db : Database} {closing : Bool → Closing} {judging : Bool → Judging}
  {participation : ContestParticipation}

/-- Two calls on different submissions of one participation. -/
structure Compete (db : Database) (closing : Bool → Closing) (judging : Bool → Judging)
    (participation : ContestParticipation) : Prop where
  found : ∀ b, db.judging? (closing b).job = some (judging b)
  distinct : ∀ b, (judging b).submission.id ≠ (judging !b).submission.id
  bound : ∀ b, (judging b).submission.contestParticipation = some participation.id
  stored : db.participations.get? participation.id = some participation

/-- Some serial execution of the two calls leaves the aggregates `scores`. -/
def Serial (P : Python) (db : Database) (closing : Bool → Closing) (id : ℕ)
    (scores : Option ParticipationScores) : Prop :=
  ∃ b first second, (closing b).perform P db = .ok first ∧
    (closing !b).perform P first = .ok second ∧ second.scores id = scores

/-- The row of the one call and the row of the other, saved in turn. -/
def bothRows (P : Python) (db : Database) (closing : Bool → Closing) (judging : Bool → Judging)
    (b : Bool) : Table Submission Submission.id :=
  (db.submissions.save ((closing b).row P (judging b))).save ((closing !b).row P (judging !b))

theorem bothRows_not (h : Compete db closing judging participation) (b : Bool) :
    bothRows P db closing judging (!b) = bothRows P db closing judging b := by
  unfold bothRows
  rw [Bool.not_not]
  refine Table.save_comm _ ?_
  rw [id_row, id_row]
  exact (h.distinct b).symm

theorem Compete.job_ne (h : Compete db closing judging participation) (b : Bool) :
    (closing !b).job ≠ (judging b).job.id := by
  intro heq
  have hother := h.found !b
  rw [heq, Database.id_of_judging? (h.found b), h.found b] at hother
  exact h.distinct b (congrArg (fun s => s.submission.id) (Option.some.inj hother))

/-- The first call leaves the rows of the second one. -/
theorem Compete.found_after (h : Compete db closing judging participation) (b : Bool) :
    ((closing b).after P (judging b) db).judging? (closing !b).job = some (judging !b) :=
  judging?_after (h.found !b) (h.job_ne b) (h.distinct b).symm

theorem Compete.first (h : Compete db closing judging participation) (b : Bool) :
    ((closing b).after P (judging b) db).participations.get? participation.id =
      some ((closing b).rescore P (judging b) (submissionView
        (db.submissions.save ((closing b).row P (judging b))).rows participation) participation) :=
  participation_after (h.bound b)
    (h.stored : _ = some (participation.withScores participation.toParticipationScores))

/-- The aggregates after the calls, one after the other. -/
theorem serial_iff (h : Compete db closing judging participation)
    (hok : ∀ b, ∃ saved, (closing b).result P (judging b) = .ok saved)
    (scores : ParticipationScores) :
    Serial P db closing participation.id (some scores) ↔
      ∃ b, ((closing !b).rescore P (judging !b)
        (submissionView (bothRows P db closing judging b).rows participation)
        ((closing b).rescore P (judging b) (submissionView
          (db.submissions.save ((closing b).row P (judging b))).rows participation)
          participation)).toParticipationScores = scores := by
  refine exists_congr fun b => ?_
  obtain ⟨saved, hresult⟩ := hok b
  obtain ⟨saved', hresult'⟩ := hok !b
  have hperform := perform_eq_after (h.found b) hresult
  have hperform' := perform_eq_after (h.found_after (P := P) b) hresult'
  have hlast : ((closing !b).after P (judging !b)
      ((closing b).after P (judging b) db)).scores participation.id =
        some ((closing !b).rescore P (judging !b)
          (submissionView (bothRows P db closing judging b).rows participation)
          ((closing b).rescore P (judging b) (submissionView
            (db.submissions.save ((closing b).row P (judging b))).rows participation)
            participation)).toParticipationScores := by
    obtain ⟨first, hfirst⟩ := rescore_eq_withScores (P := P) (s := judging b) (closing b)
      (submissionView (db.submissions.save ((closing b).row P (judging b))).rows participation)
      participation
    have hstored := h.first (P := P) b
    rw [hfirst] at hstored ⊢
    rw [Database.scores, participation_after (h.bound !b) hstored, submissions_after (h.found b)]
    rfl
  constructor
  · rintro ⟨first, second, hfirst, hsecond, hscores⟩
    obtain rfl := Except.ok.inj (hperform.symm.trans hfirst)
    obtain rfl := Except.ok.inj (hperform'.symm.trans hsecond)
    exact Option.some.inj (hlast.symm.trans hscores)
  · rintro rfl
    exact ⟨_, _, hperform, hperform', hlast⟩

/-! ## Two transactions -/

variable {V : ℕ → Database} {final : Progress Query RowKey.Row} {events : List (ℕ × LeaseEvent)}

/-- The queries for a problem run after the first commit. -/
def SeesCommit (log : List (Query × ℕ)) (participation problem : ℕ) : Prop :=
  ∀ m, (.contestProblem participation problem, m) ∈ log → 1 ≤ m

instance (log : List (Query × ℕ)) (participation problem : ℕ) :
    Decidable (SeesCommit log participation problem) :=
  decidable_of_iff (∀ entry ∈ log, entry.1 = .contestProblem participation problem → 1 ≤ entry.2)
    ⟨fun h _ hmem => h _ hmem rfl, fun h entry hmem heq => h entry.2 (heq ▸ hmem)⟩

/-- The first new row makes no difference: to recalculate with it and then without it
leaves what is calculated with both rows. -/
def Unnoticed (P : Python) (db : Database) (closing : Bool → Closing) (judging : Bool → Judging)
    (participation : ContestParticipation) (b : Bool) : Prop :=
  let alone := fun b => submissionView
    (db.submissions.save ((closing b).row P (judging b))).rows participation
  ∀ scores ∈ calculateParticipation P.arith participation
      (submissionView (bothRows P db closing judging b).rows participation),
    (recalculateParticipation P.arith (recalculateParticipation P.arith participation (alone b))
      (alone !b)).toParticipationScores = scores

/-- The transaction that commits first is executed as if alone. -/
theorem first_commit (h : Compete db closing judging participation) {b : Bool} (hV : V 0 = db)
    (hyields : ((closing b).program P).Yields V 0 {} events final) :
    (∃ saved, (closing b).result P (judging b) = .ok saved) ∧
      final.view db = (closing b).after P (judging b) db := by
  have hversion : ∀ m ≤ 0, V m = db := by
    intro _ hm
    rw [Nat.le_zero.mp hm, hV]
  rcases yields_program hyields
      (fun m hm => by rw [hversion m hm]; exact h.found b) (h.bound b)
      (fun m hm => by
        rw [hversion m hm]
        exact ⟨participation.toParticipationScores, h.stored⟩) with
    ⟨hresult, hview, -⟩ | ⟨saved, version, hresult, hwrote⟩
  · rw [hV] at hview
    refine ⟨⟨none, hresult⟩, ?_⟩
    rw [hview, after, hresult]
  · have hbound : saved.contestParticipation = some participation.id := by
      have hsame := congrArg Submission.contestParticipation (unjudged_of_result hresult)
      exact hsame.trans (h.bound b)
    refine ⟨⟨some saved, hresult⟩, ?_⟩
    have hview := hwrote.view
    rw [hV] at hview
    rw [hview, after, hresult]
    dsimp only
    have hunscored : db.participations.get? participation.id =
        some (participation.withScores participation.toParticipationScores) := h.stored
    have hstored : (db.store { judging b with
        job := (closing b).closeJob (judging b).job,
        submission := saved }).participations.get? participation.id = some participation := h.stored
    rw [close_eq hbound hunscored, Database.recalculate_eq hstored, Database.recalculate_eq hstored]
    rw [recalculateParticipation_congr fun contestProblem hmem => by
      rw [hversion _ (hwrote.versions contestProblem hmem)]]

/-- The query for any other problem has the same answer with and without the first new row. -/
theorem bothRows_of_ne (h : Compete db closing judging participation) (b : Bool)
    {contestProblem : ContestProblem}
    (hne : (judging b).submission.problem ≠ contestProblem.problem) :
    submissionView (bothRows P db closing judging b).rows participation contestProblem =
      submissionView (db.submissions.save ((closing !b).row P (judging !b))).rows participation
        contestProblem := by
  have hrow := (Database.judging?_eq_some.mp (h.found b)).2.1
  rw [← bothRows_not h, bothRows, Bool.not_not]
  have hold : (db.submissions.save ((closing !b).row P (judging !b))).get?
      ((closing b).row P (judging b)).id = some (judging b).submission := by
    rw [Table.get?_save, id_row, id_row, if_neg (h.distinct b)]
    exact Table.get?_key_of_mem (Table.mem_of_get? hrow)
  refine submissionView_save_of_ne hold (problem_row _) ?_
  rw [problem_row]
  exact hne

/-- What the transaction that commits second stores: the first new row enters if its
query runs after the first commit. -/
theorem second_commit (h : Compete db closing judging participation) {b : Bool} (hinitial : V 0 = db)
    (hfirst : V 1 = (closing b).after P (judging b) db)
    (hyields : ((closing !b).program P).Yields V 1 {} events final) :
    ∃ saved, (closing !b).result P (judging !b) = .ok saved ∧
      (¬ SeesCommit final.log participation.id (judging b).submission.problem → saved.isSome) ∧
      (final.view (V 1)).scores participation.id =
        some ((closing !b).rescore P (judging !b)
          (if SeesCommit final.log participation.id (judging b).submission.problem then
            submissionView (bothRows P db closing judging b).rows participation
          else
            submissionView (db.submissions.save ((closing !b).row P (judging !b))).rows
              participation)
          ((closing b).rescore P (judging b) (submissionView
            (db.submissions.save ((closing b).row P (judging b))).rows participation)
            participation)).toParticipationScores := by
  have hversion : ∀ m ≤ 1, V m = db ∨ V m = (closing b).after P (judging b) db := by
    intro m hm
    rcases Nat.le_one_iff_eq_zero_or_eq_one.mp hm with rfl | rfl
    · exact Or.inl hinitial
    · exact Or.inr hfirst
  have hstored := h.first (P := P) b
  obtain ⟨scores, hscores⟩ := rescore_eq_withScores (P := P) (s := judging b) (closing b)
    (submissionView (db.submissions.save ((closing b).row P (judging b))).rows participation)
    participation
  rw [hscores] at hstored ⊢
  rcases yields_program hyields
      (fun m hm => by
        rcases hversion m hm with hm | hm <;> rw [hm]
        · exact h.found !b
        · exact h.found_after b)
      (h.bound !b)
      (fun m hm => by
        rcases hversion m hm with hm | hm <;> rw [hm]
        · exact ⟨participation.toParticipationScores, h.stored⟩
        · exact ⟨scores, hstored⟩) with
    ⟨hresult, hview, hlog⟩ | ⟨saved, version, hresult, hwrote⟩
  · refine ⟨none, hresult, fun hsees => absurd (fun m hmem => absurd hmem (hlog _ m)) hsees, ?_⟩
    rw [hview, hfirst, rescore_of_none hresult, Database.scores, hstored]
    rfl
  · refine ⟨some saved, hresult, fun _ => rfl, ?_⟩
    have hrow : (closing !b).row P (judging !b) = saved := by
      rw [row, hresult]
    have hanswer : ∀ contestProblem ∈ participation.contest.problems,
        submissionView ((V (version contestProblem.problem)).submissions.save saved).rows
            participation contestProblem =
          (if SeesCommit final.log participation.id (judging b).submission.problem then
            submissionView (bothRows P db closing judging b).rows participation
          else
            submissionView (db.submissions.save ((closing !b).row P (judging !b))).rows
              participation) contestProblem := by
      intro contestProblem hmem
      have hle := hwrote.versions contestProblem hmem
      have hzero : version contestProblem.problem = 0 →
          (V (version contestProblem.problem)).submissions.save saved =
            db.submissions.save ((closing !b).row P (judging !b)) := fun hm => by
        rw [hm, hinitial, hrow]
      have hone : version contestProblem.problem = 1 →
          (V (version contestProblem.problem)).submissions.save saved =
            bothRows P db closing judging b := fun hm => by
        rw [hm, hfirst, submissions_after (h.found b), bothRows, hrow]
      have hlogged := (hwrote.queries contestProblem.problem _).mpr ⟨contestProblem, hmem, rfl, rfl⟩
      by_cases hproblem : (judging b).submission.problem = contestProblem.problem
      · split_ifs with hsees
        · rw [hproblem] at hsees
          have hlate := hsees _ hlogged
          rw [hone (by omega)]
        · have hearly : ¬ 1 ≤ version contestProblem.problem := by
            intro hlate
            refine hsees fun m hquery => ?_
            obtain ⟨other, -, hother, rfl⟩ := (hwrote.queries _ m).mp hquery
            rw [hproblem]
            exact hlate
          rw [hzero (by omega)]
      · have hsame := bothRows_of_ne (P := P) h b hproblem
        have hgoal : submissionView
            ((V (version contestProblem.problem)).submissions.save saved).rows participation
              contestProblem =
            submissionView (bothRows P db closing judging b).rows participation
              contestProblem := by
          rcases Nat.le_one_iff_eq_zero_or_eq_one.mp hle with hm | hm
          · rw [hzero hm, hsame]
          · rw [hone hm]
        split_ifs
        · exact hgoal
        · rw [hgoal, hsame]
    have hcurrent : ((V 1).store { judging !b with
        job := (closing !b).closeJob (judging !b).job,
        submission := saved }).participations.get? participation.id =
          some (participation.withScores scores) := by
      rw [hfirst]
      exact hstored
    have hsame : recalculateParticipation P.arith (participation.withScores scores) _ =
        recalculateParticipation P.arith (participation.withScores scores) _ :=
      recalculateParticipation_congr hanswer
    rw [hwrote.view, Database.scores_recalculate hcurrent, rescore_of_saved hresult, hsame]

/-- Let two transactions that end jobs of different submissions of one participation
interleave, and let both commit.  The stored aggregates are those of a serial execution
exactly if the second one queries the problem of the first one's submission after the
first commit, or if the first new row makes no difference. -/
theorem serializable_iff (h : Compete db closing judging participation)
    {moves : List (Move Bool Query Database RowKey.Row (List (ℕ × LeaseEvent)))}
    {sys : JudgeSystem Bool} {first second : Commit Bool Query Database RowKey.Row _}
    (run : Run (System.Step fun b program => program = (closing b).program P)
      (System.start db) moves sys)
    (hcommits : sys.commits = [first, second]) (hsessions : second.session = !first.session) :
    Serial P db closing participation.id (sys.store.scores participation.id) ↔
      SeesCommit second.log participation.id (judging first.session).submission.problem ∨
        Unnoticed P db closing judging participation first.session := by
  have hsound := System.Sound.run run
  have hfirst : sys.commits[0]? = some first := by rw [hcommits]; rfl
  have hsecond : sys.commits[1]? = some second := by rw [hcommits]; rfl
  obtain ⟨hprogram, hyields⟩ := hsound.commits 0 first hfirst
  obtain ⟨hprogram', hyields'⟩ := hsound.commits 1 second hsecond
  have hinitial : sys.version 0 = db := System.initial_of_run run
  have hmiddle : sys.version 1 = first.view (sys.version 0) := System.version_succ hfirst
  have hfinal : sys.store = second.view (sys.version 1) := by
    rw [System.store, hcommits]
    exact System.version_succ hsecond
  generalize hb : first.session = b at *
  rw [hprogram] at hyields
  rw [hprogram', hsessions] at hyields'
  obtain ⟨⟨saved, hresult⟩, hview⟩ := first_commit h hinitial hyields
  rw [hinitial, hview] at hmiddle
  obtain ⟨saved', hresult', hsome, hstored⟩ := second_commit h hinitial hmiddle hyields'
  have hok : ∀ c, ∃ saved, (closing c).result P (judging c) = .ok saved := by
    intro c
    rcases Bool.eq_or_eq_not c b with rfl | rfl
    · exact ⟨saved, hresult⟩
    · exact ⟨saved', hresult'⟩
  rw [hfinal, hstored, serial_iff h hok]
  by_cases hsees : SeesCommit second.log participation.id (judging b).submission.problem
  · rw [if_pos hsees]
    exact iff_of_true ⟨b, rfl⟩ (Or.inl hsees)
  · rw [if_neg hsees, or_iff_right hsees]
    obtain ⟨new', rfl⟩ := Option.isSome_iff_exists.mp (hsome hsees)
    cases saved with
    | none =>
        -- the first call writes nothing, and the second one reads what it would read alone
        have hrow : (closing b).row P (judging b) = (judging b).submission := by
          rw [row, hresult]
        have hsubmission := (Database.judging?_eq_some.mp (h.found b)).2.1
        have hsame : bothRows P db closing judging b =
            db.submissions.save ((closing !b).row P (judging !b)) := by
          rw [bothRows, hrow,
            Table.save_of_get? (Table.get?_key_of_mem (Table.mem_of_get? hsubmission))]
        refine iff_of_true ⟨b, by rw [hsame]⟩ fun scores hscores => ?_
        rw [hsame] at hscores
        exact scores_recalculateParticipation
          (calculateParticipation_recalculateParticipation.trans hscores)
    | some new =>
        rw [rescore_of_saved hresult, rescore_of_saved hresult']
        refine Iff.trans ?_ recalculateParticipation_serial_iff
        constructor
        · rintro ⟨c, hc⟩
          rcases Bool.eq_or_eq_not c b with rfl | rfl
          · rw [rescore_of_saved hresult, rescore_of_saved hresult'] at hc
            exact Or.inl hc
          · rw [bothRows_not h, Bool.not_not, rescore_of_saved hresult,
              rescore_of_saved hresult'] at hc
            exact Or.inr hc
        · rintro (hc | hc)
          · refine ⟨b, ?_⟩
            rw [rescore_of_saved hresult, rescore_of_saved hresult']
            exact hc
          · refine ⟨!b, ?_⟩
            rw [bothRows_not h, Bool.not_not, rescore_of_saved hresult,
              rescore_of_saved hresult']
            exact hc

/-! ## Two accepted submissions -/

/-- A contest with two problems of 100 points. -/
def duelWorld : World where
  db := {
    participations := (∅ : Table _ ContestParticipation.id).save {
      id := 1
      user := 1
      contest := {
        format := some .default
        startTime := 0
        problems := [{ problem := 1, label := "A", points := 100 },
          { problem := 2, label := "B", points := 100 }] } } }

/-- The participant submits to problem `id`. -/
def duelSubmit (id : ℕ) : Op :=
  .createSubmission { sampleRequest with
    context := { sampleContext with problem := { sampleContext.problem with id } }
    contestParticipation := some 1 }

/-- Judges 7 and 8 have accepted all cases of a submission each. -/
def duelDatabase : Database :=
  (duelWorld.run samplePython [duelSubmit 1, duelSubmit 2,
    .claimJob 7 ["python"] 0, .claimJob 8 ["python"] 0,
    .recordCases 7 1 [sampleAccepted], .recordCases 8 2 [sampleAccepted]]).db

def duelClosing (b : Bool) : Closing :=
  if b then .finish second 8 2 "" else .finish second 7 1 ""

def duelJudging (b : Bool) : Judging :=
  (duelDatabase.judging? (duelClosing b).job).get (by cases b <;> decide +kernel)

def duelParticipation : ContestParticipation :=
  (duelDatabase.participations.get? 1).get (by decide +kernel)

theorem compete_duel : Compete duelDatabase duelClosing duelJudging duelParticipation where
  found b := by rw [duelJudging, Option.some_get]
  distinct := by decide +kernel
  bound := by decide +kernel
  stored := by
    have hid : duelParticipation.id = 1 := by decide +kernel
    rw [hid, duelParticipation, Option.some_get]

/-- Both transactions begin, and the sessions of `steps` execute a statement in turn. -/
def duelMoves (steps : List Bool) :
    List (Move Bool Query Database RowKey.Row (List (ℕ × LeaseEvent))) :=
  .begin false ((duelClosing false).program samplePython) ::
    .begin true ((duelClosing true).program samplePython) :: steps.map .step

/-- Both query both problems before either commits. -/
def overlappingSteps : List Bool :=
  List.replicate 7 false ++ List.replicate 7 true ++ List.replicate 3 false ++
    List.replicate 3 true

/-- The second one queries the problems after the first commit. -/
def consecutiveSteps : List Bool :=
  List.replicate 4 true ++ List.replicate 10 false ++ List.replicate 6 true

/-- A run in which first the one and then the other session commits. -/
theorem run_duel (steps sees : List Bool) (score : ℚ)
    (hmoves : ((System.start duelDatabase : JudgeSystem Bool).moves (duelMoves steps)).map
      (fun sys => (sys.commits.map Commit.session,
        sys.commits.map fun commit => decide (SeesCommit commit.log 1 1),
        (sys.store.scores 1).map ParticipationScores.score)) =
      some ([false, true], sees, some score)) :
    ∃ (sys : JudgeSystem Bool) (first second : Commit Bool Query Database RowKey.Row _),
      Run (System.Step fun b program => program = (duelClosing b).program samplePython)
        (System.start duelDatabase) (duelMoves steps) sys ∧
      sys.commits = [first, second] ∧ first.session = false ∧ second.session = true ∧
        sees = [decide (SeesCommit first.log 1 1), decide (SeesCommit second.log 1 1)] ∧
          (sys.store.scores 1).map ParticipationScores.score = some score := by
  obtain ⟨sys, hsys, hseen⟩ := Option.map_eq_some_iff.mp hmoves
  obtain ⟨hsessions, hseen⟩ := Prod.ext_iff.mp hseen
  obtain ⟨hsees, hscore⟩ := Prod.ext_iff.mp hseen
  obtain ⟨first, rest, hcommits, hfirst, hrest⟩ := List.map_eq_cons_iff.mp hsessions
  obtain ⟨second, others, rfl, hsecond, hnil⟩ := List.map_eq_cons_iff.mp hrest
  obtain rfl := List.map_eq_nil_iff.mp hnil
  have hrun : Run (System.Step fun b program => program = (duelClosing b).program samplePython)
      (System.start duelDatabase) (duelMoves steps) sys :=
    System.run_of_two (fun b => (duelClosing b).program samplePython) hsys fun _ => rfl
  refine ⟨sys, first, second, hrun, hcommits, hfirst, hsecond, ?_, hscore⟩
  dsimp only at hsees
  rw [← hsees, hcommits]
  rfl

theorem id_duelParticipation : duelParticipation.id = 1 := by decide +kernel

theorem serializable_iff_consecutive :
    ∃ sys : JudgeSystem Bool,
      (sys.store.scores 1).map ParticipationScores.score = some 200 ∧
        Serial samplePython duelDatabase duelClosing 1 (sys.store.scores 1) := by
  obtain ⟨sys, first, second, run, hcommits, hfirst, hsecond, hsees, hscore⟩ :=
    run_duel consecutiveSteps [false, true] 200 (by decide +kernel)
  have hiff := serializable_iff compete_duel run hcommits (by rw [hfirst, hsecond]; rfl)
  have hproblem : (duelJudging false).submission.problem = 1 := by decide +kernel
  have hlate : ¬ SeesCommit first.log 1 1 ∧ SeesCommit second.log 1 1 := by simpa using hsees
  rw [id_duelParticipation, hfirst, hproblem] at hiff
  exact ⟨sys, hscore, hiff.mpr (Or.inl hlate.2)⟩

/-- The points of one of two accepted submissions are lost: the score is 100, and 200 in
both serial orders. -/
theorem lost_update :
    Compete duelDatabase duelClosing duelJudging duelParticipation ∧
      ∃ (sys : JudgeSystem Bool) (first second : Commit Bool Query Database RowKey.Row _),
        Run (System.Step fun b program => program = (duelClosing b).program samplePython)
          (System.start duelDatabase) (duelMoves overlappingSteps) sys ∧
        sys.commits = [first, second] ∧ second.session = (!first.session) ∧
          ¬ Serial samplePython duelDatabase duelClosing duelParticipation.id
            (sys.store.scores duelParticipation.id) := by
  refine ⟨compete_duel, ?_⟩
  obtain ⟨sys, first, second, run, hcommits, hfirst, hsecond, -, hscore⟩ :=
    run_duel overlappingSteps [false, false] 100 (by decide +kernel)
  refine ⟨sys, first, second, run, hcommits, by rw [hfirst, hsecond]; rfl, ?_⟩
  have hserial : ∀ b, (((duelClosing b).perform samplePython duelDatabase).toOption.bind
      fun db => ((duelClosing !b).perform samplePython db).toOption.bind fun db =>
        (db.scores 1).map ParticipationScores.score) = some 200 := by
    decide +kernel
  rw [id_duelParticipation]
  rintro ⟨b, one, both, hone, hboth, hsame⟩
  have hscore' := hserial b
  rw [hone, Except.toOption, Option.bind_some, hboth, Except.toOption, Option.bind_some,
    hsame, hscore] at hscore'
  revert hscore'
  decide

end Closing

end JudgeLoom
