import JudgeLoom.Contests.Submission
import JudgeLoom.Library.Clocked

/-!
# The rate limits of submissions

`create_submission` statement by statement, with a clock.  Outside a contest nothing is
locked: the submissions of the last minute are counted, and the new one is inserted some
statements later, with a reading of the clock of its own.

If no other submission of the user and the mode is committed between the two, every
window of a minute stays within the limit (`rateHolds_run`): the rows of a window that
ends with the new submission were all there when it was counted, and the count looks back
at least as far.  Two requests that both count before either commits break the limit
(`two_requests_exceed`).
-/

namespace JudgeLoom

open Transaction KeyedStore

/-! ## The program -/

/-- What `create_submission` reads of the settings. -/
structure RateSettings extends SubmitSettings where
  /-- `RUN_RATE_LIMIT_PER_MINUTE`. -/
  runRateLimit : ℤ := 10

/-- The limit of a mode. -/
def RateSettings.limit (settings : RateSettings) : SubmissionMode → ℤ
  | .submit => settings.rateLimit
  | .run => settings.runRateLimit

/-- The tables and the time. -/
abbrev ClockedTables := Clocked SubmitTables Time

/-- The queries of `create_submission`. -/
inductive CreateQuery
  | clock
  | access
  | activeContest
  | language
  | rateLimit
  | package
  | languageLimit

/-- A transaction on the tables and the clock. -/
abbrev CreateTransaction := Transaction CreateQuery ClockedTables (Clocked.Row SubmitKey.Row Time)

/-- A call of `create_submission`, with the next values of the two primary keys. -/
structure CreateCall where
  user : Account
  problem : SubmitProblem
  language : Language
  sourceCode : String
  contestParticipation : Option ContestParticipation := none
  mode : SubmissionMode := .submit
  customInput : String := ""
  expectedOutput : String := ""
  submission : ℕ
  job : ℕ

/-- The submissions of a user in a mode whose creation time passes the test. -/
def SubmitTables.countCreated (db : SubmitTables) (user : ℕ) (mode : SubmissionMode)
    (test : Time → Bool) : ℕ :=
  (db.submissions.rows.filter fun submission =>
    decide (submission.user = user) && decide (submission.mode = mode) &&
      test submission.createdAt).length

namespace CreateTransaction

/-- The checks of the inputs. -/
def allowsInputs (call : CreateCall) : Bool :=
  if call.mode = .run then
    decide (call.customInput.utf8ByteSize ≤ SubmissionService.maxRunInputBytes) &&
      decide (call.expectedOutput.utf8ByteSize ≤ SubmissionService.maxRunInputBytes)
  else call.customInput = "" && call.expectedOutput = ""

/-- A query whose negative answer raises. -/
def require (query : CreateQuery) (test : SubmitTables → Bool) : CreateTransaction PUnit := do
  let answer ← select query fun db => test db.store
  if answer then pure ⟨⟩ else .abort

/-- `_validate_problem_access`. -/
def validateProblemAccess (call : CreateCall) : CreateTransaction PUnit := do
  let accessible ← select .access fun db =>
    call.problem.isAccessibleBy db.store.members (.account call.user)
  if accessible then pure ⟨⟩
  else do
    let now ← Clocked.now .clock
    require .activeContest fun db => db.hasActiveContest call.user now call.problem.id

/-- `_validate_language`. -/
def validateLanguage (call : CreateCall) : CreateTransaction PUnit :=
  if !call.language.isEnabled then .abort
  else require .language fun db => db.allowsLanguage call.problem.id call.language

/-- A rate limit: fewer submissions of the mode in the last minute than its limit. -/
def checkLimit (mode : SubmissionMode) (limit : ℤ) (user : Account) : CreateTransaction PUnit :=
  if user.isStaff then pure ⟨⟩
  else do
    let now ← Clocked.now .clock
    require .rateLimit fun db =>
      decide ((db.countCreated user.id mode fun createdAt => now - 60 * second ≤ createdAt : ℤ) <
        limit)

/-- `_check_run_rate_limit`. -/
def checkRunRateLimit (settings : RateSettings) : Account → CreateTransaction PUnit :=
  checkLimit .run settings.runRateLimit

/-- `_check_rate_limit`. -/
def checkRateLimit (settings : RateSettings) : Account → CreateTransaction PUnit :=
  checkLimit .submit settings.rateLimit

/-- The rate limit of the mode. -/
def checkModeLimit (settings : RateSettings) (call : CreateCall) : CreateTransaction PUnit :=
  if call.mode = .run then checkRunRateLimit settings call.user
  else checkRateLimit settings call.user

/-- The arguments of `Submission.objects.create` and `JudgeJob.objects.create`. -/
def creation (call : CreateCall) (package : Option ProblemPackage)
    (languageLimit : Option LanguageLimit) : SubmissionRequest where
  user := call.user.id
  context :=
    { problem := call.problem.toProblem
      activePackage := package
      languageLimit }
  language := call.language.key
  contestParticipation := call.contestParticipation.map ContestParticipation.id
  mode := call.mode
  customInput := call.customInput
  expectedOutput := call.expectedOutput

/-- The rows that a submission creates. -/
def insertSubmission (call : CreateCall) (request : SubmissionRequest) :
    CreateTransaction Submission := do
  let createdAt ← Clocked.now .clock
  let submission := SubmissionService.newSubmission createdAt call.submission request
  -- PostgreSQL rejects a text with a NUL character
  if !(storableText call.customInput && storableText call.expectedOutput) then .abort
  else do
    create (some (SubmitKey.submission call.submission)) ⟨submission, rfl⟩
    if !storableText call.sourceCode then .abort
    else do
      create (some (SubmitKey.source call.submission)) call.sourceCode
      let queuedAt ← Clocked.now .clock
      create (some (SubmitKey.job call.job))
        ⟨SubmissionService.newJob queuedAt call.job call.submission request
          call.contestParticipation, rfl⟩
      return submission

/-- Create a submission or ephemeral run and enqueue it for judging. -/
def createSubmission (settings : RateSettings) (call : CreateCall) :
    CreateTransaction Submission := do
  if settings.maxSubmissionSize < call.sourceCode.utf8ByteSize then .abort
  else if !allowsInputs call then .abort
  else do
    validateProblemAccess call
    validateLanguage call
    checkModeLimit settings call
    let package ← select .package fun db => db.store.activePackage call.problem.id
    let languageLimit ← select .languageLimit fun db =>
      db.store.languageLimit call.problem.id call.language
    if package.isNone ∧ call.mode ≠ .run then .abort
    else insertSubmission call (creation call package languageLimit)

/-! ## What one call does -/

section Yields

variable {settings : RateSettings} {call : CreateCall} {V : ℕ → ClockedTables} {n : ℕ}
  {start middle final : Progress CreateQuery (Clocked.Row SubmitKey.Row Time)}

/-- The program asks, and writes nothing. -/
theorem yields_require {query : CreateQuery} {test : SubmitTables → Bool} :
    (require query test).Yields V n start ⟨⟩ middle ↔
      ∃ m ≤ n, test (start.view (V m)).store = true ∧ middle = start.query query m := by
  simp only [require, yields_bind, yields_select]
  constructor
  · rintro ⟨answer, _, ⟨m, hm, rfl, rfl⟩, hrest⟩
    split_ifs at hrest with htest
    · exact ⟨m, hm, htest, hrest.2.symm⟩
    · exact hrest.elim
  · rintro ⟨m, hm, htest, rfl⟩
    refine ⟨_, _, ⟨m, hm, rfl, rfl⟩, ?_⟩
    rw [if_pos htest]
    exact ⟨rfl, rfl⟩

theorem writes_validateProblemAccess (h : (validateProblemAccess call).Yields V n start ⟨⟩ middle) :
    middle.writes = start.writes := by
  simp only [validateProblemAccess, yields_bind, yields_select] at h
  obtain ⟨accessible, _, ⟨m, -, rfl, rfl⟩, hrest⟩ := h
  split_ifs at hrest
  · rw [← hrest.2]
    rfl
  · simp only [yields_bind, Clocked.now, yields_select] at hrest
    obtain ⟨now, _, ⟨_, -, rfl, rfl⟩, hquery⟩ := hrest
    obtain ⟨_, -, -, rfl⟩ := yields_require.mp hquery
    rfl

theorem writes_validateLanguage (h : (validateLanguage call).Yields V n start ⟨⟩ middle) :
    middle.writes = start.writes := by
  unfold validateLanguage at h
  split_ifs at h
  · exact h.elim
  · obtain ⟨_, -, -, rfl⟩ := yields_require.mp h
    rfl

/-- Who is not staff was counted, in the minute before a reading of the clock. -/
theorem yields_checkLimit {mode : SubmissionMode} {limit : ℤ} {user : Account}
    (hwrites : start.writes = []) (h : (checkLimit mode limit user).Yields V n start ⟨⟩ middle) :
    middle.writes = [] ∧ (user.isStaff = false → ∃ checked counted,
      middle = (start.query .clock checked).query .rateLimit counted ∧
        ((V counted).store.countCreated user.id mode fun createdAt =>
          (V checked).clock - 60 * second ≤ createdAt : ℤ) < limit) := by
  have hview : ∀ store : ClockedTables, start.view store = store :=
    Progress.view_of_writes_nil hwrites
  unfold checkLimit at h
  split_ifs at h with hstaff
  · refine ⟨h.2 ▸ hwrites, fun hordinary => ?_⟩
    rw [hordinary] at hstaff
    cases hstaff
  · simp only [yields_bind, Clocked.now, yields_select] at h
    obtain ⟨_, _, ⟨checked, -, rfl, rfl⟩, hquery⟩ := h
    obtain ⟨counted, -, hcount, rfl⟩ := yields_require.mp hquery
    rw [hview] at hcount
    rw [Progress.view_query, hview] at hcount
    exact ⟨hwrites, fun _ => ⟨checked, counted, rfl, of_decide_eq_true hcount⟩⟩

/-- The rows are written, the submission with a reading of the clock that comes after the
queries before. -/
theorem yields_insertSubmission {request : SubmissionRequest} {submission : Submission}
    (hwrites : start.writes = [])
    (h : (insertSubmission call request).Yields V n start submission final) :
    ∃ created, (start.query .clock created).log <+: final.log ∧
      submission = SubmissionService.newSubmission (V created).clock call.submission request ∧
        (V n).store.submissions.get? submission.id = none ∧
          (∀ write ∈ final.writes, write.key ≠ none) ∧
            ∀ db : ClockedTables, (apply db final.writes).store.submissions =
              db.store.submissions.save submission := by
  have hview : ∀ store : ClockedTables, start.view store = store :=
    Progress.view_of_writes_nil hwrites
  simp only [insertSubmission, yields_bind, Clocked.now, yields_select] at h
  obtain ⟨_, _, ⟨created, -, rfl, rfl⟩, hinsert⟩ := h
  have hprefix := Yields.prefix_log hinsert
  split_ifs at hinsert with htexts hsource
  · exact hinsert.elim
  · simp only [yields_bind, yields_create, yields_abort] at hinsert
    obtain ⟨_, _, -, hfalse⟩ := hinsert
    exact hfalse.elim
  · simp only [yields_bind, yields_create, yields_select, yields_pure] at hinsert
    obtain ⟨_, _, ⟨hfresh, rfl⟩, _, _, ⟨-, rfl⟩, _, _, ⟨queued, -, rfl, rfl⟩, _, _, ⟨-, rfl⟩, rfl,
      rfl⟩ := hinsert
    rw [hview]
    refine ⟨created, hprefix, rfl, ?_, ?_, ?_⟩
    · rw [Progress.view_query, hview] at hfresh
      exact Table.row?_eq_none.mp hfresh
    · intro write hwrite
      simp only [Progress.write, Progress.query, hwrites, Option.toList_some, List.nil_append,
        List.cons_append, List.mem_cons, List.not_mem_nil, or_false] at hwrite
      rcases hwrite with rfl | rfl | rfl <;> simp
    · intro db
      simp only [Progress.write, Progress.query, hwrites]
      rfl

/-- What a call leaves behind: the row of its submission, and no change of the clock. -/
structure Created (call : CreateCall) (V : ℕ → ClockedTables) (n : ℕ) (submission : Submission)
    (final : Progress CreateQuery (Clocked.Row SubmitKey.Row Time)) : Prop where
  user_eq : submission.user = call.user.id
  mode_eq : submission.mode = call.mode
  fresh : (V n).store.submissions.get? submission.id = none
  keys : ∀ write ∈ final.writes, write.key ≠ none
  rows : ∀ db : ClockedTables, (apply db final.writes).store.submissions =
    db.store.submissions.save submission

/-- Who is not staff was below the limit when the submissions were counted, in the minute
before a reading of the clock that precedes the one of the creation. -/
def Counted (settings : RateSettings) (call : CreateCall) (V : ℕ → ClockedTables)
    (submission : Submission) (log : List (CreateQuery × ℕ)) : Prop :=
  ∃ checked counted created, checked ≤ created ∧ (.rateLimit, counted) ∈ log ∧
    (.clock, created) ∈ log ∧ submission.createdAt = (V created).clock ∧
      ((V counted).store.countCreated call.user.id call.mode fun createdAt =>
        (V checked).clock - 60 * second ≤ createdAt : ℤ) < settings.limit call.mode

/-- The two checks are one, with the limit of the mode. -/
theorem checkModeLimit_eq (settings : RateSettings) (call : CreateCall) :
    checkModeLimit settings call =
      checkLimit call.mode (settings.limit call.mode) call.user := by
  unfold checkModeLimit
  cases call.mode <;> rfl

theorem yields_createSubmission {submission : Submission}
    (h : (createSubmission settings call).Yields V n {} submission final)
    (hordered : final.Ordered n) :
    Created call V n submission final ∧
      (call.user.isStaff = false → Counted settings call V submission final.log) := by
  simp only [createSubmission, checkModeLimit_eq] at h
  split_ifs at h with hsize hinputs
  · exact h.elim
  · exact h.elim
  · simp only [yields_bind, yields_select] at h
    obtain ⟨_, first, haccess, _, second, hlanguage, _, third, hlimit, package, _,
      ⟨_, -, rfl, rfl⟩, languageLimit, _, ⟨_, -, rfl, rfl⟩, hrest⟩ := h
    have hsecond : second.writes = [] :=
      (writes_validateLanguage hlanguage).trans (writes_validateProblemAccess haccess)
    obtain ⟨hthird, hcounted⟩ := yields_checkLimit hsecond hlimit
    split_ifs at hrest
    · exact hrest.elim
    · obtain ⟨created, hprefix, rfl, hfresh, hkeys, hrows⟩ :=
        yields_insertSubmission (by exact hthird) hrest
      refine ⟨⟨rfl, rfl, hfresh, hkeys, hrows⟩, fun hstaff => ?_⟩
      obtain ⟨checked, counted, rfl, hbelow⟩ := hcounted hstaff
      have hsorted := hordered.sorted.sublist hprefix.sublist
      have hchecked : checked ≤ created :=
        Progress.le_of_sorted_query hsorted
          (show (CreateQuery.clock, checked) ∈ _ by simp [Progress.query])
      refine ⟨checked, counted, created, hchecked, hprefix.subset ?_, hprefix.subset ?_, rfl,
        hbelow⟩
      · simp [Progress.query]
      · simp [Progress.query]

end Yields

end CreateTransaction

/-! ## Counting in a window -/

namespace SubmitTables

variable {db db' : SubmitTables} {user : ℕ} {mode : SubmissionMode}

/-- A new submission counts for its own user and mode, if its creation time passes. -/
theorem countCreated_save {submission : Submission} {test : Time → Bool}
    (hrows : db'.submissions = db.submissions.save submission)
    (hfresh : db.submissions.get? submission.id = none) :
    db'.countCreated user mode test = db.countCreated user mode test +
      if submission.user = user ∧ submission.mode = mode ∧ test submission.createdAt then 1
      else 0 := by
  have hperm := (Table.perm_rows_save hfresh).filter fun row =>
    decide (row.user = user) && decide (row.mode = mode) && test row.createdAt
  rw [countCreated, countCreated, hrows, hperm.length_eq, List.filter_cons]
  by_cases hcase : submission.user = user ∧ submission.mode = mode ∧ test submission.createdAt
  · rw [if_pos hcase, if_pos (by simp [hcase])]
    rfl
  · rw [if_neg hcase, if_neg (by simpa [and_assoc] using hcase)]
    rfl

/-- A test that lets more times pass counts no fewer. -/
theorem countCreated_mono {test test' : Time → Bool}
    (h : ∀ createdAt, test createdAt = true → test' createdAt = true) :
    db.countCreated user mode test ≤ db.countCreated user mode test' := by
  apply List.Sublist.length_le
  apply List.monotone_filter_right
  intro submission hsubmission
  simp only [Bool.and_eq_true] at hsubmission ⊢
  exact ⟨hsubmission.1, h _ hsubmission.2⟩

/-- A creation time within the minute from `start` on. -/
def inMinute (start createdAt : Time) : Bool :=
  decide (start ≤ createdAt) && decide (createdAt ≤ start + 60 * second)

/-- In every window of one minute the user has no more submissions of the mode than its
limit; a negative limit allows none. -/
def RateHolds (settings : RateSettings) (user : ℕ) (mode : SubmissionMode) (db : SubmitTables) :
    Prop :=
  ∀ start, (db.countCreated user mode (inMinute start) : ℤ) ≤ max 0 (settings.limit mode)

end SubmitTables

/-! ## Runs -/

open CreateTransaction

/-- A call of `create_submission`, or the passing of time. -/
inductive RateCall
  | createSubmission (call : CreateCall)
  | tick (later : Time)

/-- The call as a transaction. -/
def RateCall.program (settings : RateSettings) : RateCall → CreateTransaction (Option Submission)
  | createSubmission call => do
      let submission ← CreateTransaction.createSubmission settings call
      return some submission
  | tick later => do
      Clocked.tick later
      return none

/-- Any number of sessions that create submissions. -/
abbrev RateSystem (ι : Type) :=
  System ι CreateQuery ClockedTables (Clocked.Row SubmitKey.Row Time) (Option Submission)

/-- A committed transaction of such a session. -/
abbrev RateCommit (ι : Type) :=
  Commit ι CreateQuery ClockedTables (Clocked.Row SubmitKey.Row Time) (Option Submission)

namespace RateSystem

variable {ι : Type} {settings : RateSettings} {user : ℕ} {mode : SubmissionMode}
  {sys : RateSystem ι}

/-- The programs of the calls; the user is not staff. -/
def Permitted (ι : Type) (settings : RateSettings) (user : ℕ) (_ : ι)
    (program : CreateTransaction (Option Submission)) : Prop :=
  ∃ call : RateCall, program = call.program settings ∧
    ∀ created, call = .createSubmission created → created.user.id = user →
      created.user.isStaff = false

/-- The submission is one of the user in the mode. -/
def Concerns (user : ℕ) (mode : SubmissionMode) (value : Option Submission) : Prop :=
  ∃ submission, value = some submission ∧ submission.user = user ∧ submission.mode = mode

/-- Whenever a submission of the user in the mode is committed, no other one was committed
since the submissions were counted for it. -/
def FreshCounts (sys : RateSystem ι) (user : ℕ) (mode : SubmissionMode) : Prop :=
  ∀ n (commit : RateCommit ι), sys.commits[n]? = some commit →
    Concerns user mode commit.value → ∀ counted, (.rateLimit, counted) ∈ commit.log →
      ∀ k (earlier : RateCommit ι), counted ≤ k → k < n → sys.commits[k]? = some earlier →
        ¬ Concerns user mode earlier.value

section Commits

variable (hsound : sys.Sound (Permitted ι settings user)) (hordered : sys.Ordered)

include hsound hordered

/-- What a commit did: it created a submission, or time passed. -/
theorem commit_cases {n : ℕ} {commit : RateCommit ι} (hcommit : sys.commits[n]? = some commit) :
    (∃ call submission, commit.value = some submission ∧
      Created call sys.version n submission commit.toProgress ∧
        (call.user.id = user → Counted settings call sys.version submission commit.log)) ∨
      (commit.value = none ∧ (sys.version (n + 1)).store = (sys.version n).store ∧
        (sys.version n).clock ≤ (sys.version (n + 1)).clock) := by
  obtain ⟨⟨call, hprogram, hstaff⟩, hyields⟩ := hsound.commits n commit hcommit
  rw [hprogram] at hyields
  cases call with
  | createSubmission call =>
      simp only [RateCall.program, yields_bind, yields_pure] at hyields
      obtain ⟨submission, final, hcreate, hvalue, rfl⟩ := hyields
      obtain ⟨hcreated, hcounted⟩ :=
        yields_createSubmission hcreate (hordered.commits n commit hcommit)
      exact .inl ⟨call, submission, hvalue.symm, hcreated, fun huser =>
        hcounted (hstaff call rfl huser)⟩
  | tick later =>
      simp only [RateCall.program, Clocked.tick, yields_bind, yields_modify, yields_pure] at hyields
      obtain ⟨_, final, hfinal, hvalue, rfl⟩ := hyields
      refine .inr ⟨hvalue.symm, ?_⟩
      rw [System.version_succ hcommit, ← hfinal]
      exact ⟨rfl, le_max_left _ _⟩

/-- Time does not go back. -/
theorem clock_mono {m n : ℕ} (hmn : m ≤ n) (hn : n ≤ sys.commits.length) :
    (sys.version m).clock ≤ (sys.version n).clock := by
  induction n, hmn using Nat.le_induction with
  | base => exact le_refl _
  | succ n hmn ih =>
      have hcommit : sys.commits[n]? = some sys.commits[n] := List.getElem?_eq_getElem hn
      apply (ih (by omega)).trans
      obtain ⟨_, _, -, hcreated, -⟩ | ⟨-, -, hclock⟩ := commit_cases hsound hordered hcommit
      · rw [System.version_succ hcommit, Clocked.clock_apply hcreated.keys]
      · exact hclock

/-- A commit adds its submission to the counts. -/
theorem countCreated_succ {n : ℕ} {commit : RateCommit ι} (hcommit : sys.commits[n]? = some commit)
    {submission : Submission} (hvalue : commit.value = some submission) (test : Time → Bool) :
    (sys.version (n + 1)).store.countCreated user mode test =
      (sys.version n).store.countCreated user mode test +
        if submission.user = user ∧ submission.mode = mode ∧ test submission.createdAt then 1
        else 0 := by
  obtain ⟨_, other, hother, hcreated, -⟩ | ⟨hnone, -⟩ := commit_cases hsound hordered hcommit
  · obtain rfl := Option.some.inj (hvalue.symm.trans hother)
    apply SubmitTables.countCreated_save _ hcreated.fresh
    rw [System.version_succ hcommit]
    exact hcreated.rows _
  · rw [hvalue] at hnone
    cases hnone

/-- Other commits leave the counts as they are. -/
theorem countCreated_succ_of_other {n : ℕ} {commit : RateCommit ι}
    (hcommit : sys.commits[n]? = some commit) (hother : ¬ Concerns user mode commit.value)
    (test : Time → Bool) :
    (sys.version (n + 1)).store.countCreated user mode test =
      (sys.version n).store.countCreated user mode test := by
  obtain ⟨_, submission, hvalue, -, -⟩ | ⟨-, hstore, -⟩ := commit_cases hsound hordered hcommit
  · rw [countCreated_succ hsound hordered hcommit hvalue, if_neg, Nat.add_zero]
    exact fun hmine => hother ⟨submission, hvalue, hmine.1, hmine.2.1⟩
  · rw [hstore]

theorem countCreated_eq {m n : ℕ} (hmn : m ≤ n) (hn : n ≤ sys.commits.length)
    (hothers : ∀ k (commit : RateCommit ι), m ≤ k → k < n → sys.commits[k]? = some commit →
      ¬ Concerns user mode commit.value) (test : Time → Bool) :
    (sys.version n).store.countCreated user mode test =
      (sys.version m).store.countCreated user mode test := by
  induction n, hmn using Nat.le_induction with
  | base => rfl
  | succ n hmn ih =>
      have hcommit : sys.commits[n]? = some sys.commits[n] := List.getElem?_eq_getElem hn
      rw [countCreated_succ_of_other hsound hordered hcommit
        (hothers n _ hmn (Nat.lt_succ_self n) hcommit)]
      exact ih (by omega) fun k commit hk hkn => hothers k commit hk (by omega)

/-- A commit whose count was fresh keeps every window within the limit. -/
theorem rateHolds_succ (hfresh : sys.FreshCounts user mode) {n : ℕ} (hn : n < sys.commits.length)
    (hholds : (sys.version n).store.RateHolds settings user mode) :
    (sys.version (n + 1)).store.RateHolds settings user mode := by
  intro start
  have hcommit : sys.commits[n]? = some sys.commits[n] := List.getElem?_eq_getElem hn
  by_cases hmine : Concerns user mode sys.commits[n].value
  · obtain ⟨submission, hvalue, huser, hmode⟩ := hmine
    rw [countCreated_succ hsound hordered hcommit hvalue]
    by_cases hin : SubmitTables.inMinute start submission.createdAt
    · obtain ⟨call, other, hother, hcreated, hcounted⟩ | ⟨hnone, -⟩ :=
        commit_cases hsound hordered hcommit
      · obtain rfl := Option.some.inj (hvalue.symm.trans hother)
        obtain ⟨checked, counted, created, hle, hmem, hmem', hcreatedAt, hbelow⟩ :=
          hcounted (hcreated.user_eq.symm.trans huser)
        rw [← hcreated.user_eq, ← hcreated.mode_eq, huser, hmode] at hbelow
        have hlog := (hordered.commits n _ hcommit).le_commits
        have hclock : (sys.version checked).clock ≤ submission.createdAt := by
          rw [hcreatedAt]
          exact clock_mono hsound hordered hle ((hlog _ hmem').trans hn.le)
        -- The window ends with the new submission, or later: the count looked back as far.
        have hwindow : (sys.version n).store.countCreated user mode (SubmitTables.inMinute start) ≤
            (sys.version n).store.countCreated user mode fun createdAt =>
              (sys.version checked).clock - 60 * second ≤ createdAt := by
          apply SubmitTables.countCreated_mono
          intro createdAt hcreatedIn
          simp only [SubmitTables.inMinute, Bool.and_eq_true, decide_eq_true_eq] at hcreatedIn hin ⊢
          linarith
        have hthen : (sys.version n).store.countCreated user mode (fun createdAt =>
            (sys.version checked).clock - 60 * second ≤ createdAt) =
              (sys.version counted).store.countCreated user mode fun createdAt =>
                (sys.version checked).clock - 60 * second ≤ createdAt :=
          countCreated_eq hsound hordered (hlog _ hmem) hn.le (fun k commit =>
            hfresh n _ hcommit ⟨submission, hvalue, huser, hmode⟩ counted hmem k commit) _
        rw [hthen] at hwindow
        rw [if_pos ⟨huser, hmode, hin⟩]
        have hmax := le_max_right 0 (settings.limit mode)
        omega
      · rw [hvalue] at hnone
        cases hnone
    · rw [if_neg fun hcase => hin hcase.2.2]
      exact hholds start
  · rw [countCreated_succ_of_other hsound hordered hcommit hmine]
    exact hholds start

end Commits

variable [DecidableEq ι]

/-- In every run whose counts were fresh when their submissions were committed, the rate
limit holds in every state. -/
theorem rateHolds_run {db : ClockedTables}
    {moves : List (Move ι CreateQuery ClockedTables (Clocked.Row SubmitKey.Row Time)
      (Option Submission))}
    (run : Run (System.Step (Permitted ι settings user)) (System.start db) moves sys)
    (hstart : db.store.RateHolds settings user mode) (hfresh : sys.FreshCounts user mode) :
    ∀ n ≤ sys.commits.length, (sys.version n).store.RateHolds settings user mode := by
  have hsound : sys.Sound (Permitted ι settings user) := System.Sound.run run
  have hordered : sys.Ordered := System.Ordered.run run
  intro n hn
  induction n with
  | zero =>
      have hinitial : sys.version 0 = db := System.initial_of_run run
      rw [hinitial]
      exact hstart
  | succ n ih => exact rateHolds_succ hsound hordered hfresh hn (ih (by omega))

/-! ## A limit of one -/

/-- One scored submission a minute. -/
def oneAMinute : RateSettings where
  rateLimit := 1

/-- A call of a user for the problem. -/
def rateCall (id : ℕ) : CreateCall where
  user := { id := 7, username := "user" }
  problem := sampleSubmitProblem
  language := { key := "py" }
  sourceCode := "print(1)"
  submission := id
  job := id

/-- Nobody has submitted anything. -/
def rateStart : ClockedTables where
  store := sampleTables ∅
  clock := 0

theorem rateHolds_rateStart : rateStart.store.RateHolds oneAMinute 7 .submit :=
  fun _ => le_max_left 0 1

/-- The moves of some sessions that each begin a call and then take their steps. -/
def rateMoves (sessions : List Bool) (steps : List Bool) :
    List (Move Bool CreateQuery ClockedTables (Clocked.Row SubmitKey.Row Time)
      (Option Submission)) :=
  sessions.map (fun session => .begin session
    ((RateCall.createSubmission (rateCall (if session then 2 else 1))).program oneAMinute)) ++
      steps.map .step

theorem run_rateMoves {sessions steps : List Bool} {sys : RateSystem Bool}
    (h : (System.start rateStart : RateSystem Bool).moves (rateMoves sessions steps) =
      some sys) :
    Run (System.Step (Permitted Bool oneAMinute 7)) (System.start rateStart)
      (rateMoves sessions steps) sys := by
  refine System.run_of_sessions sessions h fun session => ⟨_, rfl, fun created hcreated _ => ?_⟩
  cases hcreated
  rfl

/-- One request on its own. -/
theorem rateHolds_run_one : ∃ sys : RateSystem Bool, sys.commits.length = 1 ∧
    ∀ n ≤ sys.commits.length, (sys.version n).store.RateHolds oneAMinute 7 .submit := by
  have hmoves : ((System.start rateStart : RateSystem Bool).moves
      (rateMoves [false] (List.replicate 12 false))).map (fun sys => sys.commits.length) =
        some 1 := by
    decide +kernel
  obtain ⟨sys, hsys, hlength⟩ := Option.map_eq_some_iff.mp hmoves
  have hfresh : FreshCounts sys 7 .submit := by
    intro n commit hcommit _ _ _ k earlier _ hkn
    have hn : n < sys.commits.length := (List.getElem?_eq_some_iff.mp hcommit).1
    omega
  exact ⟨sys, hlength, rateHolds_run (run_rateMoves hsys) rateHolds_rateStart hfresh⟩

/-- Two requests of one user that both count before either commits. -/
theorem two_requests_exceed : ∃ (moves : _) (sys : RateSystem Bool),
    Run (System.Step (Permitted Bool oneAMinute 7)) (System.start rateStart) moves sys ∧
      rateStart.store.RateHolds oneAMinute 7 .submit ∧
        sys.store.store.countCreated 7 .submit (SubmitTables.inMinute 0) = 2 ∧
          ¬ sys.store.store.RateHolds oneAMinute 7 .submit := by
  let steps := List.replicate 6 false ++ List.replicate 6 true ++ List.replicate 6 false ++
    List.replicate 6 true
  have hmoves : ((System.start rateStart : RateSystem Bool).moves
      (rateMoves [false, true] steps)).map (fun sys =>
        sys.store.store.countCreated 7 .submit (SubmitTables.inMinute 0)) = some 2 := by
    decide +kernel
  obtain ⟨sys, hsys, hcount⟩ := Option.map_eq_some_iff.mp hmoves
  refine ⟨_, sys, run_rateMoves hsys, rateHolds_rateStart, hcount, fun hholds => ?_⟩
  have hlimit := hholds 0
  rw [hcount] at hlimit
  exact absurd hlimit (by decide)

end RateSystem

end JudgeLoom
