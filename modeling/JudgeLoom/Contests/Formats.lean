import JudgeLoom.Library.FloatArith
import JudgeLoom.Submissions.Models
import Mathlib.Data.List.Sort
import Mathlib.Data.PNat.Defs

/-!
# Contest formats

The five formats of `apps/contests/formats`, each with its `get_problem_result`
and its `calculate_participation`.  A format reads the submissions of one contest
problem with one query.  `calculateParticipation` therefore takes the answers of
these queries as a function `view` of the contest problem: run alone, it is given
the queries on one database, and interleaved with other transactions it is given
a different database for each problem.

`none` as a result is an exception: an unknown format name, a configuration that
its schema rejects, or a penalty too large for a `timedelta` or a float.

The fields of a contest and of a participation that no format reads (visibility,
freezing, disqualification) are left out, and with them `get_ranking`.
-/

namespace JudgeLoom

/-- One problem of a contest. -/
structure ContestProblem where
  problem : ℕ
  label : String
  points : ℚ

/-- A registered format with its configuration; `none` is a configuration that
the format's schema rejects. -/
inductive ContestFormat
  | default
  | icpc (wrongPenaltyMinutes : Option ℤ)
  | ioi
  | atcoder (penaltyMinutes : Option ℕ)
  | ecoo (triesPerProblem : Option ℕ+)

/-- What scoring reads of a contest; the problems are in their display order. -/
structure Contest where
  /-- `get_format(contest.format_name)`; `none` is an unknown name. -/
  format : Option ContestFormat
  startTime : Time
  problems : List ContestProblem
  /-- `unique_together = (contest, problem)`. -/
  problems_nodup : (problems.map ContestProblem.problem).Nodup := by decide

structure DefaultResult where
  points : ℚ
  attempts : ℕ
  acSeconds : ℚ
  solved : Bool

structure ICPCResult where
  points : ℚ
  attempts : ℕ
  wrongAttempts : ℕ
  solved : Bool
  solveMinutes : ℤ
  penaltyMinutes : ℤ

structure IOIResult where
  points : ℚ
  attempts : ℕ
  subtasks : Dict String ℚ
  solved : Bool

structure AtCoderResult where
  points : ℚ
  attempts : ℕ
  wrongAttempts : ℕ
  solved : Bool
  acMinutes : ℤ

structure ECOOResult where
  points : ℚ
  attempts : ℕ
  solved : Bool
  triesAllowed : ℕ+

/-- The `format_data` column: empty at first, then what the format stores. -/
inductive FormatData
  | empty
  | default (problems : Dict String DefaultResult)
  | icpc (wrongPenaltyMinutes : ℤ) (problems : Dict String ICPCResult)
  | ioi (problems : Dict String IOIResult)
  | atcoder (penaltyMinutes : ℕ) (problems : Dict String AtCoderResult)
  | ecoo (problems : Dict String ECOOResult)

/-- What `calculate_participation` returns and `update_participation` stores. -/
structure ParticipationScores where
  score : ℚ := 0
  tiebreaker : ℚ := 0
  cumulativeTime : Time := 0
  formatData : FormatData := .empty

/-- A user's participation in a contest. -/
structure ContestParticipation extends ParticipationScores where
  id : ℕ
  user : ℕ
  contest : Contest
  virtualStart : Option Time := none

/-! ## What the formats share -/

namespace ContestFormat

/-- `order_by("created_at", "id")`. -/
def before (first second : Submission) : Prop :=
  first.createdAt < second.createdAt ∨
    (first.createdAt = second.createdAt ∧ first.id ≤ second.id)

instance : DecidableRel before := fun _ _ => inferInstanceAs (Decidable (_ ∨ _))

/-- `_submission_queryset`, on the rows of the submission table. -/
def submissionQueryset (rows : List Submission) (participation : ContestParticipation)
    (contestProblem : ContestProblem) (freezeTime : Option Time) : List Submission :=
  let found := rows.filter fun submission =>
    submission.contestParticipation = some participation.id ∧
      submission.user = participation.user ∧ submission.problem = contestProblem.problem ∧
        ∀ limit ∈ freezeTime, submission.createdAt ≤ limit
  found.insertionSort before

/-- `_is_accepted`: no status is one of the words that mean acceptance. -/
def isAccepted (submission : Submission) : Bool := submission.result = some .AC

/-- `_submission_time_seconds`. -/
def submissionTimeSeconds (A : FloatArith) (participation : ContestParticipation)
    (submission : Submission) : ℚ :=
  let start := participation.virtualStart.getD participation.contest.startTime
  max (A.fl ((submission.createdAt - start : ℤ) / 1000000)) 0

/-- `int(seconds // 60)`. -/
def wholeMinutes (seconds : ℚ) : ℤ := ⌊seconds / 60⌋

/-- `timedelta(seconds=seconds)` of a float that is not negative. -/
def timedeltaSeconds (A : FloatArith) (seconds : ℚ) : Time :=
  ⌊seconds⌋ * second + FloatArith.roundHalfEven (A.mul (seconds - ⌊seconds⌋) 1000000)

/-- `timedelta(minutes=minutes)`; `none` is an `OverflowError`. -/
def timedeltaMinutes (minutes : ℤ) : Option Time :=
  let day : Time := 86400 * second
  let duration : Time := minutes * (60 * second)
  if -999999999 * day ≤ duration ∧ duration < 1000000000 * day then some duration else none

/-- `float(number)`; `none` is an `OverflowError`. -/
def floatOfInt (A : FloatArith) (number : ℤ) : Option ℚ :=
  if A.overflows number then none else some (A.fl number)

/-- The loop that stops at the first accepted submission: how many submissions
that count were not accepted before it, and which one it is. -/
def untilAccepted (counts : Submission → Bool) : List Submission → ℕ × Option Submission
  | [] => (0, none)
  | submission :: rest =>
      if ¬ counts submission then untilAccepted counts rest
      else if isAccepted submission then (0, some submission)
      else ((untilAccepted counts rest).1 + 1, (untilAccepted counts rest).2)

/-- `per_problem[contest_problem.label] = result`, for every problem in order. -/
def perProblem {α : Type*} (problems : List ContestProblem) (result : ContestProblem → α) :
    Dict String α :=
  Dict.ofList (problems.map fun contestProblem => (contestProblem.label, result contestProblem))

end ContestFormat

/-! ## Default -/

namespace DefaultContestFormat

open ContestFormat

def getProblemResult (A : FloatArith) (participation : ContestParticipation)
    (submissions : List Submission) : DefaultResult :=
  let bestPoints := submissions.foldl (fun best submission => max best submission.points) 0
  let acSeconds := (submissions.filter fun submission => isAccepted submission).foldl
    (fun latest submission => max latest (submissionTimeSeconds A participation submission)) 0
  { points := bestPoints
    attempts := submissions.length
    acSeconds
    solved := 0 < acSeconds }

def calculateParticipation (A : FloatArith) (participation : ContestParticipation)
    (view : ContestProblem → List Submission) : ParticipationScores :=
  let result := fun contestProblem => getProblemResult A participation (view contestProblem)
  let results := participation.contest.problems.map result
  let lastAcSeconds := results.foldl (fun latest result => max latest result.acSeconds) 0
  { score := A.accumulate (results.map DefaultResult.points)
    tiebreaker := lastAcSeconds
    cumulativeTime := timedeltaSeconds A lastAcSeconds
    formatData := .default (perProblem participation.contest.problems result) }

end DefaultContestFormat

/-! ## ICPC -/

namespace ICPCContestFormat

open ContestFormat

def getProblemResult (A : FloatArith) (wrongPenaltyMinutes : ℤ)
    (participation : ContestParticipation) (submissions : List Submission) : ICPCResult :=
  let attempts := untilAccepted
    (fun submission => !decide (submission.result = some .CE ∨ submission.result = some .IE))
    submissions
  let solveMinutes := attempts.2.elim 0 fun submission =>
    wholeMinutes (submissionTimeSeconds A participation submission)
  { points := if attempts.2.isSome then 1 else 0
    attempts := attempts.1 + if attempts.2.isSome then 1 else 0
    wrongAttempts := attempts.1
    solved := attempts.2.isSome
    solveMinutes
    penaltyMinutes :=
      if attempts.2.isSome then solveMinutes + attempts.1 * wrongPenaltyMinutes else 0 }

def calculateParticipation (A : FloatArith) (wrongPenaltyMinutes : ℤ)
    (participation : ContestParticipation) (view : ContestProblem → List Submission) :
    Option ParticipationScores := do
  let result := fun contestProblem =>
    getProblemResult A wrongPenaltyMinutes participation (view contestProblem)
  let results := participation.contest.problems.map result
  let solved := (results.filter ICPCResult.solved).length
  let penaltyMinutes := (results.map ICPCResult.penaltyMinutes).sum
  let tiebreaker ← floatOfInt A penaltyMinutes
  let cumulativeTime ← timedeltaMinutes penaltyMinutes
  return {
    score := A.fl solved
    tiebreaker
    cumulativeTime
    formatData := .icpc wrongPenaltyMinutes (perProblem participation.contest.problems result) }

end ICPCContestFormat

/-! ## IOI -/

namespace IOIContestFormat

open ContestFormat

/-- One submission of the loop: the best subtasks and the best points so far. -/
def tallySubmission (best : Dict String ℚ × ℚ) (submission : Submission) : Dict String ℚ × ℚ :=
  if submission.subtaskScores.entries = [] then (best.1, max best.2 submission.points)
  else
    (submission.subtaskScores.entries.foldl
      (fun subtasks entry => subtasks.set entry.1 (max ((subtasks.get? entry.1).getD 0) entry.2))
      best.1, best.2)

def getProblemResult (A : FloatArith) (submissions : List Submission) : IOIResult :=
  let best := submissions.foldl tallySubmission (∅, 0)
  let points := if best.1.entries = [] then best.2 else A.sum best.1.values
  { points
    attempts := submissions.length
    subtasks := best.1
    solved := 0 < points }

def calculateParticipation (A : FloatArith) (participation : ContestParticipation)
    (view : ContestProblem → List Submission) : ParticipationScores :=
  let result := fun contestProblem => getProblemResult A (view contestProblem)
  { score := A.accumulate ((participation.contest.problems.map result).map IOIResult.points)
    tiebreaker := 0
    cumulativeTime := 0
    formatData := .ioi (perProblem participation.contest.problems result) }

end IOIContestFormat

/-! ## AtCoder -/

namespace AtCoderContestFormat

open ContestFormat

def getProblemResult (A : FloatArith) (participation : ContestParticipation)
    (contestProblem : ContestProblem) (submissions : List Submission) : AtCoderResult :=
  let attempts := untilAccepted (fun _ => true) submissions
  { points := if attempts.2.isSome then contestProblem.points else 0
    attempts := attempts.1 + if attempts.2.isSome then 1 else 0
    wrongAttempts := attempts.1
    solved := attempts.2.isSome
    acMinutes := attempts.2.elim 0 fun submission =>
      wholeMinutes (submissionTimeSeconds A participation submission) }

def calculateParticipation (A : FloatArith) (penaltyMinutes : ℕ)
    (participation : ContestParticipation) (view : ContestProblem → List Submission) :
    Option ParticipationScores := do
  let result := fun contestProblem =>
    getProblemResult A participation contestProblem (view contestProblem)
  let solved := (participation.contest.problems.map fun contestProblem =>
    (contestProblem.points, result contestProblem)).filter fun scored => scored.2.solved
  let totalWrong := (solved.map fun scored => scored.2.wrongAttempts).sum
  let lastAcMinutes := solved.foldl (fun latest scored => max latest scored.2.acMinutes) 0
  let penalty := lastAcMinutes + (totalWrong * penaltyMinutes : ℕ)
  let tiebreaker ← floatOfInt A penalty
  let cumulativeTime ← timedeltaMinutes penalty
  return {
    score := A.accumulate (solved.map Prod.fst)
    tiebreaker
    cumulativeTime
    formatData := .atcoder penaltyMinutes (perProblem participation.contest.problems result) }

end AtCoderContestFormat

/-! ## ECOO -/

namespace ECOOContestFormat

open ContestFormat

def getProblemResult (triesPerProblem : ℕ+) (submissions : List Submission) : ECOOResult :=
  let tries := submissions.take triesPerProblem
  let solved := tries.any fun submission => isAccepted submission
  { points := if solved then 1 else 0
    attempts := tries.length
    solved
    triesAllowed := triesPerProblem }

def calculateParticipation (A : FloatArith) (triesPerProblem : Option ℕ+)
    (participation : ContestParticipation) (view : ContestProblem → List Submission) :
    Option ParticipationScores :=
  match participation.contest.problems, triesPerProblem with
  | [], _ => some { formatData := .ecoo ∅ }
  | _ :: _, none => none
  | problems, some tries =>
      let result := fun contestProblem => getProblemResult tries (view contestProblem)
      let totalSolved := ((problems.map result).filter ECOOResult.solved).length
      some {
        score := A.fl totalSolved
        tiebreaker := 0
        cumulativeTime := 0
        formatData := .ecoo (perProblem problems result) }

end ECOOContestFormat

/-! ## The format of a contest -/

/-- `get_format(name).calculate_participation(participation)`, where `view` answers
the query for the submissions of each contest problem. -/
def calculateParticipation (A : FloatArith) (participation : ContestParticipation)
    (view : ContestProblem → List Submission) : Option ParticipationScores :=
  match participation.contest.format with
  | none => none
  | some .default => some (DefaultContestFormat.calculateParticipation A participation view)
  | some (.icpc config) => do
      ICPCContestFormat.calculateParticipation A (← config) participation view
  | some .ioi => some (IOIContestFormat.calculateParticipation A participation view)
  | some (.atcoder config) => do
      AtCoderContestFormat.calculateParticipation A (← config) participation view
  | some (.ecoo config) => ECOOContestFormat.calculateParticipation A config participation view

section

variable {A : FloatArith} {participation : ContestParticipation}
  {view view' : ContestProblem → List Submission}

theorem ContestFormat.perProblem_congr {α : Type*} {problems : List ContestProblem}
    {result result' : ContestProblem → α}
    (h : ∀ contestProblem ∈ problems, result contestProblem = result' contestProblem) :
    perProblem problems result = perProblem problems result' := by
  unfold perProblem
  refine congrArg Dict.ofList (List.map_congr_left fun contestProblem hmem => ?_)
  rw [h contestProblem hmem]

/-- Only the answers for the problems of the contest matter. -/
theorem calculateParticipation_congr
    (h : ∀ contestProblem ∈ participation.contest.problems,
      view contestProblem = view' contestProblem) :
    calculateParticipation A participation view = calculateParticipation A participation view' := by
  have hmap : ∀ {α : Type} (result : ContestProblem → List Submission → α),
      participation.contest.problems.map (fun contestProblem =>
          result contestProblem (view contestProblem)) =
        participation.contest.problems.map fun contestProblem =>
          result contestProblem (view' contestProblem) := by
    intro α result
    refine List.map_congr_left fun contestProblem hmem => ?_
    rw [h contestProblem hmem]
  have hper : ∀ {α : Type} (result : ContestProblem → List Submission → α),
      ContestFormat.perProblem participation.contest.problems (fun contestProblem =>
          result contestProblem (view contestProblem)) =
        ContestFormat.perProblem participation.contest.problems fun contestProblem =>
          result contestProblem (view' contestProblem) := by
    intro α result
    refine ContestFormat.perProblem_congr fun contestProblem hmem => ?_
    rw [h contestProblem hmem]
  unfold calculateParticipation
  cases participation.contest.format with
  | none => rfl
  | some format =>
      cases format with
      | default =>
          simp only [DefaultContestFormat.calculateParticipation,
            hmap fun _ => DefaultContestFormat.getProblemResult A participation,
            hper fun _ => DefaultContestFormat.getProblemResult A participation]
      | icpc config =>
          cases config with
          | none => rfl
          | some minutes =>
              change ICPCContestFormat.calculateParticipation A minutes participation view =
                ICPCContestFormat.calculateParticipation A minutes participation view'
              simp only [ICPCContestFormat.calculateParticipation,
                hmap fun _ => ICPCContestFormat.getProblemResult A minutes participation,
                hper fun _ => ICPCContestFormat.getProblemResult A minutes participation]
      | ioi =>
          simp only [IOIContestFormat.calculateParticipation,
            hmap fun _ => IOIContestFormat.getProblemResult A,
            hper fun _ => IOIContestFormat.getProblemResult A]
      | atcoder config =>
          cases config with
          | none => rfl
          | some minutes =>
              change AtCoderContestFormat.calculateParticipation A minutes participation view =
                AtCoderContestFormat.calculateParticipation A minutes participation view'
              simp only [AtCoderContestFormat.calculateParticipation,
                hmap fun contestProblem submissions => (contestProblem.points,
                  AtCoderContestFormat.getProblemResult A participation contestProblem submissions),
                hper fun contestProblem =>
                  AtCoderContestFormat.getProblemResult A participation contestProblem]
      | ecoo config =>
          dsimp only [ECOOContestFormat.calculateParticipation]
          cases hproblems : participation.contest.problems with
          | nil => rfl
          | cons head rest =>
              cases config with
              | none => rfl
              | some tries =>
                  rw [hproblems] at hmap hper
                  simp only [hmap fun _ => ECOOContestFormat.getProblemResult tries,
                    hper fun _ => ECOOContestFormat.getProblemResult tries]

end

/-- The queries of `calculate_participation`, all on the same rows. -/
def submissionView (rows : List Submission) (participation : ContestParticipation)
    (contestProblem : ContestProblem) : List Submission :=
  ContestFormat.submissionQueryset rows participation contestProblem none

/-- `participation` with new aggregates. -/
def ContestParticipation.withScores (participation : ContestParticipation)
    (scores : ParticipationScores) : ContestParticipation :=
  { participation with toParticipationScores := scores }

@[simp] theorem ContestParticipation.id_withScores (participation : ContestParticipation)
    (scores : ParticipationScores) : (participation.withScores scores).id = participation.id :=
  rfl

/-- `RankingService.recalculate_participation`, without the write; an exception is
caught and logged by the caller and leaves the participation as it was. -/
def recalculateParticipation (A : FloatArith) (participation : ContestParticipation)
    (view : ContestProblem → List Submission) : ContestParticipation :=
  match calculateParticipation A participation view with
  | none => participation
  | some scores => participation.withScores scores

section

variable {A : FloatArith} {participation : ContestParticipation}
  {view view' : ContestProblem → List Submission}

/-- The stored aggregates do not enter into the calculation of new ones. -/
@[simp] theorem calculateParticipation_withScores (scores : ParticipationScores) :
    calculateParticipation A (participation.withScores scores) view =
      calculateParticipation A participation view :=
  rfl

@[simp] theorem submissionView_withScores (rows : List Submission) (scores : ParticipationScores) :
    submissionView rows (participation.withScores scores) = submissionView rows participation :=
  rfl

theorem recalculateParticipation_congr
    (h : ∀ contestProblem ∈ participation.contest.problems,
      view contestProblem = view' contestProblem) :
    recalculateParticipation A participation view =
      recalculateParticipation A participation view' := by
  rw [recalculateParticipation, recalculateParticipation, calculateParticipation_congr h]

/-- A recalculation changes the aggregates only. -/
theorem recalculateParticipation_eq_withScores :
    ∃ scores, recalculateParticipation A participation view = participation.withScores scores := by
  unfold recalculateParticipation
  cases calculateParticipation A participation view with
  | none => exact ⟨participation.toParticipationScores, rfl⟩
  | some scores => exact ⟨scores, rfl⟩

end

end JudgeLoom
