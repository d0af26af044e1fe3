import JudgeLoom.Judge.Gateway
import JudgeLoom.Judge.Result
import JudgeLoom.Library.Run
import JudgeLoom.Submissions.Service

/-!
# Runs of the judging services

The operations of the judge gateway and of the submission service, executed one
at a time on one database, with any advance of the clock between them.  An
operation that raises leaves the world as it was.
-/

namespace JudgeLoom

/-- The database and the server's clock. -/
structure World where
  db : Database := {}
  now : Time := 0

/-- One call of a service, or an advance of the clock. -/
inductive Op
  | advance (elapsed : ℕ)
  | createSubmission (request : SubmissionRequest)
  | claimJob (judge : ℕ) (languages : List String) (tie : ℕ)
  | start (judge job : ℕ)
  | recordCases (judge job : ℕ) (cases : List JudgeCaseIn)
  | finish (judge job : ℕ) (errorMessage : String)
  | fail (judge job : ℕ) (result errorMessage : String)
  | heartbeat (judge : ℕ)
  | expireStaleJobs
  | rejudgeSubmission (submission : ℕ) (context : ProblemContext)

namespace Op

/-- The database after a call at time `now`, or the exception it raises. -/
def perform (P : Python) (now : Time) (db : Database) : Op → Except ServiceError Database
  | advance _ => .ok db
  | createSubmission request => SubmissionService.createSubmission now request db
  | claimJob judge languages tie => .ok (JudgeGatewayService.claimJob now judge languages tie db).2
  | start judge job => JudgeResultService.start now judge job db
  | recordCases judge job cases => JudgeResultService.recordCases P now judge job cases db
  | finish judge job errorMessage =>
      (JudgeResultService.finish P now judge job errorMessage db).map Prod.snd
  | fail judge job result errorMessage =>
      (JudgeResultService.fail P now judge job result errorMessage db).map Prod.snd
  | heartbeat judge => .ok (JudgeGatewayService.heartbeat now judge db)
  | expireStaleJobs => .ok (JudgeGatewayService.expireStaleJobs now db).2
  | rejudgeSubmission submission context =>
      SubmissionService.rejudgeSubmission now submission context db

/-- How far an operation moves the clock. -/
def elapsed : Op → ℕ
  | advance elapsed => elapsed
  | _ => 0

end Op

namespace World

/-- The world after one operation. -/
def step (P : Python) (world : World) (op : Op) : World :=
  match op.perform P world.now world.db with
  | .ok db => { db, now := world.now + op.elapsed }
  | .error _ => world

/-- The world after a sequence of operations. -/
def run (P : Python) (world : World) (ops : List Op) : World := ops.foldl (step P) world

/-- A world without submissions, with any participations that have not scored yet. -/
structure Initial (world : World) : Prop where
  submissions : world.db.submissions = ∅
  jobs : world.db.jobs = ∅
  testCases : ∀ submission, world.db.testCases submission = ∅
  participations : ∀ participation ∈ world.db.participations.rows,
    participation.toParticipationScores = {}

/-- What holds initially and is preserved by every operation holds after every run. -/
theorem run_invariant {P : Python} {world : World} {ops : List Op} {Inv : World → Prop}
    (hworld : Inv world) (hstep : ∀ world op, Inv world → Inv (step P world op)) :
    Inv (run P world ops) :=
  (Run.foldl (step P) world ops).invariant hworld fun _ _ _ hinv hnext =>
    hnext ▸ hstep _ _ hinv

@[simp] theorem run_nil (P : Python) (world : World) : run P world [] = world := rfl

@[simp] theorem run_append (P : Python) (world : World) (ops more : List Op) :
    run P world (ops ++ more) = run P (run P world ops) more :=
  List.foldl_append

theorem step_of_ok {P : Python} {world : World} {op : Op} {db : Database}
    (hok : op.perform P world.now world.db = .ok db) :
    step P world op = { db, now := world.now + op.elapsed } := by
  unfold step
  rw [hok]

theorem step_of_error {P : Python} {world : World} {op : Op} {error : ServiceError}
    (herror : op.perform P world.now world.db = .error error) : step P world op = world := by
  unfold step
  rw [herror]

/-- What a successful operation preserves is preserved by a step. -/
theorem step_cases {P : Python} {world : World} {op : Op} {Q : World → Prop} (hsame : Q world)
    (hok : ∀ db, op.perform P world.now world.db = .ok db →
      Q { db, now := world.now + op.elapsed }) : Q (step P world op) := by
  unfold step
  split
  · next db hdb => exact hok db hdb
  · exact hsame

end World

/-! ## A small world -/

/-- Exact arithmetic suffices to evaluate a run. -/
def samplePython : Python := .plain (.exact FloatArith.decimalRound)

/-- A problem with one case worth 100 points. -/
def sampleContext : ProblemContext where
  problem :=
    { id := 1
      code := "SUM"
      points := 100
      timeLimit := 1
      memoryLimit := 256
      partialScore := true
      shortCircuit := false }
  activePackage := some
    { id := 1
      problem := 1
      version := 1
      sha256 := ""
      manifest := .obj
        [("cases", .arr [.obj [("id", .str "1"), ("points", .int 100)]]),
          ("partial_score", .bool true)]
      isActive := true }

/-- A submission to the problem, outside of any contest. -/
def sampleRequest : SubmissionRequest where
  user := 1
  context := sampleContext
  language := "python"

/-- Judge 7 claims the submission. -/
def sampleClaim : Op := .claimJob 7 ["python"] 0

/-- The report that the sample case is accepted. -/
def sampleAccepted : JudgeCaseIn where
  caseNumber := 1
  status := "AC"
  points := 100
  totalPoints := 100

theorem World.initial_empty (now : Time) : World.Initial { now } :=
  ⟨rfl, rfl, fun _ => rfl, by simp⟩

end JudgeLoom
