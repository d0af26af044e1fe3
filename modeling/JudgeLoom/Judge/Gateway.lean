import JudgeLoom.Judge.Models

/-!
# Claims, leases and heartbeats

`JudgeGatewayService` and the heartbeat endpoint, run alone: every job is
unlocked, so `skip_locked` skips nothing.
-/

namespace JudgeLoom

namespace JudgeJob

/-- The filter of `expire_stale_jobs`. -/
def stale (now : Time) (job : JudgeJob) : Bool :=
  job.status.leased && job.leaseExpiresAt.elim false fun expiry => expiry < now

/-- The filter of `claim_job`. -/
def claimable (languages : List String) (job : JudgeJob) : Bool :=
  job.status = .queued && languages.contains job.language

/-- The filter of the heartbeat. -/
def leasedBy (judge : ℕ) (job : JudgeJob) : Bool :=
  job.claimedBy = some judge && job.status.leased

/-- `order_by("-priority", "created_at")`, strictly. -/
def ahead (first second : JudgeJob) : Bool :=
  second.priority < first.priority ||
    (first.priority = second.priority && first.createdAt < second.createdAt)

end JudgeJob

/-- The body of the loop of `expire_stale_jobs`. -/
def Judging.expire (now : Time) (judging : Judging) : Judging :=
  if judging.job.maxAttempts ≤ judging.job.attempts then
    { job := judging.job.exhaust now
      submission := judging.submission.exhaust now
      testCases := ∅ }
  else
    { job := judging.job.requeue
      submission := judging.submission.unjudged
      testCases := ∅ }

namespace JudgeGatewayService

/-- Expire the job of key `id`. -/
def expireJob (now : Time) (db : Database) (id : ℕ) : Database :=
  match db.judging? id with
  | none => db
  | some judging => db.store (judging.expire now)

/-- The keys of the jobs whose lease is over. -/
def staleJobs (now : Time) (db : Database) : List ℕ :=
  (db.jobs.rows.filter (JudgeJob.stale now)).map JudgeJob.id

/-- Requeue expired jobs or fail them after the attempt limit.  Returns the number
of jobs whose state changed. -/
def expireStaleJobs (now : Time) (db : Database) : ℕ × Database :=
  ((staleJobs now db).length, (staleJobs now db).foldl (expireJob now) db)

/-- `.order_by(…).first()`.  The order leaves ties open: `tie` says which of the
tied jobs the database returns. -/
def firstJob (tie : ℕ) (eligible : List JudgeJob) : Option JudgeJob :=
  let tied := eligible.filter fun job => eligible.all fun other => !other.ahead job
  tied[tie % tied.length]?

/-- Claim one queued job for a judge. -/
def claimJob (now : Time) (judge : ℕ) (languages : List String) (tie : ℕ) (db : Database) :
    Option JudgeJob × Database :=
  let db := (expireStaleJobs now db).2
  match firstJob tie (db.jobs.rows.filter (JudgeJob.claimable languages)) with
  | none => (none, db)
  | some job =>
      let job := job.claim judge now
      (some job, { db with jobs := db.jobs.save job })

/-- Extend the leases of all jobs that the judge holds. -/
def heartbeat (now : Time) (judge : ℕ) (db : Database) : Database :=
  { db with jobs := db.jobs.updateWhere (JudgeJob.leasedBy judge) (JudgeJob.extendLease now) }

end JudgeGatewayService

end JudgeLoom
