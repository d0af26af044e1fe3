import JudgeLoom.Library.Run
import JudgeLoom.Judge.Gateway
import JudgeLoom.Judge.Result
import JudgeLoom.Submissions.Service
import JudgeLoom.Judge.LeaseInvariant
import JudgeLoom.Judge.Waiting
import JudgeLoom.Judge.Ownership
import JudgeLoom.Judge.Fencing
import JudgeLoom.Judge.Outcome
import JudgeLoom.Contests.Freshness
import JudgeLoom.Judge.ExclusiveClaims
import JudgeLoom.Contests.LostUpdate
import JudgeLoom.Judge.Workers
import JudgeLoom.Contests.FrozenRanking
import JudgeLoom.Ratings.Command
import JudgeLoom.Ratings.Recalculation
import JudgeLoom.Ratings.Finality
import JudgeLoom.Problems.OnePackage
import JudgeLoom.Worker.Report
import JudgeLoom.Problems.Visibility
import JudgeLoom.Contests.Access
import JudgeLoom.Accounts.Sessions
import JudgeLoom.Accounts.Revocation
import JudgeLoom.Accounts.Identities
import JudgeLoom.Contests.Entry
import JudgeLoom.Contests.SubmissionLimit
import JudgeLoom.Contests.OpenSubmission
import JudgeLoom.Submissions.Statistics
import JudgeLoom.Judge.Replay
import JudgeLoom.Submissions.Events
import JudgeLoom.Submissions.Erasure
import JudgeLoom.Submissions.Disclosure
import JudgeLoom.Judge.ShadowLease
import JudgeLoom.Judge.ImportedScore
import JudgeLoom.Judge.ScoreBounds
import JudgeLoom.Authoring.Spec
import JudgeLoom.Problems.DefaultPoints
import JudgeLoom.Content.Comments
import JudgeLoom.Content.CommentPaths
import JudgeLoom.Problems.FileOrder
import JudgeLoom.Contests.Standing
import JudgeLoom.Contests.UnscoredSubmission
import JudgeLoom.Contests.ShiftedStart
import JudgeLoom.Contests.BestSubtasks
import JudgeLoom.Contests.Resubmission
import JudgeLoom.Judge.Finalised
import JudgeLoom.Contests.LaterSubmission
import JudgeLoom.Contests.ContestPoints
import JudgeLoom.Submissions.RefreshedStats
import JudgeLoom.Ratings.TiedPerformance
import JudgeLoom.Ratings.MeanUpdate
import JudgeLoom.Contests.RateLimit
import JudgeLoom.Ratings.RootFinder
import JudgeLoom.Worker.ReportShape
import JudgeLoom.Worker.SandboxInput
import JudgeLoom.Worker.ExactChecker
import JudgeLoom.Library.SlashPath
import JudgeLoom.Library.Effects
import JudgeLoom.Library.Transcript
import JudgeLoom.Library.FileSystem
import JudgeLoom.Worker.PackageCache
import JudgeLoom.Worker.PackageHistory
import JudgeLoom.Authoring.Publication
import JudgeLoom.Authoring.Certificate
import JudgeLoom.Authoring.ManifestTree
import JudgeLoom.Authoring.Validation
import JudgeLoom.Authoring.BuiltArchive
import JudgeLoom.Authoring.BuiltPackage
import JudgeLoom.Authoring.ImportedBuild
import JudgeLoom.Ratings.TieRanks
import JudgeLoom.Content.Votes
import JudgeLoom.Content.CommentHistory
import JudgeLoom.Content.CommentTree
import JudgeLoom.Problems.Exceptions
import JudgeLoom.Problems.Rollback
import JudgeLoom.Judge.AllAccepted
import JudgeLoom.Worker.FaultFree
import JudgeLoom.Worker.Unmarshal
import JudgeLoom.Worker.ImportedPackage
import JudgeLoom.Worker.Machine
import JudgeLoom.Worker.AcceptedRun
import JudgeLoom.Authoring.ModelSolution
import JudgeLoom.Authoring.Verdict
import JudgeLoom.Library.ExpiringCache
import JudgeLoom.Core.Middleware
