import JudgeLoom.Problems.Models

/-!
# Server-authoritative scoring

`ScoringService.score` recomputes a submission's verdict from the manifest of its
package and the per-case results.  `ScoringManifest.ofJson` reads off the manifest
what the service uses of it; `scoreManifest` is the service on that view, with its
two loops as folds over a `Tally`.

The source converts the points of a case when the case is reported; here all
points are converted first.  The two differ only on manifests whose points are no
finite numbers, which no import accepts.
-/

namespace JudgeLoom

/-- One per-case result as a dictionary: an absent key is `none`. -/
structure CasePayload where
  caseNumber : ℤ := 0
  status : Option String := none
  timeUsed : Option ℚ := none
  memoryUsed : Option ℤ := none
  points : Option ℚ := none
  totalPoints : Option ℚ := none

/-- Aggregated score of a submission. -/
structure ScoreSummary where
  points : ℚ
  subtaskScores : Dict String ℚ
  result : SubmissionResult
  status : SubmissionStatus
  caseTotal : ℕ
  casePassed : ℕ
  timeUsed : ℚ
  memoryUsed : ℤ

/-- What scoring reads of a manifest case. -/
structure ScoringCase where
  points : ℚ
  group : String
  deriving DecidableEq

/-- What scoring reads of a manifest group. -/
structure ScoringGroup where
  id : String
  mode : String
  points : ℚ
  deriving DecidableEq

/-- What scoring reads of a manifest. -/
structure ScoringManifest where
  cases : List ScoringCase
  groups : List ScoringGroup
  partialScore : Bool

/-- `float(value.get("points", 0) or 0)`, when that is a finite number. -/
def pointsOf (P : Python) (value : Json) : Option ℚ :=
  match (((value.get? "points").getD (.int 0)).orDefault (.int 0)).toFloat P with
  | .ok (.finite q) => some q
  | _ => none

def ScoringCase.ofJson (P : Python) (value : Json) : Option ScoringCase :=
  (pointsOf P value).map fun points => { points, group := caseGroup P value }

def ScoringGroup.ofJson (P : Python) (value : Json) : Option ScoringGroup :=
  (pointsOf P value).map fun points =>
    { id := ((value.get? "id").map (Json.toStr P)).getD "default"
      mode := ((value.get? "mode").map (Json.toStr P)).getD "sum"
      points }

def ScoringManifest.ofJson (P : Python) (manifest : Json) : Option ScoringManifest := do
  let cases ← (manifestCases manifest).mapM (ScoringCase.ofJson P)
  let groups ← (manifestGroups manifest).mapM (ScoringGroup.ofJson P)
  return {
    cases
    groups
    partialScore := ((manifest.get? "partial_score").getD (.bool false)).truthy }

namespace ScoringService

/-- What the two loops of `score` accumulate. -/
structure Tally where
  caseScores : Dict String (List ℚ)
  statuses : Dict ℤ SubmissionResult := ∅
  timeUsed : ℚ := 0
  memoryUsed : ℤ := 0
  casePassed : ℕ := 0

/-- `case_by_number.get(case_number)`. -/
def caseByNumber (m : ScoringManifest) (caseNumber : ℤ) : Option ScoringCase :=
  if 1 ≤ caseNumber then m.cases[(caseNumber - 1).toNat]? else none

/-- The manifest's groups, or the default group that is worth all its cases. -/
def groupsOf (A : FloatArith) (m : ScoringManifest) : List ScoringGroup :=
  if m.groups = [] then
    [{ id := "default", mode := "sum", points := A.sum (m.cases.map ScoringCase.points) }]
  else m.groups

/-- `group_defs`. -/
def groupDefs (A : FloatArith) (m : ScoringManifest) : Dict String ScoringGroup :=
  Dict.ofList ((groupsOf A m).map fun group => (group.id, group))

/-- The group a case is scored in: its own, or a fallback when that is unknown. -/
def resolveGroup (defs : Dict String ScoringGroup) (group : String) : String :=
  if defs.contains group then group
  else if defs.contains "default" then "default"
  else defs.keys.headD "default"

/-- The points a reported case is worth. -/
def caseScore (A : FloatArith) (maximum : ℚ) (status : SubmissionResult)
    (reported reportedTotal : ℚ) : ℚ :=
  let reported := if status = .AC ∨ status = .PARTIAL then reported else 0
  let reported := if status = .AC ∧ reported ≤ 0 then orElse reportedTotal maximum else reported
  let ratio :=
    if 0 < reportedTotal then min (max (A.div reported reportedTotal) 0) 1
    else if status = .AC then 1 else 0
  A.round (A.mul maximum ratio) 4

/-- The body of the loop over the reported cases. -/
def tallyCase (A : FloatArith) (m : ScoringManifest) (defs : Dict String ScoringGroup)
    (tally : Tally) (case : CasePayload) : Tally :=
  match caseByNumber m case.caseNumber with
  | none => tally
  | some manifestCase =>
      let status := SubmissionResult.ofReport (case.status.getD SubmissionResult.IR.value)
      let maximum := manifestCase.points
      let reported := case.points.getD 0
      let reportedTotal := orElse (case.totalPoints.getD maximum) maximum
      { caseScores := tally.caseScores.push (resolveGroup defs manifestCase.group)
          (caseScore A maximum status reported reportedTotal)
        statuses := tally.statuses.set case.caseNumber status
        timeUsed := max tally.timeUsed (case.timeUsed.getD 0)
        memoryUsed := max tally.memoryUsed (case.memoryUsed.getD 0)
        casePassed := if status = .AC then tally.casePassed + 1 else tally.casePassed }

/-- The body of the loop that scores the unreported cases with zero. -/
def tallyMissing (defs : Dict String ScoringGroup) (statuses : Dict ℤ SubmissionResult)
    (caseScores : Dict String (List ℚ)) (numbered : ScoringCase × ℕ) : Dict String (List ℚ) :=
  if statuses.contains (numbered.2 : ℤ) then caseScores
  else caseScores.push (resolveGroup defs numbered.1.group) 0

/-- `min(scores)` of a list that has a score, and `0` of one that has none. -/
def minScore : List ℚ → ℚ
  | [] => 0
  | first :: rest => rest.foldl min first

/-- The capped and rounded score of one group. -/
def groupScore (A : FloatArith) (group : ScoringGroup) (scores : List ℚ) : ℚ :=
  let score :=
    if scores = [] then 0
    else if group.mode = "min" then minScore scores else A.sum scores
  A.round (min score (max 0 group.points)) 4

/-- `_aggregate_result`. -/
def aggregateResult (statuses : Dict ℤ SubmissionResult) (points totalPossible : ℚ)
    (caseTotal casePassed : ℕ) : SubmissionResult :=
  let values := statuses.values
  if .CE ∈ values then .CE
  else if .IE ∈ values then .IE
  else if .TLE ∈ values then .TLE
  else if .MLE ∈ values then .MLE
  else if .RTE ∈ values then .RTE
  else if .OLE ∈ values then .OLE
  else if 0 < caseTotal ∧ casePassed = caseTotal ∧ (totalPossible ≤ 0 ∨ totalPossible ≤ points) then
    .AC
  else if 0 < points then .PARTIAL
  else .WA

/-- The tally after both loops. -/
def tally (A : FloatArith) (m : ScoringManifest) (cases : List CasePayload) : Tally :=
  let defs := groupDefs A m
  let reported := cases.foldl (tallyCase A m defs) { caseScores := defs.mapEntries fun _ _ => [] }
  { reported with
    caseScores := (m.cases.zipIdx 1).foldl (tallyMissing defs reported.statuses) reported.caseScores }

/-- `score`, on what it reads of the manifest. -/
def scoreManifest (A : FloatArith) (m : ScoringManifest) (cases : List CasePayload) :
    ScoreSummary :=
  let defs := groupDefs A m
  let t := tally A m cases
  let subtaskScores := t.caseScores.mapEntries fun groupId scores =>
    groupScore A ((defs.get? groupId).getD { id := groupId, mode := "sum", points := 0 }) scores
  let totalPossible := A.sum ((groupsOf A m).map ScoringGroup.points)
  let points := A.round (A.sum subtaskScores.values) 2
  let caseTotal := orElse m.cases.length cases.length
  let result := aggregateResult t.statuses points totalPossible caseTotal t.casePassed
  let zeroed := !m.partialScore && decide (result ≠ .AC ∧ result ≠ .CE ∧ result ≠ .IE)
  let result' := if zeroed = true ∧ result = .PARTIAL then .WA else result
  { points := if zeroed then 0 else points
    subtaskScores := if zeroed then subtaskScores.mapEntries fun _ _ => 0 else subtaskScores
    result := result'
    status := if result' = .CE ∨ result' = .IE then .error else .completed
    caseTotal
    casePassed := t.casePassed
    timeUsed := t.timeUsed
    memoryUsed := t.memoryUsed }

/-- Recompute a submission score from per-case judge results. -/
def score (P : Python) (package : ProblemPackage) (cases : List CasePayload) :
    Except PyError ScoreSummary :=
  match ScoringManifest.ofJson P package.manifest with
  | none => .error .valueError
  | some m => .ok (scoreManifest P.arith m cases)

/-- A score ends completed or in error. -/
theorem score_status {P : Python} {package : ProblemPackage} {cases : List CasePayload}
    {summary : ScoreSummary} (h : score P package cases = .ok summary) :
    summary.status = .completed ∨ summary.status = .error := by
  unfold score at h
  split at h
  · cases h
  · cases h
    unfold scoreManifest
    dsimp only
    split_ifs <;> simp

end ScoringService

end JudgeLoom
