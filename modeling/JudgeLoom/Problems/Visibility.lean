import JudgeLoom.Accounts.Models
import JudgeLoom.Library.Query
import JudgeLoom.Problems.Models

/-!
# Who may see a problem

The access rule of problems is written twice: `Problem.is_accessible_by` asks the
relations of one problem branch by branch, and `get_visible_problems` is one filter
over the problems joined with all their relations.  `mem_getVisibleProblems` reads
the filter back as a statement about one problem, and the two agree.
-/

open Query

namespace JudgeLoom

/-- Visibility options for problems; the column does not enforce its choices. -/
inductive ProblemVisibility
  | «private»
  | unlisted
  | «public»
  | contestOnly
  | other (value : String)
  deriving DecidableEq

deriving instance DecidableEq for Problem

/-- A problem with the columns and the relations that decide who sees it. -/
structure ProblemRow extends Problem where
  authors : List ℕ := []
  curators : List ℕ := []
  testers : List ℕ := []
  visibility : ProblemVisibility := .private
  isOrganizationPrivate : Bool := false
  organizations : List ℕ := []
  deriving DecidableEq

/-- A row of the problems joined with their authors, curators, testers and
organizations. -/
structure ProblemJoin where
  author : Option ℕ
  curator : Option ℕ
  tester : Option ℕ
  organization : Option ℕ

namespace ProblemRow

variable (problem : ProblemRow) (members : Memberships) (user : RequestUser)

/-- `is_public`. -/
def isPublic : Bool := problem.visibility = .public

/-- The author, curator and tester branches of `is_accessible_by`. -/
def hasRole (userId : ℕ) : Bool :=
  problem.authors.contains userId || problem.curators.contains userId ||
    problem.testers.contains userId

/-- Check whether a user can access this problem instance. -/
def isAccessibleBy : Bool :=
  if problem.isPublic || problem.visibility = .unlisted then
    if !problem.isOrganizationPrivate then true
    else if !user.isAuthenticated then false
    else if user.isPlatformStaff then true
    else
      match user.pk? with
      | none => false
      | some userId =>
          if problem.hasRole userId then true
          else problem.organizations.any fun organization => members.isMember userId organization
  else if !user.isAuthenticated then false
  else if user.isPlatformStaff then true
  else
    match user.pk? with
    | none => false
    | some userId => problem.hasRole userId

/-- The joined rows of the problem. -/
def joins : List ProblemJoin :=
  (leftJoin problem.authors).flatMap fun author =>
    (leftJoin problem.curators).flatMap fun curator =>
      (leftJoin problem.testers).flatMap fun tester =>
        (leftJoin problem.organizations).map fun organization =>
          { author, curator, tester, organization }

/-- `Q(visibility=PUBLIC) | Q(visibility=UNLISTED)`. -/
def visibilityFilter : Bool := problem.visibility = .public || problem.visibility = .unlisted

/-- `Q(authors=user) | Q(curators=user) | Q(testers=user)`, on a joined row. -/
def userFilter (userId : ℕ) (joined : ProblemJoin) : Bool :=
  joined.author.any (· = userId) || joined.curator.any (· = userId) ||
    joined.tester.any (· = userId)

/-- `Q(is_organization_private=False) | Q(is_organization_private=True, organizations__in=…)`,
on a joined row. -/
def orgFilter (userId : ℕ) (joined : ProblemJoin) : Bool :=
  !problem.isOrganizationPrivate ||
    (problem.isOrganizationPrivate &&
      joined.organization.any fun organization =>
        (members.organizationsOf userId).contains organization)

end ProblemRow

/-- The problems of the database and the members of its organizations. -/
structure ProblemTables where
  problems : Table ProblemRow fun problem => problem.id
  members : Memberships

namespace ProblemService

variable (order : Order ProblemRow)

/-- Return problems visible to a given user. -/
def getVisibleProblems (db : ProblemTables) : RequestUser → List ProblemRow
  | .anonymous =>
      distinct order <| db.problems.rows.filter fun problem =>
        problem.visibilityFilter && !problem.isOrganizationPrivate
  | .account user =>
      if user.isStaff || user.isSuperuser then
        distinct order db.problems.rows
      else
        distinct order <|
          selectJoined ProblemRow.joins
            (fun problem joined =>
              (problem.visibilityFilter && problem.orgFilter db.members user.id joined) ||
                ProblemRow.userFilter user.id joined)
            db.problems.rows

end ProblemService

namespace ProblemRow

variable {problem : ProblemRow} {members : Memberships}

/-- A condition on the joined rows of a problem, one relation after the other. -/
theorem exists_mem_joins {q : ProblemJoin → Prop} :
    (∃ joined ∈ problem.joins, q joined) ↔
      ∃ author ∈ leftJoin problem.authors, ∃ curator ∈ leftJoin problem.curators,
        ∃ tester ∈ leftJoin problem.testers, ∃ organization ∈ leftJoin problem.organizations,
          q { author, curator, tester, organization } := by
  simp only [joins, List.mem_flatMap, List.mem_map]
  constructor
  · rintro ⟨joined, ⟨author, hauthor, curator, hcurator, tester, htester, organization,
      horganization, rfl⟩, hq⟩
    exact ⟨author, hauthor, curator, hcurator, tester, htester, organization, horganization, hq⟩
  · rintro ⟨author, hauthor, curator, hcurator, tester, htester, organization, horganization, hq⟩
    exact ⟨_, ⟨author, hauthor, curator, hcurator, tester, htester, organization, horganization,
      rfl⟩, hq⟩

/-! ### The access rule, one kind of user after the other -/

theorem isAccessibleBy_anonymous :
    problem.isAccessibleBy members .anonymous =
      (problem.visibilityFilter && !problem.isOrganizationPrivate) := by
  cases hvisible : problem.visibilityFilter <;> cases hprivate : problem.isOrganizationPrivate <;>
    simp_all [isAccessibleBy, isPublic, visibilityFilter, RequestUser.isAuthenticated]

theorem isAccessibleBy_staff {user : Account} (huser : (user.isStaff || user.isSuperuser) = true) :
    problem.isAccessibleBy members (.account user) = true := by
  simp only [isAccessibleBy, RequestUser.isAuthenticated, RequestUser.isPlatformStaff,
    RequestUser.isStaff, RequestUser.isSuperuser, huser]
  split
  · split <;> simp
  · simp

theorem isAccessibleBy_account {user : Account}
    (huser : (user.isStaff || user.isSuperuser) = false) :
    problem.isAccessibleBy members (.account user) = true ↔
      problem.visibilityFilter = true ∧
          (problem.isOrganizationPrivate = false ∨
            ∃ organization ∈ problem.organizations,
              members.isMember user.id organization = true) ∨
        problem.hasRole user.id = true := by
  simp only [isAccessibleBy, RequestUser.isAuthenticated, RequestUser.isPlatformStaff,
    RequestUser.isStaff, RequestUser.isSuperuser, huser, RequestUser.pk?]
  change (if problem.visibilityFilter = true then _ else _) = true ↔ _
  cases hvisible : problem.visibilityFilter <;> cases hprivate : problem.isOrganizationPrivate <;>
    cases hrole : problem.hasRole user.id <;> simp

theorem exists_userFilter {userId : ℕ} :
    (∃ joined ∈ problem.joins, userFilter userId joined = true) ↔ problem.hasRole userId = true := by
  rw [exists_mem_joins]
  simp [userFilter, hasRole]

theorem exists_orgFilter {userId : ℕ} :
    (∃ joined ∈ problem.joins, problem.orgFilter members userId joined = true) ↔
      problem.isOrganizationPrivate = false ∨
        ∃ organization ∈ problem.organizations, members.isMember userId organization = true := by
  rw [exists_mem_joins]
  cases hprivate : problem.isOrganizationPrivate <;>
    simp [orgFilter, hprivate, Memberships.mem_organizationsOf]

end ProblemRow

namespace ProblemService

variable {order : Order ProblemRow} {db : ProblemTables} {problem : ProblemRow}

/-- The filter, read as a statement about one problem. -/
theorem mem_getVisibleProblems {user : Account}
    (huser : (user.isStaff || user.isSuperuser) = false) :
    problem ∈ getVisibleProblems order db (.account user) ↔
      problem ∈ db.problems.rows ∧
        (problem.visibilityFilter = true ∧
            (problem.isOrganizationPrivate = false ∨
              ∃ organization ∈ problem.organizations,
                db.members.isMember user.id organization = true) ∨
          problem.hasRole user.id = true) := by
  rw [getVisibleProblems, huser, if_neg Bool.false_ne_true, mem_distinct, mem_selectJoined,
    ← ProblemRow.exists_orgFilter, ← ProblemRow.exists_userFilter]
  refine and_congr_right fun _ => ?_
  simp only [Bool.or_eq_true, Bool.and_eq_true, and_or_left, exists_or]
  refine or_congr ?_ Iff.rfl
  constructor
  · rintro ⟨joined, hjoined, hvisible, horg⟩
    exact ⟨hvisible, joined, hjoined, horg⟩
  · rintro ⟨hvisible, joined, hjoined, horg⟩
    exact ⟨joined, hjoined, hvisible, horg⟩

theorem nodup_getVisibleProblems (user : RequestUser) :
    (getVisibleProblems order db user).Nodup := by
  cases user with
  | anonymous => exact nodup_distinct
  | account user =>
      rw [getVisibleProblems]
      split
      · exact nodup_distinct
      · exact nodup_distinct

/-- The listing of problems agrees with the access to each of them. -/
theorem getVisibleProblems_agrees (order : Order ProblemRow) (db : ProblemTables)
    (user : RequestUser) :
    (getVisibleProblems order db user).Nodup ∧
      ∀ problem, problem ∈ getVisibleProblems order db user ↔
        problem ∈ db.problems.rows ∧ problem.isAccessibleBy db.members user = true := by
  refine ⟨nodup_getVisibleProblems user, fun problem => ?_⟩
  cases user with
  | anonymous =>
      rw [getVisibleProblems, mem_distinct, List.mem_filter]
      refine and_congr_right fun _ => ?_
      rw [ProblemRow.isAccessibleBy_anonymous]
  | account user =>
      by_cases hstaff : (user.isStaff || user.isSuperuser) = true
      · rw [getVisibleProblems, if_pos hstaff, mem_distinct]
        exact (and_iff_left (ProblemRow.isAccessibleBy_staff hstaff)).symm
      · rw [Bool.not_eq_true] at hstaff
        rw [mem_getVisibleProblems hstaff]
        exact and_congr_right fun _ => (ProblemRow.isAccessibleBy_account hstaff).symm

end ProblemService

end JudgeLoom
