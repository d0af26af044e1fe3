import JudgeLoom.Accounts.Models
import JudgeLoom.Core.Pagination
import JudgeLoom.Library.Query
import JudgeLoom.Python.Json

/-!
# Who may see and join a contest

The access rules of `ContestService` and the listing of `GET /contests/`.  Visibility
is written twice: `can_see_contest` asks the relations of one contest, and
`get_visible_contests` is a filter over the contests joined with their relations.
`mem_getVisibleContests_iff` says on which contests the two differ.

The listing itself reads the page under a key that `paginate_queryset` does not
write, so every page of it is empty, and it agrees with `can_see_contest` only where
there is nothing to see (`listing_agrees_iff`).
-/

open Query

namespace JudgeLoom

/-- Visibility levels for contests; the column does not enforce its choices. -/
inductive ContestVisibility
  | «private»
  | organization
  | «public»
  | other (value : String)
  deriving DecidableEq

deriving instance DecidableEq for ContestProblem, ContestFormat, Contest, ContestRow

/-- A contest with the columns and the relations that decide who sees and joins it. -/
structure ContestInfo extends ContestRow where
  key : String
  name : String
  visibility : ContestVisibility := .private
  formatName : String := "default"
  organizers : List ℕ := []
  curators : List ℕ := []
  testers : List ℕ := []
  organizations : List ℕ := []
  bannedUsers : List ℕ := []
  accessCode : Option String := none
  isVisible : Bool := true
  deriving DecidableEq

namespace ContestInfo

variable (contest : ContestInfo) (now : Time)

/-- `is_active`. -/
def isActive : Bool := decide (contest.startTime ≤ now) && decide (now < contest.endTime)

/-- `is_finished`. -/
def isFinished : Bool := contest.endTime ≤ now

/-- `is_upcoming`. -/
def isUpcoming : Bool := now < contest.startTime

end ContestInfo

/-- The tables that decide who sees a contest. -/
structure ContestSite where
  contests : Table ContestInfo fun contest => contest.id
  participations : Table ParticipationRow ParticipationRow.id := ∅
  members : Memberships := []

/-- A row of the contests joined with their organizers, curators, testers and
organizations. -/
structure ContestJoin where
  organizer : Option ℕ
  curator : Option ℕ
  tester : Option ℕ
  organization : Option ℕ

namespace ContestService

variable (db : ContestSite) (user : RequestUser) (contest : ContestInfo)

/-- Return whether user can administrate a contest. -/
def isContestStaff : Bool :=
  if !user.isAuthenticated then false
  else if user.isPlatformStaff then true
  else
    match user.pk? with
    | none => false
    | some userId => contest.organizers.contains userId || contest.curators.contains userId

/-- `contest.participations.filter(user=user).exists()`. -/
def hasParticipation (userId : ℕ) : Bool :=
  db.participations.rows.any fun row =>
    decide (row.contest = contest.id) && decide (row.user = userId)

/-- `contest.organizations.filter(id__in=user.organizations…).exists()`. -/
def inOrganization (userId : ℕ) : Bool :=
  contest.organizations.any fun organization =>
    (db.members.organizationsOf userId).contains organization

/-- Return whether user has access to view a contest. -/
def canSeeContest : Bool :=
  if !contest.isVisible then isContestStaff user contest
  else if contest.visibility = .public then true
  else
    match user with
    | .anonymous => false
    | .account account =>
        if isContestStaff user contest then true
        else if contest.visibility = .private then hasParticipation db contest account.id
        else if contest.visibility = .organization then inOrganization db contest account.id
        else false

/-- `hmac.compare_digest` of two texts, which rejects characters outside ASCII. -/
def compareDigest (first second : String) : Except PyError Bool :=
  if first.toList.all (·.toNat < 128) && second.toList.all (·.toNat < 128) then
    .ok (decide (first = second))
  else .error .typeError

/-- `contest.access_code and access_code and compare_digest(…)`. -/
def matchesAccessCode (accessCode : Option String) : Except PyError Bool :=
  match contest.accessCode, accessCode with
  | some expected, some given =>
      if expected = "" ∨ given = "" then .ok false else compareDigest expected given
  | _, _ => .ok false

/-- Return whether user may create a participation for contest. -/
def canJoinContest (now : Time) (accessCode : Option String) (allowFinished : Bool) :
    Except PyError Bool :=
  match user with
  | .anonymous => .ok false
  | .account account =>
      if contest.bannedUsers.contains account.id then .ok false
      else if contest.isUpcoming now then .ok false
      else if contest.isFinished now && !allowFinished then .ok false
      else if isContestStaff user contest then .ok true
      else do
        if ← matchesAccessCode contest accessCode then return true
        else if !contest.isVisible then return false
        else if contest.visibility = .public then return true
        else return canSeeContest db user contest

/-- The joined rows of a contest. -/
def joins : List ContestJoin :=
  (leftJoin contest.organizers).flatMap fun organizer =>
    (leftJoin contest.curators).flatMap fun curator =>
      (leftJoin contest.testers).flatMap fun tester =>
        (leftJoin contest.organizations).map fun organization =>
          { organizer, curator, tester, organization }

/-- The filter of `get_visible_contests`, on a joined row. -/
def visibleFilter (userId : ℕ) (joined : ContestJoin) : Bool :=
  decide (contest.visibility = .public) || joined.organizer.any (· = userId) ||
    joined.curator.any (· = userId) || joined.tester.any (· = userId) ||
    (decide (contest.visibility = .organization) &&
      joined.organization.any fun organization =>
        (db.members.organizationsOf userId).contains organization)

/-- The rows of `get_visible_contests`, before `distinct`. -/
def visibleRows : List ContestInfo :=
  let base := db.contests.rows.filter ContestInfo.isVisible
  if user.isSuperuser || user.isStaff then base
  else
    match user with
    | .anonymous => base.filter fun contest => contest.visibility = .public
    | .account account => selectJoined joins (fun contest => visibleFilter db contest account.id) base

/-- Return contests visible to a given user, in the order `-start_time`; `order`
decides among ties. -/
def getVisibleContests (order : Order ContestInfo) : List ContestInfo :=
  (distinct order (visibleRows db user)).sortBy fun contest => -contest.startTime

end ContestService

/-- Minimal contest representation for list views. -/
structure ContestListOut where
  id : ℕ
  key : String
  name : String
  startTime : Time
  endTime : Time
  visibility : ContestVisibility
  isRated : Bool
  formatName : String

/-- The representation of a contest. -/
def ContestListOut.ofContest (contest : ContestInfo) : ContestListOut where
  id := contest.id
  key := contest.key
  name := contest.name
  startTime := contest.startTime
  endTime := contest.endTime
  visibility := contest.visibility
  isRated := contest.isRated
  formatName := contest.formatName

/-- List contests visible to the requesting user; `none` is a rejected request. -/
def listContests (order : Order ContestInfo) (db : ContestSite) (user : RequestUser)
    (page pageSize : ℤ) : Option (List ContestListOut) := do
  let queryset := ContestService.getVisibleContests db user order
  let params ← (PaginationParams.ofQuery page pageSize).toOption
  let rows ← rowsAt "items" (paginateQueryset queryset params)
  return rows.map ContestListOut.ofContest

/-- The contests on the pages from the first to the last; each page is a query of its
own. -/
def listedContests (order : ℕ → Order ContestInfo) (db : ContestSite) (user : RequestUser)
    (pageSize : ℤ) : List ContestListOut :=
  let total := (ContestService.visibleRows db user).dedup.length
  (List.range (totalPages total pageSize).toNat).flatMap fun k =>
    (listContests (order k) db user (k + 1) pageSize).getD []

/-- The listing shows exactly the contests that the user can see, each once. -/
def ListingAgrees (order : ℕ → Order ContestInfo) (db : ContestSite) (user : RequestUser)
    (pageSize : ℤ) : Prop :=
  ((listedContests order db user pageSize).map ContestListOut.id).Nodup ∧
    ∀ id, id ∈ (listedContests order db user pageSize).map ContestListOut.id ↔
      ∃ contest ∈ db.contests.rows,
        contest.id = id ∧ ContestService.canSeeContest db user contest = true

namespace ContestService

variable {db : ContestSite} {user : RequestUser} {contest : ContestInfo}

theorem mem_getVisibleContests {order : Order ContestInfo} :
    contest ∈ getVisibleContests db user order ↔ contest ∈ visibleRows db user := by
  rw [getVisibleContests, List.mem_sortBy, mem_distinct]

theorem nodup_getVisibleContests {order : Order ContestInfo} :
    (getVisibleContests db user order).Nodup :=
  nodup_distinct.sortBy _

/-- A condition on the joined rows of a contest, one relation after the other. -/
theorem exists_mem_joins {q : ContestJoin → Prop} :
    (∃ joined ∈ joins contest, q joined) ↔
      ∃ organizer ∈ leftJoin contest.organizers, ∃ curator ∈ leftJoin contest.curators,
        ∃ tester ∈ leftJoin contest.testers, ∃ organization ∈ leftJoin contest.organizations,
          q { organizer, curator, tester, organization } := by
  simp only [joins, List.mem_flatMap, List.mem_map]
  constructor
  · rintro ⟨joined, ⟨organizer, horganizer, curator, hcurator, tester, htester, organization,
      horganization, rfl⟩, hq⟩
    exact ⟨organizer, horganizer, curator, hcurator, tester, htester, organization,
      horganization, hq⟩
  · rintro ⟨organizer, horganizer, curator, hcurator, tester, htester, organization,
      horganization, hq⟩
    exact ⟨_, ⟨organizer, horganizer, curator, hcurator, tester, htester, organization,
      horganization, rfl⟩, hq⟩

theorem exists_visibleFilter {userId : ℕ} :
    (∃ joined ∈ joins contest, visibleFilter db contest userId joined = true) ↔
      contest.visibility = .public ∨ userId ∈ contest.organizers ∨ userId ∈ contest.curators ∨
        userId ∈ contest.testers ∨
          contest.visibility = .organization ∧ inOrganization db contest userId = true := by
  rw [exists_mem_joins]
  simp [visibleFilter, inOrganization, or_assoc]

theorem mem_visibleRows_anonymous :
    contest ∈ visibleRows db .anonymous ↔
      contest ∈ db.contests.rows ∧ contest.isVisible = true ∧ contest.visibility = .public := by
  simp only [visibleRows, RequestUser.isSuperuser, RequestUser.isStaff, Bool.or_self,
    Bool.false_eq_true, if_false, List.mem_filter, decide_eq_true_eq, and_assoc]

theorem mem_visibleRows_staff (huser : user.isPlatformStaff = true) :
    contest ∈ visibleRows db user ↔ contest ∈ db.contests.rows ∧ contest.isVisible = true := by
  rw [RequestUser.isPlatformStaff, Bool.or_comm] at huser
  simp only [visibleRows, huser, if_true, List.mem_filter]

theorem mem_visibleRows_account {account : Account}
    (huser : (RequestUser.account account).isPlatformStaff = false) :
    contest ∈ visibleRows db (.account account) ↔
      contest ∈ db.contests.rows ∧ contest.isVisible = true ∧
        (contest.visibility = .public ∨ account.id ∈ contest.organizers ∨
          account.id ∈ contest.curators ∨ account.id ∈ contest.testers ∨
            contest.visibility = .organization ∧
              inOrganization db contest account.id = true) := by
  rw [RequestUser.isPlatformStaff, Bool.or_comm] at huser
  simp only [visibleRows, huser, Bool.false_eq_true, if_false, mem_selectJoined,
    exists_visibleFilter, List.mem_filter, and_assoc]

/-- A contest that the user can see and the filter leaves out: a hidden contest of one
of its organizers or curators or of platform staff, and a private contest of one of
its participants. -/
def Unlisted (db : ContestSite) (user : RequestUser) (contest : ContestInfo) : Prop :=
  contest.isVisible = false ∧ isContestStaff user contest = true ∨
    contest.isVisible = true ∧ contest.visibility = .private ∧
      ∃ account, user = .account account ∧ isContestStaff user contest = false ∧
        account.id ∉ contest.testers ∧ hasParticipation db contest account.id = true

/-- A contest that the filter keeps and the user cannot see: one that is not public,
of one of its testers. -/
def Unseen (db : ContestSite) (user : RequestUser) (contest : ContestInfo) : Prop :=
  contest.isVisible = true ∧ contest.visibility ≠ .public ∧
    ∃ account, user = .account account ∧ isContestStaff user contest = false ∧
      account.id ∈ contest.testers ∧ canSeeContest db user contest = false

theorem canSeeContest_anonymous :
    canSeeContest db .anonymous contest = true ↔
      contest.isVisible = true ∧ contest.visibility = .public := by
  cases hvisible : contest.isVisible <;>
    simp [canSeeContest, hvisible, isContestStaff, RequestUser.isAuthenticated]

theorem isContestStaff_of_isPlatformStaff (huser : user.isPlatformStaff = true) :
    isContestStaff user contest = true := by
  cases user with
  | anonymous => simp [RequestUser.isPlatformStaff, RequestUser.isStaff, RequestUser.isSuperuser]
      at huser
  | account account => simp [isContestStaff, huser, RequestUser.isAuthenticated]

theorem isContestStaff_account {account : Account}
    (huser : (RequestUser.account account).isPlatformStaff = false) :
    isContestStaff (.account account) contest = true ↔
      account.id ∈ contest.organizers ∨ account.id ∈ contest.curators := by
  simp [isContestStaff, huser, RequestUser.isAuthenticated, RequestUser.pk?]

/-- The filter and the predicate differ exactly on the contests that are unlisted and
on those that are unseen. -/
theorem mem_getVisibleContests_iff {order : Order ContestInfo} (hcontest : contest ∈ db.contests.rows) :
    (contest ∈ getVisibleContests db user order ↔ canSeeContest db user contest = true) ↔
      ¬ (Unlisted db user contest ∨ Unseen db user contest) := by
  rw [mem_getVisibleContests]
  cases user with
  | anonymous =>
      rw [mem_visibleRows_anonymous, canSeeContest_anonymous]
      simp [hcontest, Unlisted, Unseen, isContestStaff, RequestUser.isAuthenticated]
  | account account =>
      cases hstaff : (RequestUser.account account).isPlatformStaff with
      | true =>
          rw [mem_visibleRows_staff hstaff]
          have hmanages : isContestStaff (.account account) contest = true :=
            isContestStaff_of_isPlatformStaff hstaff
          cases hvisible : contest.isVisible <;>
            simp [hcontest, Unlisted, Unseen, canSeeContest, hvisible, hmanages]
      | false =>
          rw [mem_visibleRows_account hstaff]
          have hmanages : isContestStaff (.account account) contest = true ↔
              account.id ∈ contest.organizers ∨ account.id ∈ contest.curators :=
            isContestStaff_account hstaff
          cases hvisible : contest.isVisible with
          | false => simp [hcontest, Unlisted, Unseen, canSeeContest, hvisible]
          | true =>
              by_cases hpublic : contest.visibility = .public
              · simp [hcontest, Unlisted, Unseen, canSeeContest, hvisible, hpublic]
              · cases hrole : isContestStaff (.account account) contest with
                | true =>
                    have := hmanages.mp hrole
                    simp [hcontest, Unlisted, Unseen, canSeeContest, hvisible, hpublic, hrole]
                    tauto
                | false =>
                    have := hmanages.not.mp (by simp [hrole])
                    rw [not_or] at this
                    simp [hcontest, Unlisted, Unseen, canSeeContest, hvisible, hpublic, hrole, this]
                    by_cases hprivate : contest.visibility = .private
                    · cases hjoined : hasParticipation db contest account.id <;> simp [hprivate]
                    · cases hin : inOrganization db contest account.id <;> simp [hprivate]

end ContestService

variable {order : ℕ → Order ContestInfo} {db : ContestSite} {user : RequestUser} {pageSize : ℤ}

/-- No page of the listing shows a contest: it is read under a key that pages lack. -/
theorem listContests_getD (order : Order ContestInfo) (page : ℤ) :
    (listContests order db user page pageSize).getD [] = [] := by
  cases hparams : PaginationParams.ofQuery page pageSize with
  | error fields => simp [listContests, hparams, Except.toOption]
  | ok params =>
      have hrows : rowsAt "items"
          (paginateQueryset (ContestService.getVisibleContests db user order) params) = some [] :=
        rfl
      simp [listContests, hparams, Except.toOption, hrows]

theorem listedContests_eq_nil : listedContests order db user pageSize = [] := by
  simp [listedContests, listContests_getD]

/-- The listing agrees with the access to contests exactly for a user who can see none
of them. -/
theorem listing_agrees_iff (order : ℕ → Order ContestInfo) (db : ContestSite) (user : RequestUser)
    (pageSize : ℤ) :
    ListingAgrees order db user pageSize ↔
      ∀ contest ∈ db.contests.rows, ContestService.canSeeContest db user contest = false := by
  rw [ListingAgrees, listedContests_eq_nil]
  constructor
  · rintro ⟨-, hagrees⟩ contest hcontest
    have hunlisted := (hagrees contest.id).not.mp (by simp)
    simp only [not_exists, not_and, Bool.not_eq_true] at hunlisted
    exact hunlisted contest hcontest rfl
  · intro hnone
    refine ⟨by simp, fun id => ⟨by simp, ?_⟩⟩
    rintro ⟨contest, hcontest, -, hsee⟩
    rw [hnone contest hcontest] at hsee
    cases hsee

/-- A site with one public contest. -/
def publicSite : ContestSite where
  contests := (∅ : Table ContestInfo fun contest => contest.id).save
    { id := 1
      format := some .default
      startTime := 0
      endTime := 3600 * second
      problems := []
      problems_nodup := List.nodup_nil
      key := "open"
      name := "Open"
      visibility := .public }

/-- Everyone can see the public contest, and no page lists it. -/
theorem publicSite_not_listed :
    ¬ ListingAgrees (fun _ => ⟨id, fun _ => .refl _⟩) publicSite .anonymous 20 := by
  rintro ⟨-, hagrees⟩
  have hlisted := (hagrees 1).mpr ⟨_, List.mem_singleton_self _, rfl, by decide⟩
  rw [listedContests_eq_nil] at hlisted
  cases hlisted

end JudgeLoom
