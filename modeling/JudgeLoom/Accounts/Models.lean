import JudgeLoom.Contests.Models

/-!
# Accounts

The columns of the user table that authentication and access control read, over the
`User` of ratings, and the user of a request: Django's `AnonymousUser`, which has no
primary key and no organizations, or a stored account.
-/

namespace JudgeLoom

/-- A user with its login identity and its access flags. -/
structure Account extends User where
  email : String := ""
  /-- The encoded hash of the password. -/
  password : String := ""
  isActive : Bool := true
  isStaff : Bool := false
  isSuperuser : Bool := false
  isBanned : Bool := false
  banReason : String := ""
  tokenVersion : ℕ := 0

deriving instance DecidableEq for User, Account

/-- The `user` of a request. -/
inductive RequestUser
  | anonymous
  | account (user : Account)

namespace RequestUser

/-- `getattr(user, "is_authenticated", False)`. -/
def isAuthenticated : RequestUser → Bool
  | anonymous => false
  | account _ => true

/-- `getattr(user, "is_staff", False)`. -/
def isStaff : RequestUser → Bool
  | anonymous => false
  | account user => user.isStaff

/-- `getattr(user, "is_superuser", False)`. -/
def isSuperuser : RequestUser → Bool
  | anonymous => false
  | account user => user.isSuperuser

/-- `getattr(user, "pk", None)`. -/
def pk? : RequestUser → Option ℕ
  | anonymous => none
  | account user => some user.id

/-- `getattr(user, "is_staff", False) or getattr(user, "is_superuser", False)`. -/
def isPlatformStaff (user : RequestUser) : Bool := user.isStaff || user.isSuperuser

end RequestUser

/-- The through table of `User.organizations`, whose reverse side is
`Organization.members`: pairs of a user and an organization. -/
abbrev Memberships := List (ℕ × ℕ)

namespace Memberships

/-- `user.organizations.values_list("id", flat=True)`. -/
def organizationsOf (members : Memberships) (user : ℕ) : List ℕ :=
  (members.filter fun membership => membership.1 = user).map Prod.snd

/-- `members__pk=user`, of one organization. -/
def isMember (members : Memberships) (user organization : ℕ) : Bool :=
  members.contains (user, organization)

theorem mem_organizationsOf {members : Memberships} {user organization : ℕ} :
    organization ∈ members.organizationsOf user ↔ members.isMember user organization = true := by
  simp [organizationsOf, isMember]

end Memberships

end JudgeLoom
