import JudgeLoom.Accounts.Models
import JudgeLoom.Library.Except
import JudgeLoom.Library.Query
import JudgeLoom.Problems.Models

/-!
# Authentication

`AuthService` and `JudgeLoomAuth`.  An operation that writes works on an instance of
the user that its caller loaded, and saves named columns of it by value; the two are
kept apart here, because the row may have changed in between.

`AuthBackend` collects what the service uses of Django and of the database: case
folding, the password hasher and the validators of passwords.  The laws of its
fields say that a hash verifies its password, and that folding and normalizing a text
do not empty it.  A signature is symbolic: a `Token` is the claims that the server
signed, or a text whose signature is wrong.
-/

namespace JudgeLoom

/-- The claims of a token; the service sets all of them but `user_id`. -/
structure Claims where
  /-- `sub`, the primary key of the user. -/
  sub : Option ℕ := none
  /-- `user_id`, the claim of old tokens. -/
  userId : Option ℕ := none
  username : Option String := none
  type : Option String := none
  ver : Option ℤ := none
  authTime : Option ℤ := none
  iat : Option ℤ := none
  exp : Option ℤ := none
  deriving DecidableEq

/-- A token that a client presents. -/
inductive Token
  /-- `jwt.encode(claims, SECRET_KEY)`. -/
  | signed (claims : Claims)
  /-- A text whose signature is wrong. -/
  | unsigned (text : String)
  deriving DecidableEq

/-- The claims of a token whose signature is right. -/
def Token.claims? : Token → Option Claims
  | signed claims => some claims
  | unsigned _ => none

/-- `jwt.decode(token, SECRET_KEY)`: the signature is right, the token has not expired
and was not issued in the future. -/
def Token.decode (now : Time) (token : Token) : Option Claims := do
  let claims ← token.claims?
  if ∃ iat ∈ claims.iat, now < iat * second then none
  else if ∃ exp ∈ claims.exp, exp * second ≤ now then none
  else some claims

/-- What the service uses of Django and of the database. -/
structure AuthBackend where
  /-- `str.lower`. -/
  lower : String → String
  /-- `UPPER` of the database, which decides `iexact`. -/
  upper : String → String
  /-- `User.normalize_username`: the NFKC form. -/
  normalizeUsername : String → String
  makePassword (salt raw : String) : String
  checkPassword (raw encoded : String) : Bool
  /-- `validate_password`; an error lists its messages. -/
  validatePassword (password : String) (user : Option Account) : Except (List String) Unit
  /-- `Meta.ordering` of users under the collation of the database. -/
  usernames : Query.Order Account
  lower_ne_empty : ∀ text, text ≠ "" → lower text ≠ ""
  normalizeUsername_ne_empty : ∀ text, text ≠ "" → normalizeUsername text ≠ ""
  checkPassword_makePassword : ∀ salt raw, checkPassword raw (makePassword salt raw) = true

/-- ASCII texts, which are their own NFKC forms, with passwords kept as they are; for
evaluating the model. -/
def AuthBackend.plain : AuthBackend where
  lower := JudgeLoom.lower
  upper text := String.ofList (text.toList.map Char.toUpper)
  normalizeUsername text := text
  makePassword _ raw := raw
  checkPassword raw encoded := raw = encoded
  validatePassword _ _ := .ok ()
  usernames := ⟨fun rows => rows, fun _ => .refl _⟩
  lower_ne_empty text h := by
    rw [JudgeLoom.lower, ne_eq, String.ofList_eq_empty_iff]
    simpa using h
  normalizeUsername_ne_empty _ h := h
  checkPassword_makePassword _ _ := by simp

/-- The users of the platform. -/
abbrev Accounts := Table Account fun account => account.id

namespace AuthBackend

variable (B : AuthBackend)

/-- `iexact`. -/
def iexact (first second : String) : Bool := B.upper first = B.upper second

/-- `filter(username__iexact=identity).first()`. -/
def byUsername? (accounts : Accounts) (identity : String) : Option Account :=
  (B.usernames.arrange (accounts.rows.filter fun row => B.iexact row.username identity)).head?

/-- `filter(email__iexact=identity).first()`. -/
def byEmail? (accounts : Accounts) (identity : String) : Option Account :=
  (B.usernames.arrange (accounts.rows.filter fun row => B.iexact row.email identity)).head?

/-- `UserManager.normalize_email`: the domain after the last `@`, in lower case. -/
@[irreducible]
def normalizeEmail (email : String) : String :=
  let reversed := (strip email).toList.reverse
  let name := (reversed.dropWhile (· ≠ '@')).reverse
  let domain := (reversed.takeWhile (· ≠ '@')).reverse
  if name.isEmpty then email else String.ofList name ++ B.lower (String.ofList domain)

end AuthBackend

/-- The unique and length constraints of a new user. -/
def storableAccount (accounts : Accounts) (account : Account) : Bool :=
  decide (account.username.length ≤ 150) && decide (account.email.length ≤ 254) &&
    storableText account.username && storableText account.email &&
    accounts.rows.all fun row => row.username ≠ account.username

namespace AuthService

variable (B : AuthBackend)

/-- `ACCESS_TOKEN_HOURS`. -/
def accessTokenHours : ℤ := 1

/-- `REFRESH_MAX_AGE_DAYS`. -/
def refreshMaxAgeDays : ℤ := 30

/-- `_validate_password`. -/
def validatePassword (password : String) (user : Option Account) : Except ServiceError Unit :=
  match B.validatePassword password user with
  | .ok () => .ok ()
  | .error messages => .error (.validation (" ".intercalate messages))

/-- The row that `objects.create_user` saves. -/
def newAccount (salt : String) (id : ℕ) (username email password : String) : Account where
  id
  username := B.normalizeUsername username
  email := B.normalizeEmail email
  password := B.makePassword salt password

section NewAccount

variable {B} {salt username email password : String} {id : ℕ}

@[simp] theorem username_newAccount :
    (newAccount B salt id username email password).username = B.normalizeUsername username :=
  rfl

@[simp] theorem email_newAccount :
    (newAccount B salt id username email password).email = B.normalizeEmail email :=
  rfl

@[simp] theorem password_newAccount :
    (newAccount B salt id username email password).password = B.makePassword salt password :=
  rfl

end NewAccount

/-- Create a new user with normalized identity fields. -/
def createUser (salt : String) (accounts : Accounts) (username email password : String) :
    Except ServiceError Account := do
  let normalizedUsername := strip username
  let normalizedEmail := B.lower (strip email)
  if normalizedUsername = "" then .error (.validation "Username is required.")
  else if normalizedEmail = "" then .error (.validation "Email is required.")
  else if password.length < 8 then
    .error (.validation "Password must be at least 8 characters.")
  else if accounts.rows.any fun row => B.iexact row.username normalizedUsername then
    .error (.validation "Username is already in use.")
  else if accounts.rows.any fun row => B.iexact row.email normalizedEmail then
    .error (.validation "Email is already in use.")
  else
    validatePassword B password none
    let account := newAccount B salt accounts.nextKey normalizedUsername normalizedEmail password
    if storableAccount accounts account then .ok account else .error .database

/-- The checks of `authenticate` on the user it loaded. -/
def checkLogin (user : Account) (password : String) : Option Account :=
  if user.isBanned then none
  else if !B.checkPassword password user.password then none
  else if !user.isActive then none
  else some user

/-- Authenticate user using username or email. -/
def authenticate (accounts : Accounts) (usernameOrEmail password : String) : Option Account :=
  let identity := strip usernameOrEmail
  if identity = "" ∨ password = "" then none
  else
    match (B.byUsername? accounts identity).or (B.byEmail? accounts identity) with
    | none => none
    | some user => checkLogin B user password

/-- The claims of an access token for a user. -/
def accessClaims (now : Time) (user : Account) (authTime : Option ℤ) : Claims where
  sub := some user.id
  username := some user.username
  type := some "access"
  ver := some user.tokenVersion
  authTime := some (authTime.getD (now / second))
  iat := some (now / second)
  exp := some ((now + accessTokenHours * 3600 * second) / second)

/-- Generate an access JWT token for a user. -/
def generateJwtToken (now : Time) (user : Account) (authTime : Option ℤ := none) : Token :=
  .signed (accessClaims now user authTime)

/-- The checks of `refresh_jwt_token` on the user it loaded, and the time of the login
that the new token keeps. -/
def refreshUser (now : Time) (claims : Claims) (user : Account) : Except ServiceError ℤ :=
  if user.isBanned ∨ ¬ user.isActive then .error (.validation "User cannot refresh token.")
  else if claims.ver.getD 0 ≠ user.tokenVersion then
    .error (.validation "Token has been revoked.")
  else
    match claims.authTime.or claims.iat with
    | none => .error (.validation "Invalid token session.")
    | some issuedAt =>
        if refreshMaxAgeDays * 86400 * second < now - issuedAt * second then
          .error (.validation "Session expired; log in again.")
        else .ok issuedAt

/-- The claims of a token to refresh, and the primary key of its user. -/
def refreshClaims (now : Time) (token : Token) : Except ServiceError (Claims × ℕ) :=
  match token.decode now with
  | none => .error (.validation "Invalid token.")
  | some claims =>
      if claims.type ≠ some "access" then .error (.validation "Unsupported token type.")
      else
        match claims.sub with
        -- `filter(pk="")`
        | none => .error (.python .valueError)
        | some userId => .ok (claims, userId)

/-- Refresh a valid access token by issuing a new one. -/
def refreshJwtToken (now : Time) (accounts : Accounts) (token : Token) :
    Except ServiceError Token := do
  let (claims, userId) ← refreshClaims now token
  match accounts.get? userId with
  | none => .error (.validation "User not found for token.")
  | some user =>
      let issuedAt ← refreshUser now claims user
      return generateJwtToken now user (some issuedAt)

/-- Change password for a user after old password verification; the instance to save. -/
def changePassword (salt : String) (user : Account) (oldPassword newPassword : String) :
    Except ServiceError Account := do
  if !B.checkPassword oldPassword user.password then
    .error (.validation "Old password is incorrect.")
  else if newPassword.length < 8 then
    .error (.validation "New password must be at least 8 characters.")
  else
    validatePassword B newPassword (some user)
    return { user with
      password := B.makePassword salt newPassword
      tokenVersion := user.tokenVersion + 1 }

/-- Invalidate all outstanding JWTs and live feeds for the user; the instance to save. -/
def revokeTokens (user : Account) : Account := { user with tokenVersion := user.tokenVersion + 1 }

/-- Ban a user from authentication and update audit fields; the instance to save. -/
def banUser (user : Account) (reason : String) : Account :=
  { user with
    isBanned := true
    banReason := strip reason
    tokenVersion := user.tokenVersion + 1 }

/-- Remove ban status and clear ban reason; the instance to save. -/
def unbanUser (user : Account) : Account :=
  { user with
    isBanned := false
    banReason := "" }

end AuthService

/-- `JudgeLoomAuth.authenticate`: decode and validate a JWT token. -/
def JudgeLoomAuth.authenticate (now : Time) (accounts : Accounts) (token : Token) :
    Option Account := do
  let claims ← token.decode now
  if claims.type ∉ [none, some "access"] then none
  else
    let userId ← claims.sub.or claims.userId
    let user ← accounts.get? userId
    if ¬ user.isActive ∨ user.isBanned then none
    else if claims.ver.getD 0 ≠ user.tokenVersion then none
    else some user

/-! ## What an accepted token says -/

theorem Token.decode_eq_some {now : Time} {token : Token} {claims : Claims} :
    token.decode now = some claims ↔
      token.claims? = some claims ∧ (∀ iat ∈ claims.iat, iat * second ≤ now) ∧
        ∀ exp ∈ claims.exp, now < exp * second := by
  cases token with
  | unsigned text => simp [decode, claims?]
  | signed signed =>
      simp only [decode, claims?, Option.bind_eq_bind, Option.bind_some, Option.some.injEq]
      split_ifs with hiat hexp
      · simp only [false_iff]
        rintro ⟨rfl, hle, -⟩
        obtain ⟨iat, hmem, hlt⟩ := hiat
        exact absurd (hle iat hmem) (not_le.mpr hlt)
      · simp only [false_iff]
        rintro ⟨rfl, -, hlt⟩
        obtain ⟨exp, hmem, hle⟩ := hexp
        exact absurd (hlt exp hmem) (not_lt.mpr hle)
      · constructor
        · intro heq
          obtain rfl := Option.some.inj heq
          simp only [not_exists, not_and, not_lt, not_le] at hiat hexp
          exact ⟨rfl, hiat, hexp⟩
        · rintro ⟨rfl, -⟩
          rfl

theorem JudgeLoomAuth.authenticate_eq_some {now : Time} {accounts : Accounts} {token : Token}
    {user : Account} :
    JudgeLoomAuth.authenticate now accounts token = some user ↔
      ∃ claims, token.decode now = some claims ∧
        (claims.type = none ∨ claims.type = some "access") ∧
          claims.sub.or claims.userId = some user.id ∧ accounts.get? user.id = some user ∧
            user.isActive = true ∧ user.isBanned = false ∧
              claims.ver.getD 0 = user.tokenVersion := by
  simp only [JudgeLoomAuth.authenticate, Option.bind_eq_bind, Option.bind_eq_some_iff]
  refine exists_congr fun claims => and_congr_right fun _ => ?_
  by_cases htype : claims.type = none ∨ claims.type = some "access"
  · rw [if_neg (by simpa using or_iff_not_imp_left.mp htype)]
    simp only [Option.bind_eq_some_iff, htype, true_and]
    constructor
    · rintro ⟨userId, hsub, found, hfound, haccept⟩
      split_ifs at haccept with hblocked hver
      obtain rfl := Option.some.inj haccept
      obtain rfl := Table.key_of_get? hfound
      obtain ⟨hactive, hbanned⟩ := not_or.mp hblocked
      exact ⟨hsub, hfound, not_not.mp hactive, by simpa using hbanned, not_not.mp hver⟩
    · rintro ⟨hsub, hfound, hactive, hbanned, hver⟩
      refine ⟨user.id, hsub, user, hfound, ?_⟩
      rw [if_neg (by simp [hactive, hbanned]), if_neg (by simp [hver])]
  · rw [if_pos (by simpa using htype)]
    simp [htype]

namespace AuthService

theorem refreshUser_eq_ok {now : Time} {claims : Claims} {user : Account} {issuedAt : ℤ} :
    refreshUser now claims user = .ok issuedAt ↔
      user.isBanned = false ∧ user.isActive = true ∧ claims.ver.getD 0 = user.tokenVersion ∧
        claims.authTime.or claims.iat = some issuedAt ∧
          now - issuedAt * second ≤ refreshMaxAgeDays * 86400 * second := by
  unfold refreshUser
  by_cases hblocked : user.isBanned = true ∨ ¬ user.isActive = true
  · rw [if_pos hblocked]
    rcases hblocked with hbanned | hinactive
    · simp [hbanned]
    · simp [hinactive]
  · rw [if_neg hblocked]
    simp only [not_or, Bool.not_eq_true] at hblocked
    by_cases hver : claims.ver.getD 0 = user.tokenVersion
    · rw [if_neg (by simp [hver])]
      cases htime : claims.authTime.or claims.iat with
      | none => simp
      | some found =>
          by_cases hage : refreshMaxAgeDays * 86400 * second < now - found * second
          · simp only [if_pos hage, reduceCtorEq, Option.some.injEq, false_iff]
            rintro ⟨-, -, -, rfl, hle⟩
            exact absurd hage (not_lt.mpr hle)
          · simp only [if_neg hage, Except.ok.injEq, Option.some.injEq, hblocked, hver, true_and]
            constructor
            · rintro rfl
              exact ⟨rfl, not_lt.mp hage⟩
            · rintro ⟨rfl, -⟩
              rfl
    · simp [hver]

theorem refreshJwtToken_eq_ok {now : Time} {accounts : Accounts} {token fresh : Token} :
    refreshJwtToken now accounts token = .ok fresh ↔
      ∃ claims user issuedAt, token.decode now = some claims ∧ claims.type = some "access" ∧
        claims.sub = some user.id ∧ accounts.get? user.id = some user ∧
          refreshUser now claims user = .ok issuedAt ∧
            fresh = generateJwtToken now user (some issuedAt) := by
  constructor
  · intro h
    obtain ⟨⟨claims, userId⟩, hclaims, hrest⟩ := Except.bind_eq_ok.mp h
    unfold refreshClaims at hclaims
    cases hdecode : token.decode now with
    | none => simp [hdecode] at hclaims
    | some decoded =>
        simp only [hdecode] at hclaims
        split_ifs at hclaims with htype
        cases hsub : decoded.sub with
        | none => simp [hsub] at hclaims
        | some sub =>
            simp only [hsub, Except.ok.injEq, Prod.mk.injEq] at hclaims
            obtain ⟨rfl, rfl⟩ := hclaims
            dsimp only at hrest
            cases hfound : accounts.get? sub with
            | none => simp [hfound] at hrest
            | some user =>
                rw [hfound] at hrest
                obtain ⟨issuedAt, hissued, heq⟩ := Except.bind_eq_ok.mp hrest
                obtain rfl := Table.key_of_get? hfound
                exact ⟨decoded, user, issuedAt, rfl, by simpa using htype, hsub, hfound, hissued,
                  (Except.ok.inj heq).symm⟩
  · rintro ⟨claims, user, issuedAt, hdecode, htype, hsub, hfound, hissued, rfl⟩
    have hclaims : refreshClaims now token = .ok (claims, user.id) := by
      simp [refreshClaims, hdecode, htype, hsub]
    refine Except.bind_eq_ok.mpr ⟨_, hclaims, ?_⟩
    dsimp only
    rw [hfound]
    exact Except.bind_eq_ok.mpr ⟨issuedAt, hissued, rfl⟩

theorem changePassword_eq_ok {B : AuthBackend} {salt oldPassword newPassword : String}
    {user saved : Account}
    (h : changePassword B salt user oldPassword newPassword = .ok saved) :
    saved = { user with
      password := B.makePassword salt newPassword
      tokenVersion := user.tokenVersion + 1 } ∧ newPassword ≠ "" := by
  unfold changePassword at h
  split_ifs at h with hold hlength
  obtain ⟨_, -, hsaved⟩ := Except.bind_eq_ok.mp h
  refine ⟨(Except.ok.inj hsaved).symm, ?_⟩
  rintro rfl
  exact hlength (by decide)

end AuthService

end JudgeLoom
