import JudgeLoom.Accounts.AuthService
import JudgeLoom.Library.Run

/-!
# Whether a revocation is final

Any interleaving of the requests of one user.  A request loads the row and later runs
one of the account operations on what it loaded; an operation that writes saves
`token_version` by value, one more than that of the instance.  `UserSystem.revoked`
keeps the tokens that were issued before a revoking call completed.

Two revoking calls on instances of one version save the same number, so a token issued
between them survives the second (`lateLogout_keeps_token`).  `SavesNewVersion` is the
condition that excludes this, a revoking call saves a version that no token carries,
and `revocationFinal_run` is the result for the runs whose steps all meet it.  A call whose
instance is not stale meets it (`current_run`).
-/

namespace JudgeLoom

/-- The operations of a request on the user it loaded. -/
inductive AccountCall
  | revokeTokens
  | changePassword (salt oldPassword newPassword : String)
  | banUser (reason : String)
  | unbanUser
  | login (password : String)
  | refreshJwtToken (token : Token)

/-- The user's row, the requests under way and the access tokens issued so far. -/
structure UserSystem (ι : Type) where
  row : Account
  /-- What each request loaded. -/
  loaded : ι → Option Account := fun _ => none
  now : Time := 0
  issued : List Claims := []
  /-- The tokens issued before a `revoke_tokens`, `change_password` or `ban_user` call
  that has completed. -/
  revoked : List Claims := []

/-- What happens next. -/
inductive UserEvent (ι : Type)
  | load (request : ι)
  | call (request : ι) (call : AccountCall)
  | wait (now : Time)

namespace UserSystem

variable {ι : Type} [DecidableEq ι]

/-- The request holds `user` now. -/
def hold (s : UserSystem ι) (request : ι) (user : Account) : UserSystem ι :=
  { s with loaded := Function.update s.loaded request (some user) }

/-- A revoking call saves `row` and completes. -/
def revokeWith (s : UserSystem ι) (row : Account) : UserSystem ι :=
  { s with
    row
    revoked := s.issued }

/-- An access token is issued for what a request loaded. -/
def issue (s : UserSystem ι) (user : Account) (authTime : Option ℤ) : UserSystem ι :=
  { s with issued := AuthService.accessClaims s.now user authTime :: s.issued }

/-- One operation on the user that a request loaded; a rejected one changes nothing. -/
def perform (B : AuthBackend) (s : UserSystem ι) (request : ι) (user : Account) :
    AccountCall → UserSystem ι
  | .revokeTokens =>
      let saved := AuthService.revokeTokens user
      -- `update_fields=["token_version"]`
      (s.hold request saved).revokeWith { s.row with tokenVersion := saved.tokenVersion }
  | .changePassword salt oldPassword newPassword =>
      match AuthService.changePassword B salt user oldPassword newPassword with
      | .error _ => s
      | .ok saved =>
          (s.hold request saved).revokeWith
            { s.row with
              password := saved.password
              tokenVersion := saved.tokenVersion }
  | .banUser reason =>
      let saved := AuthService.banUser user reason
      (s.hold request saved).revokeWith
        { s.row with
          isBanned := saved.isBanned
          banReason := saved.banReason
          tokenVersion := saved.tokenVersion }
  | .unbanUser =>
      let saved := AuthService.unbanUser user
      { s.hold request saved with
        row :=
          { s.row with
            isBanned := saved.isBanned
            banReason := saved.banReason } }
  | .login password =>
      match AuthService.checkLogin B user password with
      | none => s
      | some user => s.issue user none
  | .refreshJwtToken token =>
      match AuthService.refreshClaims s.now token with
      | .error _ => s
      | .ok (claims, userId) =>
          if userId = user.id then
            match AuthService.refreshUser s.now claims user with
            | .error _ => s
            | .ok issuedAt => s.issue user (some issuedAt)
          else s

/-- The system after an event. -/
def step (B : AuthBackend) (s : UserSystem ι) : UserEvent ι → UserSystem ι
  | .load request => s.hold request s.row
  | .call request call =>
      match s.loaded request with
      | none => s
      | some user => s.perform B request user call
  | .wait now => { s with now }

end UserSystem

/-- The calls that revoke tokens, when they are accepted. -/
def AccountCall.revokes (B : AuthBackend) (user : Account) : AccountCall → Prop
  | revokeTokens => True
  | changePassword salt oldPassword newPassword =>
      (AuthService.changePassword B salt user oldPassword newPassword).isOk = true
  | banUser _ => True
  | _ => False

/-- A token that no request can use any more, whatever the time. -/
def Rejected (row : Account) (claims : Claims) : Prop :=
  ∀ (now : Time) (accounts : Accounts), accounts.get? row.id = some row →
    JudgeLoomAuth.authenticate now accounts (.signed claims) = none ∧
      ∀ fresh, AuthService.refreshJwtToken now accounts (.signed claims) ≠ .ok fresh

/-- Every token issued before a revoking call completed is rejected. -/
def UserSystem.RevocationFinal {ι : Type} (s : UserSystem ι) : Prop :=
  ∀ claims ∈ s.revoked, Rejected s.row claims

/-- A revoking call saves a version larger than that of every token issued so far. -/
def SavesNewVersion (B : AuthBackend) {ι : Type} (s : UserSystem ι) : UserEvent ι → Prop
  | .call request call =>
      ∀ user ∈ s.loaded request, call.revokes B user →
        ∀ claims ∈ s.issued, claims.ver.getD 0 ≤ user.tokenVersion
  | _ => True

/-- A revoking call runs on an instance whose version is still the stored one. -/
def RevokesCurrent (B : AuthBackend) {ι : Type} (s : UserSystem ι) : UserEvent ι → Prop
  | .call request call =>
      ∀ user ∈ s.loaded request, call.revokes B user → user.tokenVersion = s.row.tokenVersion
  | _ => True

variable {B : AuthBackend} {ι : Type} [DecidableEq ι] {s : UserSystem ι}

/-! ## What one operation does -/

/-- An accepted operation revokes, saves a row of the same version, or issues a token
for the instance it runs on. -/
theorem perform_cases (s : UserSystem ι) (request : ι) (user : Account) (call : AccountCall) :
    (∃ saved row, call.revokes B user ∧ saved.id = user.id ∧
      saved.tokenVersion = user.tokenVersion + 1 ∧ row.id = s.row.id ∧
        row.tokenVersion = user.tokenVersion + 1 ∧
          s.perform B request user call = (s.hold request saved).revokeWith row) ∨
    (∃ saved row, saved.id = user.id ∧ saved.tokenVersion = user.tokenVersion ∧
      row.id = s.row.id ∧ row.tokenVersion = s.row.tokenVersion ∧
        s.perform B request user call = { s.hold request saved with row }) ∨
    (∃ authTime, s.perform B request user call = s.issue user authTime) ∨
      s.perform B request user call = s := by
  cases call with
  | revokeTokens =>
      refine .inl ⟨AuthService.revokeTokens user, _, trivial, ?_, ?_, ?_, ?_, rfl⟩
      all_goals rfl
  | banUser reason =>
      refine .inl ⟨AuthService.banUser user reason, _, trivial, ?_, ?_, ?_, ?_, rfl⟩
      all_goals rfl
  | unbanUser =>
      refine .inr (.inl ⟨AuthService.unbanUser user, _, ?_, ?_, ?_, ?_, rfl⟩)
      all_goals rfl
  | changePassword salt oldPassword newPassword =>
      cases hchange : AuthService.changePassword B salt user oldPassword newPassword with
      | error error => exact .inr (.inr (.inr (by simp [UserSystem.perform, hchange])))
      | ok saved =>
          have hperform : s.perform B request user
              (.changePassword salt oldPassword newPassword) =
                (s.hold request saved).revokeWith
                  { s.row with
                    password := saved.password
                    tokenVersion := saved.tokenVersion } := by
            simp only [UserSystem.perform, hchange]
          refine .inl ⟨saved, _, ?_, ?_, ?_, ?_, ?_, hperform⟩
          · simp [AccountCall.revokes, hchange, Except.isOk, Except.toBool]
          all_goals simp [(AuthService.changePassword_eq_ok hchange).1]
  | login password =>
      cases hlogin : AuthService.checkLogin B user password with
      | none => exact .inr (.inr (.inr (by simp [UserSystem.perform, hlogin])))
      | some found =>
          obtain rfl : user = found := by
            unfold AuthService.checkLogin at hlogin
            split_ifs at hlogin
            exact Option.some.inj hlogin
          exact .inr (.inr (.inl ⟨none, by simp only [UserSystem.perform, hlogin]⟩))
  | refreshJwtToken token =>
      cases hclaims : AuthService.refreshClaims s.now token with
      | error error => exact .inr (.inr (.inr (by simp [UserSystem.perform, hclaims])))
      | ok found =>
          obtain ⟨claims, userId⟩ := found
          by_cases hid : userId = user.id
          · cases hrefresh : AuthService.refreshUser s.now claims user with
            | error error =>
                exact .inr (.inr (.inr (by simp [UserSystem.perform, hclaims, hid, hrefresh])))
            | ok issuedAt =>
                exact .inr (.inr (.inl ⟨some issuedAt,
                  by simp [UserSystem.perform, hclaims, hid, hrefresh]⟩))
          · exact .inr (.inr (.inr (by simp [UserSystem.perform, hclaims, hid])))

/-! ## The tokens of a run -/

/-- A token of the user with a version below the stored one is rejected. -/
theorem rejected_of_lt {row : Account} {claims : Claims} (hsub : claims.sub = some row.id)
    (hver : claims.ver.getD 0 < row.tokenVersion) : Rejected row claims := by
  intro now accounts hrow
  constructor
  · rw [Option.eq_none_iff_forall_ne_some]
    intro user haccept
    obtain ⟨found, hdecode, -, hlink, hstored, -, -, hversion⟩ :=
      JudgeLoomAuth.authenticate_eq_some.mp haccept
    obtain rfl : claims = found := Option.some.inj (Token.decode_eq_some.mp hdecode).1
    rw [hsub, Option.some_or] at hlink
    rw [← Option.some.inj hlink, hrow] at hstored
    obtain rfl := Option.some.inj hstored
    omega
  · intro fresh hrefresh
    obtain ⟨found, user, issuedAt, hdecode, -, hlink, hstored, hchecks, -⟩ :=
      AuthService.refreshJwtToken_eq_ok.mp hrefresh
    obtain rfl : claims = found := Option.some.inj (Token.decode_eq_some.mp hdecode).1
    obtain ⟨-, -, hversion, -⟩ := AuthService.refreshUser_eq_ok.mp hchecks
    rw [hsub] at hlink
    rw [← Option.some.inj hlink, hrow] at hstored
    obtain rfl := Option.some.inj hstored
    omega

/-- The tokens and the instances are of the user, and revoked tokens are old. -/
structure TokensBelow (s : UserSystem ι) : Prop where
  loaded : ∀ request, ∀ user ∈ s.loaded request, user.id = s.row.id
  issued : ∀ claims ∈ s.issued, claims.sub = some s.row.id
  revoked : ∀ claims ∈ s.revoked,
    claims.sub = some s.row.id ∧ claims.ver.getD 0 < s.row.tokenVersion

theorem UserSystem.loaded_hold {request other : ι} {user found : Account}
    (h : found ∈ (s.hold request user).loaded other) : found = user ∨ found ∈ s.loaded other := by
  change Function.update s.loaded request (some user) other = some found at h
  by_cases heq : other = request
  · rw [heq, Function.update_self] at h
    exact .inl (Option.some.inj h).symm
  · rw [Function.update_of_ne heq] at h
    exact .inr h

theorem tokensBelow_step {event : UserEvent ι} (hs : TokensBelow s)
    (hnew : SavesNewVersion B s event) : TokensBelow (s.step B event) := by
  cases event with
  | wait now => exact ⟨hs.loaded, hs.issued, hs.revoked⟩
  | load request =>
      refine ⟨fun other user huser => ?_, hs.issued, hs.revoked⟩
      rcases UserSystem.loaded_hold huser with rfl | hold
      · rfl
      · exact hs.loaded other user hold
  | call request call =>
      cases hloaded : s.loaded request with
      | none => simpa only [UserSystem.step, hloaded] using hs
      | some user =>
          have huser := hs.loaded request user hloaded
          have hheld : ∀ saved : Account, saved.id = user.id → ∀ other,
              ∀ found ∈ (s.hold request saved).loaded other, found.id = s.row.id := by
            intro saved hsaved other found hfound
            rcases UserSystem.loaded_hold hfound with rfl | hold
            · rw [hsaved, huser]
            · exact hs.loaded other found hold
          simp only [UserSystem.step, hloaded]
          obtain ⟨saved, row, hrevokes, hid, -, hrow, hversion, heq⟩ |
            ⟨saved, row, hid, -, hrow, hversion, heq⟩ | ⟨authTime, heq⟩ | heq :=
            perform_cases (B := B) s request user call
          · rw [heq]
            refine ⟨fun other found hfound => ?_, fun claims hclaims => ?_, fun claims hclaims => ?_⟩
            · exact (hheld saved hid other found hfound).trans hrow.symm
            · exact (hs.issued claims hclaims).trans (congrArg some hrow.symm)
            · refine ⟨(hs.issued claims hclaims).trans (congrArg some hrow.symm), ?_⟩
              have hle := hnew user hloaded hrevokes claims hclaims
              show claims.ver.getD 0 < row.tokenVersion
              omega
          · rw [heq]
            refine ⟨fun other found hfound => ?_, fun claims hclaims => ?_, fun claims hclaims => ?_⟩
            · exact (hheld saved hid other found hfound).trans hrow.symm
            · exact (hs.issued claims hclaims).trans (congrArg some hrow.symm)
            · obtain ⟨hsub, hlt⟩ := hs.revoked claims hclaims
              refine ⟨hsub.trans (congrArg some hrow.symm), ?_⟩
              show claims.ver.getD 0 < row.tokenVersion
              omega
          · rw [heq]
            refine ⟨hs.loaded, ?_, hs.revoked⟩
            rintro claims (_ | ⟨_, hclaims⟩)
            · exact congrArg some huser
            · exact hs.issued claims hclaims
          · rw [heq]
            exact hs

/-- In every run whose revoking calls save new versions, revocations are final. -/
theorem revocationFinal_run {row : Account} {events : List (UserEvent ι)}
    (run : Run (fun s event t => SavesNewVersion B s event ∧ t = s.step B event) { row } events s) :
    s.RevocationFinal := by
  have hbelow : TokensBelow s := by
    refine run.invariant ⟨by simp, by simp, by simp⟩ ?_
    rintro s event t hs ⟨hnew, rfl⟩
    exact tokensBelow_step hs hnew
  intro claims hclaims
  obtain ⟨hsub, hlt⟩ := hbelow.revoked claims hclaims
  exact rejected_of_lt hsub hlt

/-- The account of the samples, with a token version. -/
def sampleRow (tokenVersion : ℕ) : Account where
  id := 1
  username := "user"
  email := "user@example.org"
  password := "a long password"
  tokenVersion

/-- A login. -/
def afterLogin : UserSystem ℕ :=
  [.load 0, .call 0 (.login "a long password"), .load 1].foldl (UserSystem.step .plain)
    { row := sampleRow 0 }

/-- A login and a logout, one after the other. -/
theorem revocationFinal_run_logout :
    (afterLogin.step .plain (.call 1 .revokeTokens)).RevocationFinal := by
  have hnew : SavesNewVersion .plain afterLogin (.call 1 .revokeTokens) := by
    intro user _ _ claims hclaims
    have hzero : ∀ claims ∈ afterLogin.issued, claims.ver.getD 0 = 0 := by decide +kernel
    rw [hzero claims hclaims]
    exact Int.natCast_nonneg _
  have hrun : Run (fun s event t => SavesNewVersion .plain s event ∧ t = s.step .plain event)
      { row := sampleRow 0 } [.load 0, .call 0 (.login "a long password"), .load 1] afterLogin :=
    .snoc (.snoc (.single ⟨trivial, rfl⟩) ⟨fun _ _ h => h.elim, rfl⟩) ⟨trivial, rfl⟩
  exact revocationFinal_run (hrun.snoc ⟨hnew, rfl⟩)

/-! ## Requests that are not stale -/

/-- No instance and no token has a version above the stored one. -/
structure VersionsBelow (s : UserSystem ι) : Prop where
  loaded : ∀ request, ∀ user ∈ s.loaded request, user.tokenVersion ≤ s.row.tokenVersion
  issued : ∀ claims ∈ s.issued, claims.ver.getD 0 ≤ s.row.tokenVersion

theorem versionsBelow_step {event : UserEvent ι} (hs : VersionsBelow s)
    (hcurrent : RevokesCurrent B s event) : VersionsBelow (s.step B event) := by
  cases event with
  | wait now => exact ⟨hs.loaded, hs.issued⟩
  | load request =>
      refine ⟨fun other user huser => ?_, hs.issued⟩
      rcases UserSystem.loaded_hold huser with rfl | hold
      · exact le_refl _
      · exact hs.loaded other user hold
  | call request call =>
      cases hloaded : s.loaded request with
      | none => simpa only [UserSystem.step, hloaded] using hs
      | some user =>
          have huser := hs.loaded request user hloaded
          simp only [UserSystem.step, hloaded]
          obtain ⟨saved, row, hrevokes, -, hsaved, -, hversion, heq⟩ |
            ⟨saved, row, -, hsaved, -, hversion, heq⟩ | ⟨authTime, heq⟩ | heq :=
            perform_cases (B := B) s request user call
          · rw [heq]
            have hrow : row.tokenVersion = s.row.tokenVersion + 1 := by
              rw [hversion, hcurrent user hloaded hrevokes]
            refine ⟨fun other found hfound => ?_, fun claims hclaims => ?_⟩
            · show found.tokenVersion ≤ row.tokenVersion
              rcases UserSystem.loaded_hold hfound with rfl | hold
              · omega
              · have := hs.loaded other found hold
                omega
            · have := hs.issued claims hclaims
              show claims.ver.getD 0 ≤ row.tokenVersion
              omega
          · rw [heq]
            refine ⟨fun other found hfound => ?_, fun claims hclaims => ?_⟩
            · show found.tokenVersion ≤ row.tokenVersion
              rcases UserSystem.loaded_hold hfound with rfl | hold
              · omega
              · have := hs.loaded other found hold
                omega
            · have := hs.issued claims hclaims
              show claims.ver.getD 0 ≤ row.tokenVersion
              omega
          · rw [heq]
            refine ⟨hs.loaded, ?_⟩
            rintro claims (_ | ⟨_, hclaims⟩)
            · exact Int.ofNat_le.mpr huser
            · exact hs.issued claims hclaims
          · rw [heq]
            exact hs

omit [DecidableEq ι] in
/-- A revoking call whose instance is not stale saves a new version. -/
theorem savesNewVersion_of_current {event : UserEvent ι} (hs : VersionsBelow s)
    (hcurrent : RevokesCurrent B s event) : SavesNewVersion B s event := by
  cases event with
  | load request => trivial
  | wait now => trivial
  | call request call =>
      intro user huser hrevokes claims hclaims
      rw [hcurrent user huser hrevokes]
      exact hs.issued claims hclaims

/-- The revoking calls of a run without stale ones save new versions. -/
theorem current_run {row : Account} {events : List (UserEvent ι)}
    (run : Run (fun s event t => RevokesCurrent B s event ∧ t = s.step B event) { row } events s) :
    VersionsBelow s ∧
      Run (fun s event t => SavesNewVersion B s event ∧ t = s.step B event) { row } events s := by
  induction run with
  | nil => exact ⟨⟨by simp, by simp⟩, .nil⟩
  | snoc _ hlast ih =>
      obtain ⟨hbelow, hrun⟩ := ih
      obtain ⟨hcurrent, rfl⟩ := hlast
      exact ⟨versionsBelow_step hbelow hcurrent,
        .snoc hrun ⟨savesNewVersion_of_current hbelow hcurrent, rfl⟩⟩

/-! ## A late logout -/

/-- Two requests load the user, the first logs out, the user logs in again, and the
second request logs out. -/
def lateLogout : List (UserEvent ℕ) :=
  [.load 0, .load 1, .call 0 .revokeTokens, .load 2, .call 2 (.login "a long password"),
    .call 1 .revokeTokens]

/-- The token of the second login is accepted after the second logout. -/
theorem lateLogout_keeps_token :
    ¬ (lateLogout.foldl (UserSystem.step .plain) { row := sampleRow 0 }).RevocationFinal := by
  intro hfinal
  have hrevoked : AuthService.accessClaims 0 (sampleRow 1) none ∈
      (lateLogout.foldl (UserSystem.step .plain) { row := sampleRow 0 }).revoked := by
    decide +kernel
  obtain ⟨hrejected, -⟩ :=
    hfinal _ hrevoked 0 ((∅ : Accounts).save (sampleRow 1)) (by decide +kernel)
  exact absurd hrejected (by decide +kernel)

end JudgeLoom
