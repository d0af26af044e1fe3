import JudgeLoom.Accounts.AuthService
import JudgeLoom.Library.Run
import Mathlib.Logic.Relation
import Mathlib.Tactic.Linarith

/-!
# How long a session lasts

A run of logins and refreshes in any order, with anything happening to the users in
between.  `SessionState.issued` records every token with the time at which it was
issued and the token it was refreshed from; a refresh presents one of these tokens,
which is what it means that nobody else can sign one.

`Bounded` is the invariant of the log: an entry descends from a login (`Renews` is one
link of the descent), carries the second of that login, and was issued within
`refreshMaxAgeDays` of it.  An access token lives `accessTokenHours`, so no session
outlives their sum (`bounded_session`).
-/

namespace JudgeLoom

/-- A token with the time at which it was issued. -/
structure IssuedToken where
  claims : Claims
  time : Time
  /-- The claims of the token that was refreshed; `none` after a login. -/
  parent : Option Claims := none
  deriving DecidableEq

/-- The users, the clock and the tokens issued so far. -/
structure SessionState where
  accounts : Accounts
  now : Time
  issued : List IssuedToken := []

/-- What can happen. -/
inductive SessionEvent
  /-- Time passes. -/
  | wait (now : Time)
  /-- Another request changes the users. -/
  | update (accounts : Accounts)
  | register (salt username email password : String)
  | login (usernameOrEmail password : String)
  | refresh (token : Token)

/-- The entry of a token that is issued now. -/
def SessionState.issue (s : SessionState) (user : Account) (authTime : Option ℤ)
    (parent : Option Claims) : SessionState :=
  { s with issued :=
      { claims := AuthService.accessClaims s.now user authTime
        time := s.now
        parent } :: s.issued }

/-- One successful event; a rejected request issues nothing. -/
inductive SessionStep (B : AuthBackend) : SessionState → SessionEvent → SessionState → Prop
  | wait {s : SessionState} {now : Time} (hnow : s.now ≤ now) :
      SessionStep B s (.wait now) { s with now }
  | update {s : SessionState} {accounts : Accounts} :
      SessionStep B s (.update accounts) { s with accounts }
  | register {s : SessionState} {salt username email password : String} {user : Account}
      (hcreate : AuthService.createUser B salt s.accounts username email password = .ok user) :
      SessionStep B s (.register salt username email password)
        (SessionState.issue { s with accounts := s.accounts.save user } user none none)
  | login {s : SessionState} {usernameOrEmail password : String} {user : Account}
      (haccept : AuthService.authenticate B s.accounts usernameOrEmail password = some user) :
      SessionStep B s (.login usernameOrEmail password) (s.issue user none none)
  /-- The token presented was issued before: nobody else can sign one. -/
  | refresh {s : SessionState} {parent : IssuedToken} {user : Account} {authTime : ℤ}
      (hissued : parent ∈ s.issued)
      (hrefresh : AuthService.refreshJwtToken s.now s.accounts (.signed parent.claims) =
        .ok (AuthService.generateJwtToken s.now user (some authTime))) :
      SessionStep B s (.refresh (.signed parent.claims))
        (s.issue user (some authTime) (some parent.claims))

/-- One link of a session: `child` was issued for `parent`, with the same user, token
version and login time. -/
def Renews (issued : List IssuedToken) (parent child : IssuedToken) : Prop :=
  child ∈ issued ∧ child.parent = some parent.claims ∧ parent.time ≤ child.time ∧
    child.claims.sub = parent.claims.sub ∧ child.claims.ver = parent.claims.ver ∧
      child.claims.authTime = parent.claims.authTime

/-- The entry descends from the login, within the age that a refresh allows. -/
structure DescendsFrom (issued : List IssuedToken) (login entry : IssuedToken) : Prop where
  login_mem : login ∈ issued
  login_parent : login.parent = none
  chain : Relation.ReflTransGen (Renews issued) login entry
  sub : entry.claims.sub = login.claims.sub
  ver : entry.claims.ver = login.claims.ver
  authTime : entry.claims.authTime = some (login.time / second)
  time_le : entry.time ≤ login.time + AuthService.refreshMaxAgeDays * 86400 * second

/-- What holds of every entry of the log. -/
structure Entry (s : SessionState) (entry : IssuedToken) : Prop where
  time_le : entry.time ≤ s.now
  sub : ∃ userId, entry.claims.sub = some userId
  ver : ∃ version, entry.claims.ver = some version
  exp : entry.claims.exp =
    some ((entry.time + AuthService.accessTokenHours * 3600 * second) / second)
  login : ∃ login, DescendsFrom s.issued login entry

/-- The invariant of the log. -/
def Bounded (s : SessionState) : Prop := ∀ entry ∈ s.issued, Entry s entry

variable {B : AuthBackend} {s t : SessionState} {event : SessionEvent} {events : List SessionEvent}

/-! ## One step -/

theorem Renews.mono {issued more : List IssuedToken} (h : ∀ entry ∈ issued, entry ∈ more)
    {parent child : IssuedToken} (hrenews : Renews issued parent child) :
    Renews more parent child :=
  ⟨h child hrenews.1, hrenews.2⟩

theorem DescendsFrom.mono {issued more : List IssuedToken} (h : ∀ entry ∈ issued, entry ∈ more)
    {login entry : IssuedToken} (hdescends : DescendsFrom issued login entry) :
    DescendsFrom more login entry :=
  { hdescends with
    login_mem := h login hdescends.login_mem
    chain := hdescends.chain.lift id fun _ _ => Renews.mono h }

/-- An entry stays what it is when the clock does not go back and the log grows. -/
theorem Entry.mono (hnow : s.now ≤ t.now) (h : ∀ entry ∈ s.issued, entry ∈ t.issued)
    {entry : IssuedToken} (hentry : Entry s entry) : Entry t entry :=
  { hentry with
    time_le := hentry.time_le.trans hnow
    login := hentry.login.imp fun _ => DescendsFrom.mono h }

/-- The token of a login starts a session. -/
theorem entry_login (s : SessionState) (user : Account) (accounts : Accounts) :
    Entry (SessionState.issue { s with accounts } user none none)
      { claims := AuthService.accessClaims s.now user none
        time := s.now } where
  time_le := le_refl s.now
  sub := ⟨_, rfl⟩
  ver := ⟨_, rfl⟩
  exp := rfl
  login :=
    ⟨_, {
      login_mem := List.mem_cons_self ..
      login_parent := rfl
      chain := .refl
      sub := rfl
      ver := rfl
      authTime := rfl
      time_le := le_add_of_nonneg_right (by decide) }⟩

/-- What `refresh_jwt_token` checked, for a token of the log. -/
theorem refresh_checks {parent : IssuedToken} {user : Account} {authTime : ℤ}
    (hparent : Entry s parent)
    (hrefresh : AuthService.refreshJwtToken s.now s.accounts (.signed parent.claims) =
      .ok (AuthService.generateJwtToken s.now user (some authTime))) :
    parent.claims.sub = some user.id ∧ parent.claims.ver = some (user.tokenVersion : ℤ) ∧
      parent.claims.authTime = some authTime ∧
        s.now - authTime * second ≤ AuthService.refreshMaxAgeDays * 86400 * second := by
  obtain ⟨claims, found, issuedAt, hdecode, -, hsub, -, hfound, heq⟩ :=
    AuthService.refreshJwtToken_eq_ok.mp hrefresh
  obtain ⟨hclaims, -⟩ := Token.decode_eq_some.mp hdecode
  obtain rfl : parent.claims = claims := Option.some.inj hclaims
  obtain ⟨-, -, hver, htime, hage⟩ := AuthService.refreshUser_eq_ok.mp hfound
  have hissued := Token.signed.inj heq
  have huser : user.id = found.id := Option.some.inj (congrArg Claims.sub hissued)
  have hversion : (user.tokenVersion : ℤ) = found.tokenVersion :=
    Option.some.inj (congrArg Claims.ver hissued)
  obtain rfl : authTime = issuedAt := Option.some.inj (congrArg Claims.authTime hissued)
  obtain ⟨login, hlogin⟩ := hparent.login
  obtain ⟨version, hsome⟩ := hparent.ver
  rw [hsome, Option.getD_some] at hver
  rw [hlogin.authTime, Option.some_or] at htime
  exact ⟨huser ▸ hsub, by rw [hsome, hver, hversion], hlogin.authTime.trans htime, hage⟩

/-- The token of a refresh continues the session of the token it was issued for. -/
theorem entry_refresh {parent : IssuedToken} {user : Account} {authTime : ℤ}
    (hissued : parent ∈ s.issued) (hparent : Entry s parent)
    (hrefresh : AuthService.refreshJwtToken s.now s.accounts (.signed parent.claims) =
      .ok (AuthService.generateJwtToken s.now user (some authTime))) :
    Entry (s.issue user (some authTime) (some parent.claims))
      { claims := AuthService.accessClaims s.now user (some authTime)
        time := s.now
        parent := some parent.claims } := by
  obtain ⟨hsub, hver, htime, hage⟩ := refresh_checks hparent hrefresh
  obtain ⟨login, hlogin⟩ := hparent.login
  have hmono := hlogin.mono fun entry hentry =>
    List.mem_cons_of_mem { claims := AuthService.accessClaims s.now user (some authTime)
                           time := s.now
                           parent := some parent.claims } hentry
  have hlink : Renews (s.issue user (some authTime) (some parent.claims)).issued parent
      { claims := AuthService.accessClaims s.now user (some authTime)
        time := s.now
        parent := some parent.claims } :=
    ⟨List.mem_cons_self .., rfl, hparent.time_le, hsub.symm, hver.symm, htime.symm⟩
  -- the second of the login is at most its time, so the age check bounds the distance to it
  have hsecond : authTime * second ≤ login.time := by
    rw [hlogin.authTime] at htime
    obtain rfl := Option.some.inj htime
    exact Int.ediv_mul_le _ (by decide)
  exact {
    time_le := le_refl s.now
    sub := ⟨_, rfl⟩
    ver := ⟨_, rfl⟩
    exp := rfl
    login := ⟨login, { hmono with
      chain := hmono.chain.tail hlink
      sub := hsub.symm.trans hlogin.sub
      ver := hver.symm.trans hlogin.ver
      authTime := htime.symm.trans hlogin.authTime
      time_le := by
        show s.now ≤ _
        linarith }⟩ }

/-- The invariant is kept when the clock goes on and an entry that belongs to the log is
added. -/
theorem Bounded.issue {user : Account} {authTime : Option ℤ} {parent : Option Claims}
    (hs : Bounded s)
    (hentry : Entry (s.issue user authTime parent)
      { claims := AuthService.accessClaims s.now user authTime
        time := s.now
        parent }) : Bounded (s.issue user authTime parent) := by
  rintro entry (_ | ⟨_, hold⟩)
  · exact hentry
  · refine Entry.mono (t := s.issue user authTime parent) (le_refl s.now) ?_ (hs entry hold)
    exact fun _ h => List.mem_cons_of_mem _ h

theorem Bounded.mono (hs : Bounded s) (hnow : s.now ≤ t.now) (h : t.issued = s.issued) :
    Bounded t := by
  intro entry hentry
  refine Entry.mono hnow (fun _ hold => h ▸ hold) (hs entry (h ▸ hentry))

/-- One event keeps the invariant of the log. -/
theorem bounded_step (h : SessionStep B s event t) (hs : Bounded s) : Bounded t := by
  cases h with
  | wait hnow => exact hs.mono hnow rfl
  | update => exact hs.mono (le_refl _) rfl
  | register _ =>
      refine Bounded.issue (hs.mono (le_refl _) rfl) ?_
      exact entry_login s _ _
  | login _ => exact hs.issue (entry_login s _ s.accounts)
  | refresh hissued hrefresh => exact hs.issue (entry_refresh hissued (hs _ hissued) hrefresh)

/-! ## A whole run -/

theorem bounded_run {accounts : Accounts} {now : Time}
    (run : Run (SessionStep B) { accounts, now } events s) : Bounded s :=
  run.invariant (fun _ h => by cases h) fun _ _ _ hs hstep => bounded_step hstep hs

/-- A token that is accepted descends from a login of its user, and is accepted for no
longer than the ages of a refresh and of an access token allow. -/
theorem bounded_session {accounts : Accounts} {now : Time}
    (run : Run (SessionStep B) { accounts, now } events s) {entry : IssuedToken}
    (hentry : entry ∈ s.issued) {T : Time} {stored : Accounts} {user : Account}
    (haccept : JudgeLoomAuth.authenticate T stored (.signed entry.claims) = some user) :
    ∃ login, DescendsFrom s.issued login entry ∧ login.claims.sub = some user.id ∧
      login.claims.ver = some (user.tokenVersion : ℤ) ∧
        entry.claims.authTime = some (login.time / second) ∧
          T ≤ login.time + (30 * 86400 + 3600) * second := by
  obtain ⟨login, hlogin⟩ := (bounded_run run entry hentry).login
  have hexp := (bounded_run run entry hentry).exp
  obtain ⟨version, hver⟩ := (bounded_run run entry hentry).ver
  obtain ⟨claims, hdecode, -, hsub, -, -, -, hversion⟩ :=
    JudgeLoomAuth.authenticate_eq_some.mp haccept
  obtain ⟨hclaims, -, hlive⟩ := Token.decode_eq_some.mp hdecode
  obtain rfl : entry.claims = claims := Option.some.inj hclaims
  have hsome : entry.claims.sub = some user.id := by
    obtain ⟨userId, hlink⟩ := (bounded_run run entry hentry).sub
    rw [hlink, Option.some_or] at hsub
    rw [hlink, hsub]
  rw [hver, Option.getD_some] at hversion
  refine ⟨login, hlogin, hlogin.sub ▸ hsome, hlogin.ver ▸ (hversion ▸ hver), hlogin.authTime, ?_⟩
  have hend : T < (entry.time + AuthService.accessTokenHours * 3600 * second) / second * second :=
    hlive _ hexp
  have hfloor := Int.ediv_mul_le (entry.time + AuthService.accessTokenHours * 3600 * second)
    (show second ≠ 0 by decide)
  have hage := hlogin.time_le
  simp only [AuthService.accessTokenHours, AuthService.refreshMaxAgeDays] at hfloor hend hage
  linarith

/-! A login, a refresh half an hour later, and a request after that. -/

def sampleAccount : Account where
  id := 1
  username := "user"
  email := "user@example.org"
  password := "a long password"

def sampleUsers : Accounts := (∅ : Accounts).save sampleAccount

/-- The token of the login. -/
def firstToken : IssuedToken where
  claims := AuthService.accessClaims 0 sampleAccount none
  time := 0

/-- The token of the refresh. -/
def secondToken : IssuedToken where
  claims := AuthService.accessClaims (1800 * second) sampleAccount (some 0)
  time := 1800 * second
  parent := some firstToken.claims

def sampleSession (now : Time) (issued : List IssuedToken) : SessionState where
  accounts := sampleUsers
  now
  issued

theorem sampleSession_run :
    Run (SessionStep .plain) (sampleSession 0 [])
      [.login "user" "a long password", .wait (1800 * second), .refresh (.signed firstToken.claims)]
      (sampleSession (1800 * second) [secondToken, firstToken]) := by
  have hlogin : SessionStep .plain (sampleSession 0 []) (.login "user" "a long password")
      (sampleSession 0 [firstToken]) :=
    SessionStep.login (by decide +kernel : _ = some sampleAccount)
  have hwait : SessionStep .plain (sampleSession 0 [firstToken]) (.wait (1800 * second))
      (sampleSession (1800 * second) [firstToken]) :=
    SessionStep.wait (by decide)
  have hissued : firstToken ∈ (sampleSession (1800 * second) [firstToken]).issued :=
    List.mem_singleton_self _
  have hrefresh : SessionStep .plain (sampleSession (1800 * second) [firstToken])
      (.refresh (.signed firstToken.claims))
      (sampleSession (1800 * second) [secondToken, firstToken]) :=
    SessionStep.refresh hissued (by rfl)
  exact .snoc (.snoc (.single hlogin) hwait) hrefresh

theorem bounded_session_secondToken :
    ∃ login, DescendsFrom [secondToken, firstToken] login secondToken ∧
      login.claims.sub = some 1 ∧ login.claims.ver = some 0 ∧
        secondToken.claims.authTime = some (login.time / second) ∧
          5000 * second ≤ login.time + (30 * 86400 + 3600) * second :=
  bounded_session sampleSession_run (List.mem_cons_self ..)
    (show JudgeLoomAuth.authenticate (5000 * second) sampleUsers (.signed secondToken.claims) =
      some sampleAccount by decide +kernel)

end JudgeLoom
