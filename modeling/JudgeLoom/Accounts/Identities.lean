import JudgeLoom.Accounts.AuthService
import JudgeLoom.Library.Run

/-!
# Whether login identities are unambiguous

Registrations, password changes, bans and unbans, one at a time.  `authenticate` looks
an identity up among the usernames first and among the emails second, but
`create_user` compares the new username with usernames only and the new email with
emails only, and it compares the username before Django normalizes it.  A username
may therefore be the email of someone else, whose email then finds the wrong account
(`shadowed_email`).

`Unambiguous` is the condition that excludes this: what the call stores has no outer
white space and matches no stored username or email.  In the runs whose registrations
all meet it, the stored identities are pairwise distinct (`Distinct`), and everyone
logs in with either of them (`loginsWork_run`).
-/

namespace JudgeLoom

open AuthService

/-- The calls that change who can log in. -/
inductive IdentityCall
  | createUser (salt username email password : String)
  | changePassword (user : ℕ) (salt oldPassword newPassword : String)
  | banUser (user : ℕ) (reason : String)
  | unbanUser (user : ℕ)

/-- The users, and the password that each of them chose last. -/
structure IdentityState where
  accounts : Accounts := ∅
  passwords : ℕ → String := fun _ => ""

namespace IdentityState

variable (B : AuthBackend) (s : IdentityState)

/-- The saved row of a user and the password that the user chose with it. -/
def choose (account : Account) (password : String) : IdentityState where
  accounts := s.accounts.save account
  passwords := Function.update s.passwords account.id password

/-- One call; a rejected one changes nothing. -/
def step : IdentityCall → IdentityState
  | .createUser salt username email password =>
      match createUser B salt s.accounts username email password with
      | .error _ => s
      | .ok account => s.choose account password
  | .changePassword user salt oldPassword newPassword =>
      match s.accounts.get? user with
      | none => s
      | some row =>
          match changePassword B salt row oldPassword newPassword with
          | .error _ => s
          | .ok saved => s.choose saved newPassword
  | .banUser user reason =>
      match s.accounts.get? user with
      | none => s
      | some row => { s with accounts := s.accounts.save (banUser row reason) }
  | .unbanUser user =>
      match s.accounts.get? user with
      | none => s
      | some row => { s with accounts := s.accounts.save (unbanUser row) }

end IdentityState

/-- Every active user who is not banned logs in with the username and with the email. -/
def LoginsWork (B : AuthBackend) (s : IdentityState) : Prop :=
  ∀ account ∈ s.accounts.rows, account.isActive = true → account.isBanned = false →
    authenticate B s.accounts account.username (s.passwords account.id) = some account ∧
      authenticate B s.accounts account.email (s.passwords account.id) = some account

/-- The username that `create_user` stores. -/
def storedUsername (B : AuthBackend) (username : String) : String :=
  B.normalizeUsername (strip username)

/-- The email that `create_user` stores. -/
def storedEmail (B : AuthBackend) (email : String) : String :=
  B.normalizeEmail (B.lower (strip email))

/-- The identities match neither the username nor the email of the account. -/
def Apart (B : AuthBackend) (account : Account) (username email : String) : Prop :=
  ∀ stored ∈ [account.username, account.email], ∀ identity ∈ [username, email],
    B.iexact stored identity = false

/-- An accepted registration stores identities without outer white space that match
none of the stored ones. -/
def Unambiguous (B : AuthBackend) (s : IdentityState) : IdentityCall → Prop
  | .createUser salt username email password =>
      (createUser B salt s.accounts username email password).isOk = true →
        strip (storedUsername B username) = storedUsername B username ∧
          strip (storedEmail B email) = storedEmail B email ∧
            ∀ account ∈ s.accounts.rows,
              Apart B account (storedUsername B username) (storedEmail B email)
  | _ => True

/-- The invariant of one account. -/
structure Identified (B : AuthBackend) (s : IdentityState) (account : Account) : Prop where
  strip_username : strip account.username = account.username
  strip_email : strip account.email = account.email
  username_ne : account.username ≠ ""
  email_ne : account.email ≠ ""
  password_ne : s.passwords account.id ≠ ""
  checkPassword : B.checkPassword (s.passwords account.id) account.password = true

/-- The invariant: the stored identities are usable and pairwise distinct. -/
structure Distinct (B : AuthBackend) (s : IdentityState) : Prop where
  identified : ∀ account ∈ s.accounts.rows, Identified B s account
  apart : ∀ account ∈ s.accounts.rows, ∀ other ∈ s.accounts.rows, account.id ≠ other.id →
    Apart B account other.username other.email

variable {B : AuthBackend} {s : IdentityState}

/-! ## Looking an identity up -/

theorem AuthBackend.iexact_self (identity : String) : B.iexact identity identity = true := by
  simp [AuthBackend.iexact]

/-- The first of rows that are all one account. -/
theorem Query.Order.head?_arrange {α : Type*} (order : Query.Order α) {rows : List α} {row : α}
    (hmem : row ∈ rows) (hall : ∀ other ∈ rows, other = row) :
    (order.arrange rows).head? = some row := by
  cases harranged : order.arrange rows with
  | nil =>
      have hperm := order.perm rows
      rw [harranged] at hperm
      exact absurd (hperm.mem_iff.mpr hmem) (by simp)
  | cons head rest =>
      have hhead : head ∈ rows := by
        refine (order.perm rows).mem_iff.mp ?_
        rw [harranged]
        exact List.mem_cons_self ..
      rw [List.head?_cons, hall head hhead]

theorem Query.Order.head?_arrange_nil {α : Type*} (order : Query.Order α) :
    (order.arrange []).head? = none := by
  rw [(order.perm []).eq_nil]
  rfl

section Lookup

variable {account : Account} {identity : String}

/-- The only account that passes a test is the first one that does. -/
theorem head?_arrange_of_unique {order : Query.Order Account} {accounts : Accounts}
    {test : Account → Bool} (haccount : account ∈ accounts.rows) (hmatch : test account = true)
    (hother : ∀ other ∈ accounts.rows, other.id ≠ account.id → test other = false) :
    (order.arrange (accounts.rows.filter test)).head? = some account := by
  refine Query.Order.head?_arrange _ (List.mem_filter.mpr ⟨haccount, hmatch⟩) fun other hmem => ?_
  obtain ⟨hrow, hsame⟩ := List.mem_filter.mp hmem
  by_contra hne
  have hid : other.id ≠ account.id := fun heq => hne (accounts.key_injOn hrow haccount heq)
  rw [hother other hrow hid] at hsame
  cases hsame

/-- A username that no other account has. -/
theorem byUsername?_eq_some {accounts : Accounts} (haccount : account ∈ accounts.rows)
    (hmatch : B.iexact account.username identity = true)
    (hother : ∀ other ∈ accounts.rows, other.id ≠ account.id →
      B.iexact other.username identity = false) :
    B.byUsername? accounts identity = some account :=
  head?_arrange_of_unique haccount hmatch hother

theorem byUsername?_eq_none {accounts : Accounts}
    (hnone : ∀ other ∈ accounts.rows, B.iexact other.username identity = false) :
    B.byUsername? accounts identity = none := by
  have hfilter : (accounts.rows.filter fun row => B.iexact row.username identity) = [] := by
    simpa [List.filter_eq_nil_iff] using hnone
  rw [AuthBackend.byUsername?, hfilter, Query.Order.head?_arrange_nil]

/-- An email that no other account has. -/
theorem byEmail?_eq_some {accounts : Accounts} (haccount : account ∈ accounts.rows)
    (hmatch : B.iexact account.email identity = true)
    (hother : ∀ other ∈ accounts.rows, other.id ≠ account.id →
      B.iexact other.email identity = false) :
    B.byEmail? accounts identity = some account :=
  head?_arrange_of_unique haccount hmatch hother

end Lookup

/-- Distinct identities find their account. -/
theorem loginsWork_of_distinct (hs : Distinct B s) : LoginsWork B s := by
  intro account haccount hactive hbanned
  have hself := hs.identified account haccount
  have hlogin : checkLogin B account (s.passwords account.id) = some account := by
    simp [checkLogin, hactive, hbanned, hself.checkPassword]
  have husernames : ∀ identity ∈ [account.username, account.email], ∀ other ∈ s.accounts.rows,
      other.id ≠ account.id → B.iexact other.username identity = false := by
    intro identity hidentity other hother hid
    exact hs.apart other hother account haccount hid _ (by simp) identity hidentity
  constructor
  · have hfound := byUsername?_eq_some haccount (AuthBackend.iexact_self account.username)
      (husernames _ (by simp))
    simp only [authenticate, hself.strip_username, hself.username_ne, hself.password_ne, or_self,
      if_false, hfound, Option.some_or, hlogin]
  · have hfound : (B.byUsername? s.accounts account.email).or
        (B.byEmail? s.accounts account.email) = some account := by
      -- the account's own username may be the email as well
      cases hown : B.iexact account.username account.email with
      | true =>
          rw [byUsername?_eq_some haccount hown (husernames _ (by simp)), Option.some_or]
      | false =>
          rw [byUsername?_eq_none, Option.none_or]
          · refine byEmail?_eq_some haccount (AuthBackend.iexact_self account.email) ?_
            intro other hother hid
            exact hs.apart other hother account haccount hid _ (by simp) _ (by simp)
          · intro other hother
            by_cases hid : other.id = account.id
            · rw [s.accounts.key_injOn hother haccount hid, hown]
            · exact husernames _ (by simp) other hother hid
    simp only [authenticate, hself.strip_email, hself.email_ne, hself.password_ne, or_self,
      if_false, hfound, hlogin]

/-! ## Saving an account -/

theorem AuthBackend.iexact_comm (first second : String) :
    B.iexact first second = B.iexact second first := by
  simp [AuthBackend.iexact, eq_comm]

theorem Apart.symm {account other : Account} (h : Apart B account other.username other.email) :
    Apart B other account.username account.email := by
  intro stored hstored identity hidentity
  rw [AuthBackend.iexact_comm]
  exact h identity hidentity stored hstored

/-- Saving an account whose identities match no other account keeps the invariant. -/
theorem Distinct.save (hs : Distinct B s) {saved : Account} {passwords : ℕ → String}
    (hself : Identified B { accounts := s.accounts.save saved, passwords } saved)
    (hapart : ∀ account ∈ s.accounts.rows, account.id ≠ saved.id →
      Apart B account saved.username saved.email)
    (hpasswords : ∀ user, user ≠ saved.id → passwords user = s.passwords user) :
    Distinct B { accounts := s.accounts.save saved, passwords } := by
  constructor
  · intro account haccount
    rcases Table.mem_save_iff.mp haccount with rfl | ⟨hold, hid⟩
    · exact hself
    · have hidentified := hs.identified account hold
      have hpassword := hpasswords account.id hid
      exact { hidentified with
        password_ne := by
          show passwords account.id ≠ ""
          rw [hpassword]
          exact hidentified.password_ne
        checkPassword := by
          show B.checkPassword (passwords account.id) account.password = true
          rw [hpassword]
          exact hidentified.checkPassword }
  · intro account haccount other hother hid
    rcases Table.mem_save_iff.mp haccount with rfl | ⟨hold, hne⟩
    · rcases Table.mem_save_iff.mp hother with rfl | ⟨hotherOld, hotherNe⟩
      · exact absurd rfl hid
      · exact (hapart other hotherOld hotherNe).symm
    · rcases Table.mem_save_iff.mp hother with rfl | ⟨hotherOld, hotherNe⟩
      · exact hapart account hold hne
      · exact hs.apart account hold other hotherOld hid

/-- Saving an account with the identities that it had keeps the invariant. -/
theorem Distinct.resave (hs : Distinct B s) {row saved : Account} {passwords : ℕ → String}
    (hrow : row ∈ s.accounts.rows) (hid : saved.id = row.id)
    (husername : saved.username = row.username) (hemail : saved.email = row.email)
    (hpassword : passwords saved.id ≠ "" ∧
      B.checkPassword (passwords saved.id) saved.password = true)
    (hpasswords : ∀ user, user ≠ saved.id → passwords user = s.passwords user) :
    Distinct B { accounts := s.accounts.save saved, passwords } := by
  have hidentified := hs.identified row hrow
  refine hs.save ?_ (fun account haccount hne => ?_) hpasswords
  · exact {
      strip_username := husername ▸ hidentified.strip_username
      strip_email := hemail ▸ hidentified.strip_email
      username_ne := husername ▸ hidentified.username_ne
      email_ne := hemail ▸ hidentified.email_ne
      password_ne := hpassword.1
      checkPassword := hpassword.2 }
  · rw [husername, hemail]
    exact hs.apart account haccount row hrow (hid ▸ hne)

/-! ## One call -/

theorem normalizeEmail_ne_empty {email : String} (h : email ≠ "") : B.normalizeEmail email ≠ "" := by
  unfold AuthBackend.normalizeEmail
  dsimp only
  split
  · exact h
  · next hname =>
      intro hempty
      have hlength := congrArg String.toList hempty
      rw [String.toList_append, String.toList_ofList] at hlength
      simp only [String.toList_empty, List.append_eq_nil_iff] at hlength
      exact hname (List.isEmpty_iff.mpr hlength.1)

theorem createUser_eq_ok {salt username email password : String} {accounts : Accounts}
    {account : Account} (h : createUser B salt accounts username email password = .ok account) :
    account = newAccount B salt accounts.nextKey (strip username) (B.lower (strip email)) password ∧
      strip username ≠ "" ∧ B.lower (strip email) ≠ "" ∧ password ≠ "" := by
  unfold createUser at h
  dsimp only at h
  split_ifs at h with husername hemail hlength _ _ hstorable
  · obtain ⟨_, -, hstored⟩ := Except.bind_eq_ok.mp h
    refine ⟨(Except.ok.inj hstored).symm, husername, hemail, ?_⟩
    rintro rfl
    exact hlength (by decide)
  · obtain ⟨_, -, hrejected⟩ := Except.bind_eq_ok.mp h
    cases hrejected

/-- An unambiguous call keeps the invariant. -/
theorem distinct_step {call : IdentityCall} (hs : Distinct B s) (hcall : Unambiguous B s call) :
    Distinct B (s.step B call) := by
  cases call with
  | createUser salt username email password =>
      cases hcreate : createUser B salt s.accounts username email password with
      | error error => simpa only [IdentityState.step, hcreate] using hs
      | ok account =>
          simp only [IdentityState.step, hcreate]
          have haccepted : (createUser B salt s.accounts username email password).isOk = true := by
            rw [hcreate]
            rfl
          obtain ⟨hstripUsername, hstripEmail, hapart⟩ := hcall haccepted
          obtain ⟨haccount, husername, hemail, hpassword⟩ := createUser_eq_ok hcreate
          have hchosen : Function.update s.passwords account.id password account.id = password :=
            Function.update_self ..
          have hstored : account.username = storedUsername B username ∧
              account.email = storedEmail B email := by
            rw [haccount, username_newAccount, email_newAccount]
            exact ⟨rfl, rfl⟩
          refine hs.save ?_ (fun other hother _ => ?_) fun user huser => ?_
          · exact {
              strip_username := by rw [hstored.1, hstripUsername]
              strip_email := by rw [hstored.2, hstripEmail]
              username_ne := by
                rw [hstored.1]
                exact B.normalizeUsername_ne_empty _ husername
              email_ne := by
                rw [hstored.2]
                exact normalizeEmail_ne_empty hemail
              password_ne := by
                show Function.update s.passwords account.id password account.id ≠ ""
                rwa [hchosen]
              checkPassword := by
                show B.checkPassword (Function.update s.passwords account.id password account.id)
                  account.password = true
                rw [hchosen, haccount, password_newAccount]
                exact B.checkPassword_makePassword salt password }
          · rw [hstored.1, hstored.2]
            exact hapart other hother
          · exact Function.update_of_ne huser ..
  | changePassword user salt oldPassword newPassword =>
      cases hrow : s.accounts.get? user with
      | none => simpa only [IdentityState.step, hrow] using hs
      | some row =>
          cases hchange : changePassword B salt row oldPassword newPassword with
          | error error => simpa only [IdentityState.step, hrow, hchange] using hs
          | ok saved =>
              simp only [IdentityState.step, hrow, hchange]
              obtain ⟨rfl, hpassword⟩ := changePassword_eq_ok hchange
              have hchosen : Function.update s.passwords row.id newPassword row.id = newPassword :=
                Function.update_self ..
              refine hs.resave (Table.mem_of_get? hrow) rfl rfl rfl ⟨?_, ?_⟩ fun user huser => ?_
              · rwa [hchosen]
              · rw [hchosen]
                exact B.checkPassword_makePassword salt newPassword
              · exact Function.update_of_ne huser ..
  | banUser user reason =>
      cases hrow : s.accounts.get? user with
      | none => simpa only [IdentityState.step, hrow] using hs
      | some row =>
          have hidentified := hs.identified row (Table.mem_of_get? hrow)
          simp only [IdentityState.step, hrow]
          exact hs.resave (Table.mem_of_get? hrow) rfl rfl rfl
            ⟨hidentified.password_ne, hidentified.checkPassword⟩ fun _ _ => rfl
  | unbanUser user =>
      cases hrow : s.accounts.get? user with
      | none => simpa only [IdentityState.step, hrow] using hs
      | some row =>
          have hidentified := hs.identified row (Table.mem_of_get? hrow)
          simp only [IdentityState.step, hrow]
          exact hs.resave (Table.mem_of_get? hrow) rfl rfl rfl
            ⟨hidentified.password_ne, hidentified.checkPassword⟩ fun _ _ => rfl

/-- In every run of unambiguous calls, everyone logs in with either identity. -/
theorem loginsWork_run {calls : List IdentityCall}
    (run : Run (fun s call t => Unambiguous B s call ∧ t = s.step B call) {} calls s) :
    LoginsWork B s := by
  refine loginsWork_of_distinct (run.invariant ⟨by simp, by simp⟩ ?_)
  rintro s call t hs ⟨hcall, rfl⟩
  exact distinct_step hs hcall

/-- Two registrations with identities of their own. -/
theorem loginsWork_run_registrations :
    LoginsWork .plain
      (IdentityState.step .plain
        (IdentityState.step .plain {} (.createUser "salt" "first" "a@example.org" "a long password"))
        (.createUser "salt" "second" "b@example.org" "another password")) := by
  refine loginsWork_run (.snoc (.single ⟨?_, rfl⟩) ⟨?_, rfl⟩)
  · intro _
    refine ⟨by decide +kernel, by decide +kernel, ?_⟩
    unfold Apart
    decide +kernel
  · intro _
    refine ⟨by decide +kernel, by decide +kernel, ?_⟩
    unfold Apart
    decide +kernel

/-! ## A username that is an email -/

/-- Two registrations; the first takes as username the email of the second. -/
def shadowing : List IdentityCall :=
  [.createUser "salt" "b@example.org" "a@example.org" "a long password",
    .createUser "salt" "user" "b@example.org" "another password"]

/-- The second user cannot log in with the email. -/
theorem shadowed_email : ¬ LoginsWork .plain (shadowing.foldl (IdentityState.step .plain) {}) := by
  have hrejected : ¬ ∀ account ∈ (shadowing.foldl (IdentityState.step .plain) {}).accounts.rows,
      account.isActive = true → account.isBanned = false →
        authenticate .plain (shadowing.foldl (IdentityState.step .plain) {}).accounts account.email
          ((shadowing.foldl (IdentityState.step .plain) {}).passwords account.id) =
            some account := by
    decide +kernel
  intro hworks
  exact hrejected fun account haccount hactive hbanned =>
    (hworks account haccount hactive hbanned).2

end JudgeLoom
