import JudgeLoom.Contests.Access
import JudgeLoom.Library.ReadCommitted

/-!
# Entering a contest

`join_contest` and `start_virtual` as transactions, statement by statement.  Both look
for a participation of the user first and create one if there is none.  Neither locks
anything in between, and the unique constraint on the contest, the user and the start
keeps two virtual participations apart only if they start at the same moment; live
ones have no start, and NULLs are pairwise distinct.

`EntryCall.Effect` says what a committed call did.  A call that found nothing creates
a row, so a run keeps one participation of each mode exactly if every look-up that
found nothing is still right when its transaction commits (`one_participation_iff`);
`two_live` is a run of two joins of one user that look before either commits.
-/

namespace JudgeLoom

open Transaction KeyedStore

/-! ## The tables as a store -/

/-- The participations and the unique index on their contest, user and start. -/
structure EntryTables where
  participations : Table ParticipationRow ParticipationRow.id := ∅
  starts : ℕ × ℕ × Time → Option ℕ := fun _ => none

/-- The primary keys of participations, and the unique index. -/
inductive EntryKey
  | participation (id : ℕ)
  | start (contest user : ℕ) (virtualStart : Time)
  deriving DecidableEq

/-- The rows of a key. -/
abbrev EntryKey.Row : EntryKey → Type
  | participation id => {row : ParticipationRow // row.id = id}
  | start _ _ _ => ℕ

namespace EntryTables

/-- The row of a key. -/
def row? (db : EntryTables) : (key : EntryKey) → Option key.Row
  | .participation id => db.participations.row? id
  | .start contest user virtualStart => db.starts (contest, user, virtualStart)

/-- Insert or replace the row of a key. -/
def setRow (db : EntryTables) : (key : EntryKey) → key.Row → EntryTables
  | .participation _, row => { db with participations := db.participations.save row.1 }
  | .start contest user virtualStart, id =>
      { db with starts := Function.update db.starts (contest, user, virtualStart) (some id) }

instance : KeyedStore EntryTables EntryKey EntryKey.Row where
  get? := row?
  set := setRow
  get?_set_self := by
    rintro db (id | ⟨contest, user, virtualStart⟩) row
    · exact Table.row?_save_self _ row
    · exact Function.update_self ..
  get?_set_of_ne := by
    rintro db (id | ⟨contest, user, virtualStart⟩) row (other | ⟨contest', user', start'⟩) hne
    case participation.participation =>
      exact Table.row?_save_of_ne _ fun heq => hne (by rw [heq, row.2])
    case start.start =>
      refine Function.update_of_ne (fun heq => hne ?_) ..
      simp only [Prod.mk.injEq] at heq
      rw [heq.1, heq.2.1, heq.2.2]
    all_goals rfl

/-- The participations of a user in a contest, in one mode. -/
def ofUser (db : EntryTables) (contest user : ℕ) (status : ParticipationStatus) :
    List ParticipationRow :=
  db.participations.rows.filter fun row =>
    decide (row.contest = contest) && decide (row.user = user) && decide (row.status = status)

/-- The look-up of `get_or_create`: live, and without a start. -/
def joined (db : EntryTables) (contest user : ℕ) : List ParticipationRow :=
  (db.ofUser contest user .live).filter fun row => row.virtualStart = none

end EntryTables

/-- The queries of the two operations. -/
inductive EntryQuery
  /-- Whether the user may enter the contest. -/
  | access
  | live (contest user : ℕ)
  | virtual (contest user : ℕ)
  deriving DecidableEq

/-- A transaction on the participations. -/
abbrev EntryTransaction := Transaction EntryQuery EntryTables EntryKey.Row

/-- Any number of sessions that enter contests; each commit returns the primary key of
its participation. -/
abbrev EntrySystem (ι : Type) := System ι EntryQuery EntryTables EntryKey.Row ℕ

/-! ## The operations -/

/-- A request to enter a contest; `id` is the next value of the primary key. -/
structure EntryRequest where
  contest : ContestInfo
  user : RequestUser
  accessCode : Option String := none
  members : Memberships := []
  /-- The time of the access check. -/
  now : Time
  /-- The time of a virtual start. -/
  startNow : Time
  id : ℕ

/-- The row of a new participation. -/
def EntryRequest.participation (request : EntryRequest) (user : ℕ) (status : ParticipationStatus)
    (virtualStart : Option Time) : ParticipationRow where
  id := request.id
  contest := request.contest.id
  user
  status
  virtualStart

namespace EntryTransaction

/-- The access check, which reads the participations of a private contest. -/
def checkAccess (request : EntryRequest) (allowFinished : Bool) : EntryTransaction PUnit := do
  let allowed ← select .access fun db =>
    ContestService.canJoinContest
      { contests := (∅ : Table ContestInfo fun contest => contest.id).save request.contest
        participations := db.participations
        members := request.members }
      request.user request.contest request.now request.accessCode allowFinished
  match allowed with
  | .ok true => pure ⟨⟩
  | _ => .abort

/-- The entry of the unique index; a row without a start has none. -/
def indexStart (row : ParticipationRow) : EntryTransaction PUnit :=
  match row.virtualStart with
  | none => pure ⟨⟩
  | some virtualStart => create (.start row.contest row.user virtualStart) row.id

/-- `ContestParticipation.objects.create`. -/
def createParticipation (row : ParticipationRow) : EntryTransaction ℕ := do
  indexStart row
  create (.participation row.id) ⟨row, rfl⟩
  return row.id

/-- Join a contest in live mode. -/
def joinContest (request : EntryRequest) : EntryTransaction ℕ := do
  checkAccess request false
  match request.user with
  | .anonymous => .abort
  | .account user => do
      let found ← select (.live request.contest.id user.id) fun db =>
        db.joined request.contest.id user.id
      match found with
      | [row] => return row.id
      | [] => createParticipation (request.participation user.id .live none)
      -- `MultipleObjectsReturned`
      | _ => .abort

/-- Start virtual participation for a user. -/
def startVirtual (request : EntryRequest) : EntryTransaction ℕ := do
  if request.contest.timeLimit.getD 0 = 0 then .abort
  else do
    checkAccess request true
    match request.user with
    | .anonymous => .abort
    | .account user => do
        let existing ← select (.virtual request.contest.id user.id) fun db =>
          db.ofUser request.contest.id user.id .virtual
        match existing.head? with
        | some row => return row.id
        | none =>
            createParticipation (request.participation user.id .virtual (some request.startNow))

end EntryTransaction

/-- A call of one of the two operations. -/
inductive EntryCall
  | joinContest (request : EntryRequest)
  | startVirtual (request : EntryRequest)

/-- The call as a transaction. -/
def EntryCall.program : EntryCall → EntryTransaction ℕ
  | joinContest request => .joinContest request
  | startVirtual request => .startVirtual request

/-! ## What a committed call did -/

namespace EntryTables

/-- The tables with a new participation. -/
def create (db : EntryTables) (row : ParticipationRow) : EntryTables where
  participations := db.participations.save row
  starts :=
    match row.virtualStart with
    | none => db.starts
    | some virtualStart =>
        Function.update db.starts (row.contest, row.user, virtualStart) (some row.id)

end EntryTables

/-- What a call that is committed on version `n` returns, which queries it ran on which
version, and the tables after it. -/
inductive EntryCall.Effect (V : ℕ → EntryTables) (n : ℕ) :
    EntryCall → ℕ → List (EntryQuery × ℕ) → EntryTables → Prop
  /-- The user is in the contest already. -/
  | foundLive {request : EntryRequest} {user row : ℕ} {log : List (EntryQuery × ℕ)} {a m : ℕ}
      (log_eq : log = [(.access, a), (.live request.contest.id user, m)])
      (found : (V m).joined request.contest.id user ≠ []) :
      Effect V n (.joinContest request) row log (V n)
  | foundVirtual {request : EntryRequest} {user row : ℕ} {log : List (EntryQuery × ℕ)} {a m : ℕ}
      (log_eq : log = [(.access, a), (.virtual request.contest.id user, m)])
      (found : (V m).ofUser request.contest.id user .virtual ≠ []) :
      Effect V n (.startVirtual request) row log (V n)
  /-- A live participation is created. -/
  | joined {request : EntryRequest} {user : ℕ} {log : List (EntryQuery × ℕ)} {a m : ℕ} (hm : m ≤ n)
      (log_eq : log = [(.access, a), (.live request.contest.id user, m)])
      (none_found : (V m).joined request.contest.id user = [])
      (fresh : (V n).participations.get? request.id = none) :
      Effect V n (.joinContest request) request.id log
        ((V n).create (request.participation user .live none))
  /-- A virtual participation is created. -/
  | started {request : EntryRequest} {user : ℕ} {log : List (EntryQuery × ℕ)} {a m : ℕ} (hm : m ≤ n)
      (log_eq : log = [(.access, a), (.virtual request.contest.id user, m)])
      (none_found : (V m).ofUser request.contest.id user .virtual = [])
      (fresh : (V n).participations.get? request.id = none) :
      Effect V n (.startVirtual request) request.id log
        ((V n).create (request.participation user .virtual (some request.startNow)))

namespace EntryTransaction

variable {V : ℕ → EntryTables} {n : ℕ} {start final : Progress EntryQuery EntryKey.Row}

theorem yields_checkAccess {request : EntryRequest} {allowFinished : Bool} {result : PUnit}
    (h : (checkAccess request allowFinished).Yields V n start result final) :
    ∃ a, final = start.query .access a := by
  obtain ⟨allowed, queried, ⟨a, -, -, rfl⟩, h⟩ := yields_bind.mp h
  split at h
  · obtain ⟨-, rfl⟩ := h
    exact ⟨a, rfl⟩
  · exact absurd h id

theorem yields_createParticipation {row : ParticipationRow} {value : ℕ}
    (h : (createParticipation row).Yields V n start value final) :
    value = row.id ∧ (start.view (V n)).participations.get? row.id = none ∧
      final.log = start.log ∧ final.view (V n) = (start.view (V n)).create row := by
  obtain ⟨_, indexed, hindex, h⟩ := yields_bind.mp h
  obtain ⟨_, inserted, hinsert, h⟩ := yields_bind.mp h
  obtain ⟨hfresh, rfl⟩ := yields_create.mp hinsert
  obtain ⟨rfl, rfl⟩ := h
  cases hstart : row.virtualStart with
  | none =>
      simp only [indexStart, hstart] at hindex
      obtain ⟨-, rfl⟩ := hindex
      refine ⟨rfl, Table.row?_eq_none.mp hfresh, rfl, ?_⟩
      rw [Progress.view_write, EntryTables.create, hstart]
      rfl
  | some virtualStart =>
      simp only [indexStart, hstart] at hindex
      obtain ⟨-, rfl⟩ := yields_create.mp hindex
      rw [Progress.view_write] at hfresh
      refine ⟨rfl, Table.row?_eq_none.mp hfresh, rfl, ?_⟩
      rw [Progress.view_write, Progress.view_write, EntryTables.create, hstart]
      rfl

end EntryTransaction

theorem EntryCall.effect_of_yields {V : ℕ → EntryTables} {n value : ℕ} {call : EntryCall}
    {final : Progress EntryQuery EntryKey.Row} (h : call.program.Yields V n {} value final) :
    call.Effect V n value final.log (final.view (V n)) := by
  cases call with
  | joinContest request =>
      obtain ⟨_, checked, hcheck, h⟩ := yields_bind.mp h
      obtain ⟨a, rfl⟩ := EntryTransaction.yields_checkAccess hcheck
      cases huser : request.user with
      | anonymous =>
          simp only [huser] at h
          exact absurd h id
      | account user =>
          simp only [huser] at h
          obtain ⟨found, queried, ⟨m, hm, hfound, rfl⟩, h⟩ := yields_bind.mp h
          rw [Progress.view_query, Progress.view_nil] at hfound
          match found, hfound, h with
          | [], hfound, h =>
              obtain ⟨rfl, hfresh, hlog, hview⟩ :=
                EntryTransaction.yields_createParticipation h
              rw [hview]
              exact .joined hm hlog hfound hfresh
          | [row], hfound, h =>
              obtain ⟨rfl, rfl⟩ := h
              exact .foundLive rfl (ne_of_eq_of_ne hfound (List.cons_ne_nil _ _))
          | _ :: _ :: _, _, h => exact absurd h id
  | startVirtual request =>
      simp only [EntryCall.program, EntryTransaction.startVirtual] at h
      split_ifs at h with hlimit
      · exact absurd h id
      · obtain ⟨_, checked, hcheck, h⟩ := yields_bind.mp h
        obtain ⟨a, rfl⟩ := EntryTransaction.yields_checkAccess hcheck
        cases huser : request.user with
        | anonymous =>
            simp only [huser] at h
            exact absurd h id
        | account user =>
            simp only [huser] at h
            obtain ⟨existing, queried, ⟨m, hm, hfound, rfl⟩, h⟩ := yields_bind.mp h
            rw [Progress.view_query, Progress.view_nil] at hfound
            match existing, hfound, h with
            | [], hfound, h =>
                obtain ⟨rfl, hfresh, hlog, hview⟩ :=
                  EntryTransaction.yields_createParticipation h
                rw [hview]
                exact .started hm hlog hfound hfresh
            | row :: rest, hfound, h =>
                obtain ⟨rfl, rfl⟩ := h
                exact .foundVirtual rfl (ne_of_eq_of_ne hfound (List.cons_ne_nil _ _))

/-! ## One commit -/

namespace EntryTables

variable {db : EntryTables} {row : ParticipationRow} {contest user : ℕ}
  {status : ParticipationStatus}

/-- No user has two live or two virtual participations in a contest. -/
def OneEach (db : EntryTables) : Prop :=
  ∀ contest user, ∀ status ∈ [ParticipationStatus.live, .virtual],
    (db.ofUser contest user status).length ≤ 1

/-- Live participations have no start. -/
def LiveUnstarted (db : EntryTables) : Prop :=
  ∀ row ∈ db.participations.rows, row.status = .live → row.virtualStart = none

theorem joined_eq_ofUser (hlive : db.LiveUnstarted) :
    db.joined contest user = db.ofUser contest user .live := by
  refine List.filter_eq_self.mpr fun row hrow => ?_
  obtain ⟨hmem, hrow⟩ := List.mem_filter.mp hrow
  simp only [Bool.and_eq_true, decide_eq_true_eq] at hrow
  simpa using hlive row hmem hrow.2

/-- A new row is one more participation of its user, contest and mode. -/
theorem length_ofUser_create (hfresh : db.participations.get? row.id = none) :
    ((db.create row).ofUser contest user status).length =
      (db.ofUser contest user status).length +
        if row.contest = contest ∧ row.user = user ∧ row.status = status then 1 else 0 := by
  have hperm := (Table.perm_rows_save hfresh).filter fun row =>
    decide (row.contest = contest) && decide (row.user = user) && decide (row.status = status)
  have hlength := hperm.length_eq
  change ((db.create row).ofUser contest user status).length = _ at hlength
  rw [hlength, List.filter_cons]
  split_ifs with hsame hnames hnames
  · rfl
  · simp only [Bool.and_eq_true, decide_eq_true_eq, and_assoc] at hsame
    exact absurd hsame hnames
  · simp only [Bool.and_eq_true, decide_eq_true_eq, and_assoc] at hsame
    exact absurd hnames hsame
  · rfl

theorem LiveUnstarted.create (h : db.LiveUnstarted)
    (hrow : row.status = .live → row.virtualStart = none) : (db.create row).LiveUnstarted := by
  intro other hother hlive
  rcases Table.mem_save_iff.mp hother with rfl | ⟨hold, -⟩
  · exact hrow hlive
  · exact h other hold hlive

/-- A new row keeps one participation of each mode exactly if it is the first. -/
theorem OneEach.create_iff (h : db.OneEach) (hfresh : db.participations.get? row.id = none)
    (hstatus : row.status = .live ∨ row.status = .virtual) :
    (db.create row).OneEach ↔ db.ofUser row.contest row.user row.status = [] := by
  constructor
  · intro hone
    have hle := hone row.contest row.user row.status (by simpa using hstatus)
    rw [length_ofUser_create hfresh, if_pos ⟨rfl, rfl, rfl⟩] at hle
    exact List.eq_nil_of_length_eq_zero (by omega)
  · intro hnone contest user status hmode
    rw [length_ofUser_create hfresh]
    split_ifs with hsame
    · obtain ⟨rfl, rfl, rfl⟩ := hsame
      rw [hnone, List.length_nil]
    · exact h contest user status hmode

end EntryTables

/-- The participations that a query asked for. -/
def EntryQuery.rows (db : EntryTables) : EntryQuery → List ParticipationRow
  | access => []
  | live contest user => db.joined contest user
  | virtual contest user => db.ofUser contest user .virtual

/-- A look-up that found nothing would still find nothing. -/
def EntryQuery.Fresh (read current : EntryTables) (query : EntryQuery) : Prop :=
  query.rows read = [] → query.rows current = []

namespace EntryCall.Effect

variable {V : ℕ → EntryTables} {n value : ℕ} {call : EntryCall} {log : List (EntryQuery × ℕ)}
  {db : EntryTables}

theorem liveUnstarted (h : call.Effect V n value log db) (hlive : (V n).LiveUnstarted) :
    db.LiveUnstarted := by
  cases h with
  | foundLive => exact hlive
  | foundVirtual => exact hlive
  | joined => exact hlive.create fun _ => rfl
  | started => exact hlive.create fun hmode => by cases hmode

/-- A commit keeps one participation of each mode exactly if its look-up is fresh. -/
theorem oneEach_iff (h : call.Effect V n value log db) (hlive : (V n).LiveUnstarted)
    (hone : (V n).OneEach) :
    db.OneEach ↔ ∀ query m, (query, m) ∈ log → query.Fresh (V m) (V n) := by
  have hlog : ∀ {a m : ℕ} {query : EntryQuery}, log = [(.access, a), (query, m)] →
      ((∀ query m, (query, m) ∈ log → query.Fresh (V m) (V n)) ↔ query.Fresh (V m) (V n)) := by
    rintro a m query rfl
    constructor
    · intro hall
      exact hall query m (by simp)
    · rintro hfresh other k hmem
      rcases List.mem_cons.mp hmem with hother | hmem
      · obtain ⟨rfl, rfl⟩ := Prod.mk.inj hother
        exact fun _ => rfl
      · obtain ⟨rfl, rfl⟩ := Prod.mk.inj (List.mem_singleton.mp hmem)
        exact hfresh
  cases h with
  | foundLive log_eq found =>
      rw [hlog log_eq]
      exact iff_of_true hone fun hnone => absurd hnone found
  | foundVirtual log_eq found =>
      rw [hlog log_eq]
      exact iff_of_true hone fun hnone => absurd hnone found
  | joined _ log_eq none_found fresh =>
      rw [hlog log_eq, EntryTables.OneEach.create_iff hone fresh (Or.inl rfl)]
      have hjoined : ∀ contest user, (V n).joined contest user = (V n).ofUser contest user .live :=
        fun _ _ => EntryTables.joined_eq_ofUser hlive
      simp only [EntryQuery.Fresh, EntryQuery.rows, none_found, hjoined, true_imp_iff]
      rfl
  | started _ log_eq none_found fresh =>
      rw [hlog log_eq, EntryTables.OneEach.create_iff hone fresh (Or.inr rfl)]
      simp only [EntryQuery.Fresh, EntryQuery.rows, none_found, true_imp_iff]
      rfl

end EntryCall.Effect

/-! ## Whole runs -/

namespace EntrySystem

variable {ι : Type} {sys : EntrySystem ι}

/-- The programs of the two operations. -/
def Permitted (_ : ι) (program : EntryTransaction ℕ) : Prop :=
  ∃ call : EntryCall, program = call.program

/-- Every look-up that found nothing is still right when its transaction commits. -/
def Fresh (sys : EntrySystem ι) : Prop :=
  ∀ (n : ℕ) (commit : Commit ι EntryQuery EntryTables EntryKey.Row ℕ),
    sys.commits[n]? = some commit → ∀ query m, (query, m) ∈ commit.log →
      query.Fresh (sys.version m) (sys.version n)

/-- Every commit has the effect of its call. -/
theorem effect (hsound : sys.Sound Permitted) {n : ℕ}
    {commit : Commit ι EntryQuery EntryTables EntryKey.Row ℕ} (h : sys.commits[n]? = some commit) :
    ∃ call : EntryCall,
      call.Effect sys.version n commit.value commit.log (sys.version (n + 1)) := by
  obtain ⟨⟨call, hprogram⟩, hyields⟩ := hsound.commits n commit h
  rw [hprogram] at hyields
  rw [System.version_succ h]
  exact ⟨call, EntryCall.effect_of_yields hyields⟩

theorem liveUnstarted (hsound : sys.Sound Permitted) (hstart : (sys.version 0).LiveUnstarted)
    {n : ℕ} (hn : n ≤ sys.commits.length) : (sys.version n).LiveUnstarted := by
  induction n with
  | zero => exact hstart
  | succ n ih =>
      obtain ⟨call, heffect⟩ := effect hsound (List.getElem?_eq_getElem hn)
      exact heffect.liveUnstarted (ih (by omega))

/-- Every committed state has at most one participation of each mode for a user and a
contest exactly if no look-up was outrun by another commit. -/
theorem one_participation_iff [DecidableEq ι] {db : EntryTables}
    {moves : List (Move ι EntryQuery EntryTables EntryKey.Row ℕ)}
    (run : Run (System.Step Permitted) (System.start db) moves sys) (hlive : db.LiveUnstarted)
    (hone : db.OneEach) :
    (∀ n ≤ sys.commits.length, (sys.version n).OneEach) ↔ Fresh sys := by
  have hsound := System.Sound.run run
  have hinitial : sys.version 0 = db := System.initial_of_run run
  have hunstarted : ∀ n ≤ sys.commits.length, (sys.version n).LiveUnstarted := fun n hn =>
    liveUnstarted hsound (hinitial.symm ▸ hlive) hn
  constructor
  · intro hall n commit hcommit query m hmem
    have hn : n < sys.commits.length := (List.getElem?_eq_some_iff.mp hcommit).1
    obtain ⟨call, heffect⟩ := effect hsound hcommit
    exact (heffect.oneEach_iff (hunstarted n hn.le) (hall n hn.le)).mp (hall (n + 1) hn) query m hmem
  · intro hfresh n
    induction n with
    | zero =>
        intro _
        rw [hinitial]
        exact hone
    | succ n ih =>
        intro hn
        have hcommit := List.getElem?_eq_getElem hn
        obtain ⟨call, heffect⟩ := effect hsound hcommit
        exact (heffect.oneEach_iff (hunstarted n (by omega)) (ih (by omega))).mpr
          (hfresh n _ hcommit)

end EntrySystem

/-! ## Two joins -/

/-- A public contest that is running. -/
def openContest : ContestInfo where
  id := 1
  format := some .default
  startTime := 0
  endTime := 3600 * second
  problems := []
  problems_nodup := List.nodup_nil
  key := "open"
  name := "Open"
  visibility := .public

/-- Two requests of one user to join the contest. -/
def sampleJoin (session : Bool) : EntryCall :=
  .joinContest
    { contest := openContest
      user := .account { id := 7, username := "user" }
      now := 60 * second
      startNow := 60 * second
      id := if session then 2 else 1 }

/-- Both transactions begin, and the sessions of `steps` execute a statement in turn. -/
def joinMoves (steps : List Bool) : List (Move Bool EntryQuery EntryTables EntryKey.Row ℕ) :=
  .begin false (sampleJoin false).program :: .begin true (sampleJoin true).program ::
    steps.map .step

theorem run_joinMoves {steps : List Bool} {sys : EntrySystem Bool}
    (h : (System.start {} : EntrySystem Bool).moves (joinMoves steps) = some sys) :
    Run (System.Step EntrySystem.Permitted) (System.start {}) (joinMoves steps) sys :=
  System.run_of_two (fun session => (sampleJoin session).program) h fun _ => ⟨_, rfl⟩

theorem EntryTables.oneEach_empty : ({} : EntryTables).OneEach := by
  intro contest user status _
  exact Nat.zero_le 1

theorem EntryTables.liveUnstarted_empty : ({} : EntryTables).LiveUnstarted := by
  intro row hrow
  cases hrow

namespace EntrySystem

/-- The second join looks after the first one has committed. -/
theorem one_participation_consecutive :
    ∃ sys : EntrySystem Bool,
      (sys.store.ofUser 1 7 .live).map ParticipationRow.id = [1] ∧
        ((∀ n ≤ sys.commits.length, (sys.version n).OneEach) ↔ Fresh sys) := by
  have hmoves : ((System.start {} : EntrySystem Bool).moves
      (joinMoves (List.replicate 4 false ++ List.replicate 3 true))).map
        (fun sys => (sys.store.ofUser 1 7 .live).map ParticipationRow.id) = some [1] := by
    decide +kernel
  obtain ⟨sys, hsys, hseen⟩ := Option.map_eq_some_iff.mp hmoves
  exact ⟨sys, hseen, one_participation_iff (run_joinMoves hsys) EntryTables.liveUnstarted_empty
    EntryTables.oneEach_empty⟩

/-- Two joins that look before either commits both create a live participation. -/
theorem two_live :
    ∃ (moves : List (Move Bool EntryQuery EntryTables EntryKey.Row ℕ)) (sys : EntrySystem Bool),
      Run (System.Step Permitted) (System.start {}) moves sys ∧
        (sys.store.ofUser 1 7 .live).map ParticipationRow.id = [1, 2] ∧ ¬ sys.store.OneEach := by
  have hmoves : ((System.start {} : EntrySystem Bool).moves
      (joinMoves (List.replicate 2 false ++ List.replicate 2 true ++ List.replicate 2 false ++
        List.replicate 2 true))).map
        (fun sys => (sys.store.ofUser 1 7 .live).map ParticipationRow.id) = some [1, 2] := by
    decide +kernel
  obtain ⟨sys, hsys, hseen⟩ := Option.map_eq_some_iff.mp hmoves
  refine ⟨_, sys, run_joinMoves hsys, hseen, fun hone => ?_⟩
  have hlength := congrArg List.length hseen
  rw [List.length_map] at hlength
  have hle := hone 1 7 .live (by simp)
  rw [hlength] at hle
  exact absurd hle (by decide)

end EntrySystem

end JudgeLoom
