import JudgeLoom.Content.Comments
import JudgeLoom.Library.ReadCommitted

/-!
# Votes on comments

`vote_comment` as a transaction, statement by statement.  `get_or_create` looks for the
user's vote and locks it; if there is none it inserts one, and where the unique index
refuses the row (`IntegrityError`) it looks again.  The score of the comment is changed in
the database by a delta, `F("score") + score_delta`.

`VoteEffect` says once what a committed call did to the tables as they are at its commit:
the vote that the delta was computed from is locked, so it is the current one, and a new
entry of the index was not there.  `Consistent` follows for every version of the tables.
-/

namespace JudgeLoom

open Transaction KeyedStore

/-- A user vote on a comment. -/
structure CommentVote where
  id : ℕ
  comment : ℕ
  user : ℕ
  value : ℤ
  deriving DecidableEq

namespace CommentVote

def upvote : ℤ := 1

def downvote : ℤ := -1

/-- The vote with another value. -/
def withValue (value : ℤ) (vote : CommentVote) : CommentVote := { vote with value }

theorem id_withValue (value : ℤ) (vote : CommentVote) : (vote.withValue value).id = vote.id := rfl

end CommentVote

/-- `F("score") + score_delta`. -/
def Comment.addScore (delta : ℤ) (comment : Comment) : Comment :=
  { comment with score := comment.score + delta }

theorem Comment.id_addScore (delta : ℤ) (comment : Comment) :
    (comment.addScore delta).id = comment.id :=
  rfl

/-! ## The tables as a store -/

structure VoteTables where
  comments : Table Comment Comment.id := ∅
  votes : Table CommentVote CommentVote.id := ∅
  /-- The unique index on the comment and the user. -/
  pairs : ℕ × ℕ → Option ℕ := fun _ => none

/-- The primary keys of comments and votes, and the unique index. -/
inductive VoteKey
  | comment (id : ℕ)
  | vote (id : ℕ)
  | pair (comment user : ℕ)
  deriving DecidableEq

/-- The rows of a key. -/
abbrev VoteKey.Row : VoteKey → Type
  | comment id => {row : Comment // row.id = id}
  | vote id => {row : CommentVote // row.id = id}
  | pair _ _ => ℕ

namespace VoteTables

/-- The row of a key. -/
def row? (db : VoteTables) : (key : VoteKey) → Option key.Row
  | .comment id => db.comments.row? id
  | .vote id => db.votes.row? id
  | .pair comment user => db.pairs (comment, user)

/-- Insert or replace the row of a key. -/
def setRow (db : VoteTables) : (key : VoteKey) → key.Row → VoteTables
  | .comment _, row => { db with comments := db.comments.save row.1 }
  | .vote _, row => { db with votes := db.votes.save row.1 }
  | .pair comment user, id =>
      { db with pairs := Function.update db.pairs (comment, user) (some id) }

instance : KeyedStore VoteTables VoteKey VoteKey.Row where
  get? := row?
  set := setRow
  get?_set_self := by
    rintro db (id | id | ⟨comment, user⟩) row
    · exact Table.row?_save_self _ row
    · exact Table.row?_save_self _ row
    · exact Function.update_self ..
  get?_set_of_ne := by
    rintro db (id | id | ⟨comment, user⟩) row (other | other | ⟨otherComment, otherUser⟩) hne
    case comment.comment => exact Table.row?_save_of_ne _ fun heq => hne (by rw [heq, row.2])
    case vote.vote => exact Table.row?_save_of_ne _ fun heq => hne (by rw [heq, row.2])
    case pair.pair =>
      refine Function.update_of_ne (fun heq => hne ?_) ..
      obtain ⟨rfl, rfl⟩ := Prod.mk.inj heq
      rfl
    all_goals rfl

/-- `filter(comment=…, user=…)`. -/
def votesOf (db : VoteTables) (comment user : ℕ) : List CommentVote :=
  db.votes.rows.filter fun vote => vote.comment = comment ∧ vote.user = user

end VoteTables

/-- The queries of `vote_comment`. -/
inductive VoteQuery
  | votes (comment user : ℕ)
  | pair (comment user : ℕ)
  | comment (id : ℕ)
  deriving DecidableEq

abbrev VoteTransaction := Transaction VoteQuery VoteTables VoteKey.Row

abbrev VoteSystem (ι : Type) := System ι VoteQuery VoteTables VoteKey.Row PUnit

/-! ## The operation -/

/-- A call of `vote_comment`; `id` is the next value of the primary key of a vote. -/
structure VoteRequest where
  comment : ℕ
  user : ℕ
  value : ℤ
  id : ℕ

namespace VoteRequest

/-- The vote that is created. -/
def vote (request : VoteRequest) : CommentVote where
  id := request.id
  comment := request.comment
  user := request.user
  value := request.value

def checkValue (request : VoteRequest) : Except ServiceError Unit :=
  if request.value ∈ [CommentVote.upvote, CommentVote.downvote] then .ok ()
  else .error (.validation "Vote value must be +1 or -1.")

end VoteRequest

namespace VoteTransaction

/-- `select_for_update` of the votes that a query found: each row is locked in turn, and
taken if it still passes the filter. -/
def lockVotes (comment user : ℕ) : List ℕ → VoteTransaction (List CommentVote)
  | [] => pure []
  | id :: rest => do
      let row ← forUpdate (.vote id)
      let others ← lockVotes comment user rest
      return ((row.map Subtype.val).toList.filter fun vote =>
        vote.comment = comment ∧ vote.user = user) ++ others

/-- `select_for_update().get(comment=…, user=…)`; `none` is `DoesNotExist`, and
`MultipleObjectsReturned` ends the transaction. -/
def get (comment user : ℕ) : VoteTransaction (Option CommentVote) := do
  let ids ← select (.votes comment user) fun db =>
    (db.votesOf comment user).map CommentVote.id
  match ← lockVotes comment user ids with
  | [] => pure none
  | [vote] => pure (some vote)
  | _ => .abort

/-- The insert of `get_or_create` in its savepoint; `false` is an `IntegrityError`.  An
entry of the index that another transaction is about to commit is waited for. -/
def tryCreate (request : VoteRequest) : VoteTransaction Bool := do
  match ← select (.pair request.comment request.user) fun db =>
      db.pairs (request.comment, request.user) with
  | some _ => pure false
  | none => do
      match ← forUpdate (.pair request.comment request.user) with
      | some _ => pure false
      | none => do
          create (.pair request.comment request.user) request.id
          create (.vote request.id) ⟨request.vote, rfl⟩
          pure true

/-- `select_for_update().get_or_create(…)`: the vote, and whether it was created. -/
def getOrCreate (request : VoteRequest) : VoteTransaction (CommentVote × Bool) := do
  match ← get request.comment request.user with
  | some vote => pure (vote, false)
  | none => do
      let created ← tryCreate request
      if created then pure (request.vote, true)
      else do
        match ← get request.comment request.user with
        | some vote => pure (vote, false)
        | none => .abort

/-- The delta, and the save of a vote that is turned over. -/
def scoreDelta (request : VoteRequest) (vote : CommentVote) (created : Bool) :
    VoteTransaction ℤ :=
  if created then pure request.value
  else if vote.value = request.value then pure 0
  else do
    modify (.vote vote.id) fun row =>
      ⟨row.1.withValue request.value, (CommentVote.id_withValue _ row.1).trans row.2⟩
    return request.value - vote.value

/-- Upsert a vote and maintain the denormalized comment score. -/
def voteComment (request : VoteRequest) : VoteTransaction PUnit := do
  ofExcept request.checkValue
  let (vote, created) ← getOrCreate request
  let delta ← scoreDelta request vote created
  if delta = 0 then pure ⟨⟩
  else do
    modify (.comment request.comment) fun row =>
      ⟨row.1.addScore delta, (Comment.id_addScore delta row.1).trans row.2⟩
    -- `refresh_from_db` raises if there is no such comment
    match ← select (.comment request.comment) fun db => db.comments.get? request.comment with
    | none => .abort
    | some _ => pure ⟨⟩

end VoteTransaction

/-! ## What the statements write -/

namespace VoteTables

/-- The tables with a new vote. -/
def insertVote (db : VoteTables) (vote : CommentVote) : VoteTables :=
  { db with
    votes := db.votes.save vote
    pairs := Function.update db.pairs (vote.comment, vote.user) (some vote.id) }

/-- The tables with another value of a vote. -/
def turnVote (db : VoteTables) (id : ℕ) (value : ℤ) : VoteTables :=
  { db with
    votes := db.votes.modify id (CommentVote.withValue value) (CommentVote.id_withValue value) }

/-- The tables with another score of a comment. -/
def addScore (db : VoteTables) (comment : ℕ) (delta : ℤ) : VoteTables :=
  { db with
    comments := db.comments.modify comment (Comment.addScore delta) (Comment.id_addScore delta) }

theorem mem_votesOf {db : VoteTables} {comment user : ℕ} {vote : CommentVote} :
    vote ∈ db.votesOf comment user ↔
      vote ∈ db.votes.rows ∧ vote.comment = comment ∧ vote.user = user := by
  simp [votesOf]

theorem rewriteRow_vote (db : VoteTables) (id : ℕ) (value : ℤ) :
    rewriteRow db (VoteKey.vote id) (fun row =>
        ⟨row.1.withValue value, (CommentVote.id_withValue value row.1).trans row.2⟩) =
      db.turnVote id value := by
  unfold rewriteRow turnVote
  cases hrow : get? db (VoteKey.vote id) with
  | none => rw [Table.modify_of_none (Table.row?_eq_none.mp hrow)]; rfl
  | some row => rw [Table.modify_of_some (Table.row?_eq_some.mp hrow)]; rfl

theorem rewriteRow_comment (db : VoteTables) (id : ℕ) (delta : ℤ) :
    rewriteRow db (VoteKey.comment id) (fun row =>
        ⟨row.1.addScore delta, (Comment.id_addScore delta row.1).trans row.2⟩) =
      db.addScore id delta := by
  unfold rewriteRow addScore
  cases hrow : get? db (VoteKey.comment id) with
  | none => rw [Table.modify_of_none (Table.row?_eq_none.mp hrow)]; rfl
  | some row => rw [Table.modify_of_some (Table.row?_eq_some.mp hrow)]; rfl

end VoteTables

/-- What a committed call did to the tables that it was committed on. -/
inductive VoteEffect (request : VoteRequest) (db : VoteTables) : VoteTables → Prop
  /-- The user voted like that before. -/
  | repeated {vote : CommentVote} (found : vote ∈ db.votesOf request.comment request.user)
      (same : vote.value = request.value) : VoteEffect request db db
  /-- The user voted the other way before. -/
  | turned {vote : CommentVote} (found : vote ∈ db.votesOf request.comment request.user)
      (differs : vote.value ≠ request.value) :
      VoteEffect request db
        ((db.turnVote vote.id request.value).addScore request.comment
          (request.value - vote.value))
  /-- The user did not vote before. -/
  | created (absent : db.pairs (request.comment, request.user) = none)
      (fresh : db.votes.get? request.id = none) :
      VoteEffect request db
        ((db.insertVote request.vote).addScore request.comment request.value)

namespace VoteTransaction

variable {V : ℕ → VoteTables} {n : ℕ} {start final : Progress VoteQuery VoteKey.Row}
  {request : VoteRequest}

/-- Reads and locks write nothing; the locked rows are the current ones. -/
theorem yields_lockVotes {comment user : ℕ} {ids : List ℕ} {votes : List CommentVote}
    (h : (lockVotes comment user ids).Yields V n start votes final) :
    start = final ∧ ∀ vote ∈ votes, vote ∈ (start.view (V n)).votesOf comment user := by
  induction ids generalizing votes final with
  | nil =>
      obtain ⟨rfl, rfl⟩ := h
      exact ⟨rfl, fun vote hvote => absurd hvote List.not_mem_nil⟩
  | cons id rest ih =>
      obtain ⟨row, _, ⟨hrow, rfl⟩, h⟩ := yields_bind.mp h
      obtain ⟨others, _, hothers, h⟩ := yields_bind.mp h
      obtain ⟨rfl, hlocked⟩ := ih hothers
      obtain ⟨rfl, rfl⟩ := h
      refine ⟨rfl, fun vote hvote => ?_⟩
      rcases List.mem_append.mp hvote with hfirst | hrest
      · obtain ⟨hmem, hsame⟩ := List.mem_filter.mp hfirst
        have hget : row.map Subtype.val = (start.view (V n)).votes.get? id := by
          rw [← hrow]
          exact Table.map_val_row? _ id
        rw [hget, Option.mem_toList] at hmem
        exact VoteTables.mem_votesOf.mpr ⟨Table.mem_of_get? hmem, of_decide_eq_true hsame⟩
      · exact hlocked vote hrest

/-- A vote that `get` returns is the user's current vote. -/
theorem yields_get {comment user : ℕ} {found : Option CommentVote}
    (h : (get comment user).Yields V n start found final) :
    (∀ store : VoteTables, final.view store = start.view store) ∧
      ∀ vote ∈ found, vote ∈ (start.view (V n)).votesOf comment user := by
  obtain ⟨ids, _, ⟨m, hm, hids, rfl⟩, h⟩ := yields_bind.mp h
  obtain ⟨votes, _, hlocked, h⟩ := yields_bind.mp h
  obtain ⟨rfl, hvotes⟩ := yields_lockVotes hlocked
  refine ⟨?_, ?_⟩
  · split at h
    · exact h.2 ▸ fun store => rfl
    · exact h.2 ▸ fun store => rfl
    · exact h.elim
  · split at h
    · rw [← h.1]
      exact fun vote hvote => absurd hvote (Option.not_mem_none vote)
    · rw [← h.1]
      intro vote hvote
      obtain rfl := Option.mem_some_iff.mp hvote
      exact hvotes _ List.mem_cons_self
    · exact h.elim

/-- An insert that succeeds adds an entry to the index and a row; one that fails writes
nothing. -/
theorem yields_tryCreate {created : Bool}
    (h : (tryCreate request).Yields V n start created final) :
    if created then
      (start.view (V n)).pairs (request.comment, request.user) = none ∧
        (start.view (V n)).votes.get? request.id = none ∧
          final.view (V n) = (start.view (V n)).insertVote request.vote
    else ∀ store : VoteTables, final.view store = start.view store := by
  obtain ⟨entry, _, ⟨m, hm, -, rfl⟩, h⟩ := yields_bind.mp h
  cases entry with
  | some id =>
      obtain ⟨rfl, rfl⟩ := h
      exact fun store => rfl
  | none =>
      obtain ⟨held, _, ⟨hheld, rfl⟩, h⟩ := yields_bind.mp h
      cases held with
      | some id =>
          obtain ⟨rfl, rfl⟩ := h
          exact fun store => rfl
      | none =>
          obtain ⟨_, indexed, hindex, h⟩ := yields_bind.mp h
          obtain ⟨habsent, rfl⟩ := yields_create.mp hindex
          obtain ⟨_, inserted, hinsert, h⟩ := yields_bind.mp h
          obtain ⟨hfresh, rfl⟩ := yields_create.mp hinsert
          obtain ⟨rfl, rfl⟩ := h
          rw [Progress.view_write] at hfresh
          refine ⟨habsent, Table.row?_eq_none.mp hfresh, ?_⟩
          rw [Progress.view_write, Progress.view_write]
          rfl

/-- The vote that the delta is computed from. -/
theorem yields_getOrCreate {result : CommentVote × Bool}
    (h : (getOrCreate request).Yields V n start result final) :
    if result.2 then
      result.1 = request.vote ∧
        (start.view (V n)).pairs (request.comment, request.user) = none ∧
          (start.view (V n)).votes.get? request.id = none ∧
            final.view (V n) = (start.view (V n)).insertVote request.vote
    else
      result.1 ∈ (start.view (V n)).votesOf request.comment request.user ∧
        final.view (V n) = start.view (V n) := by
  obtain ⟨found, looked, hget, h⟩ := yields_bind.mp h
  obtain ⟨hview, hfound⟩ := yields_get hget
  cases found with
  | some vote =>
      obtain ⟨rfl, rfl⟩ := h
      exact ⟨hfound vote (Option.mem_some_self vote), hview _⟩
  | none =>
      obtain ⟨created, tried, htry, h⟩ := yields_bind.mp h
      have htried := yields_tryCreate htry
      cases created with
      | true =>
          obtain ⟨rfl, rfl⟩ := h
          rw [hview] at htried
          exact ⟨rfl, htried⟩
      | false =>
          have hview' : ∀ store : VoteTables, tried.view store = start.view store :=
            fun store => (htried store).trans (hview store)
          obtain ⟨again, looked', hagain, h⟩ := yields_bind.mp h
          obtain ⟨hlast, hfound'⟩ := yields_get hagain
          rw [hview'] at hfound'
          cases again with
          | some vote =>
              obtain ⟨rfl, rfl⟩ := h
              exact ⟨hfound' vote (Option.mem_some_self vote), (hlast _).trans (hview' _)⟩
          | none => exact h.elim

/-- A delta other than zero belongs to a vote that was created or turned over. -/
theorem yields_scoreDelta {vote : CommentVote} {created : Bool} {delta : ℤ}
    (h : (scoreDelta request vote created).Yields V n start delta final) :
    if created then delta = request.value ∧ final.view (V n) = start.view (V n)
    else if vote.value = request.value then delta = 0 ∧ final.view (V n) = start.view (V n)
    else delta = request.value - vote.value ∧
      final.view (V n) = (start.view (V n)).turnVote vote.id request.value := by
  unfold scoreDelta at h
  split_ifs at h ⊢ with hcreated hsame
  · obtain ⟨rfl, rfl⟩ := h
    exact ⟨rfl, rfl⟩
  · obtain ⟨rfl, rfl⟩ := h
    exact ⟨rfl, rfl⟩
  · obtain ⟨_, _, hmodify, h⟩ := yields_bind.mp h
    obtain rfl := yields_modify.mp hmodify
    obtain ⟨rfl, rfl⟩ := h
    refine ⟨rfl, ?_⟩
    rw [Progress.view_update, VoteTables.rewriteRow_vote]

theorem effect_of_yields {value : PUnit}
    (h : (voteComment request).Yields V n {} value final) :
    VoteEffect request (V n) (final.view (V n)) := by
  obtain ⟨_, _, hchecking, h⟩ := yields_bind.mp h
  obtain ⟨hchecked, rfl⟩ := yields_ofExcept.mp hchecking
  obtain ⟨⟨vote, created⟩, upserted, hupsert, h⟩ := yields_bind.mp h
  obtain ⟨delta, counted, hdelta, h⟩ := yields_bind.mp h
  have hupserted := yields_getOrCreate hupsert
  have hcounted := yields_scoreDelta hdelta
  rw [Progress.view_nil] at hupserted
  have hvalue : request.value ≠ 0 := by
    intro hzero
    simp [VoteRequest.checkValue, hzero, CommentVote.upvote, CommentVote.downvote] at hchecked
  -- a delta other than zero is added to the current score
  have hscore : final.view (V n) = if delta = 0 then counted.view (V n)
      else (counted.view (V n)).addScore request.comment delta := by
    split_ifs at h ⊢ with hzero
    · exact h.2 ▸ rfl
    · obtain ⟨_, _, hmodify, h⟩ := yields_bind.mp h
      obtain rfl := yields_modify.mp hmodify
      obtain ⟨comment, _, ⟨m, hm, -, rfl⟩, h⟩ := yields_bind.mp h
      cases comment with
      | none => exact h.elim
      | some comment =>
          obtain ⟨-, rfl⟩ := h
          rw [Progress.view_query, Progress.view_update, VoteTables.rewriteRow_comment]
  rw [hscore]
  cases created with
  | true =>
      obtain ⟨-, habsent, hfresh, hview⟩ := hupserted
      obtain ⟨rfl, hview'⟩ := hcounted
      rw [if_neg hvalue, hview', hview]
      exact .created habsent hfresh
  | false =>
      obtain ⟨hfound, hview⟩ := hupserted
      simp only [Bool.false_eq_true, if_false] at hcounted
      split_ifs at hcounted with hsame
      · obtain ⟨rfl, hview'⟩ := hcounted
        rw [if_pos rfl, hview', hview]
        exact .repeated hfound hsame
      · obtain ⟨rfl, hview'⟩ := hcounted
        rw [if_neg (sub_ne_zero.mpr (Ne.symm hsame)), hview', hview]
        exact .turned hfound hsame

end VoteTransaction

/-! ## Totals -/

namespace VoteTables

/-- The sum of the stored votes of a comment. -/
def total (db : VoteTables) (comment : ℕ) : ℤ :=
  ((db.votes.rows.filter fun vote => vote.comment = comment).map CommentVote.value).sum

/-- What a vote adds to the total of a comment. -/
def share (comment : ℕ) (vote : CommentVote) : ℤ :=
  if vote.comment = comment then vote.value else 0

theorem share_withValue (comment : ℕ) (vote : CommentVote) (value : ℤ) :
    share comment (vote.withValue value) = if vote.comment = comment then value else 0 :=
  rfl

theorem share_vote (comment : ℕ) (request : VoteRequest) :
    share comment request.vote = if request.comment = comment then request.value else 0 :=
  rfl

theorem total_eq_sum_share (db : VoteTables) (comment : ℕ) :
    db.total comment = (db.votes.rows.map (share comment)).sum := by
  rw [total]
  induction db.votes.rows with
  | nil => rfl
  | cons vote rest ih =>
      rw [List.map_cons, List.sum_cons, ← ih, share]
      by_cases hcomment : vote.comment = comment
      · rw [List.filter_cons_of_pos (by simpa using hcomment), if_pos hcomment, List.map_cons,
          List.sum_cons]
      · rw [List.filter_cons_of_neg (by simpa using hcomment), if_neg hcomment, zero_add]

theorem total_insertVote {db : VoteTables} {vote : CommentVote}
    (h : db.votes.get? vote.id = none) (comment : ℕ) :
    (db.insertVote vote).total comment = db.total comment + share comment vote := by
  have hperm := (Table.perm_rows_save h).map (share comment)
  rw [total_eq_sum_share, total_eq_sum_share]
  calc ((db.insertVote vote).votes.rows.map (share comment)).sum
      = share comment vote + (db.votes.rows.map (share comment)).sum := hperm.sum_eq
    _ = (db.votes.rows.map (share comment)).sum + share comment vote := add_comm _ _

/-- An update of one row changes a sum by what the row adds now and added before. -/
theorem sum_rows_turnVote {db : VoteTables} {vote : CommentVote} (h : vote ∈ db.votes.rows)
    (value : ℤ) (f : CommentVote → ℤ) :
    ((db.turnVote vote.id value).votes.rows.map f).sum =
      (db.votes.rows.map f).sum + (f (vote.withValue value) - f vote) := by
  have hnodup := db.votes.nodup_keys
  change (((db.votes.rows.map fun row =>
    if decide (row.id = vote.id) = true then row.withValue value else row)).map f).sum = _
  simp only [decide_eq_true_eq]
  generalize db.votes.rows = rows at h hnodup ⊢
  induction rows with
  | nil => exact absurd h List.not_mem_nil
  | cons head rest ih =>
      obtain ⟨hhead, hrest⟩ := List.nodup_cons.mp hnodup
      simp only [List.map_cons, List.sum_cons]
      rcases List.mem_cons.mp h with rfl | hmem
      · have hothers : (rest.map fun row =>
            if row.id = vote.id then row.withValue value else row) = rest := by
          refine (List.map_congr_left fun row hrow => if_neg fun heq => ?_).trans (List.map_id' rest)
          exact hhead (heq ▸ List.mem_map_of_mem hrow)
        rw [hothers, if_pos rfl]
        omega
      · have hne : head.id ≠ vote.id := fun heq => hhead (heq ▸ List.mem_map_of_mem hmem)
        rw [ih hmem hrest, if_neg hne]
        omega

theorem total_turnVote {db : VoteTables} {vote : CommentVote} (h : vote ∈ db.votes.rows)
    (value : ℤ) (comment : ℕ) :
    (db.turnVote vote.id value).total comment =
      db.total comment + (share comment (vote.withValue value) - share comment vote) := by
  rw [total_eq_sum_share, total_eq_sum_share, sum_rows_turnVote h]

@[simp] theorem total_addScore (db : VoteTables) (id : ℕ) (delta : ℤ) (comment : ℕ) :
    (db.addScore id delta).total comment = db.total comment :=
  rfl

/-! ## The invariant -/

/-- Every vote has its entry in the unique index, and every score is the total of the
votes of its comment. -/
structure Consistent (db : VoteTables) : Prop where
  indexed : ∀ vote ∈ db.votes.rows, db.pairs (vote.comment, vote.user) = some vote.id
  tallied : ∀ comment ∈ db.comments.rows, comment.score = db.total comment.id

/-- A user has one vote on a comment. -/
theorem Consistent.eq_of_same {db : VoteTables} (h : db.Consistent) {first second : CommentVote}
    (hfirst : first ∈ db.votes.rows) (hsecond : second ∈ db.votes.rows)
    (hcomment : first.comment = second.comment) (huser : first.user = second.user) :
    first = second := by
  have hindex := h.indexed first hfirst
  rw [hcomment, huser, h.indexed second hsecond] at hindex
  exact (db.votes.key_injOn hfirst hsecond (Option.some.inj hindex).symm)

/-- A score and the total of its comment that change by the same amount. -/
theorem tallied_addScore {db db' : VoteTables} (h : db.Consistent) (id : ℕ) (delta : ℤ)
    (hcomments : db'.comments = db.comments)
    (htotal : ∀ comment, db'.total comment =
      db.total comment + if comment = id then delta else 0) :
    ∀ comment ∈ (db'.addScore id delta).comments.rows,
      comment.score = (db'.addScore id delta).total comment.id := by
  intro comment hcomment
  have hget := Table.get?_key_of_mem hcomment
  rw [addScore, Table.get?_modify, hcomments] at hget
  rw [total_addScore, htotal]
  split_ifs at hget ⊢ with hid
  · obtain ⟨old, hold, rfl⟩ := Option.map_eq_some_iff.mp hget
    rw [Comment.id_addScore, ← h.tallied old (Table.mem_of_get? hold)]
    rfl
  · rw [h.tallied comment (Table.mem_of_get? hget), add_zero]

/-- One call keeps the invariant. -/
theorem Consistent.of_effect {db db' : VoteTables} (h : db.Consistent) {request : VoteRequest}
    (heffect : VoteEffect request db db') : db'.Consistent := by
  cases heffect with
  | repeated => exact h
  | @turned vote found differs =>
      obtain ⟨hmem, hcomment, huser⟩ := mem_votesOf.mp found
      refine ⟨fun other hother => ?_, tallied_addScore h _ _ rfl fun comment => ?_⟩
      · have hget := Table.get?_key_of_mem hother
        have hrow : (db.turnVote vote.id request.value).votes.get? other.id = some other := hget
        rw [turnVote, Table.get?_modify] at hrow
        split_ifs at hrow
        · obtain ⟨old, hold, rfl⟩ := Option.map_eq_some_iff.mp hrow
          exact h.indexed old (Table.mem_of_get? hold)
        · exact h.indexed other (Table.mem_of_get? hrow)
      · rw [total_turnVote hmem, share_withValue, share, hcomment]
        split_ifs with hsame hsame' <;> omega
  | created absent fresh =>
      refine ⟨fun other hother => ?_, tallied_addScore h _ _ rfl fun comment => ?_⟩
      · have hrow : other ∈ (db.votes.save request.vote).rows := hother
        change Function.update db.pairs (request.comment, request.user) (some request.id)
          (other.comment, other.user) = some other.id
        rcases Table.mem_save_iff.mp hrow with rfl | ⟨hold, -⟩
        · exact Function.update_self ..
        · have hentry := h.indexed other hold
          rw [Function.update_of_ne, hentry]
          intro heq
          rw [heq, absent] at hentry
          cases hentry
      · rw [total_insertVote fresh, share_vote]
        split_ifs with hsame hsame' <;> omega

end VoteTables

/-! ## Whole runs -/

namespace VoteSystem

variable {ι : Type} {sys : VoteSystem ι}

/-- The sessions vote on comments. -/
def Permitted (_ : ι) (program : VoteTransaction PUnit) : Prop :=
  ∃ request : VoteRequest, program = .voteComment request

theorem consistent_version (hsound : sys.Sound Permitted) (hinitial : sys.initial.Consistent) :
    ∀ n ≤ sys.commits.length, (sys.version n).Consistent := by
  refine hsound.version_invariant hinitial ?_
  rintro i program ⟨request, rfl⟩ V n value final hyields hconsistent
  exact hconsistent.of_effect (VoteTransaction.effect_of_yields hyields)

/-- In every run of `vote_comment` calls, after every commit each user has at most one vote
on a comment, and the score of a comment is the sum of its stored votes. -/
theorem score_eq_total [DecidableEq ι] {db : VoteTables}
    {moves : List (Move ι VoteQuery VoteTables VoteKey.Row PUnit)}
    (run : Run (System.Step Permitted) (System.start db) moves sys) (hconsistent : db.Consistent) :
    ∀ n ≤ sys.commits.length,
      (∀ first ∈ (sys.version n).votes.rows, ∀ second ∈ (sys.version n).votes.rows,
        first.comment = second.comment → first.user = second.user → first = second) ∧
      ∀ comment ∈ (sys.version n).comments.rows,
        comment.score = (sys.version n).total comment.id := by
  intro n hn
  have hversion := consistent_version (System.Sound.run run)
    ((System.initial_of_run run).symm ▸ hconsistent) n hn
  exact ⟨fun first hfirst second hsecond => hversion.eq_of_same hfirst hsecond, hversion.tallied⟩

end VoteSystem

/-! ## One user votes twice at once -/

/-- One comment without votes. -/
def sampleVoteTables : VoteTables where
  comments := (∅ : Table Comment Comment.id).save
    { id := 1, post := 1, author := 7, body := "Hello", path := "001" }

theorem consistent_sampleVoteTables : sampleVoteTables.Consistent where
  indexed := fun vote hvote => absurd hvote List.not_mem_nil
  tallied := by
    intro comment hcomment
    rcases Table.mem_save_iff.mp hcomment with rfl | ⟨hold, -⟩
    · rfl
    · exact absurd hold List.not_mem_nil

/-- One user votes down, and at the same time up. -/
def sampleVote (session : Bool) : VoteRequest where
  comment := 1
  user := 5
  value := if session then CommentVote.upvote else CommentVote.downvote
  id := if session then 2 else 1

/-- Neither session finds a vote, and the second one runs into the index entry of the
first. -/
def sampleVoteMoves : List (Move Bool VoteQuery VoteTables VoteKey.Row PUnit) :=
  .begin false (VoteTransaction.voteComment (sampleVote false)) ::
    .begin true (VoteTransaction.voteComment (sampleVote true)) ::
      ([false, true, true] ++ List.replicate 7 false ++ List.replicate 7 true).map .step

namespace VoteSystem

/-- Both votes count, one after the other. -/
theorem score_eq_total_sample :
    ∃ sys : VoteSystem Bool,
      sys.store.votes.rows = [{ id := 1, comment := 1, user := 5, value := 1 }] ∧
        sys.store.comments.rows.map Comment.score = [1] ∧ sys.commits.length = 2 ∧
          ∀ n ≤ 2, ∀ comment ∈ (sys.version n).comments.rows,
            comment.score = (sys.version n).total comment.id := by
  have hmoves : ((System.start sampleVoteTables : VoteSystem Bool).moves sampleVoteMoves).map
      (fun sys => (sys.store.votes.rows, sys.store.comments.rows.map Comment.score,
        sys.commits.length)) =
          some ([{ id := 1, comment := 1, user := 5, value := 1 }], [1], 2) := by
    decide +kernel
  obtain ⟨sys, hsys, hfinal⟩ := Option.map_eq_some_iff.mp hmoves
  obtain ⟨hvotes, hscores, hcommits⟩ : _ ∧ _ ∧ _ := by simpa only [Prod.mk.injEq] using hfinal
  have hrun : Run (System.Step Permitted) (System.start sampleVoteTables) sampleVoteMoves sys :=
    System.run_of_two (fun session => VoteTransaction.voteComment (sampleVote session)) hsys
      fun _ => ⟨_, rfl⟩
  have hall := score_eq_total hrun consistent_sampleVoteTables
  exact ⟨sys, hvotes, hscores, hcommits, fun n hn => (hall n (hcommits ▸ hn)).2⟩

end VoteSystem

end JudgeLoom
