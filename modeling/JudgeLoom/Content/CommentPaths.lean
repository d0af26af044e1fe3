import JudgeLoom.Content.Comments
import JudgeLoom.Library.ReadCommitted

/-!
# Paths of concurrent comments

`create_comment` as a transaction, statement by statement.  It locks the siblings that
it finds and numbers its comment after the largest of them.  The locks keep nobody from
inserting one more sibling, and there are none to hold when there is no sibling yet: the
path of a new comment is its own exactly if no sibling was committed between the look-up
and the commit (`uniquePaths_iff`).  That a path extends its parent's, and its depth, need
no such condition.

`CreateEffect` says what a committed call did.  The siblings are locked in the order of
their primary keys; the largest segment does not depend on the order.
-/

namespace JudgeLoom

open Transaction KeyedStore

/-! ## The table as a store -/

abbrev Comments := Table Comment Comment.id

abbrev CommentRow (id : ℕ) := {row : Comment // row.id = id}

instance : KeyedStore Comments ℕ CommentRow where
  get? := Table.row?
  set comments _ row := comments.save row.1
  get?_set_self comments _ row := Table.row?_save_self comments row
  get?_set_of_ne comments _ row _ hne :=
    Table.row?_save_of_ne comments fun heq => hne (heq.trans row.2)

/-- The filter `post=post, parent=parent`. -/
def Comment.siblingOf (post : ℕ) (parent : Option ℕ) (row : Comment) : Bool :=
  row.post = post && row.parent = parent

def Comments.siblings (db : Comments) (post : ℕ) (parent : Option ℕ) : List Comment :=
  db.rows.filter (Comment.siblingOf post parent)

/-- The queries of `create_comment`. -/
inductive CommentQuery
  | parent (id : ℕ)
  | siblings (post : ℕ) (parent : Option ℕ)
  deriving DecidableEq

abbrev CommentTransaction := Transaction CommentQuery Comments CommentRow

abbrev CommentSystem (ι : Type) := System ι CommentQuery Comments CommentRow ℕ

/-! ## The operation -/

/-- A call of `create_comment`; `id` is the next value of the primary key. -/
structure CommentRequest where
  post : ℕ
  author : ℕ
  body : String
  parent : Option ℕ := none
  id : ℕ

def CommentRequest.comment (request : CommentRequest) (path : String) : Comment where
  id := request.id
  post := request.post
  author := request.author
  parent := request.parent
  body := request.body
  path

/-- The comment that is created under a parent. -/
def CommentRequest.row (request : CommentRequest) (parent : Option Comment) (segment : String) :
    Comment :=
  request.comment (CommentService.newPath parent segment)

/-- PostgreSQL keeps no NUL character, and the column of the path has 255 characters. -/
def Comment.storable (row : Comment) : Bool :=
  row.path.length ≤ 255 && !row.body.toList.contains (Char.ofNat 0)

namespace CommentTransaction

/-- The parent of a reply, read before `create_comment` is called. -/
def fetchParent : Option ℕ → CommentTransaction (Option Comment)
  | none => pure none
  | some id => do
      let found ← select (.parent id) fun db => db.get? id
      match found with
      | none => .abort
      | some parent => pure (some parent)

/-- `select_for_update` of the siblings: each row is locked in turn, and taken if it
still passes the filter. -/
def lockSiblings (post : ℕ) (parent : Option ℕ) : List ℕ → CommentTransaction (List Comment)
  | [] => pure []
  | id :: rest => do
      let row ← forUpdate id
      let others ← lockSiblings post parent rest
      return (row.map Subtype.val).toList.filter (Comment.siblingOf post parent) ++ others

/-- Create a threaded comment and generate its materialized path. -/
def createComment (request : CommentRequest) : CommentTransaction ℕ := do
  let parent ← fetchParent request.parent
  ofExcept (CommentService.checkParent request.post parent)
  let ids ← select (.siblings request.post request.parent) fun db =>
    (db.siblings request.post request.parent).map Comment.id
  let siblings ← lockSiblings request.post request.parent ids
  let segment ← ofExcept (CommentService.nextSegment (siblings.map Comment.path))
  let comment := request.row parent segment
  if comment.storable then do
    create request.id ⟨comment, rfl⟩
    return request.id
  else .abort

end CommentTransaction

/-! ## What a committed call did -/

/-- The parent of a request, read no later than version `n`. -/
inductive Fetched (V : ℕ → Comments) (n : ℕ) : Option ℕ → Option Comment → Prop
  | root : Fetched V n none none
  | reply {id p : ℕ} {row : Comment} (hp : p ≤ n) (found : (V p).get? id = some row) :
      Fetched V n (some id) (some row)

/-- What a call that is committed on version `n` read, and the comments after it. -/
structure CreateEffect (V : ℕ → Comments) (n : ℕ) (request : CommentRequest)
    (log : List (CommentQuery × ℕ)) (db : Comments) (parent : Option Comment) (m : ℕ)
    (segment : String) : Prop where
  fetched : Fetched V n request.parent parent
  checked : CommentService.checkParent request.post parent = .ok ()
  read_le : m ≤ n
  logged : ∀ post id k, (.siblings post id, k) ∈ log ↔
    post = request.post ∧ id = request.parent ∧ k = m
  numbered : CommentService.nextSegment
    ((((V m).siblings request.post request.parent).flatMap fun row =>
      ((V n).get? row.id).toList.filter (Comment.siblingOf request.post request.parent)).map
        Comment.path) = .ok segment
  fresh : (V n).get? request.id = none
  created : db = (V n).save (request.row parent segment)

namespace CommentTransaction

variable {V : ℕ → Comments} {n : ℕ} {start final : Progress CommentQuery CommentRow}

theorem yields_fetchParent {requested : Option ℕ} {parent : Option Comment}
    (h : (fetchParent requested).Yields V n {} parent final) :
    Fetched V n requested parent ∧ final.writes = [] ∧
      ∀ post id k, (.siblings post id, k) ∉ final.log := by
  cases requested with
  | none =>
      obtain ⟨rfl, rfl⟩ := h
      exact ⟨.root, rfl, fun _ _ _ => List.not_mem_nil⟩
  | some id =>
      obtain ⟨found, queried, ⟨p, hp, hfound, rfl⟩, h⟩ := yields_bind.mp h
      rw [Progress.view_nil] at hfound
      cases found with
      | none => exact h.elim
      | some row =>
          obtain ⟨rfl, rfl⟩ := h
          exact ⟨.reply hp hfound, rfl, fun _ _ _ hmem => by cases List.mem_singleton.mp hmem⟩

theorem yields_lockSiblings {post : ℕ} {parent : Option ℕ} {ids : List ℕ} {rows : List Comment}
    (h : (lockSiblings post parent ids).Yields V n start rows final) :
    rows = (ids.flatMap fun id =>
        ((start.view (V n)).get? id).toList.filter (Comment.siblingOf post parent)) ∧
      start = final := by
  induction ids generalizing rows final with
  | nil =>
      obtain ⟨rfl, rfl⟩ := h
      exact ⟨rfl, rfl⟩
  | cons id rest ih =>
      obtain ⟨row, _, ⟨hrow, rfl⟩, h⟩ := yields_bind.mp h
      obtain ⟨others, _, hothers, h⟩ := yields_bind.mp h
      obtain ⟨hlocked, rfl⟩ := ih hothers
      obtain ⟨rfl, rfl⟩ := h
      have hget : row.map Subtype.val = (start.view (V n)).get? id := by
        rw [← hrow]
        exact Table.map_val_row? _ id
      rw [List.flatMap_cons, hlocked, hget]
      exact ⟨rfl, rfl⟩

theorem effect_of_yields {request : CommentRequest} {value : ℕ}
    (h : (createComment request).Yields V n {} value final) :
    ∃ parent m segment,
      CreateEffect V n request final.log (final.view (V n)) parent m segment := by
  obtain ⟨parent, fetching, hparent, h⟩ := yields_bind.mp h
  obtain ⟨hfetched, hwrites, hlog⟩ := yields_fetchParent hparent
  have hview : ∀ store : Comments, fetching.view store = store :=
    Progress.view_of_writes_nil hwrites
  obtain ⟨_, _, hchecking, h⟩ := yields_bind.mp h
  obtain ⟨hchecked, rfl⟩ := yields_ofExcept.mp hchecking
  obtain ⟨ids, _, ⟨m, hm, hids, rfl⟩, h⟩ := yields_bind.mp h
  obtain ⟨rows, _, hlocked, h⟩ := yields_bind.mp h
  obtain ⟨hrows, rfl⟩ := yields_lockSiblings hlocked
  obtain ⟨segment, _, hnumbering, h⟩ := yields_bind.mp h
  obtain ⟨hsegment, rfl⟩ := yields_ofExcept.mp hnumbering
  dsimp only at h
  split_ifs at h with hstorable
  · obtain ⟨_, _, hcreate, h⟩ := yields_bind.mp h
    obtain ⟨hfresh, rfl⟩ := yields_create.mp hcreate
    obtain ⟨-, rfl⟩ := h
    rw [Progress.view_query, hview] at hfresh
    rw [hview] at hids
    refine ⟨parent, m, segment, hfetched, hchecked, hm, fun post id k => ?_, ?_,
      Table.row?_eq_none.mp hfresh, ?_⟩
    · change (.siblings post id, k) ∈ fetching.log ++ [(.siblings request.post request.parent, m)] ↔ _
      rw [List.mem_append, List.mem_singleton, Prod.mk.injEq, CommentQuery.siblings.injEq,
        and_assoc]
      exact or_iff_right (hlog post id k)
    · rw [hrows, ← hids, Progress.view_query, hview, List.flatMap_map] at hsegment
      exact hsegment
    · rw [Progress.view_write, Progress.view_query, hview]
      rfl
  · exact h.elim

end CommentTransaction

/-! ## Threads -/

/-- A root with one segment, or a reply with one segment more than its parent. -/
inductive Comments.Threaded (db : Comments) (row : Comment) : Prop
  | root (no_parent : row.parent = none) (segment : IsSegment row.path)
  | reply {parent : Comment} {segment : String} (parent_mem : parent ∈ db.rows)
      (parent_eq : row.parent = some parent.id) (same_post : parent.post = row.post)
      (isSegment : IsSegment segment) (path_eq : row.path = replyPath parent.path segment)

namespace Comments

/-- Every path extends the parent's by a segment, and none has more than ten segments. -/
def WellNested (db : Comments) : Prop :=
  ∀ row ∈ db.rows, db.Threaded row ∧ (segments row.path).length ≤ CommentService.maxDepth

/-- No two comments of the post have the same path. -/
def UniquePaths (db : Comments) (post : ℕ) : Prop :=
  ∀ first ∈ db.rows, ∀ second ∈ db.rows, first.post = post → second.post = post →
    first.path = second.path → first = second

variable {db : Comments} {row other : Comment}

theorem mem_siblings {post : ℕ} {parent : Option ℕ} :
    row ∈ db.siblings post parent ↔ row ∈ db.rows ∧ row.post = post ∧ row.parent = parent := by
  simp [siblings, Comment.siblingOf]

theorem Threaded.path_ne_empty (h : db.Threaded row) : row.path ≠ "" := by
  cases h with
  | root _ segment => exact segment.ne_empty
  | reply _ _ _ _ path_eq =>
      rw [path_eq]
      exact replyPath_ne_empty _ _

theorem Threaded.mono {db' : Comments} (h : db.Threaded row)
    (hrows : ∀ parent ∈ db.rows, parent ∈ db'.rows) : db'.Threaded row := by
  cases h with
  | root no_parent segment => exact .root no_parent segment
  | reply parent_mem parent_eq same_post isSegment path_eq =>
      exact .reply (hrows _ parent_mem) parent_eq same_post isSegment path_eq

/-- Where paths are unique, comments with the same path are siblings. -/
theorem Threaded.parent_eq_of_path_eq (h : db.Threaded row) (h' : db.Threaded other)
    (hunique : db.UniquePaths row.post) (hpost : row.post = other.post)
    (hpath : row.path = other.path) : row.parent = other.parent := by
  cases h with
  | root no_parent segment =>
      cases h' with
      | root no_parent' => rw [no_parent, no_parent']
      | reply _ _ _ _ path_eq' => exact absurd (hpath.trans path_eq') segment.ne_replyPath
  | reply parent_mem parent_eq same_post isSegment path_eq =>
      cases h' with
      | root _ segment' => exact absurd (hpath.symm.trans path_eq) segment'.ne_replyPath
      | reply parent_mem' parent_eq' same_post' isSegment' path_eq' =>
          have hprefix := (replyPath_inj isSegment isSegment'
            (path_eq.symm.trans (hpath.trans path_eq'))).1
          rw [parent_eq, parent_eq', hunique _ parent_mem _ parent_mem' same_post
            (same_post'.trans hpost.symm) hprefix]

end Comments

theorem CommentService.lastValue_newPath {segment : String} (h : IsSegment segment)
    (parent : Option Comment) : lastValue (newPath parent segment) = parseInt segment := by
  cases parent with
  | none => rw [newPath, lastValue, segments_segment h, List.getLastD_cons, List.getLastD_nil]
  | some parent => rw [newPath, lastValue, segments_replyPath h, List.getLastD_concat]

/-! ## One commit -/

/-- The comments of earlier versions are there unchanged. -/
def Persistent (V : ℕ → Comments) (n : ℕ) : Prop :=
  ∀ p ≤ n, ∀ id row, (V p).get? id = some row → (V n).get? id = some row

theorem Fetched.eq_some {V : ℕ → Comments} {n id : ℕ} {parent : Option Comment}
    (h : Fetched V n (some id) parent) (hpersistent : Persistent V n) :
    ∃ row, parent = some row ∧ (V n).get? id = some row := by
  cases h with
  | reply hp found => exact ⟨_, rfl, hpersistent _ hp _ _ found⟩

/-- A parent is the same at whatever version it is read. -/
theorem Fetched.eq_of_le {V : ℕ → Comments} {k n : ℕ} {requested : Option ℕ}
    {parent parent' : Option Comment} (h : Fetched V k requested parent) (hkn : k ≤ n)
    (hk : Persistent V k) (hn : Persistent V n) (h' : Fetched V n requested parent') :
    parent = parent' := by
  cases requested with
  | none =>
      cases h
      cases h'
      rfl
  | some id =>
      obtain ⟨row, rfl, hrow⟩ := h.eq_some hk
      obtain ⟨row', rfl, hrow'⟩ := h'.eq_some hn
      rw [← hrow', hn k hkn id row hrow]

namespace CreateEffect

variable {V : ℕ → Comments} {n m : ℕ} {request : CommentRequest} {log : List (CommentQuery × ℕ)}
  {db : Comments} {parent : Option Comment} {segment : String}

variable (h : CreateEffect V n request log db parent m segment)

include h

theorem mem_rows_iff {other : Comment} :
    other ∈ db.rows ↔ other = request.row parent segment ∨ other ∈ (V n).rows := by
  have hdiffers : ∀ row ∈ (V n).rows, row.id ≠ request.id := by
    intro row hrow heq
    have hget := Table.get?_key_of_mem hrow
    rw [heq, h.fresh] at hget
    cases hget
  rw [h.created, Table.mem_save_iff]
  constructor
  · exact Or.imp_right And.left
  · exact Or.imp_right fun hrow => ⟨hrow, hdiffers other hrow⟩

theorem get?_of_get? {id : ℕ} {row : Comment} (hrow : (V n).get? id = some row) :
    db.get? id = some row := by
  have hmem : row ∈ db.rows := h.mem_rows_iff.mpr (Or.inr (Table.mem_of_get? hrow))
  rw [← Table.key_of_get? hrow]
  exact Table.get?_key_of_mem hmem

/-- The siblings that the number is counted from. -/
theorem numbered_siblings (hpersistent : Persistent V n) :
    CommentService.nextSegment
      (((V m).siblings request.post request.parent).map Comment.path) = .ok segment := by
  have hlocked : ∀ sibling ∈ (V m).siblings request.post request.parent,
      ((V n).get? sibling.id).toList.filter
        (Comment.siblingOf request.post request.parent) = [sibling] := by
    intro sibling hsibling
    obtain ⟨hmem, hsame⟩ := List.mem_filter.mp hsibling
    rw [hpersistent m h.read_le _ _ (Table.get?_key_of_mem hmem), Option.toList_some,
      List.filter_cons_of_pos hsame, List.filter_nil]
  have hnumbered := h.numbered
  rwa [List.flatMap_congr hlocked, List.flatMap_singleton'] at hnumbered

theorem isSegment (hpersistent : Persistent V n) : IsSegment segment := by
  obtain ⟨next, hnext, rfl, -⟩ := CommentService.nextSegment_eq_ok (h.numbered_siblings hpersistent)
  exact isSegment_zeroPadded hnext

/-- The new comment has its place in the thread. -/
theorem threaded_row (hpersistent : Persistent V n) (hnested : (V n).WellNested) :
    (V n).Threaded (request.row parent segment) ∧ (segments (request.row parent segment).path).length ≤ CommentService.maxDepth := by
  have hsegment := h.isSegment hpersistent
  have hfetched := h.fetched
  have hchecked := h.checked
  cases hparent : request.parent with
  | none =>
      rw [hparent] at hfetched
      cases hfetched
      refine ⟨.root hparent hsegment, ?_⟩
      change (segments segment).length ≤ _
      rw [segments_segment hsegment]
      exact Nat.le_add_left 1 9
  | some id =>
      rw [hparent] at hfetched
      obtain ⟨found, rfl, hget⟩ := hfetched.eq_some hpersistent
      have hmem := Table.mem_of_get? hget
      unfold CommentService.checkParent at hchecked
      dsimp only at hchecked
      split_ifs at hchecked with hpost hdepth
      refine ⟨.reply hmem ?_ (not_not.mp hpost) hsegment rfl, ?_⟩
      · rw [Table.key_of_get? hget]
        exact hparent
      · rw [Comment.depth, if_neg (hnested found hmem).1.path_ne_empty] at hdepth
        change (segments (replyPath found.path segment)).length ≤ _
        rw [segments_replyPath hsegment, List.length_append, List.length_singleton]
        omega

theorem wellNested (hpersistent : Persistent V n) (hnested : (V n).WellNested) :
    db.WellNested := by
  have hrows : ∀ row ∈ (V n).rows, row ∈ db.rows := fun row hrow => h.mem_rows_iff.mpr (Or.inr hrow)
  intro row hrow
  rcases h.mem_rows_iff.mp hrow with rfl | hold
  · obtain ⟨hthreaded, hdepth⟩ := h.threaded_row hpersistent hnested
    exact ⟨hthreaded.mono hrows, hdepth⟩
  · exact ⟨(hnested row hold).1.mono hrows, (hnested row hold).2⟩

/-- If no sibling was missed, the path of the new comment is its own. -/
theorem path_ne (hpersistent : Persistent V n) (hnested : (V n).WellNested)
    (hunique : (V n).UniquePaths request.post)
    (hread : (V m).siblings request.post request.parent = (V n).siblings request.post request.parent)
    {other : Comment} (hother : other ∈ (V n).rows) (hpost : other.post = request.post) :
    other.path ≠ (request.row parent segment).path := by
  intro hpath
  have hparent : request.parent = other.parent :=
    (h.threaded_row hpersistent hnested).1.parent_eq_of_path_eq (hnested other hother).1 hunique
      hpost.symm hpath.symm
  have hsibling : other ∈ (V m).siblings request.post request.parent := by
    rw [hread]
    exact Comments.mem_siblings.mpr ⟨hother, hpost, hparent.symm⟩
  have hnumbered := h.numbered_siblings hpersistent
  obtain ⟨next, hnext, hsegment, hvalues⟩ := CommentService.nextSegment_eq_ok hnumbered
  obtain ⟨value, hvalue, hlt⟩ := hvalues other.path (List.mem_map_of_mem hsibling)
  -- the same path ends in the same number
  have hlast : CommentService.lastValue other.path = some (next : ℤ) := by
    rw [hpath, CommentRequest.row]
    change CommentService.lastValue (CommentService.newPath parent segment) = _
    rw [CommentService.lastValue_newPath (h.isSegment hpersistent), hsegment,
      parseInt_zeroPadded hnext]
  rw [hlast, Option.some.injEq] at hvalue
  exact hlt.ne hvalue.symm

theorem uniquePaths (hpersistent : Persistent V n) (hnested : (V n).WellNested) {post : ℕ}
    (hunique : (V n).UniquePaths post)
    (hread : request.post = post →
      (V m).siblings request.post request.parent = (V n).siblings request.post request.parent) :
    db.UniquePaths post := by
  have hnew : ∀ other ∈ (V n).rows, other.post = post → request.post = post →
      other.path ≠ (request.row parent segment).path := by
    rintro other hother hpost rfl
    exact h.path_ne hpersistent hnested hunique (hread rfl) hother hpost
  intro first hfirst second hsecond hpost hpost' hpath
  rcases h.mem_rows_iff.mp hfirst with rfl | hfirst <;>
    rcases h.mem_rows_iff.mp hsecond with rfl | hsecond
  · rfl
  · exact absurd hpath.symm (hnew second hsecond hpost' hpost)
  · exact absurd hpath (hnew first hfirst hpost hpost')
  · exact hunique first hfirst second hsecond hpost hpost' hpath

/-- Only the siblings of the new comment become more. -/
theorem siblings_eq {post : ℕ} {parentId : Option ℕ}
    (hother : ¬ (request.post = post ∧ request.parent = parentId)) :
    db.siblings post parentId = (V n).siblings post parentId := by
  have htables : db.filter (Comment.siblingOf post parentId) =
      (V n).filter (Comment.siblingOf post parentId) := by
    refine Table.ext_mem fun row => ?_
    change row ∈ db.siblings post parentId ↔ row ∈ (V n).siblings post parentId
    rw [Comments.mem_siblings, Comments.mem_siblings, h.mem_rows_iff]
    constructor
    · rintro ⟨rfl | hold, hsame⟩
      · exact absurd hsame hother
      · exact ⟨hold, hsame⟩
    · exact And.imp_left Or.inr
  exact congrArg Table.rows htables

end CreateEffect

/-! ## Whole runs -/

namespace CommentSystem

variable {ι : Type} {sys : CommentSystem ι}

/-- The sessions create comments. -/
def Permitted (_ : ι) (program : CommentTransaction ℕ) : Prop :=
  ∃ request : CommentRequest, program = .createComment request

/-- Every commit has the effect of its call. -/
theorem effect (hsound : sys.Sound Permitted) {n : ℕ}
    {commit : Commit ι CommentQuery Comments CommentRow ℕ} (h : sys.commits[n]? = some commit) :
    ∃ request parent m segment, CreateEffect sys.version n request commit.log
      (sys.version (n + 1)) parent m segment := by
  obtain ⟨⟨request, hprogram⟩, hyields⟩ := hsound.commits n commit h
  rw [hprogram] at hyields
  rw [System.version_succ h]
  exact ⟨request, CommentTransaction.effect_of_yields hyields⟩

theorem persistent (hsound : sys.Sound Permitted) {n : ℕ} (hn : n ≤ sys.commits.length) :
    Persistent sys.version n := by
  intro p hp id row hrow
  induction n, hp using Nat.le_induction with
  | base => exact hrow
  | succ n hp ih =>
      obtain ⟨_, _, _, _, heffect⟩ := effect hsound (List.getElem?_eq_getElem hn)
      exact heffect.get?_of_get? (ih (by omega))

theorem wellNested (hsound : sys.Sound Permitted) (hstart : (sys.version 0).WellNested) {n : ℕ}
    (hn : n ≤ sys.commits.length) : (sys.version n).WellNested := by
  induction n with
  | zero => exact hstart
  | succ n ih =>
      obtain ⟨_, _, _, _, heffect⟩ := effect hsound (List.getElem?_eq_getElem hn)
      exact heffect.wellNested (persistent hsound (by omega)) (ih (by omega))

/-- No look-up of siblings in the post is outrun: the siblings are the same when the
comment is committed. -/
def Fresh (sys : CommentSystem ι) (post : ℕ) : Prop :=
  ∀ (n : ℕ) (commit : Commit ι CommentQuery Comments CommentRow ℕ),
    sys.commits[n]? = some commit → ∀ parent m, (.siblings post parent, m) ∈ commit.log →
      (sys.version m).siblings post parent = (sys.version n).siblings post parent

/-- A sequence that differs at two places changes in between. -/
theorem exists_change {α : Type} {f : ℕ → α} {m n : ℕ} (hmn : m ≤ n) (h : f m ≠ f n) :
    ∃ k, m ≤ k ∧ k < n ∧ f m = f k ∧ f k ≠ f (k + 1) := by
  induction n, hmn using Nat.le_induction with
  | base => exact absurd rfl h
  | succ n hmn ih =>
      by_cases hn : f m = f n
      · exact ⟨n, hmn, Nat.lt_succ_self n, hn, fun heq => h (hn.trans heq)⟩
      · obtain ⟨k, hmk, hkn, hsame, hchange⟩ := ih hn
        exact ⟨k, hmk, Nat.lt_succ_of_lt hkn, hsame, hchange⟩

/-- Where the paths stay unique, no look-up was outrun: the first comment that it missed
would have the same number. -/
theorem fresh_of_uniquePaths (hsound : sys.Sound Permitted) {post : ℕ}
    (hunique : ∀ n ≤ sys.commits.length, (sys.version n).UniquePaths post) : Fresh sys post := by
  intro n
  induction n using Nat.strong_induction_on with
  | _ n ih =>
      intro commit hcommit parentId m hlog
      obtain ⟨request, parent, read, segment, heffect⟩ := effect hsound hcommit
      obtain ⟨rfl, rfl, rfl⟩ := (heffect.logged _ _ _).mp hlog
      by_contra hchanged
      have hn : n < sys.commits.length := (List.getElem?_eq_some_iff.mp hcommit).1
      obtain ⟨k, hmk, hkn, hsame, hchange⟩ := exists_change
        (f := fun k => (sys.version k).siblings request.post request.parent)
        heffect.read_le hchanged
      have hmissed := List.getElem?_eq_getElem (hkn.trans hn)
      obtain ⟨other, otherParent, otherRead, otherSegment, hother⟩ := effect hsound hmissed
      -- the comment that was missed is a sibling, which saw all the siblings
      have hsibling : other.post = request.post ∧ other.parent = request.parent := by
        by_contra hdiffers
        exact hchange (hother.siblings_eq hdiffers).symm
      have hread := ih k hkn _ hmissed request.parent otherRead
        ((hother.logged _ _ _).mpr ⟨hsibling.1.symm, hsibling.2.symm, rfl⟩)
      have hsegment : otherSegment = segment := by
        have hnumbered := hother.numbered_siblings (persistent hsound (hkn.trans hn).le)
        rw [hsibling.1, hsibling.2, hread, ← hsame,
          heffect.numbered_siblings (persistent hsound hn.le)] at hnumbered
        exact (Except.ok.inj hnumbered).symm
      have hparent : otherParent = parent :=
        (hsibling.2 ▸ hother.fetched).eq_of_le hkn.le (persistent hsound (hkn.trans hn).le)
          (persistent hsound hn.le) heffect.fetched
      -- so that it has the path of the new comment
      have hmem : other.row parent segment ∈ (sys.version n).rows := by
        have hcreated : other.row otherParent otherSegment ∈ (sys.version (k + 1)).rows :=
          hother.mem_rows_iff.mpr (Or.inl rfl)
        rw [hparent, hsegment] at hcreated
        exact Table.mem_of_get?
          (persistent hsound hn.le (k + 1) hkn _ _ (Table.get?_key_of_mem hcreated))
      have hsamePath := hunique (n + 1) hn _ (heffect.mem_rows_iff.mpr (Or.inl rfl)) _
        (heffect.mem_rows_iff.mpr (Or.inr hmem)) rfl hsibling.1 rfl
      have hget := Table.get?_key_of_mem hmem
      rw [← hsamePath] at hget
      exact absurd (heffect.fresh.symm.trans hget) (by simp)

/-- In every run of `create_comment` calls the paths stay well nested, and they stay unique
in a post exactly if no look-up of siblings in it was outrun by another commit. -/
theorem uniquePaths_iff [DecidableEq ι] {db : Comments} {post : ℕ}
    {moves : List (Move ι CommentQuery Comments CommentRow ℕ)}
    (run : Run (System.Step Permitted) (System.start db) moves sys) (hnested : db.WellNested)
    (hunique : db.UniquePaths post) :
    (∀ n ≤ sys.commits.length, (sys.version n).WellNested) ∧
      ((∀ n ≤ sys.commits.length, (sys.version n).UniquePaths post) ↔ Fresh sys post) := by
  have hsound := System.Sound.run run
  have hinitial : sys.version 0 = db := System.initial_of_run run
  have hwellNested : ∀ n ≤ sys.commits.length, (sys.version n).WellNested := fun n hn =>
    wellNested hsound (hinitial.symm ▸ hnested) hn
  refine ⟨hwellNested, fresh_of_uniquePaths hsound, fun hfresh n => ?_⟩
  induction n with
  | zero =>
      intro _
      rw [hinitial]
      exact hunique
  | succ n ih =>
      intro hn
      have hcommit := List.getElem?_eq_getElem hn
      obtain ⟨request, parent, m, segment, heffect⟩ := effect hsound hcommit
      apply heffect.uniquePaths (persistent hsound (by omega)) (hwellNested n (by omega))
        (ih (by omega))
      rintro rfl
      exact hfresh n _ hcommit _ m ((heffect.logged _ _ _).mpr ⟨rfl, rfl, rfl⟩)

end CommentSystem

/-! ## Two comments -/

/-- Two comments on one post, the second one under the given parent. -/
def sampleComment (parent : Option ℕ) (session : Bool) : CommentRequest where
  post := 1
  author := 7
  body := "Hello"
  parent := if session then parent else none
  id := if session then 2 else 1

/-- Both transactions begin, and the sessions of `steps` execute a statement in turn. -/
def commentMoves (parent : Option ℕ) (steps : List Bool) :
    List (Move Bool CommentQuery Comments CommentRow ℕ) :=
  .begin false (CommentTransaction.createComment (sampleComment parent false)) ::
    .begin true (CommentTransaction.createComment (sampleComment parent true)) ::
      steps.map .step

theorem run_commentMoves {parent : Option ℕ} {steps : List Bool} {sys : CommentSystem Bool}
    (h : (System.start ∅ : CommentSystem Bool).moves (commentMoves parent steps) = some sys) :
    Run (System.Step CommentSystem.Permitted) (System.start ∅) (commentMoves parent steps) sys :=
  System.run_of_two
    (fun session => CommentTransaction.createComment (sampleComment parent session)) h fun _ =>
      ⟨_, rfl⟩

theorem Comments.wellNested_empty : (∅ : Comments).WellNested := by
  intro row hrow
  cases hrow

theorem Comments.uniquePaths_empty (post : ℕ) : (∅ : Comments).UniquePaths post := by
  intro first hfirst
  cases hfirst

namespace CommentSystem

/-- A comment and, after its commit, a reply. -/
theorem uniquePaths_consecutive :
    ∃ sys : CommentSystem Bool,
      sys.store.rows.map Comment.path = ["001", "001.001"] ∧
        (∀ n ≤ sys.commits.length, (sys.version n).WellNested) ∧
          ((∀ n ≤ sys.commits.length, (sys.version n).UniquePaths 1) ↔ Fresh sys 1) := by
  have hmoves : ((System.start ∅ : CommentSystem Bool).moves
      (commentMoves (some 1) (List.replicate 3 false ++ List.replicate 4 true))).map
        (fun sys => sys.store.rows.map Comment.path) = some ["001", "001.001"] := by
    decide +kernel
  obtain ⟨sys, hsys, hpaths⟩ := Option.map_eq_some_iff.mp hmoves
  exact ⟨sys, hpaths, uniquePaths_iff (run_commentMoves hsys) Comments.wellNested_empty
    (Comments.uniquePaths_empty 1)⟩

/-- Two comments that look for siblings before either is committed get the same path. -/
theorem two_first_comments :
    ∃ (moves : List (Move Bool CommentQuery Comments CommentRow ℕ)) (sys : CommentSystem Bool),
      Run (System.Step Permitted) (System.start ∅) moves sys ∧
        sys.store.rows.map Comment.path = ["001", "001"] ∧ ¬ sys.store.UniquePaths 1 := by
  have hmoves : ((System.start ∅ : CommentSystem Bool).moves
      (commentMoves none [false, true, false, false, true, true])).map
        (fun sys => sys.store.rows) =
          some [(sampleComment none false).comment "001", (sampleComment none true).comment "001"] := by
    decide +kernel
  obtain ⟨sys, hsys, hrows⟩ := Option.map_eq_some_iff.mp hmoves
  refine ⟨_, sys, run_commentMoves hsys, by rw [hrows]; decide, fun hunique => ?_⟩
  have hsame := hunique ((sampleComment none false).comment "001") (by rw [hrows]; decide)
    ((sampleComment none true).comment "001") (by rw [hrows]; decide) rfl rfl rfl
  exact absurd hsame (by decide)

end CommentSystem

end JudgeLoom
