import JudgeLoom.Content.CommentHistory
import JudgeLoom.Library.SortBy

/-!
# The comment tree

`get_comments_for_post` sorts the visible comments of a post by path, and
`get_comment_tree` nests them in one pass: a comment goes below the node of its parent if
that was reached before, and becomes a root otherwise.

The pass works on any list in which no comment comes before its parent (`Built`); sorted by
path, none does, since a path extends the parent's.  Run on *all* the comments of a post, it
builds the full thread, whose traversal is the order of the paths; the comments for the post
are that traversal without those that are not visible.
-/

namespace JudgeLoom

/-- A visible comment of the post. -/
def Comment.shownIn (post : ℕ) (row : Comment) : Bool :=
  row.post = post && row.visibility = .visible

namespace CommentService

/-- Return comments for a post in threaded display order. -/
def getCommentsForPost (db : Comments) (post : ℕ) : List Comment :=
  (db.rows.filter (Comment.shownIn post)).sortBy Comment.pathBytes

/-- The variables of `get_comment_tree`: the keys of `nodes`, and `roots`.  The nodes
themselves are those of `roots`, which `nodes` shares. -/
structure CommentNodes where
  nodes : List ℕ := []
  roots : Forest Comment := .nil

/-- The body of the loop. -/
def addNode (state : CommentNodes) (comment : Comment) : CommentNodes :=
  let nodes := comment.id :: state.nodes
  match comment.parent with
  | none => { nodes, roots := state.roots.snoc comment }
  | some parent =>
      if parent ∈ nodes then
        { nodes, roots := state.roots.insertUnder (fun node => node.id = parent) comment }
      else { nodes, roots := state.roots.snoc comment }

/-- The loop. -/
def nest (comments : List Comment) : Forest Comment := (comments.foldl addNode {}).roots

/-- Build a nested tree structure for all post comments. -/
def getCommentTree (db : Comments) (post : ℕ) : Forest Comment := nest (getCommentsForPost db post)

/-! ## One pass -/

/-- No comment of the list is its parent. -/
def Orphan (comments : List Comment) (comment : Comment) : Prop :=
  ∀ parent ∈ comments, comment.parent ≠ some parent.id

instance (comments : List Comment) : DecidablePred (Orphan comments) := fun _ =>
  inferInstanceAs (Decidable (∀ _ ∈ _, _))

/-- What the loop has built from the comments that it went through. -/
structure Built (done : List Comment) (state : CommentNodes) : Prop where
  nodup : (done.map Comment.id).Nodup
  nodes : ∀ id, id ∈ state.nodes ↔ ∃ comment ∈ done, comment.id = id
  preorder : state.roots.preorder.Perm done
  roots : state.roots.roots = done.filter fun comment => Orphan done comment
  families : ∀ family ∈ state.roots.families,
    family.2 = done.filter fun comment => comment.parent = some family.1.id

theorem built_nil : Built [] {} :=
  ⟨List.nodup_nil, fun id => by simp, List.Perm.refl _, rfl, fun family h => absurd h List.not_mem_nil⟩

variable {done : List Comment} {state : CommentNodes} {comment : Comment}

/-- The comment is new, and no comment was reached before its parent. -/
structure Follows (done : List Comment) (comment : Comment) : Prop where
  fresh : ∀ other ∈ done, other.id ≠ comment.id
  later : ∀ other ∈ done, other.parent ≠ some comment.id
  irrefl : comment.parent ≠ some comment.id

/-- Comments that were reached before stay where they are. -/
theorem Follows.filter_orphan (h : Follows done comment) :
    ((done ++ [comment]).filter fun other => Orphan (done ++ [comment]) other) =
      (done.filter fun other => Orphan done other) ++
        if Orphan done comment then [comment] else [] := by
  have horphan : ∀ other, other.parent ≠ some comment.id →
      (Orphan (done ++ [comment]) other ↔ Orphan done other) := by
    intro other hother
    unfold Orphan
    rw [List.forall_mem_append, List.forall_mem_singleton]
    exact and_iff_left hother
  rw [List.filter_append, List.filter_singleton]
  congr 1
  · exact List.filter_congr fun other hother =>
      decide_eq_decide.mpr (horphan other (h.later other hother))
  · simp only [horphan comment h.irrefl, Bool.cond_decide]

theorem Follows.nodup (h : Follows done comment) (hnodup : (done.map Comment.id).Nodup) :
    ((done ++ [comment]).map Comment.id).Nodup := by
  rw [List.map_append, List.nodup_append]
  refine ⟨hnodup, List.nodup_singleton _, fun id hid other hother => ?_⟩
  obtain ⟨row, hrow, rfl⟩ := List.mem_map.mp hid
  obtain rfl := List.mem_singleton.mp hother
  exact h.fresh row hrow

/-- Nothing was reached that belongs below the new comment. -/
theorem Follows.filter_self (h : Follows done comment) :
    ((done ++ [comment]).filter fun other => other.parent = some comment.id) = [] := by
  rw [List.filter_eq_nil_iff, List.forall_mem_append, List.forall_mem_singleton]
  exact ⟨fun other hother => by simpa using h.later other hother, by simpa using h.irrefl⟩

theorem Built.mem_nodes_cons (h : Built done state) (id : ℕ) :
    id ∈ comment.id :: state.nodes ↔ ∃ other ∈ done ++ [comment], other.id = id := by
  rw [List.mem_cons, h.nodes]
  simp [or_comm, eq_comm]

/-- A comment whose parent was not reached becomes a root. -/
theorem Built.snoc (h : Built done state) (hfollows : Follows done comment)
    (horphan : Orphan done comment) :
    Built (done ++ [comment])
      { nodes := comment.id :: state.nodes, roots := state.roots.snoc comment } := by
  refine ⟨hfollows.nodup h.nodup, h.mem_nodes_cons, ?_, ?_, fun family hfamily => ?_⟩
  · rw [Forest.preorder_snoc]
    exact h.preorder.append_right _
  · rw [Forest.roots_snoc, hfollows.filter_orphan, if_pos horphan, h.roots]
  · rw [Forest.families_snoc, List.mem_append, List.mem_singleton] at hfamily
    rcases hfamily with hold | rfl
    · have hmem := h.preorder.mem_iff.mp (Forest.mem_preorder_of_mem_families hold)
      rw [List.filter_append, List.filter_singleton, h.families family hold,
        decide_eq_false (horphan _ hmem), cond_false, List.append_nil]
    · exact hfollows.filter_self.symm

/-- A comment whose parent was reached goes below it. -/
theorem Built.insertUnder (h : Built done state) (hfollows : Follows done comment) {above : Comment}
    (habove : above ∈ done) (hparent : comment.parent = some above.id) :
    Built (done ++ [comment])
      { nodes := comment.id :: state.nodes
        roots := state.roots.insertUnder (fun node => node.id = above.id) comment } := by
  refine ⟨hfollows.nodup h.nodup, h.mem_nodes_cons, ?_, ?_, fun family hfamily => ?_⟩
  · have hnodup : state.roots.preorder.Nodup :=
      h.preorder.nodup_iff.mpr (List.Nodup.of_map _ h.nodup)
    refine (Forest.preorder_insertUnder_perm hnodup (h.preorder.mem_iff.mpr habove) ?_).trans
      ((h.preorder.cons _).trans (List.perm_append_singleton _ _).symm)
    intro other hother
    rw [decide_eq_true_eq]
    refine ⟨fun hid => ?_, fun heq => heq ▸ rfl⟩
    exact List.inj_on_of_nodup_map h.nodup (h.preorder.mem_iff.mp hother) habove hid
  · rw [Forest.roots_insertUnder, hfollows.filter_orphan, h.roots, if_neg, List.append_nil]
    exact fun horphan => horphan above habove hparent
  · rcases Forest.mem_families_insertUnder hfamily with rfl | ⟨old, hold, rfl⟩
    · exact hfollows.filter_self.symm
    · rw [List.filter_append, List.filter_singleton, h.families old hold, hparent]
      by_cases hid : old.1.id = above.id
      · simp [hid]
      · simp [hid, Ne.symm hid]

theorem Built.addNode (h : Built done state) (hfollows : Follows done comment) :
    Built (done ++ [comment]) (addNode state comment) := by
  unfold CommentService.addNode
  cases hparent : comment.parent with
  | none =>
      exact h.snoc hfollows fun other _ heq => by rw [hparent] at heq; cases heq
  | some parent =>
      have hself : parent ≠ comment.id := fun heq => hfollows.irrefl (heq ▸ hparent)
      dsimp only
      split_ifs with hreached
      · obtain ⟨above, habove, rfl⟩ := (h.nodes parent).mp
          ((List.mem_cons.mp hreached).resolve_left hself)
        exact h.insertUnder hfollows habove hparent
      · refine h.snoc hfollows fun other hother heq => hreached (List.mem_cons_of_mem _ ?_)
        rw [hparent, Option.some_inj] at heq
        exact (h.nodes parent).mpr ⟨other, hother, heq.symm⟩

/-- No comment of the list comes before its parent. -/
structure ParentsFirst (comments : List Comment) : Prop where
  nodup : (comments.map Comment.id).Nodup
  later : comments.Pairwise fun first second => first.parent ≠ some second.id
  irrefl : ∀ comment ∈ comments, comment.parent ≠ some comment.id

/-- What the loop has built at its end. -/
theorem ParentsFirst.built {comments : List Comment} (h : ParentsFirst comments) :
    Built comments (comments.foldl CommentService.addNode {}) := by
  induction comments using List.reverseRecOn with
  | nil => exact built_nil
  | append_singleton done comment ih =>
      obtain ⟨hnodup, hlater, hirrefl⟩ := h
      rw [List.map_append, List.nodup_append] at hnodup
      rw [List.pairwise_append] at hlater
      rw [List.forall_mem_append, List.forall_mem_singleton] at hirrefl
      rw [List.foldl_append]
      refine (ih ⟨hnodup.1, hlater.1, hirrefl.1⟩).addNode ⟨fun other hother => ?_,
        fun other hother => hlater.2.2 other hother comment List.mem_cons_self, hirrefl.2⟩
      exact hnodup.2.2 other.id (List.mem_map_of_mem hother) comment.id List.mem_cons_self

end CommentService

/-! ## Sorted by path -/

theorem Comment.path_eq_of_pathBytes_eq {first second : Comment}
    (h : first.pathBytes = second.pathBytes) : first.path = second.path := by
  have hinj : Function.Injective UInt8.toNat := fun _ _ => UInt8.toNat_inj.mp
  have hencoded := congrArg Utf8.decode (List.map_injective_iff.mpr hinj h)
  rwa [Utf8.decode_encode, Utf8.decode_encode] at hencoded

/-- A reply's path extends the path of its parent, in the same post. -/
theorem Comments.WellNested.extends {db : Comments} (h : db.WellNested) {child parent : Comment}
    (hchild : child ∈ db.rows) (hparent : parent ∈ db.rows)
    (heq : child.parent = some parent.id) :
    child.post = parent.post ∧ ∃ more ≠ [], child.pathBytes = parent.pathBytes ++ more := by
  obtain ⟨hthreaded, -⟩ := h child hchild
  cases hthreaded with
  | root no_parent => rw [no_parent] at heq; cases heq
  | @reply found segment parent_mem parent_eq same_post isSegment path_eq =>
      rw [parent_eq, Option.some_inj] at heq
      obtain rfl := db.key_injOn parent_mem hparent heq
      refine ⟨same_post.symm, [46] ++ segment.toList.map Char.toNat, by simp, ?_⟩
      have hbytes := encode_newPath isSegment (some found)
      rw [basePath, List.append_assoc] at hbytes
      rw [← hbytes, Comment.pathBytes, path_eq]
      rfl

/-- A reply has its parent among the comments. -/
theorem Comments.WellNested.exists_parent {db : Comments} (h : db.WellNested) {child : Comment}
    (hchild : child ∈ db.rows) {id : ℕ} (hid : child.parent = some id) :
    ∃ parent ∈ db.rows, parent.id = id ∧ parent.post = child.post := by
  obtain ⟨hthreaded, -⟩ := h child hchild
  cases hthreaded with
  | root no_parent => rw [no_parent] at hid; cases hid
  | reply parent_mem parent_eq same_post =>
      exact ⟨_, parent_mem, Option.some.inj (parent_eq.symm.trans hid), same_post⟩

namespace CommentHistory

open CommentService

/-- Some comments of a post, sorted by path. -/
def sorted (history : CommentHistory) (test : Comment → Bool) : List Comment :=
  (history.comments.rows.filter test).sortBy Comment.pathBytes

variable {history : CommentHistory} {post : ℕ} {test : Comment → Bool}

theorem mem_sorted {comment : Comment} :
    comment ∈ history.sorted test ↔ comment ∈ history.comments.rows ∧ test comment = true := by
  rw [sorted, List.mem_sortBy, List.mem_filter]

theorem Faithful.pathBytes_inj (h : history.Faithful)
    (htest : ∀ comment, test comment = true → comment.post = post) :
    ∀ first ∈ history.comments.rows.filter test, ∀ second ∈ history.comments.rows.filter test,
      first.pathBytes = second.pathBytes → first = second := by
  intro first hfirst second hsecond heq
  obtain ⟨hrow, hpost⟩ := List.mem_filter.mp hfirst
  obtain ⟨hrow', hpost'⟩ := List.mem_filter.mp hsecond
  exact h.unique post first hrow second hrow' (htest first hpost) (htest second hpost')
    (Comment.path_eq_of_pathBytes_eq heq)

theorem nodup_sorted (history : CommentHistory) (test : Comment → Bool) :
    (history.sorted test).Nodup :=
  (history.comments.nodup_rows.filter test).sortBy _

theorem Faithful.pairwise_sorted (h : history.Faithful)
    (htest : ∀ comment, test comment = true → comment.post = post) :
    (history.sorted test).Pairwise fun first second => first.pathBytes < second.pathBytes := by
  refine ((List.pairwise_sortBy Comment.pathBytes _).and (history.nodup_sorted test)).imp_of_mem ?_
  intro first second hfirst hsecond hboth
  refine lt_of_le_of_ne hboth.1 fun heq => hboth.2 ?_
  exact h.pathBytes_inj htest first (List.mem_sortBy.mp hfirst) second
    (List.mem_sortBy.mp hsecond) heq

/-- Sorted by path, no comment comes before its parent. -/
theorem Faithful.parentsFirst (h : history.Faithful)
    (htest : ∀ comment, test comment = true → comment.post = post) :
    ParentsFirst (history.sorted test) := by
  refine ⟨?_, ?_, fun comment hcomment heq => ?_⟩
  · refine (((List.perm_sortBy _ _).map Comment.id).nodup_iff).mpr ?_
    exact history.comments.nodup_keys.sublist (List.filter_sublist.map _)
  · refine (h.pairwise_sorted htest).imp_of_mem fun {first second} hfirst hsecond hlt heq => ?_
    obtain ⟨-, more, hmore, hbytes⟩ :=
      h.nested.extends (mem_sorted.mp hfirst).1 (mem_sorted.mp hsecond).1 heq
    rw [hbytes] at hlt
    exact absurd hlt (Forest.lt_append hmore).asymm
  · have hrow := (mem_sorted.mp hcomment).1
    obtain ⟨-, more, hmore, hbytes⟩ := h.nested.extends hrow hrow heq
    exact absurd (hbytes ▸ Forest.lt_append hmore) (lt_irrefl _)

/-- Siblings sorted by path are in the order of their creation. -/
theorem Faithful.sorted_siblings (h : history.Faithful)
    (htest : ∀ comment, test comment = true → comment.post = post) {sibling : Comment → Bool}
    {parent : Option ℕ} (hsibling : ∀ comment, sibling comment = true → comment.parent = parent) :
    (history.sorted test).filter sibling =
      history.rows.filter fun comment => sibling comment && test comment := by
  have hboth : ∀ comment, (sibling comment && test comment) = true →
      comment.parent = parent ∧ comment.post = post := by
    intro comment hcomment
    obtain ⟨hfirst, hsecond⟩ := Bool.and_eq_true_iff.mp hcomment
    exact ⟨hsibling comment hfirst, htest comment hsecond⟩
  rw [sorted, List.filter_sortBy _ (h.pathBytes_inj htest), List.filter_filter]
  symm
  refine List.eq_sortBy_of_perm (h.pathBytes_inj fun comment hcomment => (hboth comment hcomment).2)
    ?_ (h.perm.filter _)
  refine (h.numbered.filter _).imp_of_mem fun {first second} hfirst hsecond hahead => ?_
  obtain ⟨hparent, hpost⟩ := hboth first (List.mem_filter.mp hfirst).2
  obtain ⟨hparent', hpost'⟩ := hboth second (List.mem_filter.mp hsecond).2
  exact (hahead (hpost.trans hpost'.symm) (hparent.trans hparent'.symm)).2.le

/-! ## The tree -/

/-- A visible comment of the post. -/
def Shown (history : CommentHistory) (post : ℕ) (comment : Comment) : Prop :=
  comment ∈ history.comments.rows ∧ comment.post = post ∧ comment.visibility = .visible

/-- What a nested list must be to show the comments of the post. -/
structure ShownBy (history : CommentHistory) (post : ℕ) (tree : Forest Comment) : Prop where
  /-- Every visible comment is in the tree once, and no other. -/
  nodup : tree.preorder.Nodup
  mem_iff : ∀ comment, comment ∈ tree.preorder ↔ history.Shown post comment
  /-- A comment is listed under its parent if that is visible, -/
  below_iff : ∀ family ∈ tree.families, ∀ comment, comment ∈ family.2 ↔
    history.Shown post comment ∧ comment.parent = some family.1.id
  /-- and is a root otherwise. -/
  root_iff : ∀ comment, comment ∈ tree.roots ↔ history.Shown post comment ∧
    ∀ parent, history.Shown post parent → comment.parent ≠ some parent.id
  /-- Siblings are in the order of their creation, below a visible parent -/
  below_created : ∀ family ∈ tree.families, family.2.Sublist history.rows
  /-- and among the roots. -/
  root_created : ∀ parent,
    (tree.roots.filter fun comment => comment.parent = parent).Sublist history.rows

/-- The full thread of the post: all its comments, each with its replies in the order of
their creation. -/
structure Thread (history : CommentHistory) (post : ℕ) (thread : Forest Comment) : Prop where
  nodup : thread.preorder.Nodup
  mem_iff : ∀ comment, comment ∈ thread.preorder ↔
    comment ∈ history.comments.rows ∧ comment.post = post
  roots : thread.roots = history.replies post none
  below : ∀ family ∈ thread.families, family.2 = history.replies post (some family.1.id)

theorem mem_sorted_shownIn {comment : Comment} :
    comment ∈ history.sorted (Comment.shownIn post) ↔ history.Shown post comment := by
  simp [mem_sorted, Comment.shownIn, Shown]

theorem post_of_shownIn (comment : Comment) (h : comment.shownIn post = true) :
    comment.post = post := by
  simp only [Comment.shownIn, Bool.and_eq_true, decide_eq_true_eq] at h
  exact h.1

theorem Faithful.shownBy (h : history.Faithful) (post : ℕ) :
    history.ShownBy post (getCommentTree history.comments post) := by
  have hbuilt : Built (history.sorted (Comment.shownIn post)) _ :=
    (h.parentsFirst post_of_shownIn).built
  refine ⟨?_, fun comment => ?_, fun family hfamily comment => ?_, fun comment => ?_,
    fun family hfamily => ?_, fun parent => ?_⟩
  · exact hbuilt.preorder.nodup_iff.mpr (history.nodup_sorted _)
  · exact hbuilt.preorder.mem_iff.trans mem_sorted_shownIn
  · rw [hbuilt.families family hfamily, List.mem_filter, mem_sorted_shownIn, decide_eq_true_eq]
  · change comment ∈ (List.foldl addNode {} (history.sorted (Comment.shownIn post))).roots.roots ↔ _
    rw [hbuilt.roots, List.mem_filter, mem_sorted_shownIn, decide_eq_true_eq, Orphan]
    simp only [mem_sorted_shownIn]
  · rw [hbuilt.families family hfamily,
      h.sorted_siblings post_of_shownIn fun comment => of_decide_eq_true]
    exact List.filter_sublist
  · change ((List.foldl addNode {} (history.sorted (Comment.shownIn post))).roots.roots.filter
      fun comment => decide (comment.parent = parent)).Sublist history.rows
    rw [hbuilt.roots, List.filter_filter, h.sorted_siblings post_of_shownIn
      fun comment hcomment => of_decide_eq_true (Bool.and_eq_true_iff.mp hcomment).1]
    exact List.filter_sublist

/-- A comment of the post. -/
def inPost (post : ℕ) (comment : Comment) : Bool := comment.post = post

theorem post_of_inPost (comment : Comment) (h : inPost post comment = true) :
    comment.post = post :=
  of_decide_eq_true h

/-- The pass over all comments of the post builds the full thread. -/
theorem Faithful.thread (h : history.Faithful) (post : ℕ) :
    history.Thread post (nest (history.sorted (inPost post))) := by
  have hbuilt : Built (history.sorted (inPost post)) _ := (h.parentsFirst post_of_inPost).built
  have hreplies : ∀ parent : Option ℕ,
      (history.sorted (inPost post)).filter (fun comment => comment.parent = parent) =
        history.replies post parent := by
    intro parent
    rw [h.sorted_siblings post_of_inPost fun comment => of_decide_eq_true, replies]
    refine List.filter_congr fun comment _ => ?_
    simp [inPost, Comment.siblingOf, Bool.and_comm]
  refine ⟨hbuilt.preorder.nodup_iff.mpr (history.nodup_sorted _), fun comment => ?_, ?_,
    fun family hfamily => (hbuilt.families family hfamily).trans (hreplies _)⟩
  · rw [← show inPost post comment = true ↔ comment.post = post from decide_eq_true_iff]
    exact hbuilt.preorder.mem_iff.trans mem_sorted
  · rw [← hreplies none]
    refine hbuilt.roots.trans (List.filter_congr fun comment hcomment => ?_)
    -- every parent is in the post
    obtain ⟨hrow, hin⟩ := mem_sorted.mp hcomment
    rw [decide_eq_decide]
    constructor
    · intro horphan
      by_contra hsome
      obtain ⟨id, hid⟩ := Option.ne_none_iff_exists'.mp hsome
      obtain ⟨parent, hparent, rfl, hsame⟩ := h.nested.exists_parent hrow hid
      refine horphan parent (mem_sorted.mpr ⟨hparent, ?_⟩) hid
      exact decide_eq_true (hsame.trans (post_of_inPost comment hin))
    · intro hnone parent _ heq
      rw [hnone] at heq
      cases heq

/-- The traversal of the full thread is the order of the paths. -/
theorem Faithful.preorder_thread (h : history.Faithful) {thread : Forest Comment}
    (hthread : history.Thread post thread) :
    thread.preorder = history.sorted (inPost post) := by
  have hordered : ∀ parent, Forest.Ordered Comment.pathBytes (history.replies post parent) := by
    intro parent
    refine (h.numbered.filter _).imp_of_mem fun {first second} hfirst hsecond hahead => ?_
    have hsame := (List.mem_filter.mp hfirst).2
    have hsame' := (List.mem_filter.mp hsecond).2
    simp only [Comment.siblingOf, Bool.and_eq_true, decide_eq_true_eq] at hsame hsame'
    exact hahead (hsame.1.trans hsame'.1.symm) (hsame.2.trans hsame'.2.symm)
  have hextends : ∀ family ∈ thread.families, Forest.Extends Comment.pathBytes family := by
    intro family hfamily child hchild
    have habove := (hthread.mem_iff _).mp (Forest.mem_preorder_of_mem_families hfamily)
    rw [hthread.below family hfamily, replies, List.mem_filter, h.perm.mem_iff] at hchild
    have hparent := hchild.2
    simp only [Comment.siblingOf, Bool.and_eq_true, decide_eq_true_eq] at hparent
    exact (h.nested.extends hchild.1 habove.1 hparent.2).2
  have hsorted := Forest.pairwise_preorder (hthread.roots ▸ hordered none)
    (fun family hfamily => hthread.below family hfamily ▸ hordered _) hextends
  refine List.eq_sortBy_of_perm (h.pathBytes_inj post_of_inPost) (hsorted.imp le_of_lt) ?_
  refine (List.perm_ext_iff_of_nodup hthread.nodup (history.comments.nodup_rows.filter _)).mpr
    fun comment => ?_
  rw [hthread.mem_iff, List.mem_filter, inPost, decide_eq_true_eq]

/-- After every sequence of calls, the tree shows exactly the visible comments, each under
its parent if that is visible and as a root otherwise, siblings in the order of their
creation; and the comments for the post are the traversal of the full thread without those
that are not visible. -/
theorem commentTree_shows (calls : List CommentCall) (post : ℕ) :
    (after calls).ShownBy post (getCommentTree (after calls).comments post) ∧
      ∃ thread, (after calls).Thread post thread ∧
        getCommentsForPost (after calls).comments post =
          thread.preorder.filter (Comment.shownIn post) := by
  have h := faithful_after calls
  refine ⟨h.shownBy post, _, h.thread post, ?_⟩
  rw [h.preorder_thread (h.thread post), sorted,
    List.filter_sortBy _ (h.pathBytes_inj post_of_inPost),
    List.filter_filter, getCommentsForPost]
  congr 1
  refine List.filter_congr fun comment _ => ?_
  cases hshown : comment.shownIn post with
  | false => rfl
  | true => exact (decide_eq_true (post_of_shownIn comment hshown)).symm

end CommentHistory

end JudgeLoom
