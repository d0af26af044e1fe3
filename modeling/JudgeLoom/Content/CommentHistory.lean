import JudgeLoom.Content.CommentPaths
import JudgeLoom.Library.Alone
import JudgeLoom.Library.Forest
import JudgeLoom.Library.Utf8

/-!
# Comments, one call after the other

`create_comment`, `edit_comment` and `delete_comment` run one at a time.  `CommentHistory` keeps,
next to the table, the comments in the order of their creation: primary keys need not grow,
and rows do not say when they were created.

A call that raises changes nothing.  Edits and deletions leave alone where a comment stands
(`SamePlace`), and a new comment is numbered after all its siblings, deleted ones included;
so siblings have paths of one length that grow with the order of creation
(`CommentHistory.Faithful`).
-/

namespace JudgeLoom

open Transaction KeyedStore

/-- The bytes of the path, which `ORDER BY path` compares. -/
def Comment.pathBytes (row : Comment) : List ℕ := (Utf8.encode row.path).map UInt8.toNat

/-! ## The calls -/

namespace CommentService

/-- PostgreSQL keeps no NUL character. -/
def storableBody (body : String) : Bool := !body.toList.contains (Char.ofNat 0)

/-- `save(update_fields=…)`, which raises if there is no such row. -/
def saveComment (db : Comments) (id : ℕ) (f : Comment → Comment) (hkey : ∀ row, (f row).id = row.id) :
    Option Comments :=
  if (db.get? id).isSome then some (db.modify id f hkey) else none

/-- Edit an existing comment body. -/
def editComment (db : Comments) (id : ℕ) (body : String) : Option Comments :=
  if storableBody body then saveComment db id (fun row => { row with body }) fun _ => rfl
  else none

/-- Soft delete a comment. -/
def deleteComment (db : Comments) (id : ℕ) : Option Comments :=
  saveComment db id (fun row => { row with visibility := .deleted, body := "[deleted]" })
    fun _ => rfl

end CommentService

/-- A call of one of the three functions. -/
inductive CommentCall
  | create (request : CommentRequest)
  | edit (id : ℕ) (body : String)
  | delete (id : ℕ)

/-- The comments, and their primary keys in the order of creation. -/
structure CommentHistory where
  comments : Comments := ∅
  created : List ℕ := []

namespace CommentHistory

/-- One call; a call that raises changes nothing. -/
def call (history : CommentHistory) : CommentCall → CommentHistory
  | .create request =>
      match (CommentTransaction.createComment request).alone history.comments with
      | none => history
      | some result =>
          { comments := result.2
            created := history.created ++ [request.id] }
  | .edit id body =>
      { history with
        comments := (CommentService.editComment history.comments id body).getD history.comments }
  | .delete id =>
      { history with
        comments := (CommentService.deleteComment history.comments id).getD history.comments }

/-- The calls, in this order, from an empty table. -/
def after (calls : List CommentCall) : CommentHistory := calls.foldl call {}

/-- The comments in the order of their creation. -/
def rows (history : CommentHistory) : List Comment := history.created.filterMap history.comments.get?

/-- The replies to a comment, or the roots, in the order of their creation. -/
def replies (history : CommentHistory) (post : ℕ) (parent : Option ℕ) : List Comment :=
  history.rows.filter (Comment.siblingOf post parent)

end CommentHistory

/-! ## Paths as bytes -/

theorem digit_bounds {c : Char} (h : c.isDigit) : 48 ≤ c.toNat ∧ c.toNat ≤ 57 := by
  simpa [Char.isDigit, UInt32.le_iff_toNat_le] using h

theorem utf8EncodeChar_digit {c : Char} (h : c.isDigit) :
    (String.utf8EncodeChar c).map UInt8.toNat = [c.toNat] := by
  have hrange := digit_bounds h
  have hval : c.val.toNat = c.toNat := rfl
  rw [String.utf8EncodeChar, if_pos (by omega), List.map_singleton, UInt8.toNat_ofNat', hval]
  congr 1
  omega

/-- The bytes of digits are their codes. -/
theorem encode_digits {text : String} (h : ∀ c ∈ text.toList, c.isDigit) :
    (Utf8.encode text).map UInt8.toNat = text.toList.map Char.toNat := by
  rw [Utf8.encode, Utf8.encodeChars, List.map_flatMap,
    List.flatMap_congr fun c hc => utf8EncodeChar_digit (h c hc), List.map_eq_flatMap]

/-- The bytes that a path starts with below a parent. -/
def basePath : Option Comment → List ℕ
  | none => []
  | some parent => parent.pathBytes ++ [46]

/-- The bytes of a path are those of the parent, and then the digits. -/
theorem encode_newPath {segment : String} (h : IsSegment segment) (parent : Option Comment) :
    (Utf8.encode (CommentService.newPath parent segment)).map UInt8.toNat =
      basePath parent ++ segment.toList.map Char.toNat := by
  rw [← encode_digits h.2]
  cases parent with
  | none => rfl
  | some parent =>
      have hdot : (String.utf8EncodeChar '.').map UInt8.toNat = [46] := by decide
      rw [CommentService.newPath, Utf8.encode, toList_replyPath, Utf8.encodeChars,
        List.flatMap_append, List.flatMap_cons, List.map_append, List.map_append, hdot, basePath,
        List.append_assoc]
      rfl

/-- A number that is ahead stays ahead, whatever the digits after it. -/
theorem ofDigitChars_lt_of_lt {first second : List Char} (hlength : first.length = second.length)
    (hfirst : ∀ c ∈ first, c.isDigit) (hsecond : ∀ c ∈ second, c.isDigit) {value value' : ℕ}
    (h : value < value') : Nat.ofDigitChars 10 first value < Nat.ofDigitChars 10 second value' := by
  induction first generalizing second value value' with
  | nil =>
      rw [List.eq_nil_of_length_eq_zero hlength.symm]
      exact h
  | cons head tail ih =>
      obtain ⟨head', tail', rfl⟩ :=
        List.exists_cons_of_length_eq_add_one (hlength.symm.trans (List.length_cons ..))
      rw [List.forall_mem_cons] at hfirst hsecond
      have hhead := digit_bounds hfirst.1
      have hhead' := digit_bounds hsecond.1
      have hzero : '0'.toNat = 48 := rfl
      rw [Nat.ofDigitChars_cons, Nat.ofDigitChars_cons]
      apply ih (by simpa using hlength) hfirst.2 hsecond.2
      omega

/-- Digits that are ahead write the larger number. -/
theorem ofDigitChars_lt_of_map_lt {first second : List Char}
    (hlength : first.length = second.length) (hfirst : ∀ c ∈ first, c.isDigit)
    (hsecond : ∀ c ∈ second, c.isDigit) (value : ℕ)
    (h : first.map Char.toNat < second.map Char.toNat) :
    Nat.ofDigitChars 10 first value < Nat.ofDigitChars 10 second value := by
  induction first generalizing second value with
  | nil =>
      rw [List.eq_nil_of_length_eq_zero hlength.symm] at h
      exact absurd h (lt_irrefl _)
  | cons head tail ih =>
      obtain ⟨head', tail', rfl⟩ :=
        List.exists_cons_of_length_eq_add_one (hlength.symm.trans (List.length_cons ..))
      rw [List.forall_mem_cons] at hfirst hsecond
      have hhead := digit_bounds hfirst.1
      have hhead' := digit_bounds hsecond.1
      have htails : tail.length = tail'.length := by simpa using hlength
      have hzero : '0'.toNat = 48 := rfl
      rw [Nat.ofDigitChars_cons, Nat.ofDigitChars_cons]
      rw [List.map_cons, List.map_cons, List.cons_lt_cons_iff] at h
      rcases h with hlt | ⟨heq, hrest⟩
      · apply ofDigitChars_lt_of_lt htails hfirst.2 hsecond.2
        omega
      · rw [heq]
        exact ih htails hfirst.2 hsecond.2 _ hrest

/-- Digits compare as the numbers that they write. -/
theorem map_lt_of_ofDigitChars_lt {first second : List Char}
    (hlength : first.length = second.length) (hfirst : ∀ c ∈ first, c.isDigit)
    (hsecond : ∀ c ∈ second, c.isDigit)
    (h : Nat.ofDigitChars 10 first 0 < Nat.ofDigitChars 10 second 0) :
    first.map Char.toNat < second.map Char.toNat := by
  rcases lt_trichotomy (first.map Char.toNat) (second.map Char.toNat) with hlt | heq | hgt
  · exact hlt
  · have hinj : Function.Injective Char.toNat := fun a b hab => Char.ext (UInt32.toNat_inj.mp hab)
    rw [List.map_injective_iff.mpr hinj heq] at h
    exact absurd h (lt_irrefl _)
  · exact absurd (ofDigitChars_lt_of_map_lt hlength.symm hsecond hfirst 0 hgt) h.asymm

/-! ## Where a comment stands -/

/-- The columns that no edit or deletion writes. -/
structure SamePlace (first second : Comment) : Prop where
  id : first.id = second.id
  post : first.post = second.post
  parent : first.parent = second.parent
  path : first.path = second.path

/-- An update that leaves every comment where it is. -/
def KeepsPlace (f : Comment → Comment) : Prop := ∀ row, SamePlace (f row) row

namespace Comments

variable {db : Comments} {f : Comment → Comment}

/-- An update of one comment, as an update of all of them. -/
def updateOne (id : ℕ) (f : Comment → Comment) (row : Comment) : Comment :=
  if row.id = id then f row else row

theorem keepsPlace_updateOne (h : KeepsPlace f) (id : ℕ) : KeepsPlace (updateOne id f) := by
  intro row
  unfold updateOne
  split_ifs
  · exact h row
  · exact ⟨rfl, rfl, rfl, rfl⟩

theorem rows_modify (db : Comments) (id : ℕ) (f : Comment → Comment)
    (hkey : ∀ row, (f row).id = row.id) :
    (db.modify id f hkey).rows = db.rows.map (updateOne id f) := by
  unfold Table.modify Table.updateWhere updateOne
  simp only [decide_eq_true_eq]

theorem get?_modify_eq_map (db : Comments) (id : ℕ) (f : Comment → Comment)
    (hkey : ∀ row, (f row).id = row.id) (key : ℕ) :
    (db.modify id f hkey).get? key = (db.get? key).map (updateOne id f) := by
  rw [Table.get?_modify]
  cases hrow : db.get? key with
  | none => simp
  | some row =>
      have hid := Table.key_of_get? hrow
      unfold updateOne
      split_ifs with hkey <;> simp_all

end Comments

theorem SamePlace.pathBytes {first second : Comment} (h : SamePlace first second) :
    first.pathBytes = second.pathBytes := by
  rw [Comment.pathBytes, Comment.pathBytes, h.path]

theorem Comments.Threaded.map {db db' : Comments} {f : Comment → Comment} (hf : KeepsPlace f) (hrows : db'.rows = db.rows.map f)
    {row : Comment} (h : db.Threaded row) : db'.Threaded (f row) := by
  cases h with
  | root no_parent segment =>
      exact .root ((hf row).parent.trans no_parent) ((hf row).path ▸ segment)
  | @reply parent segment parent_mem parent_eq same_post isSegment path_eq =>
      refine .reply (hrows ▸ List.mem_map_of_mem parent_mem) ?_ ?_ isSegment ?_
      · rw [(hf row).parent, parent_eq, (hf parent).id]
      · rw [(hf parent).post, same_post, (hf row).post]
      · rw [(hf row).path, path_eq, (hf parent).path]

/-! ## A new comment is numbered last -/

/-- A comment is ahead of another among siblings. -/
def Comment.Ahead (first second : Comment) : Prop :=
  first.pathBytes.length = second.pathBytes.length ∧ first.pathBytes < second.pathBytes

theorem IsSegment.parseInt {segment : String} (h : IsSegment segment) :
    parseInt segment = some (Nat.ofDigitChars 10 segment.toList 0 : ℤ) :=
  parseInt_digits h.ne_empty h.2

theorem ahead_of_segments {first second : Comment} {parent : Option Comment}
    {segment segment' : String} (hsegment : IsSegment segment) (hsegment' : IsSegment segment')
    (hfirst : first.path = CommentService.newPath parent segment)
    (hsecond : second.path = CommentService.newPath parent segment')
    (hlt : Nat.ofDigitChars 10 segment.toList 0 < Nat.ofDigitChars 10 segment'.toList 0) :
    first.Ahead second := by
  have hlength : segment.toList.length = segment'.toList.length := by
    rw [String.length_toList, String.length_toList, hsegment.1, hsegment'.1]
  rw [Comment.Ahead, Comment.pathBytes, Comment.pathBytes, hfirst, hsecond,
    encode_newPath hsegment, encode_newPath hsegment']
  constructor
  · rw [List.length_append, List.length_append, List.length_map, List.length_map, hlength]
  · exact List.append_left_lt (map_lt_of_ofDigitChars_lt hlength hsegment.2 hsegment'.2 hlt)

namespace CreateEffect

variable {V : ℕ → Comments} {n m : ℕ} {request : CommentRequest} {log : List (CommentQuery × ℕ)}
  {db : Comments} {parent : Option Comment} {segment : String}

/-- A sibling's path extends the path of the same parent. -/
theorem exists_segment (h : CreateEffect V n request log db parent m segment)
    (hpersistent : Persistent V n) (hnested : (V n).WellNested) {old : Comment}
    (hold : old ∈ (V n).rows) (hparent : old.parent = request.parent) :
    ∃ segment', IsSegment segment' ∧ old.path = CommentService.newPath parent segment' := by
  have hfetched := h.fetched
  obtain ⟨hthreaded, -⟩ := hnested old hold
  cases hthreaded with
  | root no_parent hsegment =>
      rw [← hparent, no_parent] at hfetched
      cases hfetched
      exact ⟨old.path, hsegment, rfl⟩
  | @reply found segment' parent_mem parent_eq same_post hsegment path_eq =>
      rw [← hparent, parent_eq] at hfetched
      obtain ⟨row, rfl, hrow⟩ := hfetched.eq_some hpersistent
      rw [Table.get?_key_of_mem parent_mem, Option.some_inj] at hrow
      exact ⟨segment', hsegment, hrow ▸ path_eq⟩

/-- The new comment comes after every sibling that is there. -/
theorem ahead_row (h : CreateEffect V n request log db parent m segment)
    (hpersistent : Persistent V n) (hnested : (V n).WellNested)
    (hread : (V m).siblings request.post request.parent = (V n).siblings request.post request.parent)
    {old : Comment} (hold : old ∈ (V n).rows) (hpost : old.post = request.post)
    (hparent : old.parent = request.parent) : old.Ahead (request.row parent segment) := by
  obtain ⟨segment', hsegment', hpath⟩ := h.exists_segment hpersistent hnested hold hparent
  have hsegment := h.isSegment hpersistent
  have hsibling : old ∈ (V m).siblings request.post request.parent := by
    rw [hread]
    exact Comments.mem_siblings.mpr ⟨hold, hpost, hparent⟩
  obtain ⟨next, hnext, hnumber, hvalues⟩ :=
    CommentService.nextSegment_eq_ok (h.numbered_siblings hpersistent)
  obtain ⟨value, hvalue, hlt⟩ := hvalues old.path (List.mem_map_of_mem hsibling)
  rw [hpath, CommentService.lastValue_newPath hsegment', hsegment'.parseInt,
    Option.some_inj] at hvalue
  have hlast := hsegment.parseInt
  rw [hnumber, parseInt_zeroPadded hnext, Option.some_inj, ← hnumber] at hlast
  apply ahead_of_segments hsegment' hsegment hpath rfl
  omega

end CreateEffect

/-! ## The invariant -/

namespace CommentHistory

/-- What holds after every call. -/
structure Faithful (history : CommentHistory) : Prop where
  nested : history.comments.WellNested
  unique : ∀ post, history.comments.UniquePaths post
  /-- Every comment was created, in this order. -/
  created : history.rows.map Comment.id = history.created
  perm : history.rows.Perm history.comments.rows
  /-- Siblings are numbered in the order of their creation. -/
  numbered : history.rows.Pairwise fun first second =>
    first.post = second.post → first.parent = second.parent → first.Ahead second

theorem faithful_start : ({} : CommentHistory).Faithful where
  nested := Comments.wellNested_empty
  unique := Comments.uniquePaths_empty
  created := rfl
  perm := List.Perm.refl _
  numbered := List.Pairwise.nil

variable {history : CommentHistory} {f : Comment → Comment}

/-- A call that leaves every comment where it is keeps the invariant. -/
theorem Faithful.map (h : history.Faithful) (hf : KeepsPlace f) {db : Comments}
    (hrows : db.rows = history.comments.rows.map f)
    (hget : ∀ id, db.get? id = (history.comments.get? id).map f) :
    ({ history with comments := db } : CommentHistory).Faithful := by
  have horder : ({ history with comments := db } : CommentHistory).rows = history.rows.map f := by
    change history.created.filterMap db.get? = (history.created.filterMap _).map f
    rw [List.map_filterMap]
    exact List.filterMap_congr fun id _ => hget id
  refine ⟨fun row hrow => ?_, fun post first hfirst second hsecond hpost hpost' hpath => ?_,
    ?_, ?_, ?_⟩
  · change row ∈ db.rows at hrow
    rw [hrows] at hrow
    obtain ⟨old, hold, rfl⟩ := List.mem_map.mp hrow
    obtain ⟨hthreaded, hdepth⟩ := h.nested old hold
    exact ⟨hthreaded.map hf hrows, (hf old).path ▸ hdepth⟩
  · change first ∈ db.rows at hfirst
    change second ∈ db.rows at hsecond
    rw [hrows] at hfirst hsecond
    obtain ⟨old, hold, rfl⟩ := List.mem_map.mp hfirst
    obtain ⟨old', hold', rfl⟩ := List.mem_map.mp hsecond
    rw [(hf old).post] at hpost
    rw [(hf old').post] at hpost'
    rw [(hf old).path, (hf old').path] at hpath
    rw [h.unique post old hold old' hold' hpost hpost' hpath]
  · rw [horder, List.map_map, ← h.created]
    exact List.map_congr_left fun row _ => (hf row).id
  · rw [horder]
    change (history.rows.map f).Perm db.rows
    rw [hrows]
    exact h.perm.map f
  · rw [horder, List.pairwise_map]
    refine h.numbered.imp fun {first second} hahead hpost hparent => ?_
    rw [(hf first).post, (hf second).post] at hpost
    rw [(hf first).parent, (hf second).parent] at hparent
    have hkeeps := hahead hpost hparent
    rwa [Comment.Ahead, ← (hf first).pathBytes, ← (hf second).pathBytes] at hkeeps

theorem Faithful.saveComment (h : history.Faithful) (hf : KeepsPlace f)
    {hkey : ∀ row, (f row).id = row.id} (id : ℕ) :
    ({ history with
      comments := (CommentService.saveComment history.comments id f hkey).getD
        history.comments } : CommentHistory).Faithful := by
  unfold CommentService.saveComment
  split_ifs
  · exact h.map (Comments.keepsPlace_updateOne hf id) (Comments.rows_modify _ _ _ _)
      (Comments.get?_modify_eq_map _ _ _ _)
  · exact h

theorem Faithful.mem_created (h : history.Faithful) {id : ℕ} :
    id ∈ history.created ↔ ∃ row ∈ history.comments.rows, row.id = id := by
  rw [← h.created, List.mem_map]
  exact exists_congr fun row => and_congr_left fun _ => h.perm.mem_iff

/-- A comment that `create_comment` returns is the last one. -/
theorem Faithful.create (h : history.Faithful) {request : CommentRequest} {id : ℕ} {db : Comments}
    (hcreate : (CommentTransaction.createComment request).alone history.comments = some (id, db)) :
    ({ comments := db, created := history.created ++ [request.id] } : CommentHistory).Faithful := by
  obtain ⟨final, hyields, hview⟩ : ∃ final : Progress CommentQuery CommentRow,
      (CommentTransaction.createComment request).Yields (fun _ => history.comments) 0 {} id final ∧
        final.view history.comments = db := yields_of_alone hcreate
  obtain ⟨parent, m, segment, heffect⟩ := CommentTransaction.effect_of_yields hyields
  rw [hview] at heffect
  have hpersistent : Persistent (fun _ => history.comments) 0 := fun _ _ _ _ hrow => hrow
  have hnew : request.id ∉ history.created := by
    intro hmem
    obtain ⟨row, hrow, hid⟩ := h.mem_created.mp hmem
    have hget := Table.get?_key_of_mem hrow
    rw [hid, heffect.fresh] at hget
    cases hget
  have horder : ({ comments := db, created := history.created ++ [request.id] } : CommentHistory).rows =
      history.rows ++ [request.row parent segment] := by
    change (history.created ++ [request.id]).filterMap db.get? = _
    have hget : ∀ key, db.get? key =
        if key = request.id then some (request.row parent segment)
        else history.comments.get? key := by
      intro key
      rw [heffect.created]
      exact Table.get?_save _ _ _
    rw [List.filterMap_append, List.filterMap_cons, hget, if_pos rfl, List.filterMap_nil]
    congr 1
    refine List.filterMap_congr fun key hkey => ?_
    rw [hget, if_neg (ne_of_mem_of_not_mem hkey hnew)]
  refine ⟨heffect.wellNested hpersistent h.nested, fun post => ?_, ?_, ?_, ?_⟩
  · exact heffect.uniquePaths hpersistent h.nested (h.unique post) fun _ => rfl
  · rw [horder, List.map_append, h.created]
    rfl
  · rw [horder]
    have hperm : db.rows.Perm (request.row parent segment :: history.comments.rows) := by
      rw [heffect.created]
      exact Table.perm_rows_save heffect.fresh
    exact (List.perm_append_singleton _ _).trans ((h.perm.cons _).trans hperm.symm)
  · rw [horder, List.pairwise_append]
    refine ⟨h.numbered, List.pairwise_singleton _ _, fun old hold new hmem hpost hparent => ?_⟩
    obtain rfl := List.mem_singleton.mp hmem
    exact heffect.ahead_row hpersistent h.nested rfl (h.perm.mem_iff.mp hold) hpost hparent

/-- One call keeps the invariant. -/
theorem Faithful.call (h : history.Faithful) (call : CommentCall) : (history.call call).Faithful := by
  cases call with
  | create request =>
      unfold CommentHistory.call
      cases hcreate : (CommentTransaction.createComment request).alone history.comments with
      | none => simpa only [hcreate] using h
      | some result => simpa only [hcreate] using h.create hcreate
  | edit id body =>
      unfold CommentHistory.call CommentService.editComment
      dsimp only
      split_ifs
      · exact h.saveComment (f := fun row => { row with body }) (fun _ => ⟨rfl, rfl, rfl, rfl⟩) id
      · exact h
  | delete id =>
      exact h.saveComment
        (f := fun row => { row with visibility := .deleted, body := "[deleted]" })
        (fun _ => ⟨rfl, rfl, rfl, rfl⟩) id

theorem faithful_after (calls : List CommentCall) : (after calls).Faithful := by
  have hrun := Run.foldl CommentHistory.call {} calls
  exact hrun.invariant faithful_start fun history call next h hstep => hstep ▸ h.call call

end CommentHistory

end JudgeLoom
