import JudgeLoom.Library.ReadCommitted
import JudgeLoom.Problems.Import

/-!
# Concurrent imports and activations

`import_zip` and `activate`, statement by statement, as transactions on the packages
of any number of problems.  Neither locks the problem: the highest version and the
packages to deactivate are read by queries of their own, and only the index of
`unique_together = (problem, sha256)` keeps two imports apart.

`PackageCall.Effect` says once what a committed call did, given the versions of the
tables that its queries read.  From it follow the facts that no schedule breaks
(`Persists`, `Indexed`) and, for the commits whose queries were still right when
they committed (`PackageQuery.Fresh`), that a problem has one active package and no
version twice.
-/

namespace JudgeLoom

open Transaction KeyedStore

/-! ## The tables as a store -/

structure PackageTables where
  packages : Table ProblemPackage ProblemPackage.id := ∅
  /-- The unique index on the problem and the digest. -/
  digests : ℕ × String → Option ℕ := fun _ => none
  testCases : ℕ → Option (List ProblemTestCase) := fun _ => none

/-- The primary keys of packages and of their test cases, and the unique index. -/
inductive PackageKey
  | package (id : ℕ)
  | digest (problem : ℕ) (sha256 : String)
  | testCases (package : ℕ)
  deriving DecidableEq

/-- The rows of a key. -/
abbrev PackageKey.Row : PackageKey → Type
  | package id => {package : ProblemPackage // package.id = id}
  | digest _ _ => ℕ
  | testCases _ => List ProblemTestCase

namespace PackageTables

/-- The row of a key. -/
def row? (db : PackageTables) : (key : PackageKey) → Option key.Row
  | .package id => db.packages.row? id
  | .digest problem sha256 => db.digests (problem, sha256)
  | .testCases package => db.testCases package

/-- Insert or replace the row of a key. -/
def setRow (db : PackageTables) : (key : PackageKey) → key.Row → PackageTables
  | .package _, row => { db with packages := db.packages.save row.1 }
  | .digest problem sha256, id =>
      { db with digests := Function.update db.digests (problem, sha256) (some id) }
  | .testCases package, rows =>
      { db with testCases := Function.update db.testCases package (some rows) }

instance : KeyedStore PackageTables PackageKey PackageKey.Row where
  get? := row?
  set := setRow
  get?_set_self := by
    rintro db (id | ⟨problem, sha256⟩ | id) row
    · exact Table.row?_save_self _ row
    · exact Function.update_self ..
    · exact Function.update_self ..
  get?_set_of_ne := by
    rintro db (id | ⟨problem, sha256⟩ | id) row (other | ⟨otherProblem, otherSha256⟩ | other) hne
    case package.package => exact Table.row?_save_of_ne _ fun heq => hne (by rw [heq, row.2])
    case digest.digest =>
      refine Function.update_of_ne (fun heq => hne ?_) ..
      obtain ⟨rfl, rfl⟩ := Prod.mk.inj heq
      rfl
    case testCases.testCases => exact Function.update_of_ne (fun heq => hne (by rw [heq])) ..
    all_goals rfl

end PackageTables

/-- The queries of the two operations. -/
inductive PackageQuery
  | package (id : ℕ)
  | byDigest (problem : ℕ) (sha256 : String)
  | maxVersion (problem : ℕ)
  | active (problem : ℕ)
  | others (problem id : ℕ)
  deriving DecidableEq

/-- A transaction on the packages. -/
abbrev PackageTransaction := Transaction PackageQuery PackageTables PackageKey.Row

/-- Any number of sessions that import and activate packages; each commit returns
the primary key of its package. -/
abbrev PackageSystem (ι : Type) := System ι PackageQuery PackageTables PackageKey.Row ℕ

namespace ProblemPackage

/-- The package with another `is_active`. -/
def withActive (active : Bool) (package : ProblemPackage) : ProblemPackage :=
  { package with isActive := active }

theorem id_withActive (active : Bool) (package : ProblemPackage) :
    (package.withActive active).id = package.id :=
  rfl

end ProblemPackage

/-! ## The operations -/

namespace PackageTables

/-- The packages of a problem. -/
def ofProblem (db : PackageTables) (problem : ℕ) : List ProblemPackage :=
  db.packages.rows.filter fun package => package.problem = problem

/-- `filter(problem=…, sha256=…).first()`. -/
def byDigest (db : PackageTables) (problem : ℕ) (sha256 : String) : Option ProblemPackage :=
  db.packages.rows.find? fun package => package.problem = problem ∧ package.sha256 = sha256

/-- `aggregate(Max("version"))["max_version"] or 0`. -/
def maxVersion (db : PackageTables) (problem : ℕ) : ℕ :=
  ((db.ofProblem problem).map ProblemPackage.version).foldr max 0

/-- `filter(problem=…, is_active=True)`. -/
def active (db : PackageTables) (problem : ℕ) : List ℕ :=
  ((db.ofProblem problem).filter ProblemPackage.isActive).map ProblemPackage.id

/-- `filter(problem=…).exclude(pk=…)`. -/
def others (db : PackageTables) (problem id : ℕ) : List ℕ :=
  ((db.ofProblem problem).filter fun package => package.id ≠ id).map ProblemPackage.id

end PackageTables

namespace PackageTransaction

/-- `UPDATE … SET is_active = …` of one package. -/
def setIsActive (active : Bool) (id : ℕ) : PackageTransaction PUnit :=
  modify (.package id) fun row =>
    ⟨row.1.withActive active, (ProblemPackage.id_withActive active row.1).trans row.2⟩

/-- `update(is_active=False)`, row by row. -/
def deactivate : List ℕ → PackageTransaction PUnit
  | [] => pure ⟨⟩
  | id :: rest => do
      setIsActive false id
      deactivate rest

/-- `PackageImportService.activate` of a package that was loaded before. -/
def activatePackage (package : ProblemPackage) : PackageTransaction PUnit := do
  let others ← select (.others package.problem package.id) fun db =>
    db.others package.problem package.id
  deactivate others
  -- `save(update_fields=…)` raises if it updates no row
  match ← forUpdate (.package package.id) with
  | none => .abort
  | some _ => setIsActive true package.id

/-- `problem.packages.filter(is_active=True).update(is_active=False)`, if asked for. -/
def deactivateActive (activate : Bool) (problem : ℕ) : PackageTransaction PUnit :=
  if activate then do
    let active ← select (.active problem) fun db => db.active problem
    deactivate active
  else pure ⟨⟩

/-- `package.save()` and `bulk_create` of its test cases. -/
def insertPackage (package : ProblemPackage) (testCases : List ProblemTestCase) :
    PackageTransaction PUnit := do
  create (.digest package.problem package.sha256) package.id
  create (.package package.id) ⟨package, rfl⟩
  create (.testCases package.id) testCases

/-- `PackageImportService.import_zip`; `id` is the next value of the primary key. -/
def importZip (P : Python) (problem : Problem) (archiveName : String) (payload : Bytes)
    (activate : Bool) (id : ℕ) : PackageTransaction ℕ := do
  ofExcept (PackageImportService.validateUpload archiveName payload)
  let sha256 := P.sha256 payload
  let existing ← select (.byDigest problem.id sha256) fun db => db.byDigest problem.id sha256
  match existing with
  | some package => do
      if activate then activatePackage package else pure ⟨⟩
      return package.id
  | none => do
      let imported ← ofExcept (PackageImportService.readArchive P problem payload)
      let maxVersion ← select (.maxVersion problem.id) fun db => db.maxVersion problem.id
      deactivateActive activate problem.id
      if imported.storable then do
        insertPackage
          { id
            problem := problem.id
            version := maxVersion + 1
            sha256
            manifest := .obj imported.manifest
            archive := payload
            isActive := activate }
          (PackageImportService.testCaseRows imported.cases)
        return id
      else .abort

/-- `PackageImportService.activate` of the package with a primary key, which the
caller loads first. -/
def activate (id : ℕ) : PackageTransaction ℕ := do
  match ← select (.package id) fun db => db.packages.get? id with
  | none => .abort
  | some package => do
      activatePackage package
      return package.id

end PackageTransaction

/-- A call of one of the two operations. -/
inductive PackageCall
  | importZip (problem : Problem) (archiveName : String) (payload : Bytes) (activate : Bool)
      (id : ℕ)
  | activate (id : ℕ)

namespace PackageCall

/-- The call as a transaction. -/
def program (P : Python) : PackageCall → PackageTransaction ℕ
  | .importZip problem archiveName payload active id =>
      .importZip P problem archiveName payload active id
  | .activate id => .activate id

/-- The call makes its package the active one. -/
def activates : PackageCall → Bool
  | .importZip _ _ _ active _ => active
  | .activate _ => true

end PackageCall

/-! ## What the statements write -/

namespace PackageTables

/-- The tables after `update(is_active=False)` of some packages. -/
def deactivate (db : PackageTables) (ids : List ℕ) : PackageTables :=
  { db with
    packages := db.packages.updateWhere (fun package => package.id ∈ ids)
      (ProblemPackage.withActive false) (ProblemPackage.id_withActive false) }

/-- The tables after `save(update_fields=["is_active", …])`. -/
def setActive (db : PackageTables) (id : ℕ) : PackageTables :=
  { db with
    packages := db.packages.modify id (ProblemPackage.withActive true)
      (ProblemPackage.id_withActive true) }

/-- The tables with a new package. -/
def create (db : PackageTables) (package : ProblemPackage) (testCases : List ProblemTestCase) :
    PackageTables where
  packages := db.packages.save package
  digests := Function.update db.digests (package.problem, package.sha256) (some package.id)
  testCases := Function.update db.testCases package.id (some testCases)

variable {db : PackageTables}

@[simp] theorem get?_deactivate (db : PackageTables) (ids : List ℕ) (id : ℕ) :
    (db.deactivate ids).packages.get? id =
      (db.packages.get? id).map fun package =>
        if id ∈ ids then package.withActive false else package := by
  rw [deactivate, Table.get?_updateWhere]
  cases hrow : db.packages.get? id with
  | none => rfl
  | some row =>
      rw [Option.map_some, Option.map_some, ← Table.key_of_get? hrow]
      simp only [decide_eq_true_eq]

@[simp] theorem get?_setActive (db : PackageTables) (id other : ℕ) :
    (db.setActive id).packages.get? other =
      if other = id then (db.packages.get? other).map (ProblemPackage.withActive true)
      else db.packages.get? other :=
  Table.get?_modify _ _ _ (ProblemPackage.id_withActive true) _

@[simp] theorem get?_create (db : PackageTables) (package : ProblemPackage)
    (testCases : List ProblemTestCase) (id : ℕ) :
    (db.create package testCases).packages.get? id =
      if id = package.id then some package else db.packages.get? id :=
  Table.get?_save ..

theorem deactivate_nil (db : PackageTables) : db.deactivate [] = db := by
  have hpackages : (db.deactivate []).packages = db.packages := by
    refine Table.ext_get? fun id => ?_
    rw [get?_deactivate]
    simp
  calc db.deactivate [] = { db with packages := (db.deactivate []).packages } := rfl
    _ = db := by rw [hpackages]

theorem deactivate_cons (db : PackageTables) (id : ℕ) (rest : List ℕ) :
    (db.deactivate [id]).deactivate rest = db.deactivate (id :: rest) := by
  have hpackages : ((db.deactivate [id]).deactivate rest).packages =
      (db.deactivate (id :: rest)).packages := by
    refine Table.ext_get? fun other => ?_
    rw [get?_deactivate, get?_deactivate, get?_deactivate, Option.map_map]
    congr 1
    funext package
    simp only [Function.comp_apply, List.mem_cons, List.not_mem_nil, or_false]
    split_ifs <;> first | rfl | tauto
  calc (db.deactivate [id]).deactivate rest
      = { db with packages := ((db.deactivate [id]).deactivate rest).packages } := rfl
    _ = db.deactivate (id :: rest) := by rw [hpackages]; rfl

/-- An update of one package. -/
theorem rewriteRow_package (db : PackageTables) (id : ℕ) (active : Bool) :
    rewriteRow db (PackageKey.package id) (fun row =>
        ⟨row.1.withActive active, (ProblemPackage.id_withActive active row.1).trans row.2⟩) =
      { db with
        packages := db.packages.modify id (ProblemPackage.withActive active)
          (ProblemPackage.id_withActive active) } := by
  unfold rewriteRow
  cases hrow : get? db (PackageKey.package id) with
  | none => rw [Table.modify_of_none (Table.row?_eq_none.mp hrow)]; rfl
  | some row => rw [Table.modify_of_some (Table.row?_eq_some.mp hrow)]; rfl

theorem modify_inactive (db : PackageTables) (id : ℕ) :
    { db with
      packages := db.packages.modify id (ProblemPackage.withActive false)
        (ProblemPackage.id_withActive false) } = db.deactivate [id] := by
  unfold Table.modify deactivate
  simp only [List.mem_singleton]

theorem mem_ofProblem {problem : ℕ} {package : ProblemPackage} :
    package ∈ db.ofProblem problem ↔ package ∈ db.packages.rows ∧ package.problem = problem := by
  simp [ofProblem]

theorem version_le_maxVersion {problem : ℕ} {package : ProblemPackage}
    (h : package ∈ db.ofProblem problem) : package.version ≤ db.maxVersion problem :=
  List.le_max_of_le (List.mem_map_of_mem h) le_rfl

theorem mem_active {problem id : ℕ} :
    id ∈ db.active problem ↔
      ∃ package ∈ db.ofProblem problem, package.isActive ∧ package.id = id := by
  simp [active, and_assoc]

theorem mem_others {problem id other : ℕ} :
    other ∈ db.others problem id ↔
      ∃ package ∈ db.ofProblem problem, package.id ≠ id ∧ package.id = other := by
  simp [others, and_assoc]

theorem byDigest_eq_some {problem : ℕ} {sha256 : String} {package : ProblemPackage}
    (h : db.byDigest problem sha256 = some package) :
    package ∈ db.ofProblem problem ∧ package.sha256 = sha256 := by
  have hfound := List.find?_some h
  simp only [decide_eq_true_eq] at hfound
  exact ⟨mem_ofProblem.mpr ⟨List.mem_of_find?_eq_some h, hfound.1⟩, hfound.2⟩

end PackageTables

namespace PackageTransaction

variable {V : ℕ → PackageTables} {n : ℕ} {start final : Progress PackageQuery PackageKey.Row}

theorem yields_deactivate {ids : List ℕ} {result : PUnit}
    (h : (deactivate ids).Yields V n start result final) :
    final.log = start.log ∧ final.view (V n) = (start.view (V n)).deactivate ids := by
  induction ids generalizing start with
  | nil =>
      obtain ⟨-, rfl⟩ := h
      exact ⟨rfl, (PackageTables.deactivate_nil _).symm⟩
  | cons id rest ih =>
      obtain ⟨_, middle, hmodify, hrest⟩ := yields_bind.mp h
      obtain rfl := yields_modify.mp hmodify
      obtain ⟨hlog, hview⟩ := ih hrest
      refine ⟨hlog, ?_⟩
      rw [hview, Progress.view_update, PackageTables.rewriteRow_package,
        PackageTables.modify_inactive, PackageTables.deactivate_cons]

/-- `activate` deactivates what its query found and activates its own package. -/
theorem yields_activatePackage {package : ProblemPackage} {result : PUnit}
    (h : (activatePackage package).Yields V n start result final) :
    ∃ k ≤ n, final.log = start.log ++ [(.others package.problem package.id, k)] ∧
      (∃ row, (start.view (V n)).packages.get? package.id = some row) ∧
      final.view (V n) = ((start.view (V n)).deactivate
        ((start.view (V k)).others package.problem package.id)).setActive package.id := by
  obtain ⟨others, queried, ⟨k, hk, rfl, rfl⟩, h⟩ := yields_bind.mp h
  obtain ⟨_, cleared, hclear, h⟩ := yields_bind.mp h
  obtain ⟨hlog, hview⟩ := yields_deactivate hclear
  obtain ⟨locked, _, ⟨hlocked, rfl⟩, h⟩ := yields_bind.mp h
  have hrow : (cleared.view (V n)).packages.row? package.id = locked := hlocked
  cases locked with
  | none => exact absurd h id
  | some row =>
      obtain rfl := yields_modify.mp h
      refine ⟨k, hk, hlog, ?_, ?_⟩
      · have hget := Table.row?_eq_some.mp hrow
        rw [hview, PackageTables.get?_deactivate] at hget
        obtain ⟨stored, hstored, -⟩ := Option.map_eq_some_iff.mp hget
        exact ⟨stored, hstored⟩
      · rw [Progress.view_update, hview, PackageTables.rewriteRow_package]
        rfl

theorem yields_deactivateActive {active : Bool} {problem : ℕ} {result : PUnit}
    (h : (deactivateActive active problem).Yields V n start result final) :
    ∃ ids, final.view (V n) = (start.view (V n)).deactivate ids ∧ start.log ⊆ final.log ∧
      if active then
        ∃ k ≤ n, (.active problem, k) ∈ final.log ∧ ids = (start.view (V k)).active problem
      else ids = [] := by
  cases active with
  | false =>
      obtain ⟨-, rfl⟩ := h
      exact ⟨[], (PackageTables.deactivate_nil _).symm, List.Subset.refl _, rfl⟩
  | true =>
      obtain ⟨ids, queried, ⟨k, hk, rfl, rfl⟩, h⟩ := yields_bind.mp h
      obtain ⟨hlog, hview⟩ := yields_deactivate h
      refine ⟨_, hview, ?_, k, hk, ?_, rfl⟩
      · rw [hlog]
        exact List.subset_append_left _ _
      · rw [hlog]
        exact List.mem_append_right _ List.mem_cons_self

theorem yields_insertPackage {package : ProblemPackage} {testCases : List ProblemTestCase}
    {result : PUnit} (h : (insertPackage package testCases).Yields V n start result final) :
    (start.view (V n)).digests (package.problem, package.sha256) = none ∧
      (start.view (V n)).packages.get? package.id = none ∧ final.log = start.log ∧
        final.view (V n) = (start.view (V n)).create package testCases := by
  obtain ⟨_, indexed, hindex, h⟩ := yields_bind.mp h
  obtain ⟨hunique, rfl⟩ := yields_create.mp hindex
  obtain ⟨_, inserted, hinsert, h⟩ := yields_bind.mp h
  obtain ⟨hfresh, rfl⟩ := yields_create.mp hinsert
  obtain ⟨-, rfl⟩ := yields_create.mp h
  rw [Progress.view_write] at hfresh
  refine ⟨hunique, Table.row?_eq_none.mp hfresh, rfl, ?_⟩
  rw [Progress.view_write, Progress.view_write, Progress.view_write]
  rfl

end PackageTransaction

/-! ## What a committed call did -/

namespace PackageCall

/-- The call is about `package`. -/
def Names (P : Python) (package : ProblemPackage) : PackageCall → Prop
  | .importZip problem _ payload _ _ =>
      package.problem = problem.id ∧ package.sha256 = P.sha256 payload
  | .activate id => package.id = id

/-- What a call that is committed on version `n` returns, which queries it ran on
which version, and the tables after it. -/
inductive Effect (P : Python) (V : ℕ → PackageTables) (n : ℕ) :
    PackageCall → ℕ → List (PackageQuery × ℕ) → PackageTables → Prop
  /-- The bytes are stored already, and nothing is activated. -/
  | found {call : PackageCall} {log : List (PackageQuery × ℕ)} {m : ℕ} {package : ProblemPackage}
      (hm : m ≤ n) (stored : package ∈ (V m).packages.rows) (named : call.Names P package)
      (inactive : call.activates = false) :
      Effect P V n call package.id log (V n)
  /-- A stored package is activated. -/
  | activated {call : PackageCall} {log : List (PackageQuery × ℕ)} {m k : ℕ}
      {package row : ProblemPackage} (hm : m ≤ n) (stored : package ∈ (V m).packages.rows)
      (named : call.Names P package) (active : call.activates = true)
      (current : (V n).packages.get? package.id = some row) (hk : k ≤ n)
      (queried : (.others package.problem package.id, k) ∈ log) :
      Effect P V n call package.id log
        (((V n).deactivate ((V k).others package.problem package.id)).setActive package.id)
  /-- A package is created. -/
  | created {problem : Problem} {archiveName : String} {payload : Bytes} {active : Bool}
      {id m : ℕ} {ids : List ℕ} {log : List (PackageQuery × ℕ)} {package : ProblemPackage}
      {testCases : List ProblemTestCase} (hid : package.id = id)
      (hproblem : package.problem = problem.id) (hsha256 : package.sha256 = P.sha256 payload)
      (hactive : package.isActive = active) (fresh : (V n).packages.get? id = none)
      (unique : (V n).digests (problem.id, P.sha256 payload) = none) (hm : m ≤ n)
      (counted : (.maxVersion problem.id, m) ∈ log)
      (version : package.version = (V m).maxVersion problem.id + 1)
      (cleared : if active then
          ∃ k ≤ n, (.active problem.id, k) ∈ log ∧ ids = (V k).active problem.id
        else ids = []) :
      Effect P V n (.importZip problem archiveName payload active id) id log
        (((V n).deactivate ids).create package testCases)

variable {P : Python} {V : ℕ → PackageTables} {n value : ℕ} {call : PackageCall}
  {final : Progress PackageQuery PackageKey.Row}

theorem effect_of_yields (h : (call.program P).Yields V n {} value final) :
    call.Effect P V n value final.log (final.view (V n)) := by
  cases call with
  | activate id =>
      obtain ⟨found, queried, ⟨m, hm, rfl, rfl⟩, h⟩ := yields_bind.mp h
      rw [Progress.view_nil] at h
      cases hfound : (V m).packages.get? id with
      | none =>
          simp only [hfound] at h
          exact absurd h (fun hfalse => hfalse)
      | some package =>
          simp only [hfound] at h
          obtain ⟨_, _, hactivate, rfl, rfl⟩ := yields_bind.mp h
          obtain ⟨k, hk, hlog, ⟨row, hrow⟩, hview⟩ :=
            PackageTransaction.yields_activatePackage hactivate
          rw [hview]
          refine .activated hm (Table.mem_of_get? hfound) (Table.key_of_get? hfound) rfl hrow hk ?_
          rw [hlog]
          exact List.mem_append_right _ List.mem_cons_self
  | importZip problem archiveName payload active id =>
      obtain ⟨_, _, hupload, h⟩ := yields_bind.mp h
      obtain ⟨-, rfl⟩ := yields_ofExcept.mp hupload
      obtain ⟨found, queried, ⟨m, hm, rfl, rfl⟩, h⟩ := yields_bind.mp h
      rw [Progress.view_nil] at h
      cases hfound : (V m).byDigest problem.id (P.sha256 payload) with
      | some package =>
          simp only [hfound] at h
          obtain ⟨hstored, hsha256⟩ := PackageTables.byDigest_eq_some hfound
          obtain ⟨hstored, hproblem⟩ := PackageTables.mem_ofProblem.mp hstored
          cases active with
          | false =>
              obtain ⟨rfl, rfl⟩ := h
              exact .found hm hstored ⟨hproblem, hsha256⟩ rfl
          | true =>
              obtain ⟨_, _, hactivate, rfl, rfl⟩ := yields_bind.mp h
              obtain ⟨k, hk, hlog, ⟨row, hrow⟩, hview⟩ :=
                PackageTransaction.yields_activatePackage hactivate
              rw [hview]
              refine .activated hm hstored ⟨hproblem, hsha256⟩ rfl hrow hk ?_
              rw [hlog]
              exact List.mem_append_right _ List.mem_cons_self
      | none =>
          simp only [hfound] at h
          obtain ⟨imported, _, himported, h⟩ := yields_bind.mp h
          obtain ⟨-, rfl⟩ := yields_ofExcept.mp himported
          obtain ⟨_, counted, ⟨c, hc, rfl, rfl⟩, h⟩ := yields_bind.mp h
          obtain ⟨_, cleared, hclear, h⟩ := yields_bind.mp h
          obtain ⟨ids, hview, hkept, hids⟩ := PackageTransaction.yields_deactivateActive hclear
          split_ifs at h with hstorable
          · obtain ⟨_, _, hinsert, rfl, rfl⟩ := yields_bind.mp h
            obtain ⟨hunique, hfresh, hlog, hcreated⟩ :=
              PackageTransaction.yields_insertPackage hinsert
            rw [hcreated, hview]
            rw [hview, PackageTables.get?_deactivate, Option.map_eq_none_iff] at hfresh
            rw [hview] at hunique
            refine .created rfl rfl rfl rfl hfresh hunique hc ?_ rfl ?_
            · rw [hlog]
              exact hkept (List.mem_append_right _ List.mem_cons_self)
            · rw [hlog]
              exact hids
          · exact absurd h (fun hfalse => hfalse)

end PackageCall

end JudgeLoom
