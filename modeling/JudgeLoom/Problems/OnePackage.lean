import JudgeLoom.Problems.Packages

/-!
# One active package for each problem

What no schedule breaks: packages persist, and no two share a problem and a digest,
so importing the same bytes again creates nothing.  That at most one package is
active and that versions are distinct needs more: a commit keeps both if what its
queries told it is still right (`PackageQuery.Fresh`).  `OnePackage.run` is the
result for whole runs, `two_active` a run of two imports that read the highest
version and the active packages before either commits.
-/

namespace JudgeLoom

namespace PackageTables

/-- The packages of `old` are still there; only `is_active` may differ. -/
def Persists (old new : PackageTables) : Prop :=
  ∀ id package, old.packages.get? id = some package →
    ∃ active, new.packages.get? id = some (package.withActive active)

/-- Every package is in the unique index. -/
def Indexed (db : PackageTables) : Prop :=
  ∀ package ∈ db.packages.rows, db.digests (package.problem, package.sha256) = some package.id

/-- At most one package of the problem is active, and no two have one version. -/
structure Good (db : PackageTables) (problem : ℕ) : Prop where
  active : ∀ first ∈ db.ofProblem problem, ∀ second ∈ db.ofProblem problem,
    first.isActive = true → second.isActive = true → first = second
  version : ∀ first ∈ db.ofProblem problem, ∀ second ∈ db.ofProblem problem,
    first.version = second.version → first = second

/-- Some package of the problem is active. -/
def HasActive (db : PackageTables) (problem : ℕ) : Prop :=
  ∃ package ∈ db.ofProblem problem, package.isActive = true

variable {db old new : PackageTables} {problem : ℕ} {package : ProblemPackage} {ids : List ℕ}

theorem mem_ofProblem_iff_get? :
    package ∈ db.ofProblem problem ↔
      db.packages.get? package.id = some package ∧ package.problem = problem := by
  rw [mem_ofProblem]
  exact and_congr_left fun _ => ⟨Table.get?_key_of_mem, Table.mem_of_get?⟩

/-! ## Packages persist -/

theorem Persists.refl (db : PackageTables) : db.Persists db :=
  fun _ package h => ⟨package.isActive, h⟩

theorem Persists.trans {middle : PackageTables} (first : old.Persists middle)
    (second : middle.Persists new) : old.Persists new := by
  intro id package h
  obtain ⟨_, hmiddle⟩ := first id package h
  obtain ⟨active, hnew⟩ := second id _ hmiddle
  exact ⟨active, hnew⟩

theorem persists_deactivate (db : PackageTables) (ids : List ℕ) :
    db.Persists (db.deactivate ids) := by
  intro id package h
  rw [get?_deactivate, h]
  by_cases hid : id ∈ ids
  · exact ⟨false, by rw [Option.map_some, if_pos hid]⟩
  · exact ⟨package.isActive, by rw [Option.map_some, if_neg hid]; rfl⟩

theorem persists_setActive (db : PackageTables) (id : ℕ) : db.Persists (db.setActive id) := by
  intro other package h
  rw [get?_setActive, h]
  by_cases hid : other = id
  · exact ⟨true, by rw [if_pos hid, Option.map_some]⟩
  · exact ⟨package.isActive, by rw [if_neg hid]; rfl⟩

theorem persists_create (testCases : List ProblemTestCase)
    (hfresh : db.packages.get? package.id = none) :
    db.Persists (db.create package testCases) := by
  intro id other h
  have hne : id ≠ package.id := fun heq => by rw [heq, hfresh] at h; cases h
  rw [get?_create, if_neg hne, h]
  exact ⟨other.isActive, rfl⟩

/-- A package that was there before is the same one, up to `is_active`. -/
theorem Persists.eq_withActive (h : old.Persists new) {known : ProblemPackage}
    (hknown : known ∈ old.packages.rows) (hpackage : package ∈ new.packages.rows)
    (hid : known.id = package.id) : ∃ active, package = known.withActive active := by
  obtain ⟨active, hnew⟩ := h _ _ (Table.get?_key_of_mem hknown)
  rw [hid, Table.get?_key_of_mem hpackage] at hnew
  exact ⟨active, Option.some.inj hnew⟩

theorem Persists.problem_eq (h : old.Persists new) {queried : ℕ} {known : ProblemPackage}
    (hknown : known ∈ old.ofProblem queried) (hpackage : package ∈ new.ofProblem problem)
    (hid : known.id = package.id) : queried = problem := by
  obtain ⟨hmem, rfl⟩ := mem_ofProblem.mp hknown
  obtain ⟨hmem', rfl⟩ := mem_ofProblem.mp hpackage
  obtain ⟨_, rfl⟩ := h.eq_withActive hmem hmem' hid
  rfl

/-! ## The unique index -/

theorem mem_rows_deactivate (h : package ∈ (db.deactivate ids).packages.rows) :
    ∃ stored ∈ db.packages.rows, ∃ active, package = stored.withActive active ∧
      (active = true → stored.id ∉ ids ∧ stored.isActive = true) := by
  obtain ⟨stored, hstored, rfl⟩ := List.mem_map.mp h
  by_cases hid : stored.id ∈ ids
  · refine ⟨stored, hstored, false, ?_, fun hfalse => by cases hfalse⟩
    simp [hid]
  · refine ⟨stored, hstored, stored.isActive, ?_, fun hactive => ⟨hid, hactive⟩⟩
    simp [hid, ProblemPackage.withActive]

theorem mem_rows_setActive {id : ℕ} (h : package ∈ (db.setActive id).packages.rows) :
    ∃ stored ∈ db.packages.rows, ∃ active, package = stored.withActive active ∧
      (active = true → stored.id = id ∨ stored.isActive = true) := by
  obtain ⟨stored, hstored, rfl⟩ := List.mem_map.mp h
  by_cases hid : stored.id = id
  · refine ⟨stored, hstored, true, ?_, fun _ => Or.inl hid⟩
    simp [hid]
  · refine ⟨stored, hstored, stored.isActive, ?_, Or.inr⟩
    simp [hid, ProblemPackage.withActive]

/-- A package after an activation. -/
theorem mem_rows_activate {id : ℕ}
    (h : package ∈ ((db.deactivate ids).setActive id).packages.rows) :
    ∃ stored ∈ db.packages.rows, ∃ active, package = stored.withActive active ∧
      (active = true → stored.id = id ∨ (stored.id ∉ ids ∧ stored.isActive = true)) := by
  obtain ⟨cleared, hcleared, active, rfl, hactive⟩ := mem_rows_setActive h
  obtain ⟨stored, hstored, before, rfl, hbefore⟩ := mem_rows_deactivate hcleared
  exact ⟨stored, hstored, active, rfl, fun htrue => (hactive htrue).imp_right hbefore⟩

theorem ids_deactivate (db : PackageTables) (ids : List ℕ) :
    (db.deactivate ids).packages.rows.map ProblemPackage.id =
      db.packages.rows.map ProblemPackage.id :=
  Table.map_rows_updateWhere _ _ (ProblemPackage.withActive false)
    (ProblemPackage.id_withActive false) (ProblemPackage.id_withActive false)

theorem ids_setActive (db : PackageTables) (id : ℕ) :
    (db.setActive id).packages.rows.map ProblemPackage.id =
      db.packages.rows.map ProblemPackage.id :=
  Table.map_rows_updateWhere _ _ (ProblemPackage.withActive true)
    (ProblemPackage.id_withActive true) (ProblemPackage.id_withActive true)

theorem Indexed.deactivate (h : db.Indexed) (ids : List ℕ) : (db.deactivate ids).Indexed := by
  intro package hpackage
  obtain ⟨stored, hstored, _, rfl, -⟩ := mem_rows_deactivate hpackage
  exact h stored hstored

theorem Indexed.setActive (h : db.Indexed) (id : ℕ) : (db.setActive id).Indexed := by
  intro package hpackage
  obtain ⟨stored, hstored, _, rfl, -⟩ := mem_rows_setActive hpackage
  exact h stored hstored

theorem Indexed.create (h : db.Indexed) (testCases : List ProblemTestCase)
    (hunique : db.digests (package.problem, package.sha256) = none) :
    (db.create package testCases).Indexed := by
  intro other hother
  rcases Table.mem_save_iff.mp hother with rfl | ⟨hstored, -⟩
  · exact Function.update_self ..
  · have hindex := h other hstored
    refine (Function.update_of_ne ?_ ..).trans hindex
    intro heq
    rw [heq, hunique] at hindex
    cases hindex

end PackageTables

/-! ## What a query has to be right about -/

/-- What the query told its transaction is still right when it commits, as far as the
transaction relies on it: no package has appeared since the versions were read, and
every active package was among those that the query returned. -/
def PackageQuery.Fresh (problem : ℕ) (read current : PackageTables) : PackageQuery → Prop
  | .package _ => True
  | .byDigest _ _ => True
  | .maxVersion queried => queried = problem → ∀ package ∈ current.ofProblem problem,
      ∃ known ∈ read.ofProblem problem, known.id = package.id
  | .active queried => queried = problem → ∀ package ∈ current.ofProblem problem,
      package.isActive = true → package.id ∈ read.active problem
  | .others queried id => queried = problem → ∀ package ∈ current.ofProblem problem,
      package.isActive = true → package.id = id ∨ package.id ∈ read.others problem id

namespace PackageCall.Effect

open PackageTables

variable {P : Python} {V : ℕ → PackageTables} {n value problem : ℕ} {call : PackageCall}
  {log : List (PackageQuery × ℕ)} {db : PackageTables}

theorem persists (h : call.Effect P V n value log db) : (V n).Persists db := by
  cases h with
  | found => exact Persists.refl _
  | activated => exact (persists_deactivate _ _).trans (persists_setActive _ _)
  | created hid _ _ _ fresh =>
      refine (persists_deactivate _ _).trans (persists_create _ ?_)
      rw [get?_deactivate, hid, fresh, Option.map_none]

theorem indexed (h : call.Effect P V n value log db) (hindexed : (V n).Indexed) : db.Indexed := by
  cases h with
  | found => exact hindexed
  | activated => exact (hindexed.deactivate _).setActive _
  | created _ hproblem hsha256 _ _ unique =>
      refine (hindexed.deactivate _).create _ ?_
      rw [hproblem, hsha256]
      exact unique

/-- The call returns a package that is stored, and active if the call activates. -/
theorem value_active (h : call.Effect P V n value log db) (hactive : call.activates = true) :
    ∃ package, db.packages.get? value = some package ∧ package.isActive = true := by
  cases h with
  | found _ _ _ inactive =>
      rw [hactive] at inactive
      cases inactive
  | activated _ _ _ _ current =>
      rw [get?_setActive, if_pos rfl, get?_deactivate, current]
      exact ⟨_, rfl, rfl⟩
  | created hid _ _ hisActive =>
      rw [get?_create, if_pos hid.symm]
      exact ⟨_, rfl, hisActive.trans hactive⟩

/-- Importing bytes that are stored creates no package. -/
theorem ids_of_stored (h : call.Effect P V n value log db) (hindexed : (V n).Indexed)
    {stored : ProblemPackage} (hstored : stored ∈ (V n).packages.rows) (hnames : call.Names P stored) :
    db.packages.rows.map ProblemPackage.id = (V n).packages.rows.map ProblemPackage.id := by
  cases h with
  | found => rfl
  | activated => rw [ids_setActive, ids_deactivate]
  | created _ _ _ _ _ unique =>
      have hindex := hindexed stored hstored
      rw [hnames.1, hnames.2, unique] at hindex
      cases hindex

/-! ## One step -/

variable {package : ProblemPackage} {ids : List ℕ}

/-- An activation leaves no other package of its problem active, if every active one
was among those that its query returned. -/
theorem good_activate (hgood : (V n).Good problem) {row : ProblemPackage}
    (hrow : (V n).packages.get? package.id = some row) (hproblem : row.problem = package.problem)
    (hfresh : package.problem = problem → ∀ active ∈ (V n).ofProblem problem,
      active.isActive = true → active.id = package.id ∨ active.id ∈ ids) :
    (((V n).deactivate ids).setActive package.id).Good problem := by
  have hstored : ∀ current ∈ (((V n).deactivate ids).setActive package.id).ofProblem problem,
      ∃ stored ∈ (V n).ofProblem problem, stored.id = current.id ∧
        stored.version = current.version ∧ (current.isActive = true →
          stored.id = package.id ∨ stored.id ∉ ids ∧ stored.isActive = true) := by
    intro current hcurrent
    obtain ⟨hcurrent, hin⟩ := mem_ofProblem.mp hcurrent
    obtain ⟨stored, hstored, active, rfl, hactive⟩ := mem_rows_activate hcurrent
    exact ⟨stored, mem_ofProblem.mpr ⟨hstored, hin⟩, rfl, rfl, hactive⟩
  have hsame : ∀ first ∈ (((V n).deactivate ids).setActive package.id).ofProblem problem,
      ∀ second ∈ (((V n).deactivate ids).setActive package.id).ofProblem problem,
        first.id = second.id → first = second := fun first hfirst second hsecond =>
    Table.key_injOn _ (mem_ofProblem.mp hfirst).1 (mem_ofProblem.mp hsecond).1
  -- in the problem of the package, only the package itself is active
  have howner : ∀ stored ∈ (V n).ofProblem problem, stored.id ∉ ids → stored.isActive = true →
      package.problem = problem → stored.id = package.id := fun stored hin hout hactive heq =>
    (hfresh heq stored hin hactive).resolve_right hout
  have hforeign : ∀ stored ∈ (V n).ofProblem problem, stored.id = package.id →
      package.problem = problem := by
    intro stored hin hid
    obtain ⟨hmem, hin⟩ := mem_ofProblem.mp hin
    have hget := Table.get?_key_of_mem hmem
    rw [hid, hrow] at hget
    obtain rfl := Option.some.inj hget
    rw [← hproblem, hin]
  constructor
  · intro first hfirst second hsecond hactive hactive'
    obtain ⟨stored, hin, hid, -, hcases⟩ := hstored first hfirst
    obtain ⟨stored', hin', hid', -, hcases'⟩ := hstored second hsecond
    refine hsame first hfirst second hsecond ?_
    rw [← hid, ← hid']
    rcases hcases hactive with hown | ⟨hout, htrue⟩
    · have heq := hforeign stored hin hown
      rcases hcases' hactive' with hown' | ⟨hout', htrue'⟩
      · rw [hown, hown']
      · rw [hown, howner stored' hin' hout' htrue' heq]
    · rcases hcases' hactive' with hown' | ⟨hout', htrue'⟩
      · rw [hown', howner stored hin hout htrue (hforeign stored' hin' hown')]
      · rw [hgood.active stored hin stored' hin' htrue htrue']
  · intro first hfirst second hsecond hversion
    obtain ⟨stored, hin, hid, hsameVersion, -⟩ := hstored first hfirst
    obtain ⟨stored', hin', hid', hsameVersion', -⟩ := hstored second hsecond
    refine hsame first hfirst second hsecond ?_
    rw [← hid, ← hid', hgood.version stored hin stored' hin' (by omega)]

/-- A new package of the highest version is the only active one, if it is active and
every active one was among those to deactivate. -/
theorem good_create (hgood : (V n).Good problem) (testCases : List ProblemTestCase)
    (hversion : package.problem = problem → ∀ stored ∈ (V n).ofProblem problem,
      stored.version < package.version)
    (hfresh : package.problem = problem → package.isActive = true →
      ∀ active ∈ (V n).ofProblem problem, active.isActive = true → active.id ∈ ids) :
    (((V n).deactivate ids).create package testCases).Good problem := by
  have hcases : ∀ current ∈ (((V n).deactivate ids).create package testCases).ofProblem problem,
      (current = package ∧ package.problem = problem) ∨ ∃ stored ∈ (V n).ofProblem problem,
        stored.id = current.id ∧ stored.version = current.version ∧
          (current.isActive = true → stored.id ∉ ids ∧ stored.isActive = true) := by
    intro current hcurrent
    obtain ⟨hcurrent, hin⟩ := mem_ofProblem.mp hcurrent
    rcases Table.mem_save_iff.mp hcurrent with rfl | ⟨hcleared, -⟩
    · exact Or.inl ⟨rfl, hin⟩
    · obtain ⟨stored, hstored, active, rfl, hactive⟩ := mem_rows_deactivate hcleared
      exact Or.inr ⟨stored, mem_ofProblem.mpr ⟨hstored, hin⟩, rfl, rfl, hactive⟩
  have hsame : ∀ first ∈ (((V n).deactivate ids).create package testCases).ofProblem problem,
      ∀ second ∈ (((V n).deactivate ids).create package testCases).ofProblem problem,
        first.id = second.id → first = second := fun first hfirst second hsecond =>
    Table.key_injOn _ (mem_ofProblem.mp hfirst).1 (mem_ofProblem.mp hsecond).1
  constructor
  · intro first hfirst second hsecond hactive hactive'
    rcases hcases first hfirst with ⟨rfl, heq⟩ | ⟨stored, hin, hid, -, hold⟩
    · rcases hcases second hsecond with ⟨rfl, -⟩ | ⟨stored', hin', -, -, hold'⟩
      · rfl
      · obtain ⟨hout', htrue'⟩ := hold' hactive'
        exact absurd (hfresh heq hactive stored' hin' htrue') hout'
    · obtain ⟨hout, htrue⟩ := hold hactive
      rcases hcases second hsecond with ⟨rfl, heq⟩ | ⟨stored', hin', hid', -, hold'⟩
      · exact absurd (hfresh heq hactive' stored hin htrue) hout
      · refine hsame first hfirst second hsecond ?_
        rw [← hid, ← hid', hgood.active stored hin stored' hin' htrue (hold' hactive').2]
  · intro first hfirst second hsecond hsameVersion
    rcases hcases first hfirst with ⟨rfl, heq⟩ | ⟨stored, hin, hid, hold, -⟩
    · rcases hcases second hsecond with ⟨rfl, -⟩ | ⟨stored', hin', -, hold', -⟩
      · rfl
      · have hlt := hversion heq stored' hin'
        omega
    · rcases hcases second hsecond with ⟨rfl, heq⟩ | ⟨stored', hin', hid', hold', -⟩
      · have hlt := hversion heq stored hin
        omega
      · refine hsame first hfirst second hsecond ?_
        rw [← hid, ← hid', hgood.version stored hin stored' hin' (by omega)]

/-- A commit whose queries are still right keeps a problem good. -/
theorem good (h : call.Effect P V n value log db) (hpersists : ∀ m ≤ n, (V m).Persists (V n))
    (hgood : (V n).Good problem)
    (hfresh : ∀ query m, (query, m) ∈ log → query.Fresh problem (V m) (V n)) :
    db.Good problem := by
  cases h with
  | found => exact hgood
  | @activated _ _ m k package row hm stored _ _ current hk queried =>
      obtain ⟨active, heq⟩ := (hpersists m hm).eq_withActive stored (Table.mem_of_get? current)
        (Table.key_of_get? current).symm
      refine good_activate hgood current (by rw [heq]; rfl) fun hproblem => ?_
      have hquery := hfresh _ k queried hproblem
      rw [hproblem]
      exact hquery
  | @created imported _ _ active id m ids _ package testCases hid hproblem _ hactive fresh _ hm
      counted version cleared =>
      refine good_create hgood testCases ?_ ?_
      · intro heq stored hstored
        obtain ⟨known, hknown, hsame⟩ := hfresh _ m counted (hproblem.symm.trans heq) stored hstored
        obtain ⟨hmem, hin⟩ := mem_ofProblem.mp hknown
        obtain ⟨_, rfl⟩ := (hpersists m hm).eq_withActive hmem (mem_ofProblem.mp hstored).1 hsame
        have hle := version_le_maxVersion hknown
        rw [version, ← hproblem, heq]
        exact Nat.lt_succ_of_le hle
      · intro heq htrue other hother hotherActive
        rw [hactive] at htrue
        rw [if_pos htrue] at cleared
        obtain ⟨k, -, hqueried, rfl⟩ := cleared
        have hquery := hfresh _ k hqueried (hproblem.symm.trans heq) other hother hotherActive
        rw [← hproblem, heq]
        exact hquery

/-- A problem that has an active package keeps one. -/
theorem hasActive (h : call.Effect P V n value log db) (hpersists : ∀ m ≤ n, (V m).Persists (V n))
    (hactive : (V n).HasActive problem) : db.HasActive problem := by
  obtain ⟨kept, hkept, hisActive⟩ := hactive
  obtain ⟨hmem, hproblem⟩ := mem_ofProblem.mp hkept
  have hget := Table.get?_key_of_mem hmem
  cases h with
  | found => exact ⟨kept, hkept, hisActive⟩
  | @activated _ _ m k package row hm stored _ _ current hk queried =>
      by_cases hown : kept.id = package.id
      · refine ⟨kept.withActive true, mem_ofProblem_iff_get?.mpr ⟨?_, hproblem⟩, rfl⟩
        rw [get?_setActive, ProblemPackage.id_withActive, if_pos hown, get?_deactivate, hget]
        split_ifs <;> rfl
      · by_cases hcleared : kept.id ∈ (V k).others package.problem package.id
        · -- the query found `kept`, so the activated package is of its problem
          obtain ⟨known, hknown, -, hid⟩ := mem_others.mp hcleared
          have heq := (hpersists k hk).problem_eq hknown hkept hid
          obtain ⟨_, hrow⟩ := (hpersists m hm).eq_withActive stored (Table.mem_of_get? current)
            (Table.key_of_get? current).symm
          refine ⟨row.withActive true, mem_ofProblem_iff_get?.mpr ⟨?_, ?_⟩, rfl⟩
          · rw [ProblemPackage.id_withActive, Table.key_of_get? current, get?_setActive,
              if_pos rfl, get?_deactivate, current]
            split_ifs <;> rfl
          · rw [hrow]
            exact heq
        · refine ⟨kept, mem_ofProblem_iff_get?.mpr ⟨?_, hproblem⟩, hisActive⟩
          rw [get?_setActive, if_neg hown, get?_deactivate, hget, Option.map_some,
            if_neg hcleared]
  | @created imported _ _ active id m ids _ package testCases hid hin _ hactive fresh _ _ _ _
      cleared =>
      by_cases hmember : kept.id ∈ ids
      · cases active with
        | false =>
            rw [if_neg (by decide)] at cleared
            rw [cleared] at hmember
            cases hmember
        | true =>
            rw [if_pos rfl] at cleared
            obtain ⟨k, hk, -, rfl⟩ := cleared
            obtain ⟨known, hknown, -, hsame⟩ := mem_active.mp hmember
            have heq := (hpersists k hk).problem_eq hknown hkept hsame
            refine ⟨package, mem_ofProblem_iff_get?.mpr ⟨?_, hin.trans heq⟩, hactive⟩
            rw [get?_create, if_pos rfl]
      · have hne : kept.id ≠ package.id := by
          intro heq
          rw [heq, hid, fresh] at hget
          cases hget
        refine ⟨kept, mem_ofProblem_iff_get?.mpr ⟨?_, hproblem⟩, hisActive⟩
        rw [get?_create, if_neg hne, get?_deactivate, hget, Option.map_some, if_neg hmember]

end PackageCall.Effect

/-! ## Whole runs -/

section

variable {ι : Type} {P : Python} {sys : PackageSystem ι} {problem : ℕ}

/-- A committed transaction on the packages. -/
abbrev PackageCommit (ι : Type) := Commit ι PackageQuery PackageTables PackageKey.Row ℕ

/-- The commit of a call. -/
def PackageCall.CommittedAt (P : Python) (sys : PackageSystem ι) (n : ℕ) (call : PackageCall)
    (commit : PackageCommit ι) : Prop :=
  sys.commits[n]? = some commit ∧ commit.program = call.program P

/-- The packages of one problem over the commits of a run. -/
structure OnePackage (P : Python) (sys : PackageSystem ι) (problem : ℕ) : Prop where
  /-- After every commit at most one package is active. -/
  active : ∀ n ≤ sys.commits.length, ∀ first ∈ (sys.version n).ofProblem problem,
    ∀ second ∈ (sys.version n).ofProblem problem,
      first.isActive = true → second.isActive = true → first = second
  /-- Once a package has been activated, exactly one is active. -/
  activated : ∀ (k : ℕ) (call : PackageCall) (commit : PackageCommit ι),
    call.CommittedAt P sys k commit → call.activates = true →
    ∀ n, k < n → n ≤ sys.commits.length → ∀ package,
      (sys.version n).packages.get? commit.value = some package → package.problem = problem →
        ∃! current, current ∈ (sys.version n).ofProblem problem ∧ current.isActive = true
  /-- The versions are pairwise distinct. -/
  versions : ∀ n ≤ sys.commits.length,
    (((sys.version n).ofProblem problem).map ProblemPackage.version).Nodup
  /-- Importing bytes that are stored for the problem creates no package. -/
  idempotent : ∀ (n : ℕ) (target : Problem) (archiveName : String) (payload : Bytes)
    (active : Bool) (id : ℕ) (commit : PackageCommit ι), target.id = problem →
    (PackageCall.importZip target archiveName payload active id).CommittedAt P sys n commit →
      (∃ stored ∈ (sys.version n).ofProblem problem, stored.sha256 = P.sha256 payload) →
        (sys.version (n + 1)).packages.rows.map ProblemPackage.id =
          (sys.version n).packages.rows.map ProblemPackage.id

/-- What every transaction read about the problem is still right when it commits. -/
def PackageSystem.Fresh (sys : PackageSystem ι) (problem : ℕ) : Prop :=
  ∀ (n : ℕ) (commit : PackageCommit ι), sys.commits[n]? = some commit →
    ∀ (query : PackageQuery) (m : ℕ), (query, m) ∈ commit.log →
      query.Fresh problem (sys.version m) (sys.version n)

namespace PackageSystem

/-- The programs of the two operations. -/
def Permitted (P : Python) (_ : ι) (program : PackageTransaction ℕ) : Prop :=
  ∃ call : PackageCall, program = call.program P

/-- Every commit has the effect of its call. -/
theorem effect (hsound : sys.Sound (Permitted P)) {n : ℕ} {call : PackageCall}
    {commit : PackageCommit ι}
    (h : call.CommittedAt P sys n commit) :
    call.Effect P sys.version n commit.value commit.log (sys.version (n + 1)) := by
  obtain ⟨-, hyields⟩ := hsound.commits n commit h.1
  rw [h.2] at hyields
  rw [System.version_succ h.1]
  exact PackageCall.effect_of_yields hyields

theorem exists_call (hsound : sys.Sound (Permitted P)) {n : ℕ} (hn : n < sys.commits.length) :
    ∃ call : PackageCall, call.CommittedAt P sys n sys.commits[n] := by
  have hcommit : sys.commits[n]? = some sys.commits[n] := List.getElem?_eq_getElem hn
  obtain ⟨⟨call, hprogram⟩, -⟩ := hsound.commits n _ hcommit
  exact ⟨call, hcommit, hprogram⟩

/-- No commit removes a package. -/
theorem persists (hsound : sys.Sound (Permitted P)) {m n : ℕ} (hmn : m ≤ n)
    (hn : n ≤ sys.commits.length) : (sys.version m).Persists (sys.version n) := by
  induction n, hmn using Nat.le_induction with
  | base => exact PackageTables.Persists.refl _
  | succ n _ ih =>
      obtain ⟨call, hcommit⟩ := exists_call hsound hn
      exact (ih (by omega)).trans (effect hsound hcommit).persists

theorem indexed (hsound : sys.Sound (Permitted P)) (hstart : (sys.version 0).Indexed) {n : ℕ}
    (hn : n ≤ sys.commits.length) : (sys.version n).Indexed := by
  induction n with
  | zero => exact hstart
  | succ n ih =>
      obtain ⟨call, hcommit⟩ := exists_call hsound hn
      exact (effect hsound hcommit).indexed (ih (by omega))

theorem good (hsound : sys.Sound (Permitted P)) (hstart : (sys.version 0).Good problem)
    (hfresh : Fresh sys problem) {n : ℕ} (hn : n ≤ sys.commits.length) :
    (sys.version n).Good problem := by
  induction n with
  | zero => exact hstart
  | succ n ih =>
      obtain ⟨call, hcommit⟩ := exists_call hsound hn
      exact (effect hsound hcommit).good (fun m hm => persists hsound hm (by omega)) (ih (by omega))
        (hfresh n _ hcommit.1)

/-- After an activating commit the problem of its package has an active package. -/
theorem hasActive (hsound : sys.Sound (Permitted P)) {k : ℕ} {call : PackageCall}
    {commit : PackageCommit ι}
    (hcommit : call.CommittedAt P sys k commit) (hactive : call.activates = true) {n : ℕ}
    (hkn : k + 1 ≤ n) (hn : n ≤ sys.commits.length) {package : ProblemPackage}
    (hpackage : (sys.version n).packages.get? commit.value = some package) :
    (sys.version n).HasActive package.problem := by
  obtain ⟨stored, hstored, hisActive⟩ := (effect hsound hcommit).value_active hactive
  have hproblem : stored.problem = package.problem := by
    obtain ⟨active, hlater⟩ := persists hsound hkn hn _ _ hstored
    rw [hpackage] at hlater
    rw [Option.some.inj hlater]
    rfl
  induction n, hkn using Nat.le_induction generalizing package with
  | base =>
      refine ⟨stored, PackageTables.mem_ofProblem_iff_get?.mpr ⟨?_, hproblem⟩, hisActive⟩
      rw [Table.key_of_get? hstored]
      exact hstored
  | succ n hkn ih =>
      obtain ⟨active, hbefore⟩ := persists hsound hkn (by omega) _ _ hstored
      have hactiveBefore := ih (by omega) hbefore rfl
      obtain ⟨last, hlast⟩ := exists_call hsound hn
      rw [← hproblem]
      exact (effect hsound hlast).hasActive (fun m hm => persists hsound hm (by omega))
        hactiveBefore

/-- A problem keeps at most one active package and pairwise distinct versions in every
run in which what the transactions read about it is still right when they commit. -/
theorem onePackage [DecidableEq ι] {db : PackageTables}
    {moves : List (Move ι PackageQuery PackageTables PackageKey.Row ℕ)}
    (run : Run (System.Step (Permitted P)) (System.start db) moves sys) (hindexed : db.Indexed)
    (hgood : db.Good problem) (hfresh : Fresh sys problem) : OnePackage P sys problem := by
  have hsound := System.Sound.run run
  have hinitial : sys.version 0 = db := System.initial_of_run run
  have hall : ∀ n ≤ sys.commits.length, (sys.version n).Good problem := fun n hn =>
    good hsound (hinitial.symm ▸ hgood) hfresh hn
  refine ⟨fun n hn => (hall n hn).active, ?_, ?_, ?_⟩
  · intro k call commit hcommit hactive n hkn hn package hpackage hproblem
    obtain ⟨current, hcurrent, hisActive⟩ := hasActive hsound hcommit hactive hkn hn hpackage
    rw [hproblem] at hcurrent
    refine ⟨current, ⟨hcurrent, hisActive⟩, ?_⟩
    rintro other ⟨hother, hotherActive⟩
    exact (hall n hn).active other hother current hcurrent hotherActive hisActive
  · intro n hn
    refine List.Nodup.map_on (hall n hn).version ?_
    exact (List.Nodup.of_map _ (sys.version n).packages.nodup_keys).filter _
  · rintro n target archiveName payload active id commit rfl hcommit ⟨stored, hstored, hsha256⟩
    have hn : n < sys.commits.length := (List.getElem?_eq_some_iff.mp hcommit.1).1
    obtain ⟨hmem, hproblem⟩ := PackageTables.mem_ofProblem.mp hstored
    have hindex := indexed hsound (hinitial.symm ▸ hindexed) (Nat.le_of_lt hn)
    exact (effect hsound hcommit).ids_of_stored hindex hmem ⟨hproblem, hsha256⟩

/-- A query that is answered by the tables it is committed on is right. -/
theorem fresh_of_current
    (h : ∀ (n : ℕ) (commit : PackageCommit ι), sys.commits[n]? = some commit →
      ∀ entry ∈ commit.log, entry.2 = n) : Fresh sys problem := by
  intro n commit hcommit query m hmem
  obtain rfl : m = n := h n commit hcommit _ hmem
  cases query with
  | package | byDigest => trivial
  | maxVersion => exact fun _ package hpackage => ⟨package, hpackage, rfl⟩
  | active =>
      exact fun _ package hpackage hactive =>
        PackageTables.mem_active.mpr ⟨package, hpackage, hactive, rfl⟩
  | others _ id =>
      intro _ package hpackage _
      by_cases hid : package.id = id
      · exact Or.inl hid
      · exact Or.inr (PackageTables.mem_others.mpr ⟨package, hpackage, hid, rfl⟩)

end PackageSystem

end

/-! ## Two imports -/

/-- An archive is one case, and the digest of an archive is its text. -/
def archivePython : Python :=
  { Python.plain (.exact FloatArith.decimalRound) with
    sha256 := fun bytes => String.ofList (bytes.map fun byte => Char.ofNat byte.toNat)
    openZip := fun payload => .ok [
      { name := "1.in", content := .ok payload, fileSize := 1 },
      { name := "1.out", content := .ok payload, fileSize := 1 }] }

def sampleProblem : Problem where
  id := 1
  code := "PAIR"
  points := 100
  timeLimit := 2
  memoryLimit := 262144
  partialScore := false
  shortCircuit := false

/-- Two sessions import and activate two archives of one problem. -/
def sampleImport (session : Bool) : PackageCall :=
  .importZip sampleProblem "tests.zip" [if session then 98 else 97] true (if session then 2 else 1)

/-- Both transactions begin, and the sessions of `steps` execute a statement in turn. -/
def importMoves (steps : List Bool) :
    List (Move Bool PackageQuery PackageTables PackageKey.Row ℕ) :=
  .begin false ((sampleImport false).program archivePython) ::
    .begin true ((sampleImport true).program archivePython) :: steps.map .step

theorem run_importMoves {steps : List Bool} {sys : PackageSystem Bool}
    (h : (System.start {} : PackageSystem Bool).moves (importMoves steps) = some sys) :
    Run (System.Step (PackageSystem.Permitted archivePython)) (System.start {}) (importMoves steps)
      sys :=
  System.run_of_two (fun session => (sampleImport session).program archivePython) h fun _ =>
    ⟨_, rfl⟩

/-- The second import reads nothing before the first one commits. -/
def consecutiveImports : List Bool := List.replicate 7 false ++ List.replicate 8 true

/-- Both read the highest version and the active packages before either commits. -/
def overlappingImports : List Bool :=
  List.replicate 3 false ++ List.replicate 3 true ++ List.replicate 4 false ++
    List.replicate 4 true

theorem PackageTables.indexed_empty : ({} : PackageTables).Indexed :=
  fun _ hpackage => absurd hpackage List.not_mem_nil

theorem PackageTables.good_empty (problem : ℕ) : ({} : PackageTables).Good problem where
  active _ hfirst := absurd hfirst List.not_mem_nil
  version _ hfirst := absurd hfirst List.not_mem_nil

theorem PackageSystem.onePackage_consecutive :
    ∃ sys : PackageSystem Bool, sys.commits.map Commit.value = [1, 2] ∧ sys.store.active 1 = [2] ∧
      OnePackage archivePython sys 1 := by
  have hmoves : ((System.start {} : PackageSystem Bool).moves (importMoves consecutiveImports)).map
      (fun sys => (sys.commits.map Commit.value, sys.store.active 1,
        sys.commits.map fun commit => commit.log.map Prod.snd)) =
      some ([1, 2], [2], [[0, 0, 0], [1, 1, 1]]) := by
    decide +kernel
  obtain ⟨sys, hsys, hseen⟩ := Option.map_eq_some_iff.mp hmoves
  obtain ⟨hvalues, hseen⟩ := Prod.mk.inj hseen
  obtain ⟨hactive, hlogs⟩ := Prod.mk.inj hseen
  refine ⟨sys, hvalues, hactive, onePackage (run_importMoves hsys) PackageTables.indexed_empty
    (PackageTables.good_empty 1) (fresh_of_current fun n commit hcommit entry hentry => ?_)⟩
  have hlog : [[0, 0, 0], [1, 1, 1]][n]? = some (commit.log.map Prod.snd) := by
    rw [← hlogs, List.getElem?_map, hcommit, Option.map_some]
  have hmem : entry.2 ∈ commit.log.map Prod.snd := List.mem_map_of_mem hentry
  match n, hlog with
  | 0, hlog =>
      rw [← Option.some.inj hlog] at hmem
      simpa using hmem
  | 1, hlog =>
      rw [← Option.some.inj hlog] at hmem
      simpa using hmem

/-- Both packages are active, and both have version 1. -/
theorem PackageSystem.two_active :
    ∃ sys : PackageSystem Bool,
      Run (System.Step (Permitted archivePython)) (System.start {}) (importMoves overlappingImports)
        sys ∧
      sys.store.active 1 = [1, 2] ∧
      (sys.store.ofProblem 1).map ProblemPackage.version = [1, 1] ∧
      ¬ OnePackage archivePython sys 1 := by
  have hmoves : ((System.start {} : PackageSystem Bool).moves (importMoves overlappingImports)).map
      (fun sys => (sys.store.active 1, (sys.store.ofProblem 1).map ProblemPackage.version)) =
      some ([1, 2], [1, 1]) := by
    decide +kernel
  obtain ⟨sys, hsys, hseen⟩ := Option.map_eq_some_iff.mp hmoves
  obtain ⟨hactive, hversions⟩ := Prod.mk.inj hseen
  refine ⟨sys, run_importMoves hsys, hactive, hversions, fun hone => ?_⟩
  have hnodup := hone.versions _ le_rfl
  have hstore : (sys.store.ofProblem 1).map ProblemPackage.version =
      ((sys.version sys.commits.length).ofProblem 1).map ProblemPackage.version := rfl
  rw [← hstore, hversions] at hnodup
  exact absurd hnodup (by decide)

end JudgeLoom
