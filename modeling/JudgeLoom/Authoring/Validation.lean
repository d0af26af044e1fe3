import JudgeLoom.Authoring.Builder
import JudgeLoom.Library.Except

/-!
# What a validated spec is like

`Spec.validate` returns at the first violation.  `Spec.Valid` collects what holds of a spec
when there is none, and `valid_of_validate` gives it for the spec that is built: the one
with its defaults, in which the languages of the programs are replaced by their keys.
-/

namespace JudgeLoom.Authoring

variable {quote : String → String}

/-! ## Groups and cases -/

structure GroupSpec.Valid (group : GroupSpec) : Prop where
  name : matchesName ['_', '-'] 32 group.id = true
  points : validPoints group.points
  mode : group.mode = "sum" ∨ group.mode = "min"

structure CaseSpec.Valid (groups : List String) (testCase : CaseSpec) : Prop where
  name : matchesName ['_', '.', '-'] 64 testCase.id = true
  group : testCase.group ∈ groups
  count : testCase.args.length ≤ 32
  args : ∀ arg ∈ testCase.args, validArg arg
  points : ∃ points, testCase.points = some points ∧ validPoints points

theorem valid_of_validateGroups {seen : List String} {groups : List GroupSpec}
    (h : validateGroups quote seen groups = .ok ()) :
    (∀ group ∈ groups, group.Valid ∧ group.id ∉ seen) ∧ (groups.map GroupSpec.id).Nodup := by
  induction groups generalizing seen with
  | nil => exact ⟨List.forall_mem_nil _, List.nodup_nil⟩
  | cons group rest ih =>
      unfold validateGroups at h
      split_ifs at h with hname hseen hpoints hmode
      any_goals cases h
      obtain ⟨hrest, hnodup⟩ := ih h
      have hgroup : group.Valid := by
        refine ⟨hname, hpoints, ?_⟩
        rw [not_and_or, not_not, not_not] at hmode
        exact hmode
      refine ⟨List.forall_mem_cons.mpr ⟨⟨hgroup, hseen⟩, fun other hother => ?_⟩, ?_⟩
      · obtain ⟨hvalid, hnew⟩ := hrest other hother
        exact ⟨hvalid, fun hold => hnew (List.mem_cons_of_mem _ hold)⟩
      · rw [List.map_cons, List.nodup_cons]
        refine ⟨fun hagain => ?_, hnodup⟩
        obtain ⟨other, hother, hid⟩ := List.mem_map.mp hagain
        exact (hrest other hother).2 (hid ▸ List.mem_cons_self)

theorem valid_of_validateCases {groups seen : List String} {cases : List CaseSpec}
    (h : validateCases quote groups seen cases = .ok ()) :
    (∀ testCase ∈ cases, testCase.Valid groups ∧ testCase.id ∉ seen) ∧
      (cases.map CaseSpec.id).Nodup := by
  induction cases generalizing seen with
  | nil => exact ⟨List.forall_mem_nil _, List.nodup_nil⟩
  | cons testCase rest ih =>
      unfold validateCases at h
      split_ifs at h with hname hseen hgroup hcount hargs hpoints
      any_goals cases h
      obtain ⟨hrest, hnodup⟩ := ih h
      have hcase : testCase.Valid groups := by
        obtain ⟨points, hsome, hvalid⟩ := hpoints
        exact ⟨hname, hgroup, not_lt.mp hcount, hargs, points, hsome, hvalid⟩
      refine ⟨List.forall_mem_cons.mpr ⟨⟨hcase, hseen⟩, fun other hother => ?_⟩, ?_⟩
      · obtain ⟨hvalid, hnew⟩ := hrest other hother
        exact ⟨hvalid, fun hold => hnew (List.mem_cons_of_mem _ hold)⟩
      · rw [List.map_cons, List.nodup_cons]
        refine ⟨fun hagain => ?_, hnodup⟩
        obtain ⟨other, hother, hid⟩ := List.mem_map.mp hagain
        exact (hrest other hother).2 (hid ▸ List.mem_cons_self)

/-! ## The spec -/

/-- An inline source is there, and not too large. -/
def ValidSource (source : Go.Bytes) : Prop :=
  isBlank source = false ∧ source.length ≤ maxSourceBytes

structure Spec.Valid (s : Spec) : Prop where
  points : 0 < s.points ∧ s.points ≤ 1000000
  cases : s.cases ≠ [] ∧ s.cases.length ≤ 200
  checker : s.checker.type = "exact" ∨ s.checker.type = "none" ∨
    s.checker.type = "testlib" ∧ ValidSource s.checker.source
  validator : ∀ validator ∈ s.validator, validator.type = "none" ∨
    validator.type = "testlib" ∧ ValidSource validator.source
  validGroups : ∀ group ∈ s.groups, group.Valid
  groupIds : (s.groups.map GroupSpec.id).Nodup
  validCases : ∀ testCase ∈ s.cases, testCase.Valid (s.groups.map GroupSpec.id)
  caseIds : (s.cases.map CaseSpec.id).Nodup

/-- A spec that is validated is valid, and only its programs may have changed. -/
theorem valid_of_validate {A : FloatArith} {s s' : Spec} (h : s.validate quote A = .ok s') :
    s'.Valid ∧ ∃ generator solution, s' = { s with generator, solution } := by
  unfold Spec.validate at h
  obtain ⟨_, hfields, h⟩ := Except.bind_eq_ok.mp h
  obtain ⟨_, hchecker, h⟩ := Except.bind_eq_ok.mp h
  obtain ⟨hvalidator, h⟩ : (∀ validator ∈ s.validator, validator.validate quote = .ok ()) ∧ (do
      let generator ← validateProgram quote s.generator "generator"
      let solution ← validateProgram quote s.solution "solution"
      validateGroups quote [] s.groups
      validateCases quote (s.groups.map GroupSpec.id) [] s.cases
      return { s with generator, solution }) = Except.ok s' := by
    cases hmem : s.validator with
    | none =>
        rw [hmem] at h
        refine ⟨fun _ hnone => ?_, h⟩
        cases hnone
    | some validator =>
        rw [hmem] at h
        obtain ⟨_, hok, h⟩ := Except.bind_eq_ok.mp h
        refine ⟨fun other hother => ?_, h⟩
        cases hother
        exact hok
  obtain ⟨generator, -, h⟩ := Except.bind_eq_ok.mp h
  obtain ⟨solution, -, h⟩ := Except.bind_eq_ok.mp h
  obtain ⟨_, hgroups, h⟩ := Except.bind_eq_ok.mp h
  obtain ⟨_, hcases, h⟩ := Except.bind_eq_ok.mp h
  cases h
  obtain ⟨hvalidGroups, hgroupIds⟩ := valid_of_validateGroups hgroups
  obtain ⟨hvalidCases, hcaseIds⟩ := valid_of_validateCases hcases
  refine ⟨⟨?_, ?_, ?_, ?_, fun group hgroup => (hvalidGroups group hgroup).1, hgroupIds,
    fun testCase hcase => (hvalidCases testCase hcase).1, hcaseIds⟩, generator, solution, rfl⟩
  · unfold Spec.validateFields at hfields
    split_ifs at hfields with _ _ hpoints
    any_goals cases hfields
    rw [not_or, not_le, not_lt] at hpoints
    exact hpoints
  · unfold Spec.validateFields at hfields
    split_ifs at hfields with _ _ _ _ _ hlength
    any_goals cases hfields
    rw [not_or, not_lt, List.length_eq_zero_iff] at hlength
    exact hlength
  · unfold CheckerSpec.validate at hchecker
    split at hchecker
    · next htype => exact Or.inl htype
    · next htype => exact Or.inr (Or.inl htype)
    · next htype =>
        split_ifs at hchecker with hblank hlength
        any_goals cases hchecker
        exact Or.inr (Or.inr ⟨htype, Bool.not_eq_true _ ▸ hblank, not_lt.mp hlength⟩)
    · cases hchecker
    · cases hchecker
  · intro validator hmem
    have hvalidator := hvalidator validator hmem
    unfold ValidatorSpec.validate at hvalidator
    split at hvalidator
    · next htype => exact Or.inl htype
    · next htype =>
        split_ifs at hvalidator with hblank hlength
        any_goals cases hvalidator
        exact Or.inr ⟨htype, Bool.not_eq_true _ ▸ hblank, not_lt.mp hlength⟩
    · cases hvalidator

end JudgeLoom.Authoring
