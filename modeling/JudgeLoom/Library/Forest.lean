import Mathlib.Data.List.Lex
import Mathlib.Data.List.Perm.Basic
import Mathlib.Order.Lattice
import Mathlib.Tactic.Common

/-!
# Forests

A forest is written as its first tree, split into the root and the forest below it, and
the trees after it.  `families` lists every element with the roots of the forest below
it; together with `roots` it says who is listed where.

Two operations grow a forest: `snoc` adds a tree of one element at the end, `insertUnder`
adds an element as the last one below another.  `pairwise_preorder` reads the order of the
whole traversal off the order among siblings: it is the lexicographic order of labels, if
every label extends the label above it and siblings have labels of one length.
-/

/-- The first root, the trees below it, and the trees after it. -/
inductive Forest (α : Type*)
  | nil
  | node (root : α) (children rest : Forest α)

namespace Forest

variable {α : Type*}

/-- The elements that have nothing above them. -/
def roots : Forest α → List α
  | nil => []
  | node root _ rest => root :: rest.roots

/-- Every element, followed by those below it. -/
def preorder : Forest α → List α
  | nil => []
  | node root children rest => root :: (children.preorder ++ rest.preorder)

/-- Every element with those right below it. -/
def families : Forest α → List (α × List α)
  | nil => []
  | node root children rest => (root, children.roots) :: (children.families ++ rest.families)

/-- One more tree, of one element. -/
def snoc (added : α) : Forest α → Forest α
  | nil => node added nil nil
  | node root children rest => node root children (rest.snoc added)

/-- One more element below each one that passes the test. -/
def insertUnder (test : α → Bool) (added : α) : Forest α → Forest α
  | nil => nil
  | node root children rest =>
      let below := children.insertUnder test added
      node root (if test root then below.snoc added else below) (rest.insertUnder test added)

variable {test : α → Bool} {added : α} {f : Forest α}

@[simp] theorem roots_nil : (nil : Forest α).roots = [] := rfl

@[simp] theorem preorder_nil : (nil : Forest α).preorder = [] := rfl

@[simp] theorem families_nil : (nil : Forest α).families = [] := rfl

theorem map_fst_families (f : Forest α) : f.families.map Prod.fst = f.preorder := by
  induction f with
  | nil => rfl
  | node root children rest ihChildren ihRest =>
      rw [families, preorder, List.map_cons, List.map_append, ihChildren, ihRest]

theorem mem_preorder_of_mem_families {family : α × List α} (h : family ∈ f.families) :
    family.1 ∈ f.preorder := by
  rw [← map_fst_families]
  exact List.mem_map_of_mem h

/-- Every element is the first of a family. -/
theorem exists_mem_families {element : α} (h : element ∈ f.preorder) :
    ∃ children, (element, children) ∈ f.families := by
  rw [← map_fst_families] at h
  obtain ⟨family, hfamily, rfl⟩ := List.mem_map.mp h
  exact ⟨family.2, hfamily⟩

/-! ## Adding an element -/

@[simp] theorem roots_snoc (added : α) (f : Forest α) :
    (f.snoc added).roots = f.roots ++ [added] := by
  induction f with
  | nil => rfl
  | node root children rest _ ih => rw [snoc, roots, roots, ih, List.cons_append]

@[simp] theorem preorder_snoc (added : α) (f : Forest α) :
    (f.snoc added).preorder = f.preorder ++ [added] := by
  induction f with
  | nil => rfl
  | node root children rest _ ih =>
      rw [snoc, preorder, preorder, ih, List.cons_append, List.append_assoc]

@[simp] theorem families_snoc (added : α) (f : Forest α) :
    (f.snoc added).families = f.families ++ [(added, [])] := by
  induction f with
  | nil => rfl
  | node root children rest _ ih =>
      rw [snoc, families, families, ih, List.cons_append, List.append_assoc]

@[simp] theorem roots_insertUnder (test : α → Bool) (added : α) (f : Forest α) :
    (f.insertUnder test added).roots = f.roots := by
  induction f with
  | nil => rfl
  | node root children rest _ ih =>
      rw [insertUnder]
      exact congrArg (root :: ·) ih

theorem insertUnder_of_none (h : ∀ element ∈ f.preorder, test element = false) :
    f.insertUnder test added = f := by
  induction f with
  | nil => rfl
  | node root children rest ihChildren ihRest =>
      rw [preorder, List.forall_mem_cons, List.forall_mem_append] at h
      obtain ⟨hroot, hchildren, hrest⟩ := h
      rw [insertUnder, ihChildren hchildren, ihRest hrest, if_neg (Bool.eq_false_iff.mp hroot)]

/-- Where exactly one element passes the test, one element is added. -/
theorem preorder_insertUnder_perm (hnodup : f.preorder.Nodup) {above : α}
    (habove : above ∈ f.preorder) (htest : ∀ element ∈ f.preorder, test element = true ↔
      element = above) : (f.insertUnder test added).preorder.Perm (added :: f.preorder) := by
  induction f with
  | nil => exact absurd habove List.not_mem_nil
  | node root children rest ihChildren ihRest =>
      rw [preorder] at hnodup habove htest
      obtain ⟨hroot, hboth⟩ := List.nodup_cons.mp hnodup
      obtain ⟨hchildren, hrest, hdisjoint⟩ := List.nodup_append.mp hboth
      rw [List.forall_mem_cons, List.forall_mem_append] at htest
      obtain ⟨htestRoot, htestChildren, htestRest⟩ := htest
      have hnone : ∀ g : Forest α, (∀ element ∈ g.preorder, test element = true ↔
          element = above) → above ∉ g.preorder → g.insertUnder test added = g := by
        intro g hg habsent
        refine insertUnder_of_none fun element helement => ?_
        rw [Bool.eq_false_iff]
        exact fun hpass => habsent ((hg element helement).mp hpass ▸ helement)
      rw [insertUnder, preorder, preorder]
      rcases List.mem_cons.mp habove with rfl | hbelow
      · -- below the first root
        have hskip : above ∉ rest.preorder := fun hmem => hroot (List.mem_append_right _ hmem)
        have hskip' : above ∉ children.preorder := fun hmem => hroot (List.mem_append_left _ hmem)
        rw [if_pos (htestRoot.mpr rfl), preorder_snoc, hnone rest htestRest hskip,
          hnone children htestChildren hskip']
        refine (List.Perm.cons above ?_).trans (List.Perm.swap added above _)
        rw [List.append_assoc]
        exact List.perm_middle
      · have hne : test root = false := by
          rw [Bool.eq_false_iff]
          exact fun hpass => hroot (htestRoot.mp hpass ▸ hbelow)
        rw [if_neg (Bool.eq_false_iff.mp hne)]
        refine (List.Perm.cons root ?_).trans (List.Perm.swap added root _)
        rcases List.mem_append.mp hbelow with hmem | hmem
        · have hskip : above ∉ rest.preorder := fun hother => hdisjoint above hmem above hother rfl
          rw [hnone rest htestRest hskip]
          exact (ihChildren hchildren hmem htestChildren).append_right _
        · have hskip : above ∉ children.preorder :=
            fun hother => hdisjoint above hother above hmem rfl
          rw [hnone children htestChildren hskip]
          exact ((ihRest hrest hmem htestRest).append_left _).trans List.perm_middle

/-- A family after an insertion is the new element alone, or an old family. -/
theorem mem_families_insertUnder {family : α × List α}
    (h : family ∈ (f.insertUnder test added).families) :
    family = (added, []) ∨ ∃ old ∈ f.families,
      family = (old.1, if test old.1 then old.2 ++ [added] else old.2) := by
  induction f with
  | nil => exact absurd h List.not_mem_nil
  | node root children rest ihChildren ihRest =>
      rw [insertUnder, families, List.mem_cons, List.mem_append] at h
      have hbelow : family ∈ (children.insertUnder test added).families →
          family = (added, []) ∨ ∃ old ∈ (node root children rest).families,
            family = (old.1, if test old.1 then old.2 ++ [added] else old.2) := by
        intro hmem
        refine (ihChildren hmem).imp id fun ⟨old, hold, heq⟩ => ⟨old, ?_, heq⟩
        exact List.mem_cons_of_mem _ (List.mem_append_left _ hold)
      rcases h with rfl | hchildren | hrest
      · refine Or.inr ⟨_, List.mem_cons_self, ?_⟩
        cases htest : test root with
        | true => simp
        | false => simp
      · split at hchildren
        · rw [families_snoc, List.mem_append, List.mem_singleton] at hchildren
          exact hchildren.elim hbelow Or.inl
        · exact hbelow hchildren
      · refine (ihRest hrest).imp id fun ⟨old, hold, heq⟩ => ⟨old, ?_, heq⟩
        exact List.mem_cons_of_mem _ (List.mem_append_right _ hold)

/-! ## The order of the traversal -/

section Labels

variable {β : Type*} {label : α → List β}

/-- Every label extends the label above it. -/
def Extends (label : α → List β) (family : α × List α) : Prop :=
  ∀ child ∈ family.2, ∃ more ≠ [], label child = label family.1 ++ more

/-- Every element is a root or below one. -/
theorem exists_root (hextends : ∀ family ∈ f.families, Extends label family) {element : α}
    (h : element ∈ f.preorder) : ∃ root ∈ f.roots, ∃ more, label element = label root ++ more := by
  induction f with
  | nil => exact absurd h List.not_mem_nil
  | node root children rest ihChildren ihRest =>
      rw [families, List.forall_mem_cons, List.forall_mem_append] at hextends
      obtain ⟨hroot, hchildren, hrest⟩ := hextends
      rcases List.mem_cons.mp h with rfl | hbelow
      · exact ⟨element, List.mem_cons_self, [], (List.append_nil _).symm⟩
      · rcases List.mem_append.mp hbelow with hmem | hmem
        · obtain ⟨child, hchild, more, hmore⟩ := ihChildren hchildren hmem
          obtain ⟨segment, -, hsegment⟩ := hroot child hchild
          refine ⟨root, List.mem_cons_self, segment ++ more, ?_⟩
          rw [hmore, hsegment, List.append_assoc]
        · obtain ⟨other, hother, hmore⟩ := ihRest hrest hmem
          exact ⟨other, List.mem_cons_of_mem _ hother, hmore⟩

variable [LinearOrder β]

theorem lt_append {label more : List β} (h : more ≠ []) : label < label ++ more := by
  obtain ⟨first, rest, rfl⟩ := List.exists_cons_of_ne_nil h
  induction label with
  | nil => exact List.nil_lt_cons first rest
  | cons head tail ih => exact List.cons_lt_cons_iff.mpr (Or.inr ⟨rfl, ih⟩)

/-- What is first decided between two labels of one length stays decided. -/
theorem append_lt_append {first second : List β} (hlength : first.length = second.length)
    (hlt : first < second) (more other : List β) : first ++ more < second ++ other := by
  induction first generalizing second with
  | nil =>
      rw [List.eq_nil_of_length_eq_zero hlength.symm] at hlt
      exact absurd hlt (lt_irrefl _)
  | cons head tail ih =>
      obtain ⟨head', tail', rfl⟩ :=
        List.exists_cons_of_length_eq_add_one (hlength.symm.trans (List.length_cons ..))
      rw [List.cons_append, List.cons_append]
      rcases List.cons_lt_cons_iff.mp hlt with hhead | ⟨rfl, htail⟩
      · exact List.cons_lt_cons_iff.mpr (Or.inl hhead)
      · refine List.cons_lt_cons_iff.mpr (Or.inr ⟨rfl, ih ?_ htail⟩)
        simpa using hlength

/-- Labels of one length, increasing. -/
def Ordered (label : α → List β) (siblings : List α) : Prop :=
  siblings.Pairwise fun first second =>
    (label first).length = (label second).length ∧ label first < label second

/-- The traversal is sorted by labels. -/
theorem pairwise_preorder (hroots : Ordered label f.roots)
    (hordered : ∀ family ∈ f.families, Ordered label family.2)
    (hextends : ∀ family ∈ f.families, Extends label family) :
    f.preorder.Pairwise fun first second => label first < label second := by
  induction f with
  | nil => exact List.Pairwise.nil
  | node root children rest ihChildren ihRest =>
      rw [families, List.forall_mem_cons, List.forall_mem_append] at hordered hextends
      obtain ⟨hrootOrdered, hchildrenOrdered, hrestOrdered⟩ := hordered
      obtain ⟨hrootExtends, hchildrenExtends, hrestExtends⟩ := hextends
      obtain ⟨hfirst, hothers⟩ := List.pairwise_cons.mp hroots
      have hbelow : ∀ element ∈ children.preorder,
          ∃ more ≠ [], label element = label root ++ more := by
        intro element helement
        obtain ⟨child, hchild, more, hmore⟩ := exists_root hchildrenExtends helement
        obtain ⟨segment, hsegment, heq⟩ := hrootExtends child hchild
        refine ⟨segment ++ more, ?_, by rw [hmore, heq, List.append_assoc]⟩
        exact fun hnil => hsegment (List.append_eq_nil_iff.mp hnil).1
      have hlater : ∀ more, ∀ element ∈ rest.preorder, label root ++ more < label element := by
        intro more element helement
        obtain ⟨other, hother, segment, hsegment⟩ := exists_root hrestExtends helement
        obtain ⟨hlength, hlt⟩ := hfirst other hother
        rw [hsegment]
        exact append_lt_append hlength hlt more segment
      rw [preorder, List.pairwise_cons, List.pairwise_append]
      refine ⟨fun element helement => ?_, ihChildren hrootOrdered hchildrenOrdered hchildrenExtends,
        ihRest hothers hrestOrdered hrestExtends, fun element helement other hother => ?_⟩
      · rcases List.mem_append.mp helement with hmem | hmem
        · obtain ⟨more, hmore, heq⟩ := hbelow element hmem
          rw [heq]
          exact lt_append hmore
        · simpa using hlater [] element hmem
      · obtain ⟨more, -, heq⟩ := hbelow element helement
        rw [heq]
        exact hlater more other hother

end Labels

end Forest
