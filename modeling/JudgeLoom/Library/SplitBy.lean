import Mathlib.Data.List.SplitBy
import Mathlib.Data.Prod.Lex

/-!
# Runs of a list

`List.splitBy` commutes with a map.  Split by the equality of a key, the runs have one
key each; if the list is sorted by the key, the keys of the runs increase strictly.
-/

namespace List

variable {α β : Type*}

theorem splitBy_map (f : α → β) (r : β → β → Bool) (l : List α) :
    (l.map f).splitBy r = (l.splitBy fun a b => r (f a) (f b)).map (map f) := by
  set groups := l.splitBy fun a b => r (f a) (f b) with hgroups
  obtain ⟨hflatten, hnil, hchains, hchain⟩ := splitBy_eq_iff.mp hgroups.symm
  refine splitBy_eq_iff.mpr ⟨?_, ?_, ?_, ?_⟩
  · rw [← map_flatten, ← hflatten]
  · rintro h
    obtain ⟨group, hgroup, heq⟩ := mem_map.mp h
    exact hnil (map_eq_nil_iff.mp heq ▸ hgroup)
  · intro group hgroup
    obtain ⟨source, hsource, rfl⟩ := mem_map.mp hgroup
    rw [isChain_map]
    exact hchains source hsource
  · rw [isChain_map]
    refine hchain.imp fun first second h => ?_
    obtain ⟨hfirst, hsecond, hr⟩ := h
    refine ⟨map_eq_nil_iff.not.mpr hfirst, map_eq_nil_iff.not.mpr hsecond, ?_⟩
    rw [getLast_map, head_map]
    exact hr

section Key

variable {κ : Type*} {f : α → κ} {r : α → α → Bool}

theorem eq_of_isChain_of_mem {group : List α} (hr : ∀ a b, r a b = true ↔ f a = f b)
    (h : group.IsChain fun a b => r a b) : ∀ a ∈ group, ∀ b ∈ group, f a = f b := by
  induction group with
  | nil => exact fun a ha => absurd ha not_mem_nil
  | cons head rest ih =>
      have hhead : ∀ b ∈ rest, f head = f b := by
        cases rest with
        | nil => exact fun b hb => absurd hb not_mem_nil
        | cons next rest =>
            obtain ⟨hnext, hrest⟩ := isChain_cons_cons.mp h
            intro b hb
            exact ((hr head next).mp hnext).trans (ih hrest next mem_cons_self b hb)
      have hrest := ih h.tail
      intro a ha b hb
      rcases mem_cons.mp ha with rfl | ha' <;> rcases mem_cons.mp hb with rfl | hb'
      · rfl
      · exact hhead b hb'
      · exact (hhead a ha').symm
      · exact hrest a ha' b hb'

theorem eq_of_mem_splitBy {l group : List α} (hr : ∀ a b, r a b = true ↔ f a = f b)
    (h : group ∈ l.splitBy r) : ∀ a ∈ group, ∀ b ∈ group, f a = f b :=
  eq_of_isChain_of_mem hr (isChain_of_mem_splitBy h)

variable [LinearOrder κ]

theorem pairwise_lt_of_flatten {groups : List (List α)} (hr : ∀ a b, r a b = true ↔ f a = f b)
    (hsorted : groups.flatten.Pairwise fun a b => f a ≤ f b)
    (hchains : ∀ group ∈ groups, group.IsChain fun a b => r a b)
    (hchain : groups.IsChain fun first second =>
      ∃ hfirst hsecond, r (first.getLast hfirst) (second.head hsecond) = false) :
    groups.Pairwise fun first second => ∀ a ∈ first, ∀ b ∈ second, f a < f b := by
  induction groups with
  | nil => exact .nil
  | cons group rest ih =>
      rw [flatten_cons, pairwise_append] at hsorted
      refine pairwise_cons.mpr ⟨?_, ih hsorted.2.1
        (fun other hother => hchains other (mem_cons_of_mem _ hother)) hchain.tail⟩
      cases rest with
      | nil => exact fun other hother => absurd hother not_mem_nil
      | cons next rest =>
          obtain ⟨⟨hgroup, hnext, hdiffers⟩, -⟩ := isChain_cons_cons.mp hchain
          intro other hother a ha b hb
          have hlast : f a = f (group.getLast hgroup) :=
            eq_of_isChain_of_mem hr (hchains group mem_cons_self) a ha _ (getLast_mem hgroup)
          have hhead : next.head hnext ∈ (next :: rest).flatten :=
            mem_flatten.mpr ⟨next, mem_cons_self, head_mem hnext⟩
          have hle := hsorted.2.2 _ (getLast_mem hgroup) _ hhead
          have hne : f (group.getLast hgroup) ≠ f (next.head hnext) := fun heq =>
            Bool.false_ne_true (hdiffers.symm.trans ((hr _ _).mpr heq))
          have hb' : f (next.head hnext) ≤ f b := by
            have hmem : b ∈ (next :: rest).flatten := mem_flatten.mpr ⟨other, hother, hb⟩
            obtain ⟨first, tail, rfl⟩ := exists_cons_of_ne_nil hnext
            rw [flatten_cons, cons_append] at hmem hsorted
            rcases mem_cons.mp hmem with rfl | hmem
            · exact le_refl _
            · exact (pairwise_cons.mp hsorted.2.1).1 b hmem
          rw [hlast]
          exact (lt_of_le_of_ne hle hne).trans_le hb'

/-- The runs of a sorted list come in strictly increasing order. -/
theorem pairwise_lt_splitBy {l : List α} (hr : ∀ a b, r a b = true ↔ f a = f b)
    (hsorted : l.Pairwise fun a b => f a ≤ f b) :
    (l.splitBy r).Pairwise fun first second => ∀ a ∈ first, ∀ b ∈ second, f a < f b := by
  refine pairwise_lt_of_flatten hr ?_ (fun _ hgroup => isChain_of_mem_splitBy hgroup)
    (isChain_getLast_head_splitBy r l)
  rwa [flatten_splitBy]

end Key

end List
