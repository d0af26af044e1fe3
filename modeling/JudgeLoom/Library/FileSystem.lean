import Mathlib.Data.List.Infix
import Mathlib.Logic.Function.Basic
import Mathlib.Tactic.Common

/-!
# What calls do to a file system

A file system is what is found at each location, a list of names read from the root.
For each call there is a relation between the file systems before and after it.  A
call that fails may have done a part of its work: some directories of many are made, a
file is half written, a tree is half removed.  Only a rename happens at once or not at
all.

Calls follow links, and the relations say nothing about what happens then: they are
meant for locations that no link is on the way to (`Plain`).
-/

universe u v

/-- What is found at a location. -/
inductive Node (β : Type v)
  | directory
  | file (content : β)
  | link
  deriving DecidableEq

/-- The nodes of a tree of directories. -/
abbrev FileSystem (ν : Type u) (β : Type v) := List ν → Option (Node β)

namespace FileSystem

variable {ν : Type u} {β : Type v} [DecidableEq ν] {fs fs' : FileSystem ν β}
  {location source target : List ν} {succeeded : Prop}

/-- No link stands on the way to a location, or at it. -/
def Plain (fs : FileSystem ν β) (location : List ν) : Prop :=
  ∀ place, place <+: location → fs place ≠ some .link

/-- A place inside a directory. -/
def Inside (directory place : List ν) : Prop := directory <+: place ∧ place ≠ directory

/-- Nothing has changed except inside a directory, and no new link is there. -/
def Confined (fs : FileSystem ν β) (directory : List ν) (fs' : FileSystem ν β) : Prop :=
  ∀ place, fs' place = fs place ∨ Inside directory place ∧ fs' place ≠ some .link

/-- A directory, reached through directories, that has no links in it. -/
structure LinkFree (fs : FileSystem ν β) (directory : List ν) : Prop where
  directories : ∀ place, place <+: directory → fs place = some .directory
  links : ∀ place, directory <+: place → fs place ≠ some .link

/-- `os.MkdirAll`. -/
structure MakesAll (fs : FileSystem ν β) (location : List ν) (succeeded : Prop)
    (fs' : FileSystem ν β) : Prop where
  only : ∀ place, fs' place = fs place ∨
    place <+: location ∧ fs place = none ∧ fs' place = some .directory
  done : succeeded → ∀ place, place <+: location → fs' place = some .directory
  /-- There is nothing to do for a directory that exists. -/
  present : fs location = some .directory → succeeded

/-- `os.MkdirTemp`, when it has made a directory at the location. -/
structure MakesTemporary (fs : FileSystem ν β) (location : List ν) (fs' : FileSystem ν β) :
    Prop where
  fresh : ∀ place, location <+: place → fs place = none
  done : fs' = Function.update fs location (some .directory)

/-- `os.CreateTemp`, when it has made a file at the location. -/
structure Creates (fs : FileSystem ν β) (location : List ν) (content : β)
    (fs' : FileSystem ν β) : Prop where
  fresh : fs location = none
  done : fs' = Function.update fs location (some (.file content))

/-- `os.OpenFile` for writing, creating the file or truncating it. -/
structure Opens (fs : FileSystem ν β) (location : List ν) (succeeded : Prop)
    (fs' : FileSystem ν β) : Prop where
  only : ∀ place, place ≠ location → fs' place = fs place
  here : fs' location = fs location ∨ ∃ content, fs' location = some (.file content)
  done : succeeded → fs location ≠ some .directory

/-- Writing to an open file. -/
structure Writes (fs : FileSystem ν β) (location : List ν) (content : β) (succeeded : Prop)
    (fs' : FileSystem ν β) : Prop where
  only : ∀ place, place ≠ location → fs' place = fs place
  here : fs' location = fs location ∨ ∃ content, fs' location = some (.file content)
  done : succeeded → fs' location = some (.file content)

/-- `os.RemoveAll`. -/
structure Removes (fs : FileSystem ν β) (location : List ν) (succeeded : Prop)
    (fs' : FileSystem ν β) : Prop where
  only : ∀ place, fs' place = fs place ∨ location <+: place ∧ fs' place = none
  done : succeeded → ∀ place, location <+: place → fs' place = none

/-- `os.Remove`, which removes one file, link or empty directory. -/
structure Unlinks (fs : FileSystem ν β) (location : List ν) (succeeded : Prop)
    (fs' : FileSystem ν β) : Prop where
  failed : ¬ succeeded → fs' = fs
  done : succeeded → fs location ≠ none ∧ fs' = Function.update fs location none

/-- What is found after moving the tree at `source` to `target`. -/
def moved (fs : FileSystem ν β) (source target : List ν) : FileSystem ν β := fun place =>
  if target <+: place then fs (source ++ place.drop target.length)
  else if source <+: place then none
  else fs place

/-- `os.Rename`, which replaces no directory. -/
structure Renames (fs : FileSystem ν β) (source target : List ν) (succeeded : Prop)
    (fs' : FileSystem ν β) : Prop where
  failed : ¬ succeeded → fs' = fs
  done : succeeded → fs source ≠ none ∧ fs target ≠ some .directory ∧ fs' = fs.moved source target

/-! ## Working inside a directory -/

variable {directory : List ν} {content : β}

theorem Confined.refl (fs : FileSystem ν β) (directory : List ν) : fs.Confined directory fs :=
  fun _ => Or.inl rfl

theorem Confined.trans {fs'' : FileSystem ν β} (h : fs.Confined directory fs')
    (h' : fs'.Confined directory fs'') : fs.Confined directory fs'' := by
  intro place
  rcases h' place with heq | hinside
  · rw [heq]
    exact h place
  · exact Or.inr hinside

/-- What happens inside the directory makes no link, and does not take the directory away. -/
theorem LinkFree.of_confined (hfree : fs.LinkFree directory) (h : fs.Confined directory fs') :
    fs'.LinkFree directory where
  directories place hplace := by
    rcases h place with heq | ⟨⟨hbelow, hne⟩, -⟩
    · rw [heq]
      exact hfree.directories place hplace
    · exact absurd (hplace.eq_of_length_le hbelow.length_le) hne
  links place hplace := by
    rcases h place with heq | ⟨-, hlink⟩
    · rw [heq]
      exact hfree.links place hplace
    · exact hlink

/-- There is no link on the way to a place in such a directory. -/
theorem LinkFree.plain (h : fs.LinkFree directory) (hlocation : directory <+: location) :
    fs.Plain location := by
  intro place hplace
  rcases List.prefix_or_prefix_of_prefix hplace hlocation with hup | hdown
  · rw [h.directories place hup]
    exact fun hlink => by cases hlink
  · exact h.links place hdown

theorem LinkFree.confined_makesAll (h : fs.LinkFree directory) (hlocation : directory <+: location)
    (hmakes : fs.MakesAll location succeeded fs') : fs.Confined directory fs' := by
  intro place
  rcases hmakes.only place with heq | ⟨hplace, hnone, hmade⟩
  · exact Or.inl heq
  · refine Or.inr ⟨⟨?_, ?_⟩, by rw [hmade]; exact fun hlink => by cases hlink⟩
    · rcases List.prefix_or_prefix_of_prefix hplace hlocation with hup | hdown
      · rw [h.directories place hup] at hnone
        cases hnone
      · exact hdown
    · rintro rfl
      rw [h.directories place List.prefix_rfl] at hnone
      cases hnone

/-- A change at one place inside the directory that leaves it as it was or makes it a file. -/
theorem confined_of_file (hlocation : Inside directory location)
    (honly : ∀ place, place ≠ location → fs' place = fs place)
    (hhere : fs' location = fs location ∨ ∃ content, fs' location = some (.file content)) :
    fs.Confined directory fs' := by
  intro place
  by_cases hplace : place = location
  · rw [hplace]
    rcases hhere with heq | ⟨content, heq⟩
    · exact Or.inl heq
    · refine Or.inr ⟨hlocation, ?_⟩
      rw [heq]
      exact fun hlink => by cases hlink
  · exact Or.inl (honly place hplace)

/-! ## What has been done -/

/-- The missing directories on the way to a location are there. -/
def withDirectories (fs : FileSystem ν β) (location : List ν) : FileSystem ν β := fun place =>
  if place <+: location ∧ fs place = none then some .directory else fs place

/-- What is found from a directory on. -/
def subtree (fs : FileSystem ν β) (directory : List ν) : FileSystem ν β := fun place =>
  fs (directory ++ place)

theorem MakesAll.eq_withDirectories (h : fs.MakesAll location succeeded fs') (hok : succeeded) :
    fs' = fs.withDirectories location := by
  funext place
  unfold withDirectories
  split
  · next hmissing => exact h.done hok place hmissing.1
  · next hpresent =>
      rcases h.only place with heq | ⟨hplace, hnone, -⟩
      · exact heq
      · exact absurd ⟨hplace, hnone⟩ hpresent

/-- Directories that exist are not made again. -/
theorem MakesAll.eq_self (h : fs.MakesAll location succeeded fs')
    (hthere : ∀ place, place <+: location → fs place = some .directory) : fs' = fs := by
  funext place
  rcases h.only place with heq | ⟨hplace, hnone, -⟩
  · exact heq
  · rw [hthere place hplace] at hnone
    cases hnone

theorem makesAll_self (hok : succeeded)
    (hthere : ∀ place, place <+: location → fs place = some .directory) :
    fs.MakesAll location succeeded fs where
  only _ := Or.inl rfl
  done _ := hthere
  present _ := hok

theorem makesAll_withDirectories
    (hway : ∀ place, place <+: location → fs place = none ∨ fs place = some .directory)
    (hok : succeeded) : fs.MakesAll location succeeded (fs.withDirectories location) where
  only place := by
    unfold withDirectories
    split
    · next h => exact Or.inr ⟨h.1, h.2, rfl⟩
    · exact Or.inl rfl
  done _ place hplace := by
    rcases hway place hplace with hnone | hdirectory
    · exact if_pos ⟨hplace, hnone⟩
    · rw [withDirectories, hdirectory]
      exact if_neg fun h => by cases h.2
  present _ := hok

theorem Writes.eq_update (h : fs.Writes location content succeeded fs') (hok : succeeded) :
    fs' = Function.update fs location (some (.file content)) := by
  funext place
  by_cases hplace : place = location
  · rw [hplace, Function.update_self]
    exact h.done hok
  · rw [Function.update_of_ne hplace]
    exact h.only place hplace

theorem MakesAll.eq_or_directory (h : fs.MakesAll location succeeded fs') (place : List ν) :
    fs' place = fs place ∨ fs place = none ∧ fs' place = some .directory :=
  (h.only place).imp_right fun made => made.2

theorem subtree_withDirectories (fs : FileSystem ν β) (directory names : List ν) :
    (fs.withDirectories (directory ++ names)).subtree directory =
      (fs.subtree directory).withDirectories names := by
  funext place
  unfold subtree withDirectories
  simp only [List.prefix_append_right_inj]

theorem subtree_update (fs : FileSystem ν β) (directory names : List ν) (node : Option (Node β)) :
    FileSystem.subtree (Function.update fs (directory ++ names) node) directory =
      Function.update (fs.subtree directory) names node := by
  funext place
  unfold subtree
  by_cases hplace : place = names
  · rw [hplace, Function.update_self, Function.update_self]
  · rw [Function.update_of_ne hplace, Function.update_of_ne]
    exact fun heq => hplace (List.append_cancel_left heq)

theorem subtree_moved_target (fs : FileSystem ν β) (source target : List ν) :
    (fs.moved source target).subtree target = fs.subtree source := by
  funext place
  unfold subtree moved
  rw [if_pos (List.prefix_append target place), List.drop_left]

/-- What is moved to a location is found there. -/
theorem moved_target (fs : FileSystem ν β) (source target : List ν) :
    fs.moved source target target = fs source := by
  rw [moved, if_pos List.prefix_rfl, List.drop_length, List.append_nil]

/-- Moving a tree does not touch what neither it nor its target is on the way to. -/
theorem moved_of_not_prefix {place : List ν} (hsource : ¬ source <+: place)
    (htarget : ¬ target <+: place) : fs.moved source target place = fs place := by
  unfold moved
  rw [if_neg htarget, if_neg hsource]

end FileSystem
