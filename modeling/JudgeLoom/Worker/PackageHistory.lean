import JudgeLoom.Library.Run
import JudgeLoom.Worker.PackageCache

/-!
# Histories of the package cache

Calls of `Ensure` and `Cleanup` follow one another, and the process may be killed in the
middle of any of them and started again.

A package is known by its marker, the file `manifest.json`.  Publishing is a rename, so a
marker that `Ensure` made stands in a complete directory.  The marker can still fail in
two ways.

* An archive need not contain it.  Then the package is published, but the next `Ensure`
  does not find it, and cannot publish it a second time (`not_ok_of_directory`).
* `Cleanup` removes the files of a directory one by one.  If it is cut off before the
  marker is removed, what is left passes for the package (`runs_ensure_of_marked`).

In every history without these two the cache is sound (`cache_sound`).
-/

namespace JudgeLoom.Go.PackageStore

open SlashPath (join locate elements Ordinary)
open Interaction (Runs Stops Meets)
open Interaction.Fallible

variable {L : Lib} {s : Store} {cwd cache : Location} {fs fs' : Files} {digest : Bytes}

/-! ## One call of `Ensure` -/

theorem runs_query_bind {α : Type} {question : Call} {f : Answer question → Task α}
    {outcome : Except Bytes α} :
    Runs (effect cwd) (query question >>= f).run fs outcome fs' ↔
      ∃ answer t, effect cwd question answer fs t ∧
        Runs (effect cwd) (f answer).run t outcome fs' :=
  runs_ask_bind

/-- Only valid arguments lead to a directory. -/
theorem guards_of_runs {problemID : ℤ} {path : Bytes}
    (h : Runs (effect cwd) (ensure L s problemID digest).run fs (.ok path) fs') :
    s.root ≠ [] ∧ s.hasClient = true ∧ IsDigest digest := by
  by_contra hguards
  obtain ⟨error, hrefused⟩ : ∃ error, ensure L s problemID digest = throw error :=
    ensure_of_not hguards
  rw [hrefused] at h
  cases (runs_throw.mp h).1

/-- A package with a marker is returned as it is. -/
theorem runs_ensure_of_marked {problemID : ℤ} {outcome : Except Bytes Bytes}
    (hlinks : NoLinks (locate cwd s.root) fs) (hreached : Reached (locate cwd s.root) fs)
    (hroot : s.root ≠ []) (hclient : s.hasClient = true) (hdigest : IsDigest digest)
    (hmarked : Marked (locate cwd s.root) fs digest) :
    Runs (effect cwd) (ensure L s problemID digest).run fs outcome fs' ↔
      outcome = .ok (s.target digest) ∧ fs' = fs := by
  have hstat : fs (locate cwd (join (s.target digest) manifestName)) ≠ none := by
    rw [locate_marker hdigest]
    exact hmarked
  have hplain : fs.Plain (locate cwd (join (s.target digest) manifestName)) := by
    rw [locate_marker hdigest, List.append_assoc]
    exact hlinks.plain (List.prefix_append _ _)
  rw [ensure_eq hroot hclient hdigest]
  constructor
  · intro h
    obtain ⟨made, t, hmkdirAll, hrest⟩ := runs_query_bind.mp h
    have hmakes := hmkdirAll (hlinks.plain List.prefix_rfl)
    obtain rfl := hmakes.eq_self hreached
    rw [hmakes.present (hreached _ List.prefix_rfl)] at hrest
    rcases runs_bind.mp hrest with ⟨_, hlift, -⟩ | ⟨_, t, hlift, hstatted⟩
    · cases (runs_liftExcept.mp hlift).1
    · obtain ⟨-, rfl⟩ := runs_liftExcept.mp hlift
      obtain ⟨found, t, ⟨rfl, hfound⟩, hreturned⟩ := runs_query_bind.mp hstatted
      rw [(hfound hplain).mpr hstat] at hreturned
      obtain ⟨houtcome, rfl⟩ := runs_pure.mp hreturned
      exact ⟨houtcome.symm, rfl⟩
  · rintro ⟨rfl, rfl⟩
    refine runs_query_bind.mpr ⟨.ok (), fs', fun _ => FileSystem.makesAll_self rfl hreached, ?_⟩
    refine runs_bind.mpr (Or.inr ⟨(), fs', runs_liftExcept.mpr ⟨rfl, rfl⟩, ?_⟩)
    refine runs_query_bind.mpr ⟨.ok (), fs', ⟨rfl, fun _ => iff_of_true rfl hstat⟩, ?_⟩
    exact runs_pure.mpr ⟨rfl, rfl⟩

/-- A package's directory without the marker is never returned, and never replaced. -/
theorem not_ok_of_directory {problemID : ℤ} {path : Bytes}
    (hlinks : NoLinks (locate cwd s.root) fs)
    (hdirectory : fs (locate cwd s.root ++ [digest]) = some .directory)
    (hunmarked : ¬ Marked (locate cwd s.root) fs digest) :
    ¬ Runs (effect cwd) (ensure L s problemID digest).run fs (.ok path) fs' := by
  intro hruns
  obtain ⟨-, hensured⟩ := meets_ensure.runs fs _ fs' (.refl hlinks) hruns
  obtain ⟨-, -, hmarked | hpublished⟩ := hensured path rfl
  · exact hunmarked hmarked
  · exact hpublished.absent hdirectory

/-! ## One call of `Cleanup` -/

/-- Some of what the cache contained is gone. -/
def Pruned (cache : Location) (fs fs' : Files) : Prop :=
  ∀ place, fs' place = fs place ∨ FileSystem.Inside cache place ∧ fs' place = none

namespace Pruned

theorem trans {fs'' : Files} (h : Pruned cache fs fs') (h' : Pruned cache fs' fs'') :
    Pruned cache fs fs'' := by
  intro place
  rcases h' place with heq | hinside
  · rw [heq]
    exact h place
  · exact Or.inr hinside

theorem noLinks (h : Pruned cache fs fs') (hlinks : NoLinks cache fs) : NoLinks cache fs' := by
  intro place hplace
  rcases h place with heq | ⟨-, hnone⟩
  · rw [heq]
    exact hlinks place hplace
  · rw [hnone]
    exact fun hlink => by cases hlink

theorem reached (h : Pruned cache fs fs') (hreached : Reached cache fs) : Reached cache fs' := by
  intro place hplace
  rcases h place with heq | ⟨⟨hbelow, hne⟩, -⟩
  · rw [heq, hreached place hplace]
  · exact absurd (hplace.eq_of_length_le hbelow.length_le) hne

theorem marked (h : Pruned cache fs fs') (hmarked : Marked cache fs' digest) :
    Marked cache fs digest := by
  rcases h (cache ++ [digest] ++ [manifestName]) with heq | ⟨-, hnone⟩
  · rwa [Marked, FileSystem.subtree, heq] at hmarked
  · exact absurd hnone hmarked

end Pruned

/-- The names of a directory's entries. -/
def Named (entries : List DirEntry) : Prop :=
  ∀ entry ∈ entries, Ordinary entry.name ∧ (47 : UInt8) ∉ entry.name

/-- Removing one entry of the cache. -/
theorem meets_removeEntry {start : Files} (hstart : NoLinks (locate cwd s.root) start)
    {name : Bytes} (hordinary : Ordinary name) (hsep : (47 : UInt8) ∉ name) :
    Meets (effect cwd) (Pruned (locate cwd s.root) start)
      (run (.removeAll (join s.root name))).run
      (Ends (fun _ => Pruned (locate cwd s.root) start) fun _ => Pruned (locate cwd s.root) start)
      (Pruned (locate cwd s.root) start) := by
  have hlocate : locate cwd (join s.root name) = locate cwd s.root ++ [name] := by
    have helements := SlashPath.elements_of_sep_notMem hsep
    rw [SlashPath.locate_join_of_ordinary (by simpa [helements] using hordinary), helements]
  have hremove : Meets (effect cwd) (Pruned (locate cwd s.root) start)
      (Interaction.query (Call.op (.removeAll (join s.root name))) : Interaction Call Answer _)
      (fun _ => Pruned (locate cwd s.root) start) (Pruned (locate cwd s.root) start) := by
    refine Interaction.meets_query (fun t ht => ht) fun t answer u ht heffect => ?_
    have hplain : t.Plain (locate cwd (join s.root name)) := by
      rw [hlocate]
      exact (ht.noLinks hstart).plain (List.prefix_append _ _)
    have hremoves := heffect hplain
    rw [hlocate] at hremoves
    have hpruned : Pruned (locate cwd s.root) start u := by
      refine ht.trans fun place => (hremoves.only place).imp_right fun ⟨hbelow, hnone⟩ => ?_
      refine ⟨⟨(List.prefix_append _ _).trans hbelow, ?_⟩, hnone⟩
      rintro rfl
      exact not_below _ hbelow
    exact ⟨hpruned, hpruned⟩
  refine meets_lift_bind hremove fun answer => meets_liftExcept fun t ht => ⟨?_, ht⟩
  cases answer with
  | error error => exact ht
  | ok value => exact ht

theorem meets_removeExpired {start : Files} (hstart : NoLinks (locate cwd s.root) start)
    {entries : List DirEntry} (hentries : Named entries) :
    Meets (effect cwd) (Pruned (locate cwd s.root) start) (removeExpired s entries).run
      (fun _ => Pruned (locate cwd s.root) start) (Pruned (locate cwd s.root) start) := by
  induction entries with
  | nil => exact meets_pure fun t ht => ⟨ht, ht⟩
  | cons entry rest ih =>
      obtain ⟨⟨hordinary, hsep⟩, hrest⟩ := List.forall_mem_cons.mp hentries
      rw [removeExpired]
      split
      · exact meets_bind (meets_removeEntry hstart hordinary hsep) fun _ => ih hrest
      · exact ih hrest

/-- `Cleanup` only removes, and only what is in the cache. -/
theorem meets_cleanup {start : Files} (hstart : NoLinks (locate cwd s.root) start) :
    Meets (effect cwd) (fun t => t = start) (cleanup s).run
      (fun _ => Pruned (locate cwd s.root) start) (Pruned (locate cwd s.root) start) := by
  have hrefl : ∀ t, t = start → Pruned (locate cwd s.root) start t := by
    rintro t rfl
    exact fun place => Or.inl rfl
  unfold cleanup
  split
  · exact meets_pure fun t ht => ⟨hrefl t ht, hrefl t ht⟩
  · have hread : Meets (effect cwd) (fun t => t = start)
        (Interaction.query (Call.readDir s.root) : Interaction Call Answer _)
        (fun answer t => (∀ entries, answer = .ok entries → Named entries) ∧
          Pruned (locate cwd s.root) start t)
        (Pruned (locate cwd s.root) start) := by
      refine Interaction.meets_query hrefl fun t answer u ht heffect => ?_
      subst ht
      obtain ⟨rfl, hnames⟩ := heffect
      refine ⟨⟨fun entries hentries entry hentry => ?_, hrefl _ rfl⟩, hrefl _ rfl⟩
      obtain ⟨hordinary, hsep, -⟩ :=
        hnames entries hentries (hstart.plain List.prefix_rfl) entry hentry
      exact ⟨hordinary, hsep⟩
    refine meets_lift_bind hread fun answer => Interaction.meets_given (fun _ => id) ?_
    intro hnames
    cases answer with
    | ok entries => exact meets_removeExpired hstart (hnames entries rfl)
    | error error =>
        cases error with
        | none => exact meets_pure fun t ht => ⟨ht, ht⟩
        | some error => exact meets_throw fun t ht => ⟨ht, ht⟩

/-! ## Histories -/

/-- Every marked package is sound, and no link leads to the cache or is in it. -/
structure CacheInvariant (L : Lib) (cache : Location) (fs : Files) : Prop where
  links : NoLinks cache fs
  reached : ∀ digest, IsDigest digest → Marked cache fs digest → Reached cache fs
  sound : ∀ digest, IsDigest digest → Marked cache fs digest → HoldsArchive L cache fs digest

/-- A cache before its first use: it is empty or missing. -/
structure Fresh (cache : Location) (fs : Files) : Prop where
  links : ∀ place, place <+: cache → fs place ≠ some .link
  empty : ∀ place, FileSystem.Inside cache place → fs place = none

/-- A call and what it returned, or nothing if it was cut off. -/
inductive Event
  | ensure (problemID : ℤ) (digest : Bytes) (outcome : Option (Except Bytes Bytes))
  | cleanup (outcome : Option (Except Bytes Unit))

def Event.IsCleanup : Event → Prop
  | ensure .. => False
  | cleanup _ => True

/-- The program returned, or it was cut off. -/
def Ended {α : Type} (cwd : Location) (program : Program α) (fs : Files) :
    Option α → Files → Prop
  | some value, fs' => Runs (effect cwd) program fs value fs'
  | none, fs' => Stops (effect cwd) program fs fs'

def Happens (L : Lib) (s : Store) (cwd : Location) (fs : Files) : Event → Files → Prop
  | .ensure problemID digest outcome, fs' =>
      Ended cwd (ensure L s problemID digest).run fs outcome fs'
  | .cleanup outcome, fs' => Ended cwd (cleanup s).run fs outcome fs'

/-- Every archive with the digest contains the marker. -/
def HasMarker (L : Lib) (digest : Bytes) : Prop :=
  ∀ payload files, L.sha256 payload = digest → L.readZip payload = .ok files →
    unpacked files [manifestName] ≠ none

/-- What has lost some of its files has lost its marker. -/
def CarefulRemoval (cache : Location) (fs fs' : Files) : Prop :=
  ∀ digest, IsDigest digest → Marked cache fs' digest →
    fs'.subtree (cache ++ [digest]) = fs.subtree (cache ++ [digest])

/-- The condition on the steps of a history. -/
def Careful (L : Lib) (cache : Location) (fs : Files) : Event → Files → Prop
  | .ensure _ digest _, _ => HasMarker L digest
  | .cleanup _, fs' => CarefulRemoval cache fs fs'

theorem Ended.stops {α : Type} {program : Program α} {outcome : Option α}
    (h : Ended cwd program fs outcome fs') : Stops (effect cwd) program fs fs' := by
  cases outcome with
  | some value => exact Runs.stops h
  | none => exact h

theorem Fresh.invariant (h : Fresh cache fs) : CacheInvariant L cache fs := by
  have hunmarked : ∀ digest, ¬ Marked cache fs digest := by
    intro digest hmarked
    refine hmarked (h.empty _ ?_)
    rw [List.append_assoc]
    exact inside_append (by simp)
  refine ⟨fun place hplace => ?_, fun digest _ hmarked => absurd hmarked (hunmarked digest),
    fun digest _ hmarked => absurd hmarked (hunmarked digest)⟩
  by_cases hup : place <+: cache
  · exact h.links place hup
  · have hinside : FileSystem.Inside cache place := by
      refine ⟨hplace.resolve_left hup, ?_⟩
      rintro rfl
      exact hup List.prefix_rfl
    rw [h.empty place hinside]
    exact fun hlink => by cases hlink

namespace CacheInvariant

theorem of_progress (h : CacheInvariant L cache fs) (hprogress : Progress L cache fs fs') :
    CacheInvariant L cache fs' := by
  refine ⟨hprogress.links, fun digest hdigest hmarked => ?_, fun digest hdigest hmarked => ?_⟩
  · rcases hprogress.packages digest hdigest with hsame | hpublished
    · rw [Marked, hsame] at hmarked
      exact hprogress.reached (h.reached digest hdigest hmarked)
    · exact hpublished.reached
  · rcases hprogress.packages digest hdigest with hsame | hpublished
    · rw [Marked, hsame] at hmarked
      rw [HoldsArchive, hsame]
      exact h.sound digest hdigest hmarked
    · exact hpublished.holds

theorem of_pruned (h : CacheInvariant L cache fs) (hpruned : Pruned cache fs fs')
    (hcareful : CarefulRemoval cache fs fs') : CacheInvariant L cache fs' := by
  refine ⟨hpruned.noLinks h.links, fun digest hdigest hmarked => ?_,
    fun digest hdigest hmarked => ?_⟩
  · exact hpruned.reached (h.reached digest hdigest (hpruned.marked hmarked))
  · rw [HoldsArchive, hcareful digest hdigest hmarked]
    exact h.sound digest hdigest (hpruned.marked hmarked)

/-- One step of a history. -/
theorem of_happens {event : Event} (h : CacheInvariant L (locate cwd s.root) fs)
    (hhappens : Happens L s cwd fs event fs')
    (hcareful : Careful L (locate cwd s.root) fs event fs') :
    CacheInvariant L (locate cwd s.root) fs' := by
  cases event with
  | ensure problemID digest outcome =>
      exact h.of_progress (meets_ensure.stops fs fs' (.refl h.links) hhappens.stops)
  | cleanup outcome =>
      exact h.of_pruned ((meets_cleanup h.links).stops fs fs' rfl hhappens.stops) hcareful

/-- What `Ensure` returns with a sound cache. -/
theorem ensured (h : CacheInvariant L (locate cwd s.root) fs) {problemID : ℤ} {path : Bytes}
    (hruns : Runs (effect cwd) (ensure L s problemID digest).run fs (.ok path) fs') :
    path = s.target digest ∧ HoldsArchive L (locate cwd s.root) fs' digest := by
  obtain ⟨hprogress, hensured⟩ := meets_ensure.runs fs _ fs' (.refl h.links) hruns
  obtain ⟨hpath, hdigest, hmarked | hpublished⟩ := hensured path rfl
  · refine ⟨hpath, ?_⟩
    rw [HoldsArchive, hprogress.marked hdigest hmarked]
    exact h.sound digest hdigest hmarked
  · exact ⟨hpath, hpublished.holds⟩

end CacheInvariant

/-- Between two calls of `Cleanup` a marker stays. -/
theorem marked_of_happens {event : Event} (hlinks : NoLinks (locate cwd s.root) fs)
    (hhappens : Happens L s cwd fs event fs') (hevent : ¬ event.IsCleanup)
    (hdigest : IsDigest digest) (hmarked : Marked (locate cwd s.root) fs digest) :
    Marked (locate cwd s.root) fs' digest := by
  cases event with
  | cleanup outcome => exact absurd trivial hevent
  | ensure problemID other outcome =>
      have hprogress := meets_ensure.stops fs fs' (.refl hlinks) hhappens.stops
      rwa [Marked, hprogress.marked hdigest hmarked]

/-- The package was returned, and no call of `Cleanup` followed. -/
def Settled (events : List Event) (digest path : Bytes) : Prop :=
  ∃ before problemID between,
    events = before ++ .ensure problemID digest (some (.ok path)) :: between ∧
      ∀ event ∈ between, ¬ event.IsCleanup

theorem settled_snoc {events : List Event} {event : Event} {path : Bytes} :
    Settled (events ++ [event]) digest path ↔
      (∃ problemID, event = .ensure problemID digest (some (.ok path))) ∨
        Settled events digest path ∧ ¬ event.IsCleanup := by
  constructor
  · rintro ⟨before, problemID, between, heq, hbetween⟩
    rcases between.eq_nil_or_concat with rfl | ⟨rest, last, rfl⟩
    · exact Or.inl ⟨problemID, List.head_eq_of_cons_eq (List.append_inj' heq rfl).2⟩
    · rw [List.concat_eq_append, ← List.cons_append, ← List.append_assoc] at heq
      obtain ⟨hevents, hlast⟩ := List.append_inj' heq rfl
      rw [List.concat_eq_append] at hbetween
      refine Or.inr ⟨⟨before, problemID, rest, hevents, fun other hother => ?_⟩, ?_⟩
      · exact hbetween other (List.mem_append_left _ hother)
      · rw [List.head_eq_of_cons_eq hlast]
        exact hbetween last (List.mem_append_right _ List.mem_cons_self)
  · rintro (⟨problemID, rfl⟩ | ⟨⟨before, problemID, between, rfl, hbetween⟩, hevent⟩)
    · exact ⟨events, problemID, [], rfl, fun _ hmem => absurd hmem List.not_mem_nil⟩
    · refine ⟨before, problemID, between ++ [event], by simp, fun other hother => ?_⟩
      rcases List.mem_append.mp hother with hmem | hmem
      · exact hbetween other hmem
      · rwa [List.mem_singleton.mp hmem]

/-- A history in which every step meets the condition. -/
def CarefulRun (L : Lib) (s : Store) (cwd : Location) : Files → List Event → Files → Prop :=
  Run fun fs event fs' => Happens L s cwd fs event fs' ∧ Careful L (locate cwd s.root) fs event fs'

theorem CarefulRun.invariant {start : Files} {events : List Event}
    (hrun : CarefulRun L s cwd start events fs) (hstart : Fresh (locate cwd s.root) start) :
    CacheInvariant L (locate cwd s.root) fs :=
  Run.invariant hrun hstart.invariant fun _ _ _ h hstep => h.of_happens hstep.1 hstep.2

theorem CarefulRun.marked {start : Files} {events : List Event} {path : Bytes}
    (hrun : CarefulRun L s cwd start events fs) (hstart : Fresh (locate cwd s.root) start)
    (hsettled : Settled events digest path) :
    (s.root ≠ [] ∧ s.hasClient = true ∧ IsDigest digest) ∧ path = s.target digest ∧
      Marked (locate cwd s.root) fs digest := by
  induction hrun with
  | nil =>
      obtain ⟨before, problemID, between, heq, -⟩ := hsettled
      simp at heq
  | @snoc events event middle final hrun hstep ih =>
      have hmiddle := CarefulRun.invariant hrun hstart
      rcases settled_snoc.mp hsettled with ⟨problemID, rfl⟩ | ⟨hbefore, hevent⟩
      · obtain ⟨hpath, payload, files, hsha256, hfiles, hcontent⟩ := hmiddle.ensured hstep.1
        refine ⟨guards_of_runs hstep.1, hpath, ?_⟩
        rw [Marked, hcontent]
        exact hstep.2 payload files hsha256 hfiles
      · obtain ⟨hguards, hpath, hmarked⟩ := ih hbefore
        exact ⟨hguards, hpath, marked_of_happens hmiddle.links hstep.1 hevent hguards.2.2 hmarked⟩

/-- In a history in which every ensured archive contains the marker, and no clean-up leaves
the marker of a directory that it has begun to remove: what `Ensure` returns is the
package's directory, and it holds what was extracted from an archive with the digest; and
what it has returned since the last clean-up it returns again. -/
theorem cache_sound (L : Lib) (s : Store) (cwd : Location) {start fs : Files}
    {events : List Event} (hstart : Fresh (locate cwd s.root) start)
    (hrun : CarefulRun L s cwd start events fs) :
    (∀ problemID digest path fs',
      Happens L s cwd fs (.ensure problemID digest (some (.ok path))) fs' →
        path = s.target digest ∧ HoldsArchive L (locate cwd s.root) fs' digest) ∧
    ∀ digest path, Settled events digest path → ∀ problemID outcome fs',
      Happens L s cwd fs (.ensure problemID digest (some outcome)) fs' ↔
        outcome = .ok path ∧ fs' = fs := by
  have hinvariant := hrun.invariant hstart
  refine ⟨fun problemID digest path fs' hhappens => hinvariant.ensured hhappens, ?_⟩
  intro digest path hsettled problemID outcome fs'
  obtain ⟨⟨hroot, hclient, hdigest⟩, rfl, hmarked⟩ := hrun.marked hstart hsettled
  exact runs_ensure_of_marked hinvariant.links (hinvariant.reached digest hdigest hmarked) hroot
    hclient hdigest hmarked

/-! ## The two defects -/

theorem unpackFile_nil {tree : Files} (h : tree [] = some .directory) (file : ZipFile) :
    unpackFile tree file [] = some .directory := by
  have hmade : ∀ names, tree.withDirectories names [] = some .directory := by
    intro names
    rw [FileSystem.withDirectories, if_neg, h]
    rw [h]
    rintro ⟨-, hnone⟩
    cases hnone
  unfold unpackFile
  split
  · exact hmade _
  · have hnames : ([] : Location) ≠ file.names := (SlashPath.elements_ne_nil _).symm
    rw [Function.update_of_ne hnames]
    exact hmade _

/-- An archive is extracted to a directory. -/
theorem unpacked_nil (files : List ZipFile) : unpacked files [] = some .directory := by
  suffices ∀ tree : Files, tree [] = some .directory →
      files.foldl unpackFile tree [] = some .directory from this emptyDirectory rfl
  induction files with
  | nil => exact fun tree h => h
  | cons file rest ih => exact fun tree h => ih _ (unpackFile_nil h file)

/-- From a package that is more than its marker, a clean-up that is cut off may remove a
part and leave the marker; what is left is returned. -/
theorem damaged_by_cleanup (h : CacheInvariant L (locate cwd s.root) fs) (hroot : s.root ≠ [])
    (hclient : s.hasClient = true) (hdigest : IsDigest digest)
    (hmarked : Marked (locate cwd s.root) fs digest) {part : Location}
    (hpart : ¬ part <+: [manifestName]) (problemID : ℤ) :
    ∃ fs', Happens L s cwd fs (.cleanup none) fs' ∧
      fs'.subtree (locate cwd s.root ++ [digest]) part = none ∧
      Happens L s cwd fs' (.ensure problemID digest (some (.ok (s.target digest)))) fs' := by
  have hreached := h.reached digest hdigest hmarked
  let left : Files := fun place =>
    if locate cwd s.root ++ [digest] ++ part <+: place then none else fs place
  have hremoves : fs.Removes (locate cwd s.root ++ [digest]) False left := {
    only := fun place => by
      by_cases hplace : locate cwd s.root ++ [digest] ++ part <+: place
      · exact Or.inr ⟨(List.prefix_append _ _).trans hplace, if_pos hplace⟩
      · exact Or.inl (if_neg hplace)
    done := fun hfalse => hfalse.elim }
  have hpruned : Pruned (locate cwd s.root) fs left := by
    refine fun place => (hremoves.only place).imp_right fun ⟨hbelow, hnone⟩ => ?_
    refine ⟨⟨(List.prefix_append _ _).trans hbelow, ?_⟩, hnone⟩
    rintro rfl
    exact not_below digest hbelow
  have hstays : Marked (locate cwd s.root) left digest := by
    have hmarker : ¬ locate cwd s.root ++ [digest] ++ part <+:
        locate cwd s.root ++ [digest] ++ [manifestName] := by
      rwa [List.prefix_append_right_inj]
    intro hnone
    exact hmarked ((if_neg hmarker).symm.trans hnone)
  refine ⟨left, ?_, if_pos List.prefix_rfl, ?_⟩
  · have hdirectory : fs (locate cwd s.root ++ [digest]) = some .directory := by
      obtain ⟨payload, files, -, -, hcontent⟩ := h.sound digest hdigest hmarked
      have hhere := congrFun hcontent []
      rwa [unpacked_nil, FileSystem.subtree, List.append_nil] at hhere
    have hsep : (47 : UInt8) ∉ digest := fun hmem => absurd (hdigest.2 _ hmem) (by decide)
    change Stops (effect cwd) (cleanup s).run fs left
    rw [cleanup, if_neg hroot]
    refine stops_bind.mpr (Or.inr ⟨.ok [⟨digest, true, true⟩], fs, runs_query.mpr
      ⟨_, ⟨rfl, fun entries hentries _ entry hentry => ?_⟩, rfl⟩, ?_⟩)
    · cases hentries
      rw [List.mem_singleton.mp hentry]
      exact ⟨(ordinary_digest hdigest).2, hsep, iff_of_true rfl hdirectory⟩
    · refine stops_bind.mpr (Or.inl ?_)
      refine stops_bind.mpr (Or.inr ⟨.error [], left, runs_query.mpr ⟨_, fun _ => ?_, rfl⟩, ?_⟩)
      · rw [show locate cwd (join s.root digest) = locate cwd s.root ++ [digest] from
          Store.locate_target hdigest]
        exact ⟨hremoves.only, fun hok => by cases hok⟩
      · exact .here _ left
  · exact (runs_ensure_of_marked (hpruned.noLinks h.links) (hpruned.reached hreached) hroot
      hclient hdigest hstays).mpr ⟨rfl, rfl⟩

/-! ### A history -/

def sampleDigest : Bytes := List.replicate 64 97

/-- Every archive is the file `name`. -/
def oneFile (name : Bytes) : Lib where
  sha256 _ := sampleDigest
  readZip _ := .ok [{ name }]
  quote name := name

/-- The cache is the directory `c`. -/
def sampleStore : Store := { root := [99] }

def sampleTemp : Bytes := tempPath [99] (tempPattern sampleDigest) [48]

theorem isDigest_sample : IsDigest sampleDigest := by decide +kernel

theorem fresh_emptyDirectory : Fresh [[99]] emptyDirectory where
  links place _ := by
    unfold emptyDirectory
    split <;> exact fun hlink => by cases hlink
  empty place hplace := by
    have hne : place ≠ [] := by
      rintro rfl
      exact absurd hplace.1 (by decide)
    exact if_neg hne

/-- The directory that the archive is extracted to. -/
def tempPlace : Location := [[99], tempPattern sampleDigest ++ [48]]

theorem locate_sampleTemp : locate [] sampleTemp = tempPlace :=
  locate_tempPath (by decide) (by decide +kernel) (by decide +kernel)

/-- The files after the cache was made, after the temporary directory was made, after the
archive was extracted and after it was published. -/
def withCache : Files := emptyDirectory.withDirectories [[99]]

def withTemp : Files := Function.update withCache tempPlace (some .directory)

def withFile (name : Bytes) : Files :=
  Function.update withTemp (tempPlace ++ [name]) (some (.file []))

def withPackage (name : Bytes) : Files := (withFile name).moved tempPlace [[99], sampleDigest]

theorem withCache_eq_none {place : Location} (h : ¬ place <+: [[99]]) : withCache place = none := by
  have hne : place ≠ [] := by
    rintro rfl
    exact h List.nil_prefix
  exact (if_neg fun hmissing => h hmissing.1).trans (if_neg hne)

theorem makesAll_withCache :
    emptyDirectory.MakesAll [[99]] ((.ok () : Except Bytes Unit) = .ok ()) withCache := by
  refine FileSystem.makesAll_withDirectories (fun place _ => ?_) rfl
  unfold emptyDirectory
  split
  · exact Or.inr rfl
  · exact Or.inl rfl

theorem reached_withTemp : Reached tempPlace withTemp := by
  intro place hplace
  by_cases heq : place = tempPlace
  · rw [heq]
    exact Function.update_self _ _ _
  · have hparent : place <+: [[99]] := (List.prefix_concat_iff.mp hplace).resolve_left heq
    exact (Function.update_of_ne heq _ _).trans (makesAll_withCache.done rfl place hparent)

/-- Extracting and publishing an archive that is one file. -/
theorem runs_install_oneFile {name : Bytes}
    (hnames : elements (ZipFile.normalized { name }) = [name])
    (htarget : entryTarget (oneFile name) sampleTemp { name } = .ok (join sampleTemp name)) :
    Runs (effect [])
      (install (oneFile name) sampleStore sampleTemp (sampleStore.target sampleDigest) []).run
      withTemp (.ok (sampleStore.target sampleDigest)) (withPackage name) := by
  obtain ⟨hplace, hdir⟩ : locate [] (join sampleTemp name) =
      locate [] sampleTemp ++ ZipFile.names { name } ∧
        locate [] (SlashPath.dir (join sampleTemp name)) =
          locate [] sampleTemp ++ (ZipFile.names { name }).dropLast :=
    locate_entryTarget htarget
  rw [ZipFile.names, hnames, locate_sampleTemp] at hplace hdir
  rw [List.dropLast_singleton, List.append_nil] at hdir
  have hnone : withTemp (tempPlace ++ [name]) = none := by
    have hne : tempPlace ++ [name] ≠ tempPlace := by simp
    refine (Function.update_of_ne hne _ _).trans (withCache_eq_none fun hbelow => ?_)
    have hlength := hbelow.length_le
    simp [tempPlace] at hlength
  have honly : ∀ place, place ≠ tempPlace ++ [name] → withFile name place = withTemp place :=
    fun place hne => Function.update_of_ne hne _ _
  have hwritten : withFile name (tempPlace ++ [name]) = some (.file []) :=
    Function.update_self _ _ _
  have hwrite : Runs (effect []) (writeZipFile (join sampleTemp name) { name }).run withTemp
      (.ok ()) (withFile name) := by
    refine runs_bind_ok.mpr ⟨.ok [], withTemp, runs_liftExcept.mpr ⟨rfl, rfl⟩, ?_⟩
    refine runs_bind_ok.mpr ⟨(), withFile name, runs_run.mpr fun _ => ?_, ?_⟩
    · rw [hplace]
      refine ⟨honly, Or.inr ⟨[], hwritten⟩, fun _ hdirectory => ?_⟩
      rw [hnone] at hdirectory
      cases hdirectory
    · refine runs_query_bind.mpr ⟨.ok (), withFile name, fun _ => ⟨[], ?_, fun _ => rfl⟩, ?_⟩
      · rw [hplace]
        exact ⟨fun _ _ => rfl, Or.inl rfl, fun _ => hwritten⟩
      · refine runs_query_bind.mpr ⟨.ok (), withFile name, rfl, ?_⟩
        exact runs_bind_ok.mpr ⟨(), withFile name, runs_liftExcept.mpr ⟨rfl, rfl⟩,
          runs_liftExcept.mpr ⟨rfl, rfl⟩⟩
  have hextract : Runs (effect []) (extract (oneFile name) sampleStore sampleTemp []).run withTemp
      (.ok ()) (withFile name) := by
    refine runs_bind_ok.mpr ⟨_, withTemp, runs_liftExcept.mpr ⟨rfl, rfl⟩, ?_⟩
    refine runs_bind_ok.mpr ⟨(), withTemp, runs_liftExcept.mpr ⟨rfl, rfl⟩, ?_⟩
    refine runs_bind_ok.mpr ⟨(), withTemp, runs_liftExcept.mpr ⟨rfl, rfl⟩, ?_⟩
    refine runs_bind_ok.mpr ⟨(), withFile name, ?_, runs_pure.mpr ⟨rfl, rfl⟩⟩
    refine runs_bind_ok.mpr ⟨join sampleTemp name, withTemp,
      runs_liftExcept.mpr ⟨htarget, rfl⟩, ?_⟩
    refine runs_bind_ok.mpr ⟨(), withTemp, runs_run.mpr fun _ => ?_, hwrite⟩
    rw [hdir]
    exact FileSystem.makesAll_self rfl reached_withTemp
  refine runs_bind_ok.mpr ⟨(), withFile name, hextract, ?_⟩
  refine runs_query_bind.mpr ⟨.ok (), withPackage name, fun _ _ => ?_, runs_pure.mpr ⟨rfl, rfl⟩⟩
  rw [locate_sampleTemp, Store.locate_target isDigest_sample]
  refine ⟨fun hfailed => absurd rfl hfailed, fun _ => ⟨?_, ?_, rfl⟩⟩
  · rw [honly _ (by simp), reached_withTemp tempPlace List.prefix_rfl]
    exact fun hnone => by cases hnone
  · have htarget : withFile name [[99], sampleDigest] = none := by
      have hfile : [[99], sampleDigest] ≠ tempPlace ++ [name] := by
        intro heq
        have hlength := congrArg List.length heq
        simp [tempPlace] at hlength
      rw [honly _ hfile]
      exact (Function.update_of_ne (by decide) _ _).trans (withCache_eq_none (by decide))
    intro hdirectory
    rw [show locate [] sampleStore.root ++ [sampleDigest] = [[99], sampleDigest] from rfl,
      htarget] at hdirectory
    cases hdirectory

/-- With every call successful, the archive is published. -/
theorem runs_ensure_oneFile {name : Bytes}
    (hnames : elements (ZipFile.normalized { name }) = [name])
    (htarget : entryTarget (oneFile name) sampleTemp { name } = .ok (join sampleTemp name)) :
    Runs (effect []) (ensure (oneFile name) sampleStore 1 sampleDigest).run emptyDirectory
      (.ok (sampleStore.target sampleDigest)) (withPackage name) := by
  rw [ensure_eq (by decide) rfl isDigest_sample]
  refine runs_query_bind.mpr ⟨.ok (), withCache, fun _ => makesAll_withCache, ?_⟩
  refine runs_bind_ok.mpr ⟨(), withCache, runs_liftExcept.mpr ⟨rfl, rfl⟩, ?_⟩
  refine runs_query_bind.mpr ⟨.error [], withCache, ⟨rfl, fun _ => ?_⟩, ?_⟩
  · rw [locate_marker isDigest_sample]
    exact iff_of_false (fun h => by cases h) (not_not.mpr (withCache_eq_none (by decide)))
  · refine runs_query_bind.mpr ⟨.ok [], withCache, rfl, ?_⟩
    refine runs_bind_ok.mpr ⟨[], withCache, runs_liftExcept.mpr ⟨rfl, rfl⟩, ?_⟩
    have hsha256 : ¬ (oneFile name).sha256 [] ≠ sampleDigest := not_not.mpr rfl
    rw [if_neg hsha256, if_neg (by decide)]
    refine runs_query_bind.mpr ⟨.ok [48], withTemp, ⟨by simp, fun _ => ⟨?_, rfl⟩⟩, ?_⟩
    · intro place hplace
      exact withCache_eq_none fun hshort => absurd (hplace.trans hshort) (by decide +kernel)
    · refine runs_bind_ok.mpr ⟨[48], withTemp, runs_liftExcept.mpr ⟨rfl, rfl⟩, ?_⟩
      refine runs_bind_ok.mpr ⟨.ok (sampleStore.target sampleDigest), withPackage name,
        runs_lift.mpr ⟨_, runs_install_oneFile hnames htarget, rfl⟩, ?_⟩
      refine runs_query_bind.mpr ⟨.ok (), withPackage name, fun _ => ?_,
        runs_liftExcept.mpr ⟨rfl, rfl⟩⟩
      rw [show locate [] (tempPath sampleStore.root (tempPattern sampleDigest) [48]) = tempPlace
        from locate_sampleTemp]
      refine ⟨fun place => Or.inl rfl, fun _ place hplace => ?_⟩
      have hother : ¬ [[99], sampleDigest] <+: place := by
        intro hbelow
        have hshort := List.prefix_of_prefix_length_le hbelow hplace le_rfl
        exact absurd hshort (by decide)
      exact (if_neg hother).trans (if_pos hplace)

/-- An archive that is the marker. -/
theorem cache_sound_sample :
    HoldsArchive (oneFile manifestName) [[99]] (withPackage manifestName) sampleDigest ∧
      ∀ outcome fs', Happens (oneFile manifestName) sampleStore [] (withPackage manifestName)
        (.ensure 2 sampleDigest (some outcome)) fs' ↔
          outcome = .ok (sampleStore.target sampleDigest) ∧ fs' = withPackage manifestName := by
  have hensured : Runs (effect [])
      (ensure (oneFile manifestName) sampleStore 1 sampleDigest).run emptyDirectory
      (.ok (sampleStore.target sampleDigest)) (withPackage manifestName) :=
    runs_ensure_oneFile (by decide) (by decide +kernel)
  have hmarker : HasMarker (oneFile manifestName) sampleDigest := by
    intro payload files _ hfiles
    cases hfiles
    decide
  have hrun : CarefulRun (oneFile manifestName) sampleStore [] emptyDirectory
      [.ensure 1 sampleDigest (some (.ok (sampleStore.target sampleDigest)))]
      (withPackage manifestName) := .single ⟨hensured, hmarker⟩
  have hsound := cache_sound (oneFile manifestName) sampleStore [] fresh_emptyDirectory hrun
  have hagain := hsound.2 sampleDigest (sampleStore.target sampleDigest)
    ⟨[], 1, [], rfl, fun _ hmem => absurd hmem List.not_mem_nil⟩ 2
  exact ⟨(hsound.1 2 sampleDigest _ _ ((hagain _ _).mpr ⟨rfl, rfl⟩)).2, hagain⟩

/-- An archive that is another file is published once, and never returned again. -/
theorem ensure_fails_again :
    ∃ fs, Happens (oneFile [97]) sampleStore [] emptyDirectory
        (.ensure 1 sampleDigest (some (.ok (sampleStore.target sampleDigest)))) fs ∧
      ∀ outcome fs', Happens (oneFile [97]) sampleStore [] fs
        (.ensure 1 sampleDigest (some outcome)) fs' → ∃ error, outcome = .error error := by
  have hensured : Runs (effect []) (ensure (oneFile [97]) sampleStore 1 sampleDigest).run
      emptyDirectory (.ok (sampleStore.target sampleDigest)) (withPackage [97]) :=
    runs_ensure_oneFile (by decide) (by decide +kernel)
  refine ⟨withPackage [97], hensured, fun outcome fs' hagain => ?_⟩
  have hinvariant : CacheInvariant (oneFile [97]) (locate [] sampleStore.root) emptyDirectory :=
    fresh_emptyDirectory.invariant
  have hprogress := meets_ensure.stops emptyDirectory _ (.refl hinvariant.links) hensured.stops
  -- the package is a directory without a marker
  obtain ⟨-, payload, files, -, hfiles, hcontent⟩ := hinvariant.ensured hensured
  cases hfiles
  have hdirectory : withPackage [97] ([[99]] ++ [sampleDigest]) = some .directory := by
    have hhere := congrFun hcontent []
    rwa [unpacked_nil, FileSystem.subtree, List.append_nil] at hhere
  have hunmarked : ¬ Marked [[99]] (withPackage [97]) sampleDigest := by
    intro hmarked
    refine hmarked ((congrFun hcontent _).trans ?_)
    decide
  cases outcome with
  | error error => exact ⟨error, rfl⟩
  | ok path => exact absurd hagain (not_ok_of_directory hprogress.links hdirectory hunmarked)

end JudgeLoom.Go.PackageStore
