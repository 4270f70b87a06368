import AutoImport.Entrypoints
import Mathlib.Data.List.Basic
import Mathlib.Data.List.Nodup

/-!
# Directories that a walk visits

A walk reads a directory and goes on to the directories in it, unless its real directory was
visited.  `Entrypoints.Walks` is that walk without a bound on its depth, together with the
directories that it reads.  There is such a walk exactly if the recursion ends, and then one only
(`Entrypoints.Walks.unique`).

The real directories of those read are distinct (`Entrypoints.Walks.nodup`), and whatever a
directory that was read leads to has been visited (`Entrypoints.Walks.mem_visited_of_read`).  If the
directories that list others have their real directories in a finite list, the walk ends, and the
bounded one is the same (`Entrypoints.exists_walks`): the paths may grow for ever, but on each level
one more of the list is visited.
-/

set_option autoImplicit false

namespace AutoImport.Entrypoints

/-- The real path of a directory, or the path as it is spelled if nothing is there. -/
def realDirectory (view : FileView) (directory : String) : String :=
  (view.realPath directory).getD directory

/-- The directories in a directory, other than that of installed packages. -/
def subdirectories (view : FileView) (directory : String) : List String :=
  ((view.directories directory).filter (· ≠ packagesName)).map (Path.join directory)

/-- The walk so far after one more directory was read. -/
def Walk.read (view : FileView) (done : Walk) (directory : String) : Walk where
  visited := realDirectory view directory :: done.visited
  found := done.found ++ (view.files directory).map (Path.join directory)

/-- The names of the files in directories, each with its directory. -/
def entries (view : FileView) (directories : List String) : List (String × String) :=
  directories.flatMap fun directory => (view.files directory).map (directory, ·)

/-- A walk through pending directories, with those that it reads, in order. -/
inductive Walks (view : FileView) : List String → Walk → List String → Walk → Prop where
  | nil (done : Walk) : Walks view [] done [] done
  | known {directory : String} {pending reads : List String} {done walked : Walk} :
      realDirectory view directory ∈ done.visited → Walks view pending done reads walked →
      Walks view (directory :: pending) done reads walked
  | enter {directory : String} {pending inside reads : List String} {done left walked : Walk} :
      realDirectory view directory ∉ done.visited →
      Walks view (subdirectories view directory) (done.read view directory) inside left →
      Walks view pending left reads walked →
      Walks view (directory :: pending) done (directory :: (inside ++ reads)) walked

variable {view : FileView} {pending reads : List String} {done walked : Walk}

namespace Walks

/-! ## What a walk has read and found -/

/-- A walk has visited what it had, and the real directories of all that it reads. -/
theorem visited_eq (h : Walks view pending done reads walked) :
    walked.visited = (reads.map (realDirectory view)).reverse ++ done.visited := by
  induction h with
  | nil done => rfl
  | known _ _ ih => exact ih
  | enter _ _ _ ihInside ih =>
    rw [ih, ihInside]
    simp [Walk.read]

/-- A walk has found what it had, and the files of all that it reads, in order. -/
theorem found_eq (h : Walks view pending done reads walked) :
    walked.found = done.found ++
      (entries view reads).map fun entry => Path.join entry.1 entry.2 := by
  induction h with
  | nil done => simp [entries]
  | known _ _ ih => exact ih
  | enter _ _ _ ihInside ih =>
    rw [ih, ihInside]
    simp [Walk.read, entries, Function.comp_def]

/-- What was visited before a walk is visited after it. -/
theorem mem_visited_of_mem (h : Walks view pending done reads walked) {real : String}
    (hreal : real ∈ done.visited) : real ∈ walked.visited := by
  rw [h.visited_eq]
  exact List.mem_append_right _ hreal

/-- No real directory is read twice. -/
theorem nodup (h : Walks view pending done reads walked) (hdone : done.visited.Nodup) :
    walked.visited.Nodup := by
  induction h with
  | nil done => exact hdone
  | known _ _ ih => exact ih hdone
  | enter hnew _ _ ihInside ih => exact ih (ihInside (List.nodup_cons.2 ⟨hnew, hdone⟩))

/-- Every pending directory is visited in the end. -/
theorem mem_visited_of_pending (h : Walks view pending done reads walked) :
    ∀ directory ∈ pending, realDirectory view directory ∈ walked.visited := by
  induction h with
  | nil done => simp
  | known hknown hrest ih =>
    exact List.forall_mem_cons.2 ⟨hrest.mem_visited_of_mem hknown, ih⟩
  | enter _ hinside hrest _ ih =>
    refine List.forall_mem_cons.2 ⟨hrest.mem_visited_of_mem (hinside.mem_visited_of_mem ?_), ih⟩
    exact List.mem_cons_self

/-- What a directory that was read leads to has been visited. -/
theorem mem_visited_of_read (h : Walks view pending done reads walked) :
    ∀ directory ∈ reads, ∀ child ∈ subdirectories view directory,
      realDirectory view child ∈ walked.visited := by
  induction h with
  | nil done => simp
  | known _ _ ih => exact ih
  | enter _ hinside hrest ihInside ih =>
    rw [List.forall_mem_cons, List.forall_mem_append]
    refine ⟨fun child hchild => ?_, fun directory hdirectory child hchild => ?_, ih⟩
    · exact hrest.mem_visited_of_mem (hinside.mem_visited_of_pending child hchild)
    · exact hrest.mem_visited_of_mem (ihInside directory hdirectory child hchild)

/-- What holds of the pending directories and is passed on to those in a directory holds of all that
are read. -/
theorem forall_mem_reads {P : String → Prop} (h : Walks view pending done reads walked)
    (hpending : ∀ directory ∈ pending, P directory)
    (hchild : ∀ directory, P directory → ∀ child ∈ subdirectories view directory, P child) :
    ∀ directory ∈ reads, P directory := by
  induction h with
  | nil done => simp
  | known _ _ ih => exact ih (List.forall_mem_cons.1 hpending).2
  | enter _ _ _ ihInside ih =>
    obtain ⟨hfirst, hrest⟩ := List.forall_mem_cons.1 hpending
    rw [List.forall_mem_cons, List.forall_mem_append]
    exact ⟨hfirst, ihInside (hchild _ hfirst), ih hrest⟩

/-- There is one walk only. -/
theorem unique {others : List String} {other : Walk} (h : Walks view pending done reads walked)
    (hother : Walks view pending done others other) : others = reads ∧ other = walked := by
  induction h generalizing others other with
  | nil done =>
    cases hother
    exact ⟨rfl, rfl⟩
  | known hknown _ ih =>
    cases hother with
    | known _ hrest => exact ih hrest
    | enter hnew _ _ => exact absurd hknown hnew
  | enter hnew _ _ ihInside ih =>
    cases hother with
    | known hknown _ => exact absurd hknown hnew
    | enter _ hinside hrest =>
      obtain ⟨rfl, rfl⟩ := ihInside hinside
      obtain ⟨rfl, rfl⟩ := ih hrest
      exact ⟨rfl, rfl⟩

/-- Two walks one after the other are one walk through both lists. -/
theorem append {more others : List String} {last : Walk} (h : Walks view pending done reads walked)
    (hmore : Walks view more walked others last) :
    Walks view (pending ++ more) done (reads ++ others) last := by
  induction h with
  | nil done => exact hmore
  | known hknown _ ih => exact .known hknown (ih hmore)
  | enter hnew hinside _ _ ih =>
    rw [List.cons_append, List.cons_append, List.append_assoc]
    exact .enter hnew hinside (ih hmore)

end Walks

/-- The entries of some directories are the names that each of them lists. -/
theorem mem_entries {directories : List String} {entry : String × String} :
    entry ∈ entries view directories ↔ entry.1 ∈ directories ∧ entry.2 ∈ view.files entry.1 := by
  obtain ⟨directory, name⟩ := entry
  unfold entries
  simp only [List.mem_flatMap, List.mem_map, Prod.mk.injEq]
  constructor
  · rintro ⟨_, hdirectory, _, hname, rfl, rfl⟩
    exact ⟨hdirectory, hname⟩
  · rintro ⟨hdirectory, hname⟩
    exact ⟨directory, hdirectory, name, hname, rfl, rfl⟩

/-- No name is listed twice in one real directory. -/
theorem nodup_entries {directories : List String}
    (hfiles : ∀ directory, (view.files directory).Nodup)
    (h : (directories.map (realDirectory view)).Nodup) :
    ((entries view directories).map fun entry => (realDirectory view entry.1, entry.2)).Nodup := by
  unfold entries
  rw [List.map_flatMap, List.nodup_flatMap]
  constructor
  · intro directory _
    rw [List.map_map]
    exact (hfiles directory).map fun first second hsame => (Prod.ext_iff.1 hsame).2
  · refine (List.pairwise_map.1 h).imp fun {first second} hne pair hfirst hsecond => hne ?_
    simp only [List.map_map, List.mem_map, Function.comp_apply] at hfirst hsecond
    obtain ⟨_, -, rfl⟩ := hfirst
    obtain ⟨_, -, hsame⟩ := hsecond
    exact (Prod.ext_iff.1 hsame).1.symm

/-! ## Walks end -/

/-- How many places of a list a walk has not visited. -/
def unvisited (places : List String) (done : Walk) : Nat :=
  (places.filter (· ∉ done.visited)).length

/-- A walk leaves no more places unvisited than there were. -/
theorem unvisited_le {places : List String} (h : Walks view pending done reads walked) :
    unvisited places walked ≤ unvisited places done := by
  unfold unvisited
  rw [← List.countP_eq_length_filter, ← List.countP_eq_length_filter]
  refine List.countP_mono_left fun place _ hplace => ?_
  rw [decide_eq_true_eq] at hplace ⊢
  exact fun hmem => hplace (h.mem_visited_of_mem hmem)

/-- Reading a new directory leaves fewer places unvisited. -/
theorem unvisited_read_lt {places : List String} {directory : String}
    (hplace : realDirectory view directory ∈ places)
    (hnew : realDirectory view directory ∉ done.visited) :
    unvisited places (done.read view directory) < unvisited places done := by
  have hfilter : places.filter (· ∉ (done.read view directory).visited) =
      (places.filter (· ∉ done.visited)).filter (· ≠ realDirectory view directory) := by
    rw [List.filter_filter]
    simp [Walk.read, List.mem_cons, not_or]
  unfold unvisited
  rw [hfilter, List.length_filter_lt_length_iff_exists]
  exact ⟨_, List.mem_filter.2 ⟨hplace, by simpa using hnew⟩, by simp⟩

/-- With fuel left, a walk reads a directory that is new and goes on below it. -/
theorem walk_succ (fuel : Nat) (directory : String) :
    walk view (fuel + 1) directory done =
      if realDirectory view directory ∈ done.visited then done
      else (subdirectories view directory).foldl
        (fun walked child => walk view fuel child walked) (done.read view directory) := by
  unfold subdirectories
  rw [List.foldl_map]
  rfl

/-- Pending directories are walked through one after the other. -/
theorem exists_walks_pending {walkOne : String → Walk → Walk} {places : List String} {bound : Nat}
    (hone : ∀ directory done, unvisited places done < bound →
      ∃ reads, Walks view [directory] done reads (walkOne directory done))
    (pending : List String) (hbound : unvisited places done < bound) :
    ∃ reads, Walks view pending done reads
      (pending.foldl (fun walked directory => walkOne directory walked) done) := by
  induction pending generalizing done with
  | nil => exact ⟨[], .nil done⟩
  | cons directory rest ih =>
    obtain ⟨reads, hfirst⟩ := hone directory done hbound
    obtain ⟨others, hrest⟩ := ih (Nat.lt_of_le_of_lt (unvisited_le hfirst) hbound)
    exact ⟨reads ++ others, hfirst.append hrest⟩

/-- Let the directories that list others have their real directories among some places.  A walk that
may go deeper than there are places left to visit is a walk without a bound. -/
theorem exists_walks {places : List String}
    (hplaces : ∀ directory, view.directories directory ≠ [] → realDirectory view directory ∈ places)
    (fuel : Nat) (directory : String) (done : Walk) (hfuel : unvisited places done < fuel) :
    ∃ reads, Walks view [directory] done reads (walk view fuel directory done) := by
  induction fuel generalizing directory done with
  | zero => exact absurd hfuel (Nat.not_lt_zero _)
  | succ fuel ih =>
    rw [walk_succ]
    split
    · rename_i hknown
      exact ⟨[], .known hknown (.nil done)⟩
    · rename_i hnew
      have hinside : ∃ inside, Walks view (subdirectories view directory) (done.read view directory)
          inside ((subdirectories view directory).foldl
            (fun walked child => walk view fuel child walked) (done.read view directory)) := by
        by_cases hlisted : view.directories directory = []
        · -- Nothing lies below, so no depth is needed.
          have hnone : subdirectories view directory = [] := by
            unfold subdirectories
            rw [hlisted]
            rfl
          rw [hnone]
          exact ⟨[], .nil _⟩
        · have hless := unvisited_read_lt (hplaces directory hlisted) hnew
          exact exists_walks_pending ih _ (Nat.lt_of_lt_of_le hless (Nat.le_of_lt_succ hfuel))
      obtain ⟨inside, hinside⟩ := hinside
      exact ⟨_, .enter hnew hinside (.nil _)⟩

end AutoImport.Entrypoints
