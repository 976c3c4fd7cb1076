import RawLift.Files

/-!
What is left of the files when one of them is opened and written. Only places that directories lead
to can be opened, so opening one makes no directory out of anything, and what could be read before
can be read after.
-/

namespace RawLift.Files

open Utf8 (Octets)

variable {files : Files} {place other : Place} {content : Octets}

theorem lookup_cons {e : Entry} :
    List.lookup other ((place, e) :: files) =
      if other = place then some e else files.lookup other := by
  rw [List.lookup_cons]
  by_cases here : other = place
  · simp [here]
  · rw [beq_false_of_ne here, if_neg here]

theorem lookup_insert :
    (files.insert place content).lookup other =
      if other = place then some (.file content) else files.lookup other := by
  induction files with
  | nil => exact lookup_cons
  | cons entry files ih =>
    obtain ⟨p, e⟩ := entry
    rw [insert]
    split
    next first =>
      subst first
      rw [lookup_cons, lookup_cons]
      split <;> rfl
    next first =>
      rw [lookup_cons, lookup_cons, ih]
      by_cases here : other = p
      · rw [if_pos here, if_pos here, if_neg (here ▸ first)]
      · rw [if_neg here, if_neg here]

theorem content?_insert :
    (files.insert place content).content? other =
      if other = place then some content else files.content? other := by
  rw [content?, lookup_insert]
  by_cases here : other = place
  · rw [if_pos here, if_pos here]
  · rw [if_neg here, if_neg here, content?]

/-- Whether some entry passes a test after a write: one did, or the one that is written does. -/
theorem any_insert {test : Place × Entry → Bool}
    (same : ∀ e, (place, e) ∈ files → test (place, e) = test (place, .file content)) :
    (files.insert place content).any test = (files.any test || test (place, .file content)) := by
  induction files with
  | nil => simp [insert]
  | cons entry files ih =>
    obtain ⟨p, e⟩ := entry
    by_cases first : p = place
    · subst first
      rw [insert, if_pos rfl, List.any_cons, List.any_cons, same e (by simp)]
      cases test (p, .file content) <;> simp
    · have later : ∀ e, (place, e) ∈ files → test (place, e) = test (place, .file content) :=
        fun e there => same e (List.mem_cons_of_mem _ there)
      rw [insert, if_neg first, List.any_cons, List.any_cons, ih later, Bool.or_assoc]

/-! ### Places that can be opened -/

/-- All that lies on the way to a place is a directory. -/
def Reachable (files : Files) (place : Place) : Prop :=
  ∀ before, before <+: place → before ≠ place → files.isDirectory before = true

theorem reachable_nil : files.Reachable [] := by
  intro before within proper
  exact absurd (List.prefix_nil.mp within) proper

theorem Reachable.dropLast (reachable : files.Reachable place) :
    files.Reachable place.dropLast := by
  intro before within proper
  refine reachable before (within.trans (List.dropLast_prefix place)) ?_
  rintro rfl
  have longer := within.length_le
  rw [List.length_dropLast] at longer
  have empty : before = [] := List.eq_nil_of_length_eq_zero (by omega)
  subst empty
  exact proper rfl

theorem Reachable.append (reachable : files.Reachable place)
    (directory : files.isDirectory place = true) (name : Text) :
    files.Reachable (place ++ [name]) := by
  intro before within proper
  rcases List.prefix_concat_iff.mp within with same | within
  · exact absurd same proper
  · by_cases whole : before = place
    · rw [whole, directory]
    · exact reachable before within whole

theorem Reachable.enter (reachable : files.Reachable place)
    (directory : files.isDirectory place = true) (name : Text) :
    files.Reachable (Path.enter place name) := by
  rw [Path.enter]
  split
  · rw [Path.parent]
    split
    next top =>
      rw [List.getLast?_eq_none_iff.mp top] at directory
      exact reachable_nil.append directory Path.up
    next last =>
      split
      · exact reachable
      · split
        · exact reachable.append directory Path.up
        · exact reachable.dropLast
  · exact reachable.append directory name

theorem Reachable.follow {shown : Text} {names : List Text} (reachable : files.Reachable place)
    (followed : files.follow shown place names = .ok other) : files.Reachable other := by
  induction names generalizing place with
  | nil =>
    cases followed
    exact reachable
  | cons name names ih =>
    rw [Files.follow] at followed
    split at followed
    next directory =>
      split at followed
      · cases followed
      · exact ih (reachable.enter directory name) followed
    · split at followed <;> cases followed

/-- A place that a file can be opened at, whether or not there is one. -/
structure Openable (files : Files) (place : Place) : Prop where
  reachable : files.Reachable place
  noDirectory : files.isDirectory place = false

theorem openPlace_eq_ok_iff {shown : Text} {names : List Text} :
    files.openPlace shown names = .ok place ↔
      files.locate shown names = .ok place ∧ files.isDirectory place = false := by
  rw [openPlace]
  cases files.locate shown names with
  | error fault => simp [Bind.bind, Except.bind]
  | ok found =>
    simp only [Bind.bind, Except.bind, Except.ok.injEq]
    cases directory : files.isDirectory found with
    | true =>
      simp only [if_pos, reduceCtorEq, false_iff]
      rintro ⟨rfl, noDirectory⟩
      simp [directory] at noDirectory
    | false =>
      simp only [Bool.false_eq_true, if_false, Except.ok.injEq]
      constructor
      · rintro rfl
        exact ⟨rfl, directory⟩
      · exact And.left

theorem read_eq_ok_iff {path : Text} {bs : Octets} : files.read path = .ok bs ↔
    ∃ place, files.locate path (Path.names path) = .ok place ∧
      files.isDirectory place = false ∧ files.content? place = some bs := by
  rw [read]
  cases files.locate path (Path.names path) with
  | error fault => simp [Bind.bind, Except.bind]
  | ok found =>
    simp only [Bind.bind, Except.bind, Except.ok.injEq, exists_eq_left']
    cases files.isDirectory found with
    | true => simp
    | false => cases files.content? found <;> simp

theorem exists?_eq_true_iff {path : Text} : files.exists? path = .ok true ↔
    Path.fault? path = none ∧
      ∃ place, files.locate (Path.shown path) (Path.names path) = .ok place ∧
        (files.isDirectory place = true ∨ ∃ bs, files.content? place = some bs) := by
  rw [exists?]
  cases Path.fault? path with
  | some fault => simp
  | none =>
    cases files.locate (Path.shown path) (Path.names path) with
    | error fault => cases fault <;> simp
    | ok found => simp [Option.isSome_iff_exists]

theorem openable_of_openPlace {shown : Text} {names : List Text}
    (opened : files.openPlace shown names = .ok place) : files.Openable place := by
  obtain ⟨located, noDirectory⟩ := openPlace_eq_ok_iff.mp opened
  rw [locate] at located
  split at located
  · cases located
  · exact ⟨reachable_nil.follow located, noDirectory⟩

/-! ### Files with the same directories -/

/-- What is a directory among some files is one among others, and nothing else is. -/
def SameDirectories (before after : Files) : Prop :=
  ∀ place, after.isDirectory place = before.isDirectory place

namespace SameDirectories

variable {before after last : Files} {shown : Text} {names : List Text}

theorem refl (files : Files) : SameDirectories files files := fun _ => rfl

theorem symm (same : SameDirectories before after) : SameDirectories after before :=
  fun place => (same place).symm

theorem trans (same : SameDirectories before after) (then_same : SameDirectories after last) :
    SameDirectories before last :=
  fun place => (then_same place).trans (same place)

theorem openable (same : SameDirectories before after) (openable : before.Openable place) :
    after.Openable place := by
  refine ⟨fun p within proper => ?_, ?_⟩
  · rw [same, openable.reachable p within proper]
  · rw [same, openable.noDirectory]

theorem follow (same : SameDirectories before after)
    (followed : before.follow shown place names = .ok other) :
    after.follow shown place names = .ok other := by
  induction names generalizing place with
  | nil => exact followed
  | cons name names ih =>
    rw [Files.follow] at followed ⊢
    rw [same]
    split at followed
    next directory =>
      rw [if_pos directory]
      split at followed
      · cases followed
      next short =>
        rw [if_neg short]
        exact ih followed
    · split at followed <;> cases followed

theorem locate (same : SameDirectories before after)
    (located : before.locate shown names = .ok place) :
    after.locate shown names = .ok place := by
  rw [Files.locate] at located ⊢
  split at located
  · cases located
  next short =>
    rw [if_neg short]
    exact same.follow located

theorem openPlace (same : SameDirectories before after)
    (opened : before.openPlace shown names = .ok place) :
    after.openPlace shown names = .ok place := by
  rw [openPlace_eq_ok_iff] at opened ⊢
  rw [same]
  exact ⟨same.locate opened.1, opened.2⟩

end SameDirectories

/-- A file that can be opened makes no directory and takes none away. -/
theorem sameDirectories_insert (openable : files.Openable place) (content : Octets) :
    SameDirectories files (files.insert place content) := by
  intro p
  have noEntry : (place, .directory) ∉ files := by
    intro entry
    have directory : files.isDirectory place = true := by
      rw [isDirectory, List.any_eq_true.mpr ⟨_, entry, by simp⟩, Bool.or_true]
    rw [openable.noDirectory] at directory
    cases directory
  rw [isDirectory, isDirectory, any_insert]
  · by_cases above : p <+: place ∧ p ≠ place
    · have directory := openable.reachable p above.1 above.2
      rw [isDirectory] at directory
      rw [← Bool.or_assoc, directory, Bool.true_or]
    · have nothing : (p.length < place.length && p.isPrefixOf place) = false := by
        rw [Bool.and_eq_false_iff, decide_eq_false_iff_not, ← Bool.not_eq_true,
          List.isPrefixOf_iff_prefix]
        by_cases within : p <+: place
        · exact .inl fun shorter => above ⟨within, fun same => by simp [same] at shorter⟩
        · exact .inr within
      simp [nothing]
  · intro e entry
    cases e with
    | file _ => simp
    | directory => exact absurd entry noEntry

/-- What could be read can be read as before. -/
structure Kept (before after : Files) : Prop where
  directories : SameDirectories before after
  contents : ∀ place content, before.content? place = some content →
    after.content? place = some content

namespace Kept

variable {before after : Files}

theorem refl (files : Files) : Kept files files := ⟨.refl files, fun _ _ there => there⟩

theorem read (kept : Kept before after) {path : Text} {bs : Octets}
    (given : before.read path = .ok bs) : after.read path = .ok bs := by
  obtain ⟨place, located, noDirectory, there⟩ := read_eq_ok_iff.mp given
  refine read_eq_ok_iff.mpr ⟨place, kept.directories.locate located, ?_,
    kept.contents place bs there⟩
  rw [kept.directories, noDirectory]

theorem exists? (kept : Kept before after) {path : Text}
    (given : before.exists? path = .ok true) : after.exists? path = .ok true := by
  obtain ⟨sound, place, located, found⟩ := exists?_eq_true_iff.mp given
  refine exists?_eq_true_iff.mpr ⟨sound, place, kept.directories.locate located, ?_⟩
  rw [kept.directories]
  exact found.imp_right fun ⟨bs, there⟩ => ⟨bs, kept.contents place bs there⟩

end Kept

/-- A file is opened to be added to: it holds what it held, or nothing if there was none. -/
theorem kept_insert (openable : files.Openable place) :
    Kept files (files.insert place ((files.content? place).getD [])) where
  directories := sameDirectories_insert openable _
  contents p content there := by
    rw [content?_insert]
    by_cases here : p = place
    · rw [if_pos here, ← here, there, Option.getD_some]
    · rw [if_neg here, there]

end RawLift.Files
