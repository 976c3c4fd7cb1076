import RawLift.CommandLine.Run
import RawLift.Proofs.Files.Kept

/-!
The steps of a run, one by one: the options that settings stand for, the log file that is opened,
the notes that go into it, and the document that is read, unwrapped and delivered. Neither the log
file nor a note changes what there is to read or where there is room to write.
-/

namespace RawLift.CommandLine

open Utf8 (Octets)

variable {s : Settings} {w : Surroundings} {c : Channels} {style : LogStyle}
  {o : Unwrap.Options} {l : Json.Layout} {d : Document}

/-! ### Options -/

section Options

variable {name : Text} {indent : Option Int}

/-- The options that settings stand for, once their format is known to be one. -/
def Settings.optionsWith (s : Settings) (format : Format) : Unwrap.Options where
  angle := s.angle
  images := s.images
  requireSpace := s.requireSpace
  format := format

theorem unwrapOptions_of_isFormat (given : s.format = some name) (valid : IsFormat name) :
    s.unwrapOptions = .ok (s.optionsWith ⟨name, valid⟩) := by
  simp only [Settings.unwrapOptions, Unwrap.Options.updated, given, valueOr, Option.map_some,
    Option.getD_some, Format.ofValue?, dif_pos valid]
  rfl

theorem unwrapOptions_of_not_isFormat (given : s.format = some name) (invalid : ¬ IsFormat name) :
    s.unwrapOptions = .error (.format (.string name)) := by
  simp only [Settings.unwrapOptions, Unwrap.Options.updated, given, valueOr, Option.map_some,
    Option.getD_some, Format.ofValue?, dif_neg invalid]
  rfl

/-- Options are refused for their format only. -/
theorem exists_format_of_unwrapOptions_error {fault : OptionFault}
    (refused : s.unwrapOptions = .error fault) : ∃ given, fault = .format given := by
  cases given : s.format with
  | none =>
    simp only [Settings.unwrapOptions, Unwrap.Options.updated, given] at refused
    cases refused
    exact ⟨_, rfl⟩
  | some name =>
    by_cases valid : IsFormat name
    · rw [unwrapOptions_of_isFormat given valid] at refused
      cases refused
    · rw [unwrapOptions_of_not_isFormat given valid] at refused
      cases refused
      exact ⟨_, rfl⟩

/-- The layout of an indent that is not below zero. -/
def indented (indent : Option Int) : Json.Layout := { indent := indent.map Int.toNat }

theorem layout_of_nonneg (given : s.indent = some indent) (nonneg : ∀ n ∈ indent, 0 ≤ n) :
    s.layout = .ok (indented indent) := by
  simp only [Settings.layout, given]
  cases indent with
  | none => rfl
  | some n =>
    obtain ⟨width, rfl⟩ := Int.eq_ofNat_of_zero_le (nonneg n rfl)
    rfl

theorem layout_of_neg {n : Int} (given : s.indent = some (some n)) (neg : n < 0) :
    s.layout = .error (.indent n) := by
  obtain ⟨below, rfl⟩ := Int.eq_negSucc_of_lt_zero neg
  simp only [Settings.layout, given]
  rfl

theorem layout_of_blank (blank : s.indent = none) :
    s.layout = .error (.unordered (.array [])) := by
  simp only [Settings.layout, blank]
  rfl

/-- A layout is refused for an indent that is set to nothing, or for one below zero. -/
theorem layout_error {fault : OptionFault} (refused : s.layout = .error fault) :
    (s.indent = none ∧ fault = .unordered (.array [])) ∨ ∃ n, fault = .indent n := by
  cases given : s.indent with
  | none =>
    rw [layout_of_blank given] at refused
    cases refused
    exact .inl ⟨rfl, rfl⟩
  | some indent =>
    rcases indent with _ | n
    · rw [layout_of_nonneg given (by simp)] at refused
      cases refused
    · rcases Int.lt_or_le n 0 with neg | nonneg
      · rw [layout_of_neg given neg] at refused
        cases refused
        exact .inr ⟨n, rfl⟩
      · rw [layout_of_nonneg given (by simpa using nonneg)] at refused
        cases refused

/-- The options and the layout that settings stand for. -/
structure Settings.Builds (s : Settings) (o : Unwrap.Options) (l : Json.Layout) : Prop where
  options : s.unwrapOptions = .ok o
  layout : s.layout = .ok l

end Options

/-! ### The log file -/

/-- The log, if there is one, is a file that can be opened. -/
def Channels.LogOpenable (c : Channels) : Prop := ∀ place ∈ c.log, c.files.Openable place

/-- A log file that has been opened hides nothing that could be read before. -/
theorem openLog_kept (opened : openLog s w = .ok c) :
    c.stdout = [] ∧ c.LogOpenable ∧ Files.Kept w.files c.files := by
  rw [openLog] at opened
  split at opened
  · cases opened
    exact ⟨rfl, by simp [Channels.LogOpenable], .refl w.files⟩
  next path _ =>
    dsimp only at opened
    split at opened
    · cases opened
    · cases opened
    next place _ found =>
      cases opened
      have openable := Files.openable_of_openPlace found
      have kept := Files.kept_insert openable
      refine ⟨rfl, ?_, kept⟩
      rintro _ ⟨⟩
      exact kept.directories.openable openable

/-- Where a run stands after some notes: nothing has gone to standard output, and there is room for
the same files. -/
structure Channels.Noted (before after : Channels) : Prop where
  stdout : after.stdout = before.stdout
  log : after.log = before.log
  directories : Files.SameDirectories before.files after.files

namespace Channels

theorem Noted.logOpenable {before after : Channels} (noted : before.Noted after)
    (openable : before.LogOpenable) : after.LogOpenable := by
  intro place there
  rw [noted.log] at there
  exact noted.directories.openable (openable place there)

theorem Noted.trans {before between after : Channels} (first : before.Noted between)
    (second : between.Noted after) : before.Noted after where
  stdout := second.stdout.trans first.stdout
  log := second.log.trans first.log
  directories := first.directories.trans second.directories

theorem noted_say (openable : c.LogOpenable) (style : LogStyle) (time : Text)
    (notes : List Note) : c.Noted (c.say style time notes) where
  stdout := rfl
  log := rfl
  directories := by
    rw [say]
    cases logged : c.log with
    | none => exact .refl c.files
    | some place => exact Files.sameDirectories_insert (openable place logged) _

/-! ### Delivery -/

/-- The target that a path among the settings stands for. -/
def target (c : Channels) (path : Text) : Target :=
  if path = stdio then .octetStream c.stdout else .path c.files path

variable [Json.Machine]

theorem deliver_failure {path : Text} (toPath : s.output = some path) :
    (c.deliver s l d).2 = (d.renderTo l (c.target path)).2 := by
  rw [deliver, toPath, target]
  dsimp only
  split <;> split <;> simp [*]

theorem deliver_of_render {t : Text} {bs : Octets} (toStdout : s.output = some stdio)
    (rendered : d.render l = .ok t) (encoded : Utf8.encode t = .ok bs) :
    c.deliver s l d = ({ c with stdout := c.stdout ++ bs }, none) := by
  simp only [deliver, toStdout, Document.renderTo, rendered, Target.write, encoded]
  rfl

theorem deliver_of_render_error {path : Text} {f : Failure} (toPath : s.output = some path)
    (refused : d.render l = .error f) : c.deliver s l d = (c, some f) := by
  simp only [deliver, toPath, Document.renderTo, refused]
  split <;> rfl

end Channels

/-! ### The filter -/

section Filter
variable [Json.Machine]

theorem filter_of_unwrapOptions_error {fault : OptionFault}
    (refused : s.unwrapOptions = .error fault) :
    filter s style w c = (c, some (.option fault)) := by
  rw [filter, refused]

theorem filter_of_layout_error {fault : OptionFault} (options : s.unwrapOptions = .ok o)
    (refused : s.layout = .error fault) :
    filter s style w c = (c, some (.option fault)) := by
  rw [filter, options, refused]

variable (style) (builds : s.Builds o l)
include builds

theorem filter_of_parse_error (openable : c.LogOpenable) {f : Failure}
    (refused : Document.parse {} (s.source w c.files) = .error f) :
    ∃ noted, c.Noted noted ∧ filter s style w c = (noted, some f) := by
  refine ⟨_, Channels.noted_say openable style w.time (readingNotes (.error f)), ?_⟩
  rw [filter, builds.options, builds.layout, refused]

theorem filter_of_parse (openable : c.LogOpenable)
    (parsed : Document.parse {} (s.source w c.files) = .ok d) :
    ∃ noted, c.Noted noted ∧
      filter s style w c = noted.deliver s l (Unwrap.document o d) := by
  have reading := Channels.noted_say openable style w.time (readingNotes (.ok d))
  have unwrapping := Channels.noted_say (reading.logOpenable openable) style w.time
    (unwrappingNotes o d ++ [closingNote o d])
  refine ⟨_, reading.trans unwrapping, ?_⟩
  rw [filter, builds.options, builds.layout, parsed]

end Filter

/-! ### The whole run -/

/-- The exit code that a run ends with. -/
def exitCodeOf (f : Option Failure) : Nat := (f.map Failure.exitCode).getD 0

theorem runSettings_of_openLog [Json.Machine] {least : Level} (opened : openLog s w = .ok c)
    (level : s.logLevel = some least) {after : Channels} {f : Option Failure}
    (filtered : filter s ⟨least, s.trace⟩ w c = (after, f)) :
    (runSettings s w).exitCode = exitCodeOf f ∧ (runSettings s w).stdout = after.stdout := by
  rw [runSettings, opened, level]
  simp only [filtered]
  cases f <;> exact ⟨rfl, rfl⟩

end RawLift.CommandLine
