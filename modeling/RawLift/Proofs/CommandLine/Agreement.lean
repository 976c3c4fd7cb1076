import RawLift.Proofs.CommandLine.Steps
import RawLift.Proofs.Filter.Boundary

/-!
The command answers as the filter does. Whatever the settings, a run that is given octets and writes
to standard output ends with the text that the filter makes of the octets and nothing else on that
output, or with the filter's own failure and nothing on it; settings that no options stand for are
refused before anything is read.
-/

namespace RawLift.CommandLine

open Utf8 (Octets)

variable {s : Settings} {w : Surroundings} {c : Channels} {bs : Octets} {least : Level}

/-! ### What a run is given -/

/-- The octets that a run has to read: those of standard input, or those of a file that is there
before the run. -/
def Settings.Supplies (s : Settings) (w : Surroundings) (bs : Octets) : Prop :=
  if s.input = stdio then w.stdin = bs
  else w.files.exists? s.input = .ok true ∧ w.files.read (Path.shown s.input) = .ok bs

theorem source_read {files : Files} (supplied : s.Supplies w bs)
    (kept : Files.Kept w.files files) : (s.source w files).read = (Source.octets bs).read := by
  rw [Settings.Supplies] at supplied
  rw [Settings.source]
  split at supplied
  next standard =>
    rw [if_pos standard, supplied]
    rfl
  next named =>
    rw [if_neg named]
    simp only [Source.read, kept.exists? supplied.1, kept.read supplied.2]

theorem parse_source {files : Files} (supplied : s.Supplies w bs)
    (kept : Files.Kept w.files files) (rule : RootRule) :
    Document.parse rule (s.source w files) = Document.parse rule (.octets bs) := by
  rw [Document.parse, Document.parse, source_read supplied kept]

/-! ### Two answers -/

/-- A run answers as the filter does: with the text on standard output if it has octets, and with
the failure's own code and no output if there is one. -/
structure Outcome.Answers (r : Outcome) (filtered : Except Failure Text) : Prop where
  written : ∀ t, filtered = .ok t → (∀ i, .surrogate i ∉ t) →
    r.exitCode = 0 ∧ Utf8.encode t = .ok r.stdout
  refused : ∀ f, filtered = .error f → r.exitCode = f.exitCode ∧ r.stdout = []

section

variable [Json.Machine] (opened : openLog s w = .ok c) (level : s.logLevel = some least)
include opened level

/-- Settings that no options stand for are refused with code 3, and nothing is written. -/
theorem runSettings_of_invalid {name : Text} {indent : Option Int} (format : s.format = some name)
    (asked : s.indent = some indent) (invalid : ¬ IsFormat name ∨ ∃ n ∈ indent, n < 0) :
    (runSettings s w).exitCode = 3 ∧ (runSettings s w).stdout = [] := by
  have silent := (openLog_kept opened).1
  by_cases valid : IsFormat name
  · obtain ⟨n, rfl, neg⟩ := invalid.resolve_left (not_not.mpr valid)
    obtain ⟨code, stdout⟩ := runSettings_of_openLog opened level
      (filter_of_layout_error (unwrapOptions_of_isFormat format valid) (layout_of_neg asked neg))
    exact ⟨code, stdout.trans silent⟩
  · obtain ⟨code, stdout⟩ := runSettings_of_openLog opened level
      (filter_of_unwrapOptions_error (unwrapOptions_of_not_isFormat format valid))
    exact ⟨code, stdout.trans silent⟩

variable {o : Unwrap.Options} {l : Json.Layout} (builds : s.Builds o l)
  (supplied : s.Supplies w bs)
include builds supplied

theorem runSettings_of_parse_error {f : Failure}
    (refused : Document.parse {} (.octets bs) = .error f) :
    (runSettings s w).exitCode = f.exitCode ∧ (runSettings s w).stdout = [] := by
  obtain ⟨silent, openable, kept⟩ := openLog_kept opened
  rw [← parse_source supplied kept] at refused
  obtain ⟨noted, same, filtered⟩ := filter_of_parse_error ⟨least, s.trace⟩ builds openable refused
  obtain ⟨code, stdout⟩ := runSettings_of_openLog opened level filtered
  exact ⟨code, by rw [stdout, same.stdout, silent]⟩

variable (toStdout : s.output = some stdio)
include toStdout

theorem runSettings_of_parse {d : Document} (parsed : Document.parse {} (.octets bs) = .ok d) :
    (runSettings s w).Answers ((Unwrap.document o d).render l) := by
  obtain ⟨silent, openable, kept⟩ := openLog_kept opened
  rw [← parse_source supplied kept] at parsed
  obtain ⟨noted, same, filtered⟩ := filter_of_parse ⟨least, s.trace⟩ builds openable parsed
  have empty : noted.stdout = [] := same.stdout.trans silent
  constructor
  · intro t rendered clean
    obtain ⟨written, encoded⟩ := Utf8.exists_encode_eq_ok_iff.mpr clean
    rw [Channels.deliver_of_render toStdout rendered encoded, empty] at filtered
    obtain ⟨code, stdout⟩ := runSettings_of_openLog opened level filtered
    exact ⟨code, encoded.trans (congrArg Except.ok stdout.symm)⟩
  · intro f refused
    rw [Channels.deliver_of_render_error toStdout refused] at filtered
    obtain ⟨code, stdout⟩ := runSettings_of_openLog opened level filtered
    exact ⟨code, stdout.trans empty⟩

theorem runSettings_answers_filterDocument :
    (runSettings s w).Answers (filterDocument o {} l (.octets bs)) := by
  cases parsed : Document.parse {} (.octets bs) with
  | error f =>
    rw [filterDocument_of_parse_error parsed]
    constructor
    · rintro _ ⟨⟩
    · rintro _ ⟨⟩
      exact runSettings_of_parse_error opened level builds supplied parsed
  | ok d =>
    rw [filterDocument_of_parse parsed]
    exact runSettings_of_parse opened level builds supplied toStdout parsed

end

/-- A run that writes to standard output, with its settings filled in, a log file that can be opened
or none, and any level of notes, agrees with the filter on the options that its settings stand for;
settings that stand for none are refused with code 3. -/
theorem runSettings_agrees [Json.Machine] {name : Text} {indent : Option Int}
    (opened : openLog s w = .ok c)
    (level : s.logLevel = some least) (toStdout : s.output = some stdio)
    (format : s.format = some name) (asked : s.indent = some indent)
    (supplied : s.Supplies w bs) :
    (¬ IsFormat name ∨ (∃ n ∈ indent, n < 0) →
      (runSettings s w).exitCode = 3 ∧ (runSettings s w).stdout = []) ∧
    ∀ valid : IsFormat name, (∀ n ∈ indent, 0 ≤ n) →
      (runSettings s w).Answers
        (filterDocument (s.optionsWith ⟨name, valid⟩) {} (indented indent) (.octets bs)) := by
  refine ⟨runSettings_of_invalid opened level format asked, fun valid nonneg => ?_⟩
  have builds : s.Builds (s.optionsWith ⟨name, valid⟩) (indented indent) :=
    ⟨unwrapOptions_of_isFormat format valid, layout_of_nonneg asked nonneg⟩
  exact runSettings_answers_filterDocument opened level builds supplied toStdout

/-- An indent, the finest level of notes, and a log file that is not there yet. -/
def loggedSettings : Settings :=
  { indent := some (some 2), logLevel := some .debug, logFile := some "run.log" }

def accentedInput : Surroundings :=
  { directory := "/work", files := [], stdin := accentedOctets, time := "2024-01-01 00:00:00,000" }

section
attribute [local instance] Json.Machine.roomy

theorem runSettings_agrees_logged :
    (∃ c, openLog loggedSettings accentedInput = .ok c) ∧
      loggedSettings.Supplies accentedInput accentedOctets ∧
      (∃ t, filterDocument (loggedSettings.optionsWith .html) {} (indented (some 2))
        (.octets accentedOctets) = .ok t ∧ ∀ i, .surrogate i ∉ t) ∧
      (runSettings loggedSettings accentedInput).exitCode = 0 := by
  have opened : openLog loggedSettings accentedInput =
      .ok { log := some ["run.log"], files := [(["run.log"], .file [])] } := rfl
  have supplied : loggedSettings.Supplies accentedInput accentedOctets := rfl
  let t := Json.valueText (indented (some 2)) 0
    (Unwrap.document (loggedSettings.optionsWith .html) (.ofMembers accented)).encode
  have filtered : filterDocument (loggedSettings.optionsWith .html) {} (indented (some 2))
      (.octets accentedOctets) = .ok t := by
    rw [filterDocument_of_parse parse_accentedOctets,
      Document.render_of_parse parse_accentedOctets]
    rfl
  have encoded : Utf8.encode t = .ok ((Utf8.encode t).toOption.getD []) := by decide +kernel
  have clean := Utf8.exists_encode_eq_ok_iff.mp ⟨_, encoded⟩
  have answers := (runSettings_agrees opened rfl rfl rfl rfl supplied).2 (by decide) (by decide)
  exact ⟨⟨_, opened⟩, supplied, ⟨t, filtered, clean⟩, (answers.written t filtered clean).1⟩

end

end RawLift.CommandLine
