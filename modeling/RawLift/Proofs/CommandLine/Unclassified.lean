import RawLift.Proofs.CommandLine.Agreement

/-!
The failures that have no class. A run ends with the code 1 exactly when something that the filter
is built on fails and nothing in between says what that means: an indent that is set to nothing, an
input path too long to look up, an integer with too many digits, an output that is set to nothing or
that the system cannot be asked for, a layout too wide, and a text that UTF-8 has no octets for.

That is of a run whose log, if it has one, could be opened; before that, only a path that the system
cannot be asked for has no class. What lies outside a run is not looked at: files that are there but
may not be opened, and a standard output that fails, is not flushed or takes anything but UTF-8.
-/

namespace RawLift

/-! ### Codes and classes -/

theorem Failure.exitCode_eq_one_iff (f : Failure) :
    f.exitCode = 1 ↔ f.report.isClassified = false := by
  cases f with
  | option fault =>
    cases fault <;> simp [exitCode, report, OptionFault.report, Report.exitCode,
      Report.isClassified]
  | unwritable leaf =>
    cases leaf <;> simp [exitCode, report, Report.exitCode, Report.isClassified]
  | _ =>
    simp [exitCode, report, Report.exitCode, Report.isClassified, Report.missingFileAt,
      Report.outputAt, Report.missingPackages]

/-- What can be read is refused without a class only if it cannot be looked up. -/
theorem Source.read_unclassified_iff {s : Source} {f : Failure} (refused : s.read = .error f) :
    f.report.isClassified = false ↔ ∃ fault, f = .inputLookup fault := by
  revert refused
  fun_cases read s with
  | case1 | case2 => simp
  | case3 bs | case4 bs =>
    rw [decoded]
    split <;> rintro ⟨⟩
    simp [Failure.report, Report.isClassified]
  | case7 files p there bs given =>
    rw [decoded]
    split <;> rintro ⟨⟩
    simp [Failure.report, Report.isClassified]
  | _ =>
    rintro ⟨⟩
    simp [Failure.report, Report.isClassified, Report.missingFileAt]

namespace Document

theorem ofText_unclassified_iff {rule : RootRule} {t : Text} {f : Failure}
    (refused : ofText rule t = .error f) :
    f.report.isClassified = false ↔
      ∃ digits, Json.read t = .error (.longInteger digits) ∧ f = .longInteger digits := by
  revert refused
  fun_cases ofText rule t with
  | case2 digits read =>
    rintro ⟨⟩
    simp [Failure.report, Report.isClassified, read]
  | case4 => simp
  | _ =>
    rintro ⟨⟩
    simp [Failure.report, Report.isClassified]

/-- Parsing fails without a class where an input cannot be looked up or an integer is too long. -/
theorem parse_unclassified_iff {rule : RootRule} {src : Source} {f : Failure} :
    parse rule src = .error f ∧ f.report.isClassified = false ↔
      (∃ fault, src.read = .error (.inputLookup fault) ∧ f = .inputLookup fault) ∨
      ∃ t digits, src.read = .ok t ∧ Json.read t = .error (.longInteger digits) ∧
        f = .longInteger digits := by
  cases given : src.read with
  | error f' =>
    rw [parse_of_read_error given, Except.error.injEq]
    constructor
    · rintro ⟨rfl, unclassified⟩
      obtain ⟨fault, rfl⟩ := (Source.read_unclassified_iff given).mp unclassified
      exact .inl ⟨fault, rfl, rfl⟩
    · rintro (⟨fault, same, rfl⟩ | ⟨t, digits, other, -⟩)
      · exact ⟨Except.error.inj same, rfl⟩
      · cases other
  | ok t =>
    rw [parse_of_read given]
    constructor
    · rintro ⟨refused, unclassified⟩
      obtain ⟨digits, read, rfl⟩ := (ofText_unclassified_iff refused).mp unclassified
      exact .inr ⟨t, digits, rfl, read, rfl⟩
    · rintro (⟨fault, other, -⟩ | ⟨_, digits, same, read, rfl⟩)
      · cases other
      · obtain rfl := Except.ok.inj same
        exact ⟨by rw [ofText, read], rfl⟩

end Document

namespace CommandLine

variable {s : Settings} {w : Surroundings} {c : Channels} {style : LogStyle} {f : Failure}

/-! ### Where the text goes -/

/-- There is room for a text on a path: on standard output, or in a file that can be opened. -/
def HasRoom (files : Files) (path : Text) : Prop :=
  path = stdio ∨ (Path.fault? (Path.shown path) = none ∧
    ∃ place, files.openPlace (Path.shown path) (Path.names path) = .ok place)

theorem hasRoom_iff_of_sameDirectories {before after : Files}
    (same : Files.SameDirectories before after) (path : Text) :
    HasRoom after path ↔ HasRoom before path := by
  have opens {fs fs' : Files} (same : Files.SameDirectories fs fs') (room : HasRoom fs path) :
      HasRoom fs' path :=
    room.imp_right fun ⟨sound, place, opened⟩ => ⟨sound, place, same.openPlace opened⟩
  exact ⟨opens same.symm, opens same⟩

section

variable {path t : Text}

theorem write_of_hasRoom (room : HasRoom c.files path) :
    ((c.target path).write t).2 =
      match Utf8.encode t with
      | .ok _ => none
      | .error fault => some (.surrogates fault) := by
  rw [Channels.target]
  by_cases standard : path = stdio
  · rw [if_pos standard, Target.write]
    cases Utf8.encode t <;> rfl
  · obtain ⟨sound, place, opened⟩ := room.resolve_left standard
    rw [if_neg standard, Target.write, sound, opened]
    cases Utf8.encode t <;> rfl

theorem write_of_fault (named : path ≠ stdio) {fault : PathFault}
    (unusable : Path.fault? (Path.shown path) = some fault) :
    ((c.target path).write t).2 = some (.unusablePath fault) := by
  rw [Channels.target, if_neg named, Target.write, unusable]

theorem write_of_openPlace_error (named : path ≠ stdio)
    (sound : Path.fault? (Path.shown path) = none) {fault : SystemFault}
    (refused : c.files.openPlace (Path.shown path) (Path.names path) = .error fault) :
    ((c.target path).write t).2 = some (.output (Path.shown path) fault) := by
  rw [Channels.target, if_neg named, Target.write, sound, refused]

/-- A path has room, or the system cannot be asked for it, or it can be and refuses. -/
theorem hasRoom_or_refused (files : Files) (path : Text) :
    HasRoom files path ∨ (path ≠ stdio ∧
      ((∃ fault, Path.fault? (Path.shown path) = some fault) ∨
        (Path.fault? (Path.shown path) = none ∧
          ∃ fault, files.openPlace (Path.shown path) (Path.names path) = .error fault))) := by
  by_cases standard : path = stdio
  · exact .inl (.inl standard)
  · cases sound : Path.fault? (Path.shown path) with
    | some fault => exact .inr ⟨standard, .inl ⟨fault, rfl⟩⟩
    | none =>
      cases opened : files.openPlace (Path.shown path) (Path.names path) with
      | ok place => exact .inl (.inr ⟨sound, place, opened⟩)
      | error fault => exact .inr ⟨standard, .inr ⟨rfl, fault, rfl⟩⟩

/-- A text is refused without a class by a path that the system cannot be asked for, and wherever
there is room for it but no octets. -/
theorem write_unclassified_iff :
    ((c.target path).write t).2 = some f ∧ f.report.isClassified = false ↔
      (path ≠ stdio ∧ ∃ fault, Path.fault? (Path.shown path) = some fault ∧
        f = .unusablePath fault) ∨
      (HasRoom c.files path ∧ ∃ fault, Utf8.encode t = .error fault ∧ f = .surrogates fault) := by
  constructor
  · rintro ⟨failed, unclassified⟩
    rcases hasRoom_or_refused c.files path with
      room | ⟨named, ⟨fault, unusable⟩ | ⟨sound, fault, refused⟩⟩
    · rw [write_of_hasRoom room] at failed
      cases encoded : Utf8.encode t with
      | ok bs => simp [encoded] at failed
      | error fault =>
        rw [encoded] at failed
        exact .inr ⟨room, fault, rfl, (Option.some.inj failed).symm⟩
    · rw [write_of_fault named unusable] at failed
      exact .inl ⟨named, fault, unusable, (Option.some.inj failed).symm⟩
    · rw [write_of_openPlace_error named sound refused] at failed
      cases failed
      cases unclassified
  · rintro (⟨named, fault, unusable, rfl⟩ | ⟨room, fault, encoded, rfl⟩)
    · exact ⟨write_of_fault named unusable, rfl⟩
    · rw [write_of_hasRoom room, encoded]
      exact ⟨rfl, rfl⟩

end

/-! ### Every failure without a class -/

/-- The failures without a class that the filter ends with, among the files that are there once the
log is open, and what brings each of them about. -/
inductive Settings.Leaks [Json.Machine] (s : Settings) (w : Surroundings) (files : Files) :
    Failure → Prop where
  /-- An indent that is set to nothing is compared with a number. -/
  | blankIndent {o} : s.unwrapOptions = .ok o → s.indent = none →
      s.Leaks w files (.option (.unordered (.array [])))
  | inputLookup {o l fault} : s.Builds o l → s.input ≠ stdio →
      files.exists? s.input = .error fault → s.Leaks w files (.inputLookup fault)
  | longInteger {o l t digits} : s.Builds o l → (s.source w files).read = .ok t →
      Json.read t = .error (.longInteger digits) → s.Leaks w files (.longInteger digits)
  | blankOutput {o l d} : s.Builds o l → Document.parse {} (s.source w files) = .ok d →
      s.output = none → s.Leaks w files .blankOutput
  | wideIndent {o l d path excess} : s.Builds o l →
      Document.parse {} (s.source w files) = .ok d → s.output = some path →
      l.excess? = some excess → s.Leaks w files (.wideIndent excess)
  | unusablePath {o l t path fault} : s.Builds o l →
      filterDocument o {} l (s.source w files) = .ok t → s.output = some path → path ≠ stdio →
      Path.fault? (Path.shown path) = some fault → s.Leaks w files (.unusablePath fault)
  | surrogates {o l t path fault} : s.Builds o l →
      filterDocument o {} l (s.source w files) = .ok t → s.output = some path →
      HasRoom files path → Utf8.encode t = .error fault → s.Leaks w files (.surrogates fault)

/-- Only an input that is named can fail to be looked up. -/
theorem read_eq_inputLookup_iff {files : Files} {fault : SystemFault} :
    (s.source w files).read = .error (.inputLookup fault) ↔
      s.input ≠ stdio ∧ files.exists? s.input = .error fault := by
  have decoded_ne (bs : Utf8.Octets) : Source.decoded bs ≠ .error (.inputLookup fault) := by
    rw [Source.decoded]
    split <;> simp
  rw [Settings.source]
  by_cases standard : s.input = stdio
  · rw [if_pos standard]
    simp [Source.read, decoded_ne, standard]
  · rw [if_neg standard, Source.read]
    cases there : files.exists? s.input with
    | error fault' => simp [standard]
    | ok found =>
      cases found with
      | false => simp
      | true =>
        cases files.read (Path.shown s.input) with
        | error fault' => simp
        | ok bs => simp [decoded_ne]

section

variable [Json.Machine] {o : Unwrap.Options} {l : Json.Layout} {d : Document} {path t : Text}
  (openable : c.LogOpenable) (builds : s.Builds o l)
include openable builds

theorem filter_failure_of_blank (parsed : Document.parse {} (s.source w c.files) = .ok d)
    (blank : s.output = none) : (filter s style w c).2 = some .blankOutput := by
  obtain ⟨noted, -, filtered⟩ := filter_of_parse style builds openable parsed
  rw [filtered, Channels.deliver, blank]

theorem filter_failure_of_excess {excess : Json.Layout.Excess}
    (parsed : Document.parse {} (s.source w c.files) = .ok d) (toPath : s.output = some path)
    (wide : l.excess? = some excess) :
    (filter s style w c).2 = some (.wideIndent excess) := by
  obtain ⟨noted, -, filtered⟩ := filter_of_parse style builds openable parsed
  have refused := Document.render_of_parse parsed o l
  rw [wide] at refused
  rw [filtered, Channels.deliver_of_render_error toPath refused]

/-- Once there is a text, it is only writing it that can fail. -/
theorem filter_unclassified_iff
    (written : filterDocument o {} l (s.source w c.files) = .ok t)
    (toPath : s.output = some path) :
    (filter s style w c).2 = some f ∧ f.report.isClassified = false ↔
      (path ≠ stdio ∧ ∃ fault, Path.fault? (Path.shown path) = some fault ∧
        f = .unusablePath fault) ∨
      (HasRoom c.files path ∧ ∃ fault, Utf8.encode t = .error fault ∧ f = .surrogates fault) := by
  obtain ⟨d, parsed, rendered⟩ := filterDocument_eq_ok_iff.mp written
  obtain ⟨noted, same, filtered⟩ := filter_of_parse style builds openable parsed
  rw [filtered, Channels.deliver_failure toPath, Document.renderTo, rendered,
    ← hasRoom_iff_of_sameDirectories same.directories]
  exact write_unclassified_iff

variable (failed : (filter s style w c).2 = some f) (unclassified : f.report.isClassified = false)
include failed unclassified

theorem leaks_of_parse_error {refusal : Failure}
    (refused : Document.parse {} (s.source w c.files) = .error refusal) :
    s.Leaks w c.files f := by
  obtain ⟨noted, -, filtered⟩ := filter_of_parse_error style builds openable refused
  rw [filtered] at failed
  obtain rfl : refusal = f := Option.some.inj failed
  rcases Document.parse_unclassified_iff.mp ⟨refused, unclassified⟩ with
    ⟨fault, unread, rfl⟩ | ⟨t, digits, given, long, rfl⟩
  · obtain ⟨named, unfound⟩ := read_eq_inputLookup_iff.mp unread
    exact .inputLookup builds named unfound
  · exact .longInteger builds given long

theorem leaks_of_parse (parsed : Document.parse {} (s.source w c.files) = .ok d) :
    s.Leaks w c.files f := by
  cases toPath : s.output with
  | none =>
    rw [filter_failure_of_blank openable builds parsed toPath] at failed
    cases failed
    exact .blankOutput builds parsed toPath
  | some path =>
    have rendered := Document.render_of_parse parsed o l
    cases wide : l.excess? with
    | some excess =>
      rw [filter_failure_of_excess openable builds parsed toPath wide] at failed
      cases failed
      exact .wideIndent builds parsed toPath wide
    | none =>
      rw [wide] at rendered
      have written := filterDocument_eq_ok_iff.mpr ⟨d, parsed, rendered⟩
      rcases (filter_unclassified_iff openable builds written toPath).mp ⟨failed, unclassified⟩ with
        ⟨named, fault, unusable, rfl⟩ | ⟨room, fault, encoded, rfl⟩
      · exact .unusablePath builds written toPath named unusable
      · exact .surrogates builds written toPath room encoded

end

theorem leaks_of_filter [Json.Machine] (openable : c.LogOpenable)
    (failed : (filter s style w c).2 = some f) (unclassified : f.report.isClassified = false) :
    s.Leaks w c.files f := by
  cases options : s.unwrapOptions with
  | error fault =>
    obtain ⟨given, rfl⟩ := exists_format_of_unwrapOptions_error options
    rw [filter_of_unwrapOptions_error options] at failed
    cases failed
    cases unclassified
  | ok o =>
    cases layout : s.layout with
    | error fault =>
      rw [filter_of_layout_error options layout] at failed
      obtain rfl : .option fault = f := Option.some.inj failed
      rcases layout_error layout with ⟨blank, rfl⟩ | ⟨n, rfl⟩
      · exact .blankIndent options blank
      · cases unclassified
    | ok l =>
      cases parsed : Document.parse {} (s.source w c.files) with
      | error refusal =>
        exact leaks_of_parse_error openable ⟨options, layout⟩ failed unclassified parsed
      | ok d => exact leaks_of_parse openable ⟨options, layout⟩ failed unclassified parsed

theorem filter_of_leaks [Json.Machine] (style : LogStyle) (openable : c.LogOpenable)
    (leaks : s.Leaks w c.files f) :
    (filter s style w c).2 = some f ∧ f.report.isClassified = false := by
  cases leaks with
  | blankIndent options blank =>
    rw [filter_of_layout_error options (layout_of_blank blank)]
    exact ⟨rfl, rfl⟩
  | @inputLookup _ _ fault builds named unfound =>
    have unread : (s.source w c.files).read = .error (.inputLookup fault) :=
      read_eq_inputLookup_iff.mpr ⟨named, unfound⟩
    obtain ⟨refused, unclassified⟩ := Document.parse_unclassified_iff.mpr
      (.inl ⟨fault, unread, rfl⟩)
    obtain ⟨noted, -, filtered⟩ := filter_of_parse_error style builds openable refused
    rw [filtered]
    exact ⟨rfl, unclassified⟩
  | longInteger builds given long =>
    obtain ⟨refused, unclassified⟩ := Document.parse_unclassified_iff.mpr
      (.inr ⟨_, _, given, long, rfl⟩)
    obtain ⟨noted, -, filtered⟩ := filter_of_parse_error style builds openable refused
    rw [filtered]
    exact ⟨rfl, unclassified⟩
  | blankOutput builds parsed blank =>
    exact ⟨filter_failure_of_blank openable builds parsed blank, rfl⟩
  | wideIndent builds parsed toPath wide =>
    exact ⟨filter_failure_of_excess openable builds parsed toPath wide, rfl⟩
  | unusablePath builds written toPath named unusable =>
    exact (filter_unclassified_iff openable builds written toPath).mpr
      (.inl ⟨named, _, unusable, rfl⟩)
  | surrogates builds written toPath room encoded =>
    exact (filter_unclassified_iff openable builds written toPath).mpr
      (.inr ⟨room, _, encoded, rfl⟩)

theorem exitCodeOf_eq_one_iff (f : Option Failure) :
    exitCodeOf f = 1 ↔ ∃ g, f = some g ∧ g.report.isClassified = false := by
  cases f with
  | none => simp [exitCodeOf]
  | some g => simp [exitCodeOf, Failure.exitCode_eq_one_iff]

/-! ### Before the log is open -/

theorem openLog_unclassified_iff (refused : openLog s w = .error f) :
    f.report.isClassified = false ↔ ∃ fault, f = .unusablePath fault := by
  rw [openLog] at refused
  split at refused
  · cases refused
  · dsimp only at refused
    split at refused <;> cases refused <;> simp [Failure.report, Report.isClassified]

theorem runSettings_of_openLog_error [Json.Machine] (refused : openLog s w = .error f) :
    (runSettings s w).exitCode = 1 ↔ ∃ fault, f = .unusablePath fault := by
  rw [← openLog_unclassified_iff refused, ← Failure.exitCode_eq_one_iff, runSettings, refused]
  rfl

/-! ### Once it is open -/

/-- Once the log is open, the failures without a class are exactly those that are listed, and the
code 1 tells of one of them. -/
theorem runSettings_unclassified_iff [Json.Machine] {least : Level} (opened : openLog s w = .ok c)
    (level : s.logLevel = some least) :
    (∀ f, (filter s ⟨least, s.trace⟩ w c).2 = some f ∧ f.report.isClassified = false ↔
      s.Leaks w c.files f) ∧
    ((runSettings s w).exitCode = 1 ↔ ∃ f, s.Leaks w c.files f) := by
  have openable := (openLog_kept opened).2.1
  have each (f : Failure) : (filter s ⟨least, s.trace⟩ w c).2 = some f ∧
      f.report.isClassified = false ↔ s.Leaks w c.files f :=
    ⟨fun ⟨failed, unclassified⟩ => leaks_of_filter openable failed unclassified,
      filter_of_leaks _ openable⟩
  refine ⟨each, ?_⟩
  rw [(runSettings_of_openLog opened level rfl).1, exitCodeOf_eq_one_iff]
  exact exists_congr each

section
attribute [local instance] Json.Machine.roomy

/-- More columns of indent than can be counted. -/
def countlessSettings : Settings := { indent := some (some (2 ^ 63)) }

theorem runSettings_unclassified_countless :
    openLog countlessSettings accentedInput = .ok { files := [] } ∧
      (runSettings countlessSettings accentedInput).exitCode = 1 := by
  have opened : openLog countlessSettings accentedInput = .ok { files := [] } := rfl
  have builds : countlessSettings.Builds (countlessSettings.optionsWith .html)
      { indent := some (2 ^ 63) } := ⟨rfl, rfl⟩
  have leaks : countlessSettings.Leaks accentedInput [] (.wideIndent .count) :=
    .wideIndent builds parse_accentedOctets rfl rfl
  exact ⟨opened, (runSettings_unclassified_iff opened rfl).2.mpr ⟨_, leaks⟩⟩

/-- Half of a surrogate pair as the only block. -/
def halfPairMembers : Members := [(blocksKey, .array [.string [.surrogate ⟨0, by decide⟩]])]

def halfPairText : Text := "\x7b\"blocks\":[\"\\ud800\"]\x7d"

theorem read_halfPairText : Json.read halfPairText = .ok (.object halfPairMembers) := by
  have written : halfPairText = Json.valueText ⟨none, true⟩ 0 (.object halfPairMembers) := rfl
  have readable : (Value.object halfPairMembers).Readable := by
    rw [Value.readable_object]
    refine ⟨by decide, ?_⟩
    simp [halfPairMembers, Value.Readable.string]
  rw [written]
  exact Json.read_valueText readable (by decide)

def halfPairInput : Surroundings :=
  { directory := "/work", files := [], stdin := logOctets halfPairText,
    time := "2024-01-01 00:00:00,000" }

/-- A run of the plain command ends with a failure without a class, and with the code 1. -/
theorem filter_halfPairInput_unclassified :
    ∃ c f, openLog {} halfPairInput = .ok c ∧ (filter {} {} halfPairInput c).2 = some f ∧
      f.report.isClassified = false ∧ (runSettings {} halfPairInput).exitCode = 1 := by
  have opened : openLog {} halfPairInput = .ok { files := [] } := rfl
  have gives : (Source.octets halfPairInput.stdin).Gives halfPairText := .octets rfl
  have parsed : Document.parse {} (.octets halfPairInput.stdin) =
      .ok (.ofMembers halfPairMembers) := by
    rw [Document.parse_of_gives gives]
    exact Document.ofText_of_read read_halfPairText (by decide)
  have written := Document.render_of_parse parsed {} {}
  rw [← filterDocument_of_parse parsed] at written
  have leaks : Settings.Leaks {} halfPairInput [] (.surrogates ⟨0, 12, 1⟩) :=
    .surrogates ⟨rfl, rfl⟩ written rfl (.inl rfl) rfl
  obtain ⟨failed, unclassified⟩ := filter_of_leaks {} (openLog_kept opened).2.1 leaks
  refine ⟨_, _, opened, failed, unclassified, ?_⟩
  rw [(runSettings_of_openLog opened rfl rfl).1, exitCodeOf_eq_one_iff]
  exact ⟨_, failed, unclassified⟩

end

end CommandLine

end RawLift
