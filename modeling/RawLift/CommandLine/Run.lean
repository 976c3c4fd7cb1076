import RawLift.CommandLine.Arguments
import RawLift.Diagnostics
import RawLift.Filter

/-!
A run of the command as a function: from arguments, standard input and files to an exit code, the
two output streams and the files afterwards. Rich output counts as not installed. All files may be
opened, and standard output takes whatever it is given.
-/

namespace RawLift.CommandLine

open Utf8 (Octets)

/-- `directory` is the full path of the working directory; `time` heads the lines of a trace. What
is known of where a failure arose follows the note about an unexpected one. -/
structure Surroundings where
  directory : Text
  files : Files
  stdin : Octets
  time : Text
  origin : Failure → Text := fun _ => []

structure Outcome where
  exitCode : Nat
  stdout : Octets := []
  stderr : Text := []
  files : Files

/-! ### Options -/

/-- A setting as a value; one that is set to nothing is an empty list. -/
def valueOr {α : Type} (value : α → Value) (setting : Option α) : Value :=
  (setting.map value).getD (.array [])

def Settings.unwrapOptions (s : Settings) : Except OptionFault Unwrap.Options :=
  ({} : Unwrap.Options).updated
    { angle := some s.angle, images := some s.images, requireSpace := some s.requireSpace
      format := some (valueOr .string s.format) }

def Settings.layout (s : Settings) : Except OptionFault Json.Layout :=
  let ofIndent (indent : Option Int) : Value :=
    match indent with
    | some n => .number (.int n)
    | none => .null
  ({} : Json.Layout).updated { indent := some (valueOr ofIndent s.indent) }

/-! ### Output so far -/

structure Channels where
  stdout : Octets := []
  stderr : Text := []
  log : Option Place := none
  files : Files

/-- Text that the filter writes about itself holds no surrogate, so nothing is lost here. -/
def logOctets (t : Text) : Octets := (Utf8.encode t).toOption.getD []

/-- Notes go to standard error, and to the end of the log file if there is one. -/
def Channels.say (c : Channels) (style : LogStyle) (time : Text) (notes : List Note) : Channels :=
  let t := logText style time notes
  let files := match c.log with
    | some place => c.files.insert place ((c.files.content? place).getD [] ++ logOctets t)
    | none => c.files
  { c with stderr := c.stderr ++ t, files }

/-- The full path of a file, with no steps up in it. -/
def fullPath (directory path : Text) : Text :=
  let names := Path.names path
  let start := if names.head?.any Path.isRoot then [] else Path.names directory
  Path.ofNames (names.foldl Path.enter start)

/-- A log file is made if it is not there, and never emptied. -/
def openLog (s : Settings) (w : Surroundings) : Except Failure Channels :=
  match s.logFile.filter fun path => !path.isEmpty with
  | none => .ok { files := w.files }
  | some path =>
    let full := fullPath w.directory path
    match Path.fault? full, w.files.openPlace full (Path.collapsed path) with
    | some fault, _ => .error (.unusablePath fault)
    | none, .error fault => .error (.logFile path fault)
    | none, .ok place =>
      .ok { log := some place, files := w.files.insert place ((w.files.content? place).getD []) }

/-! ### The filter -/

def Settings.source (s : Settings) (w : Surroundings) (files : Files) : Source :=
  if s.input = stdio then .octetStream w.stdin else .path files s.input

variable [Json.Machine]

/-- Writes the document where the settings say. -/
def Channels.deliver (c : Channels) (s : Settings) (l : Json.Layout) (d : Document) :
    Channels × Option Failure :=
  match s.output with
  | none => (c, some .blankOutput)
  | some path =>
    if path = stdio then
      match d.renderTo l (.octetStream c.stdout) with
      | (.octetStream stdout, f) => ({ c with stdout }, f)
      | (_, f) => (c, f)
    else
      match d.renderTo l (.path c.files path) with
      | (.path files _, f) => ({ c with files }, f)
      | (_, f) => (c, f)

def filter (s : Settings) (style : LogStyle) (w : Surroundings) (c : Channels) :
    Channels × Option Failure :=
  match s.unwrapOptions, s.layout with
  | .error fault, _ => (c, some (.option fault))
  | .ok _, .error fault => (c, some (.option fault))
  | .ok o, .ok l =>
    let read := Document.parse {} (s.source w c.files)
    let c := c.say style w.time (readingNotes read)
    match read with
    | .error f => (c, some f)
    | .ok d =>
      let c := c.say style w.time (unwrappingNotes o d ++ [closingNote o d])
      c.deliver s l (Unwrap.document o d)

/-- Standard error has no form for a surrogate and shows its number instead. -/
def spelled (t : Text) : Text :=
  t.substitute fun
    | .surrogate i => Text.ofString "\\u" ++ Text.hexDigits 4 (0xD800 + i.val)
    | p => [p]

/-- How a failure is told; one without a class of its own is called unexpected. -/
def failureLine (f : Failure) : Text :=
  if f.report.isClassified then errorLine f.message
  else errorLine (Text.ofString "Unexpected error: " ++ f.message)

def finish : Channels × Option Failure → Outcome
  | (c, none) => ⟨0, c.stdout, c.stderr, c.files⟩
  | (c, some f) => ⟨f.exitCode, c.stdout, c.stderr ++ spelled (failureLine f), c.files⟩

/-- Only an unexpected failure is noted as well as told. -/
def failureNotes (w : Surroundings) : Option Failure → List Note
  | some f => if f.report.isClassified then [] else [unexpectedNote (w.origin f)]
  | none => []

/-- The log is opened before it is known whether there is a level for it. -/
def runSettings (s : Settings) (w : Surroundings) : Outcome :=
  match openLog s w, s.logLevel with
  | .error f, _ => finish ({ files := w.files }, some f)
  | .ok c, none => finish (c, some .blankLevel)
  | .ok c, some least =>
    let style : LogStyle := ⟨least, s.trace⟩
    let (c, f) := filter s style w c
    finish (c.say style w.time (failureNotes w f), f)

/-! ### The command -/

def versionText : Text := "paraunwrap 1.0.0\n"

def usageLine (fault : UsageFault) : Text :=
  Text.ofString "paraunwrap: error: " ++ fault.message ++ [.char '\n']

def flagHelp : Flag → String
  | .help => "show this text and stop"
  | .out => "write to this file instead of standard output"
  | .noAngle => "leave paragraphs that start with '<'"
  | .noImages => "leave paragraphs that are a single image"
  | .requireSpace => "unwrap '< ' paragraphs only"
  | .rawFormat => "format of the raw blocks made (html)"
  | .indent => "indent the result by this many spaces"
  | .logLevel => "least level of notes on standard error (WARNING)"
  | .logFile => "append the notes to this file as well"
  | .trace => "put time and origin before each note"
  | .rich => "rich error messages on a terminal"
  | .forceRich => "rich error messages anywhere"
  | .version => "show the version and stop"

def helpText : Text :=
  let flags := (Flag.names.map Prod.snd).eraseDups
  Text.ofString "usage: paraunwrap [options] [input]\n\n" ++
  Text.ofString "Unwraps the paragraphs of a JSON document from input or standard input.\n\n" ++
  flags.flatMap fun f =>
    Text.ofString "  " ++ f.label ++ Text.ofString "\n      " ++ Text.ofString (flagHelp f) ++
      [.char '\n']

def run (arguments : List Text) (w : Surroundings) (m : Manner := .older) : Outcome :=
  match parseArguments arguments m with
  | .ok s => runSettings s w
  | .error .help => { exitCode := 0, stdout := logOctets helpText, files := w.files }
  | .error .version => { exitCode := 0, stdout := logOctets versionText, files := w.files }
  | .error (.usage fault) =>
    { exitCode := 2, stderr := spelled (usageLine fault), files := w.files }

/-- The machine that a run takes itself to be on: one without memory for an indent of 64 GiB. -/
instance machine : Json.Machine := ⟨Nat.pow 2 36⟩

end RawLift.CommandLine
