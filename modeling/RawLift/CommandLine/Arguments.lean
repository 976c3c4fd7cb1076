import RawLift.CommandLine.Log
import RawLift.Text.Integer

/-!
The arguments of the command. An option may be given by any beginning of its long name that no
other option shares, its value in the same argument or the next one; after `--` nothing is an
option. At most one argument that is no option names the input. What is attached to an option is
read in an older manner or in a newer one.
-/

namespace RawLift.CommandLine

inductive Flag where
  | help
  | out
  | noAngle
  | noImages
  | requireSpace
  | rawFormat
  | indent
  | logLevel
  | logFile
  | trace
  | rich
  | forceRich
  | version
  deriving DecidableEq

namespace Flag

/-- All names in the order in which messages list them. -/
def names : List (Text × Flag) :=
  [("-h", .help), ("--help", .help), ("-o", .out), ("--out", .out), ("--no-angle", .noAngle),
    ("--no-images", .noImages), ("--require-space", .requireSpace), ("--raw-format", .rawFormat),
    ("--indent", .indent), ("--log-level", .logLevel), ("--log-file", .logFile),
    ("--trace", .trace), ("--rich", .rich), ("--force-rich", .forceRich), ("--version", .version)]

def takesValue : Flag → Bool
  | out | rawFormat | indent | logLevel | logFile => true
  | _ => false

/-- The names of one option as a message gives them. -/
def label (f : Flag) : Text :=
  Text.join [.char '/'] ((names.filter fun n => n.2 = f).map Prod.fst)

end Flag

def dash : CodePoint := .char '-'

def equalsSign : CodePoint := .char '='

def stdio : Text := [dash]

def separator : Text := [dash, dash]

/-- Options that take a value are `none` if they have been set to nothing; to have no indent is a
value. -/
structure Settings where
  input : Text := stdio
  output : Option Text := some stdio
  angle : Bool := true
  images : Bool := true
  requireSpace : Bool := false
  format : Option Text := some "html"
  indent : Option (Option Int) := some none
  logLevel : Option Level := some .warning
  logFile : Option Text := none
  trace : Bool := false
  rich : Bool := false
  forceRich : Bool := false
  deriving DecidableEq

inductive UsageFault where
  | ambiguous (given : Text) (candidates : List Text)
  | missingValue (flag : Flag)
  | unexpectedValue (flag : Flag) (given : Text)
  | notAnInteger (flag : Flag) (given : Text)
  | notALevel (flag : Flag) (given : Text)
  | unrecognized (given : List Text)
  deriving DecidableEq

/-- Why the arguments do not lead to a run. -/
inductive Stop where
  | usage (fault : UsageFault)
  | help
  | version
  deriving DecidableEq

namespace UsageFault

def about (flag : Flag) (what : Text) : Text :=
  Text.ofString "argument " ++ flag.label ++ Text.ofString ": " ++ what

def message : UsageFault → Text
  | ambiguous given candidates =>
    Text.ofString "ambiguous option: " ++ given ++ Text.ofString " could match " ++
      Text.join ", " candidates
  | missingValue flag => about flag "expected one argument"
  | unexpectedValue flag given =>
    about flag (Text.ofString "ignored explicit argument " ++ given.quoted)
  | notAnInteger flag given => about flag (Text.ofString "invalid int value: " ++ given.quoted)
  | notALevel flag given =>
    about flag (Text.ofString "invalid choice: " ++ given.quoted ++
      Text.ofString " (choose from " ++
      Text.join ", " (Level.all.map fun l => l.name.quoted) ++ [.char ')'])
  | unrecognized given =>
    Text.ofString "unrecognized arguments: " ++ Text.join [.char ' '] given

end UsageFault

/-! ### One argument -/

/-- How a parser of arguments takes what is attached to an option. In the older manner a `--` is
never a value, and an option with `--` attached is set to nothing; all that is attached to `-h` is
looked through before there is any help. In the newer manner an option is given the `--`, and there
is help as soon as what is attached to `-h` begins with anything but an option. -/
inductive Manner where
  | older
  | newer
  deriving DecidableEq

/-- A value in the same argument as its option, behind a sign or right after a short name. -/
structure Attached where
  toShort : Bool
  signed : Bool
  value : Text
  deriving DecidableEq

inductive Reading where
  | operand
  | unknown
  | option (flag : Flag) (attached : Option Attached)
  deriving DecidableEq

/-- The text before the first equals sign, and the text after it if there is one. -/
def splitSign : Text → Text × Option Text
  | [] => ([], none)
  | p :: rest =>
    if p = equalsSign then ([], some rest)
    else
      let (before, after) := splitSign rest
      (p :: before, after)

def isDigit (p : CodePoint) : Bool := (Text.decimalDigit? p).isSome

/-- A minus sign and digits, with a point before the last of them or none, and nothing else but a
line feed at the end. -/
def looksNegative (t : Text) : Bool :=
  match t with
  | p :: rest =>
    let body := if rest.getLast? = some (.char '\n') then rest.dropLast else rest
    let whole := body.takeWhile isDigit
    p = dash &&
      (match body.dropWhile isDigit with
        | [] => !whole.isEmpty
        | q :: fraction => q = .char '.' && !fraction.isEmpty && fraction.all isDigit)
  | [] => false

/-- The options that an argument could be short for. -/
def candidates (t : Text) : List (Text × Flag × Option Attached) :=
  if separator.isPrefixOf t then
    let (name, value) := splitSign t
    (Flag.names.filter fun n => name.isPrefixOf n.1).map fun n =>
      (n.1, n.2, value.map (⟨false, true, ·⟩))
  else
    Flag.names.filterMap fun n =>
      if n.1 = t.take 2 then some (n.1, n.2, some ⟨true, false, t.drop 2⟩)
      else if t.isPrefixOf n.1 then some (n.1, n.2, none)
      else none

def readUnlisted (t : Text) : Except UsageFault Reading :=
  match candidates t with
  | [(_, flag, attached)] => .ok (.option flag attached)
  | [] =>
    if looksNegative t || .char ' ' ∈ t then .ok .operand else .ok .unknown
  | several => .error (.ambiguous t (several.map Prod.fst))

def readArgument (t : Text) : Except UsageFault Reading :=
  if t.head? ≠ some dash then .ok .operand
  else
    match Flag.names.lookup t with
    | some flag => .ok (.option flag none)
    | none =>
      if t.length = 1 then .ok .operand
      else
        match splitSign t with
        | (name, some value) =>
          match Flag.names.lookup name with
          | some flag => .ok (.option flag (some ⟨!separator.isPrefixOf name, true, value⟩))
          | none => readUnlisted t
        | (_, none) => readUnlisted t

/-! ### All arguments -/

inductive Word where
  | separator
  | argument (text : Text) (reading : Reading)
  deriving DecidableEq

def Word.text : Word → Text
  | separator => CommandLine.separator
  | argument t _ => t

/-- All arguments are told apart before any takes effect. -/
def readWords : List Text → Except UsageFault (List Word)
  | [] => .ok []
  | t :: rest =>
    if t = separator then .ok (.separator :: rest.map (.argument · .operand))
    else do
      let reading ← readArgument t
      .ok (.argument t reading :: (← readWords rest))

/-- What has been taken in so far; `extra` holds what nothing has taken, in order. -/
structure Progress where
  settings : Settings := {}
  input : Option Text := none
  extra : List Text := []
  deriving DecidableEq

def Settings.set (s : Settings) (flag : Flag) (value : Text) : Except Stop Settings :=
  match flag with
  | .out => .ok { s with output := some value }
  | .rawFormat => .ok { s with format := some value }
  | .indent =>
    match Text.integer? value with
    | some n => .ok { s with indent := some (some n) }
    | none => .error (.usage (.notAnInteger flag value))
  | .logLevel =>
    match Level.ofName? value with
    | some l => .ok { s with logLevel := some l }
    | none => .error (.usage (.notALevel flag value))
  | .logFile => .ok { s with logFile := some value }
  | _ => .ok s

/-- Sets an option to nothing. -/
def Settings.clear (s : Settings) : Flag → Settings
  | .out => { s with output := none }
  | .rawFormat => { s with format := none }
  | .indent => { s with indent := none }
  | .logLevel => { s with logLevel := none }
  | .logFile => { s with logFile := none }
  | _ => s

def Settings.attach (s : Settings) (m : Manner) (flag : Flag) (value : Text) :
    Except Stop Settings :=
  if m = .older ∧ value = separator then .ok (s.clear flag) else s.set flag value

def Settings.turn (s : Settings) : Flag → Except Stop Settings
  | .help => .error .help
  | .version => .error .version
  | .noAngle => .ok { s with angle := false }
  | .noImages => .ok { s with images := false }
  | .requireSpace => .ok { s with requireSpace := true }
  | .trace => .ok { s with trace := true }
  | .rich => .ok { s with rich := true }
  | .forceRich => .ok { s with forceRich := true }
  | _ => .ok s

/-- What is attached to `-h` are more short options, of which the last may still lack its value.
Anything else would be a value for the request for help itself, which takes none. -/
def optionsBehindHelp : Text → Except UsageFault (Option Flag)
  | [] => .error (.unexpectedValue .help [])
  | p :: rest =>
    match Flag.names.lookup [dash, p], rest with
    | none, _ => .error (.unexpectedValue .help (p :: rest))
    | some .help, [] => .ok none
    | some .help, q :: more => optionsBehindHelp (q :: more)
    | some flag, [] => .ok (some flag)
    | some _, _ :: _ => .ok none

/-- The same where an unknown option comes to nothing, as there is help before it. Only what is
behind a sign, or begins with a dash, would be a value. -/
def knownBehindHelp (signed : Bool) : Text → Except UsageFault (Option Flag)
  | [] => .error (.unexpectedValue .help [])
  | p :: rest =>
    if signed || p = dash then .error (.unexpectedValue .help (p :: rest))
    else
      match Flag.names.lookup [dash, p], rest with
      | none, _ => .ok none
      | some .help, [] => .ok none
      | some .help, q :: more =>
        if q = equalsSign then knownBehindHelp true more else knownBehindHelp false (q :: more)
      | some flag, [] => .ok (some flag)
      | some _, _ :: _ => .ok none

def behindHelp (m : Manner) (attached : Attached) : Except UsageFault (Option Flag) :=
  match m with
  | .older => optionsBehindHelp attached.value
  | .newer => knownBehindHelp attached.signed attached.value

def takeWords (m : Manner) (p : Progress) : List Word → Except Stop Progress
  | [] => .ok p
  | .separator :: rest =>
    match p.input, rest with
    | some _, rest => .ok { p with extra := p.extra ++ separator :: rest.map Word.text }
    | none, [] => .ok p
    | none, w :: rest =>
      .ok { p with input := some w.text, extra := p.extra ++ rest.map Word.text }
  | .argument t .unknown :: rest => takeWords m { p with extra := p.extra ++ [t] } rest
  | .argument t .operand :: rest =>
    match p.input with
    | some _ => takeWords m { p with extra := p.extra ++ [t] } rest
    | none =>
      match rest with
      | .separator :: rest =>
        .ok { p with input := some t, extra := p.extra ++ rest.map Word.text }
      | rest => takeWords m { p with input := some t } rest
  | .argument _ (.option flag (some attached)) :: rest =>
    if flag.takesValue then do
      takeWords m { p with settings := ← p.settings.attach m flag attached.value } rest
    else if flag = .help ∧ attached.toShort then
      match behindHelp m attached, rest with
      | .error fault, _ => .error (.usage fault)
      | .ok (some _), .argument _ .operand :: _ => .error .help
      | .ok (some last), _ => .error (.usage (.missingValue last))
      | .ok none, _ => .error .help
    else .error (.usage (.unexpectedValue flag attached.value))
  | .argument _ (.option flag none) :: rest =>
    if flag.takesValue then
      match rest with
      | .argument value .operand :: rest => do
        takeWords m { p with settings := ← p.settings.set flag value } rest
      | _ => .error (.usage (.missingValue flag))
    else do
      takeWords m { p with settings := ← p.settings.turn flag } rest

def parseArguments (arguments : List Text) (m : Manner := .older) : Except Stop Settings := do
  let words ← (readWords arguments).mapError .usage
  let p ← takeWords m {} words
  if p.extra.isEmpty then .ok { p.settings with input := p.input.getD stdio }
  else .error (.usage (.unrecognized p.extra))

end RawLift.CommandLine
