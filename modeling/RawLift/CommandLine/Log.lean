import RawLift.Source
import RawLift.Unwrap

/-!
What a run says about itself. Each note has a level and the part of the program that it is from; a
note is kept if its level is at least the one asked for.
-/

namespace RawLift.CommandLine

inductive Level where
  | debug
  | info
  | warning
  | error
  | critical
  deriving DecidableEq

namespace Level

def all : List Level := [debug, info, warning, error, critical]

def name : Level → Text
  | debug => "DEBUG"
  | info => "INFO"
  | warning => "WARNING"
  | error => "ERROR"
  | critical => "CRITICAL"

def rank : Level → Nat
  | debug => 10
  | info => 20
  | warning => 30
  | error => 40
  | critical => 50

def ofName? (t : Text) : Option Level := all.find? fun l => l.name = t

end Level

inductive Part where
  | reader
  | markup
  | walk
  | command
  deriving DecidableEq

def Part.name : Part → Text
  | reader => "paraunwrap.parsers.pandoc_json"
  | markup => "paraunwrap.transforms.rewrite"
  | walk => "paraunwrap.transforms.unwrap"
  | command => "paraunwrap.cli"

structure Note where
  level : Level
  part : Part
  message : Text
  deriving DecidableEq

/-- How notes are written: those below `least` are dropped, and a trace tells time and part. -/
structure LogStyle where
  least : Level := .warning
  trace : Bool := false

def boxed (t : Text) : Text := .char '[' :: t ++ [.char ']', .char ' ']

def Note.line (style : LogStyle) (time : Text) (n : Note) : Text :=
  let head :=
    if style.trace then boxed time ++ boxed n.level.name ++ boxed n.part.name
    else n.level.name ++ [.char ':', .char ' ']
  head ++ n.message ++ [.char '\n']

def logText (style : LogStyle) (time : Text) (notes : List Note) : Text :=
  (notes.filter fun n => style.least.rank ≤ n.level.rank).flatMap (Note.line style time)

/-! ### The notes of each step -/

/-- What the reader says about its outcome. -/
def readingNotes : Except Failure Document → List Note
  | .ok d =>
    let count := match d.blocks with
      | some bs => Decimal.written bs.length
      | none => "no"
    [⟨.debug, .reader, Text.ofString "Decoded document with " ++ count ++
      Text.ofString " top-level block(s)"⟩]
  | .error (.invalidUtf8 fault) =>
    [⟨.debug, .reader, Text.ofString "Input is not valid UTF-8: " ++ fault.message⟩]
  | .error (.malformedJson text _ rest) =>
    let p := Json.positionOf text rest
    [⟨.debug, .reader, Text.ofString "JSON decode error at line " ++ Decimal.written p.line ++
      Text.ofString " column " ++ Decimal.written p.column⟩]
  | .error _ => []

def imageNotes (n : Node) : List Note :=
  match n with
  | .image (some attributes) _ _ _ _ _ => attributes.skippedNames.map fun name =>
    ⟨.debug, .markup, Text.ofString "Skipping image attribute with invalid name " ++ name.quoted⟩
  | _ => []

def angleNotes (requireSpace : Bool) (content : List Node) : List Note :=
  match (Inlines.afterLead? requireSpace content).filter Inlines.isSingleImage with
  | some rest =>
    ⟨.debug, .markup, "Angle paragraph wraps a single image; emitting bare <img>"⟩ ::
      rest.head?.toList.flatMap imageNotes
  | none =>
    if (Inlines.flatten? content).isSome then []
    else [⟨.debug, .markup,
      "Angle paragraph holds rich inline content; leaving it wrapped"⟩]

def paragraphNotes (o : Unwrap.Options) : Node → List Note
  | .paragraph _ content _ =>
    match o.rule? content with
    | some .angle => angleNotes o.requireSpace content
    | some .image => content.head?.toList.flatMap imageNotes
    | none => []
  | _ => []

def summary (t : Unwrap.Tally) : Text :=
  Text.ofString "Unwrapped " ++ Decimal.written t.angle ++
    Text.ofString " angle paragraph(s) and " ++ Decimal.written t.image ++
    Text.ofString " image paragraph(s)"

def unwrappingNotes (o : Unwrap.Options) (d : Document) : List Note :=
  match d.blocks with
  | none => [⟨.debug, .walk, "Document has no block sequence; passing it through"⟩]
  | some bs =>
    (Node.leavesAll bs).flatMap (paragraphNotes o) ++
      [⟨.debug, .walk, summary (Unwrap.tally o bs)⟩]

/-- What is known of where the failure arose stands below. -/
def unexpectedNote (origin : Text) : Note :=
  let below := if origin.isEmpty then [] else .char '\n' :: origin
  ⟨.debug, .command, Text.ofString "Unexpected failure" ++ below⟩

def closingNote (o : Unwrap.Options) (d : Document) : Note :=
  ⟨.info, .command, summary (Unwrap.documentTally o d)⟩

end RawLift.CommandLine
