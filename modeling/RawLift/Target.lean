import RawLift.Document
import RawLift.Failure

/-!
Where a document goes. It is laid out as JSON text before the target is looked at; a text target
takes the text, all others its UTF-8 octets. A file is opened, and so emptied, before the octets
are made.
-/

namespace RawLift

open Utf8 (Octets)

variable [Json.Machine]

namespace Document

def render (l : Json.Layout) (d : Document) : Except Failure Text :=
  match Json.write l d.encode with
  | .ok t => .ok t
  | .error (.leaf cause) => .error (.unwritable cause)
  | .error (.indent excess) => .error (.wideIndent excess)

end Document

/-- Streams hold what has been written to them so far; a broken one has a name if it tells. -/
inductive Target where
  | textStream (written : Text)
  | octetStream (written : Octets)
  | path (files : Files) (path : Text)
  | brokenStream (name : Option Text) (fault : SystemFault)
  | unsupported (typeName : Text)

namespace Target

def unnamed : Text := "<stream>"

/-- Writes a text; the target afterwards, and the failure if there was one. -/
def write (t : Text) : Target → Target × Option Failure
  | textStream written => (textStream (written ++ t), none)
  | octetStream written =>
    match Utf8.encode t with
    | .ok bs => (octetStream (written ++ bs), none)
    | .error fault => (octetStream written, some (.surrogates fault))
  | path files p =>
    match Path.fault? (Path.shown p), files.openPlace (Path.shown p) (Path.names p) with
    | some fault, _ => (path files p, some (.unusablePath fault))
    | none, .error fault => (path files p, some (.output (Path.shown p) fault))
    | none, .ok place =>
      match Utf8.encode t with
      | .ok bs => (path (files.insert place bs) p, none)
      | .error fault => (path (files.insert place []) p, some (.surrogates fault))
  | brokenStream name fault =>
    (brokenStream name fault, some (.output (name.getD unnamed) fault))
  | unsupported typeName => (unsupported typeName, some (.unsupportedOutput typeName))

end Target

/-- Renders a document to a target; the target afterwards, and the failure if there was one. -/
def Document.renderTo (l : Json.Layout) (d : Document) (target : Target) :
    Target × Option Failure :=
  match d.render l with
  | .ok t => target.write t
  | .error f => (target, some f)

end RawLift
