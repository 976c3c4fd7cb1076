import RawLift.Document
import RawLift.Failure

/-!
Where a document comes from. All routes lead to one text, which is read as JSON and must be an
object; whatever the object holds, it is then a document.
-/

namespace RawLift

open Utf8 (Octets)

inductive Source where
  | text (t : Text)
  | octets (bs : Octets)
  | textStream (t : Text)
  | octetStream (bs : Octets)
  | path (files : Files) (path : Text)
  | brokenStream (fault : SystemFault)
  | strangeStream (typeName : Text)
  | unsupported (typeName : Text)

namespace Source

def decoded (bs : Octets) : Except Failure Text :=
  match Utf8.decode bs with
  | .ok t => .ok t
  | .error fault => .error (.invalidUtf8 fault)

def typeText (typeName : Text) : Text :=
  Text.ofString "<class '" ++ typeName ++ Text.ofString "'>"

def read : Source → Except Failure Text
  | text t | textStream t => .ok t
  | octets bs | octetStream bs => decoded bs
  | path files p =>
    match files.exists? p with
    | .error fault => .error (.inputLookup fault)
    | .ok false => .error (.missingInput (Path.shown p))
    | .ok true =>
      match files.read (Path.shown p) with
      | .ok bs => decoded bs
      | .error fault => .error (.unreadable fault)
  | brokenStream fault => .error (.unreadable fault)
  | strangeStream name =>
    .error (.unsupportedInput (Text.ofString "Stream returned unsupported content type: " ++
      typeText name))
  | unsupported name =>
    .error (.unsupportedInput (Text.ofString "Unsupported input type: " ++ typeText name))

end Source

/-- JSON by itself, apart from any document. -/
def Json.valueOf (t : Text) : Except Failure Value :=
  match Json.read t with
  | .ok v => .ok v
  | .error (.malformed fault rest) => .error (.jsonSyntax t fault rest)
  | .error (.longInteger digits) => .error (.longInteger digits)

namespace Document

/-- Any JSON object as a document. -/
def ofJson (t : Text) : Except Failure Document := do
  match ← Json.valueOf t with
  | .object ms => .ok (ofMembers ms)
  | v => .error (.rootType v.typeName)

def ofText (rule : RootRule) (t : Text) : Except Failure Document :=
  match Json.read t with
  | .error (.malformed fault rest) => .error (.malformedJson t fault rest)
  | .error (.longInteger digits) => .error (.longInteger digits)
  | .ok (.object ms) =>
    if rule.strict ∧ blocksKey ∉ Members.keys ms ∧ metadataKey ∉ Members.keys ms then
      .error .noKnownMember
    else .ok (ofMembers ms)
  | .ok v => .error (.notAnObject v.typeName)

def parse (rule : RootRule) (s : Source) : Except Failure Document := do ofText rule (← s.read)

end Document

end RawLift
