import RawLift.Source
import RawLift.Target
import RawLift.Unwrap

/-!
The filter on one document: read it, unwrap its paragraphs, write it out again.
-/

namespace RawLift

def filterDocument [Json.Machine] (o : Unwrap.Options) (rule : RootRule) (l : Json.Layout)
    (s : Source) : Except Failure Text := do
  let d ← Document.parse rule s
  (Unwrap.document o d).render l

end RawLift
