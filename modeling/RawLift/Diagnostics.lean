import RawLift.Failure

/-!
Error lines for people. Rich ones need a package that may be absent, and are used only when asked
for, on a terminal or by force.
-/

namespace RawLift

/-- What a run knows about rich output. -/
structure RichOutput where
  wanted : Bool := false
  forced : Bool := false
  available : Bool := false
  terminal : Bool := false

def RichOutput.used (r : RichOutput) : Bool := r.wanted && r.available && (r.forced || r.terminal)

def richPackage : Text := "rich"

/-- A package that is not installed, by the name it is imported by. An empty name for installing it
or for the feature stands for none. -/
def missingPackage (importName : Text) (installName featureName : Option Text) : Failure :=
  let orImport (name : Option Text) : Text := (name.filter fun n => !n.isEmpty).getD importName
  .missingPackage (orImport installName) (orImport featureName)

def errorLine (message : Text) : Text := Text.ofString "Error: " ++ message ++ [.char '\n']

/-- Without the package a rich line cannot be written. -/
def reportLine (message : Text) (rich : Bool) : Except Failure Text :=
  if rich then .error (missingPackage richPackage none (some "Rich error output"))
  else .ok (errorLine message)

end RawLift
