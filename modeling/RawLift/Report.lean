import RawLift.Json

/-!
A failure as it is reported: the class that callers tell failures apart by, the message, and the
details that belong to the class. The exit code depends on the class alone.
-/

namespace RawLift

inductive Report where
  | general (message : Text)
  | validation (message : Text) (parameter : Option Text) (given : Value)
  | file (message : Text) (path : Option Text)
  | missingFile (message path : Text)
  | parsing (message : Text) (stage : Option Text)
  | rendering (message : Text) (stage : Option Text)
  | output (message path : Text)
  | dependency (message feature : Text) (missing : List (Text × Text)) (install : Text)
  | imports (message : Text)
  | unclassified (message : Text)

namespace Report

def message : Report → Text
  | general m => m
  | validation m _ _ => m
  | file m _ => m
  | missingFile m _ => m
  | parsing m _ => m
  | rendering m _ => m
  | output m _ => m
  | dependency m _ _ _ => m
  | imports m => m
  | unclassified m => m

/-- Failures of the library itself, as opposed to those of what it is built on. -/
def isClassified : Report → Bool
  | imports _ | unclassified _ => false
  | _ => true

def exitCode : Report → Nat
  | dependency .. | imports _ => 2
  | validation .. => 3
  | file .. | missingFile .. => 4
  | parsing .. => 6
  | rendering .. | output .. => 7
  | general _ | unclassified _ => 1

def missingFileAt (path : Text) (message : Option Text := none) : Report :=
  .missingFile (message.getD (Text.ofString "File not found: " ++ path)) path

def outputWriteStage : Text := "file_write"

def outputAt (path : Text) (message : Option Text := none) : Report :=
  .output (message.getD (Text.ofString "Failed to write output file: " ++ path)) path

/-- A package with its version, if one is asked for. -/
def packageText (p : Text × Text) : Text := p.1 ++ p.2

def packageList (missing : List (Text × Text)) : Text :=
  Text.join ", " (missing.map fun p => .char '\x27' :: packageText p ++ [.char '\x27'])

/-- A package with a version is quoted, since versions hold characters that a shell acts on. -/
def packageArgument (p : Text × Text) : Text :=
  if p.2.isEmpty then p.1 else .char '"' :: packageText p ++ [.char '"']

/-- Packages that a feature lacks. A message given by the caller stands as it is; otherwise it
names the packages and the command that installs them. -/
def missingPackages (feature : Text) (missing : List (Text × Text)) (install : Text := [])
    (message : Option Text := none) : Report :=
  match message with
  | some m => .dependency m feature missing install
  | none =>
    let install :=
      if install.isEmpty && !missing.isEmpty then
        Text.ofString "pip install " ++ Text.join [.char ' '] (missing.map packageArgument)
      else install
    let hint := if install.isEmpty then [] else Text.ofString "\nInstall with: " ++ install
    .dependency (feature ++ Text.ofString " requires the following packages: " ++
      packageList missing ++ hint) feature missing install

end Report

end RawLift
