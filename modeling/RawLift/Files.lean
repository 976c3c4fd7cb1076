import RawLift.Text.Utf8
import RawLift.Text.Quoted

/-!
The files that a run can see. A place is the list of names that leads to it, from the working
directory, which is the empty list, or from the root, which is a name of its own. The system takes a
path as octets, and only if no name and not the whole is too long.
-/

namespace RawLift

open Utf8 (Octets)

/-- Why the system refuses to open a path or to use a stream. -/
inductive SystemFault where
  | notFound (path : Text)
  | notADirectory (path : Text)
  | isADirectory (path : Text)
  | nameTooLong (path : Text)
  | other (message : Text)
  deriving DecidableEq

def SystemFault.message : SystemFault → Text
  | notFound p => Text.ofString "[Errno 2] No such file or directory: " ++ p.quoted
  | notADirectory p => Text.ofString "[Errno 20] Not a directory: " ++ p.quoted
  | isADirectory p => Text.ofString "[Errno 21] Is a directory: " ++ p.quoted
  | nameTooLong p => Text.ofString "[Errno 36] File name too long: " ++ p.quoted
  | other m => m

/-- Why a path cannot be handed to the system at all. -/
inductive PathFault where
  | surrogates (fault : Utf8.EncodeError)
  | nullCharacter
  deriving DecidableEq

def PathFault.message : PathFault → Text
  | surrogates fault => fault.message
  | nullCharacter => "embedded null byte"

inductive Entry where
  | file (content : Octets)
  | directory
  deriving DecidableEq

abbrev Place := List Text

/-- A directory that holds an entry need not be listed itself. -/
abbrev Files := List (Place × Entry)

namespace Path

def splitAt (mark : CodePoint) : Text → List Text
  | [] => [[]]
  | p :: rest =>
    match splitAt mark rest with
    | [] => [[p]]
    | part :: parts => if p = mark then [] :: part :: parts else (p :: part) :: parts

def slash : CodePoint := .char '/'

def up : Text := ".."

/-- The first name on a full path: one slash, or two if the path starts with exactly two. -/
def root? (path : Text) : Option Text :=
  match (path.takeWhile (· = slash)).length with
  | 0 => none
  | 2 => some [slash, slash]
  | _ => some [slash]

def isRoot (name : Text) : Bool := name.head? = some slash

/-- The names on a path, without empty ones and those that stay in place. -/
def names (path : Text) : List Text :=
  (root? path).toList ++
    (splitAt slash path).filter fun part => part ≠ [] ∧ part ≠ [.char '.']

def ofNames : List Text → Text
  | [] => [.char '.']
  | name :: rest =>
    if isRoot name then name ++ Text.join [slash] rest else Text.join [slash] (name :: rest)

/-- A path as it is shown: without what `names` leaves out. -/
def shown (path : Text) : Text := ofNames (names path)

/-- The place that a step up leads to. Above the working directory are only steps up. -/
def parent (place : Place) : Place :=
  match place.getLast? with
  | none => [up]
  | some name =>
    if isRoot name then place else if name = up then place ++ [up] else place.dropLast

/-- The place that one name leads to. -/
def enter (place : Place) (name : Text) : Place :=
  if name = up then parent place else place ++ [name]

/-- The names on a path once each step up has taken back the step before it. -/
def collapsed (path : Text) : Place :=
  (names path).foldl enter []

/-- The places that names lead through, one by one, from a place on. -/
def trail (place : Place) : List Text → List Place
  | [] => []
  | name :: rest => enter place name :: trail (enter place name) rest

/-- The surrogates U+DC80 to U+DCFF stand for single octets of a path. -/
def isOctet (i : Fin 2048) : Bool := 0x480 ≤ i.val && i.val < 0x500

/-- The first run of surrogates that a path cannot have. -/
def surrogateRun? (offset : Nat) : Text → Option Utf8.EncodeError
  | [] => none
  | .char _ :: rest => surrogateRun? (offset + 1) rest
  | .surrogate i :: rest =>
    if isOctet i then surrogateRun? (offset + 1) rest
    else some ⟨i, offset, Utf8.leadingSurrogates rest + 1⟩

def fault? (path : Text) : Option PathFault :=
  match surrogateRun? 0 path with
  | some fault => some (.surrogates fault)
  | none => if .char '\x00' ∈ path then some .nullCharacter else none

/-- How many octets a path takes. -/
def size : Text → Nat
  | [] => 0
  | .char c :: rest => (Utf8.octetsOf c.toNat).length + size rest
  | .surrogate _ :: rest => size rest + 1

def nameLimit : Nat := 255

def pathLimit : Nat := 4095

end Path

namespace Files

/-- The working directory, the root and what is above them are always there. -/
def isDirectory (fs : Files) (place : Place) : Bool :=
  place.all (· = Path.up) || (place.length = 1 && place.all Path.isRoot) ||
    fs.any fun (p, e) =>
      (p = place && e = .directory) || (place.length < p.length && place.isPrefixOf p)

def content? (fs : Files) (place : Place) : Option Octets :=
  match fs.lookup place with
  | some (.file c) => some c
  | _ => none

def insert (place : Place) (content : Octets) : Files → Files
  | [] => [(place, .file content)]
  | (p, e) :: rest =>
    if p = place then (p, .file content) :: rest else (p, e) :: insert place content rest

/-- Follows names one by one; all but the last must lead to directories. -/
def follow (fs : Files) (shown : Text) (place : Place) : List Text → Except SystemFault Place
  | [] => .ok place
  | name :: rest =>
    if isDirectory fs place then
      if Path.nameLimit < Path.size name then .error (.nameTooLong shown)
      else follow fs shown (Path.enter place name) rest
    else if (content? fs place).isSome then .error (.notADirectory shown)
    else .error (.notFound shown)

/-- The place that names lead to; `shown` is the path that they are on. -/
def locate (fs : Files) (shown : Text) (names : List Text) : Except SystemFault Place :=
  if Path.pathLimit < Path.size shown then .error (.nameTooLong shown) else follow fs shown [] names

/-- Whether there is anything on a path. One that the system does not take leads to nothing; one
that is too long cannot be looked up. -/
def exists? (fs : Files) (path : Text) : Except SystemFault Bool :=
  if (Path.fault? path).isSome then .ok false
  else
    match locate fs (Path.shown path) (Path.names path) with
    | .ok place => .ok (isDirectory fs place || (content? fs place).isSome)
    | .error (.nameTooLong shown) => .error (.nameTooLong shown)
    | .error _ => .ok false

def read (fs : Files) (path : Text) : Except SystemFault Octets := do
  let place ← locate fs path (Path.names path)
  if isDirectory fs place then throw (.isADirectory path)
  match content? fs place with
  | some c => .ok c
  | none => .error (.notFound path)

/-- The place of a file that can be written: there already, or new in a directory. -/
def openPlace (fs : Files) (shown : Text) (names : List Text) : Except SystemFault Place := do
  let place ← locate fs shown names
  if isDirectory fs place then throw (.isADirectory shown)
  .ok place

end Files

end RawLift
