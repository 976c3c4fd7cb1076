import RawLift.CommandLine.Run
import Std.Time

/-!
The command itself: looks at the files that the arguments name, lets `run` decide, and carries out
what it says.
-/

namespace RawLift.CommandLine

open Utf8 (Octets)

def octets (bytes : ByteArray) : Octets := bytes.toList

def bytes (octets : Octets) : ByteArray := ⟨octets.toArray⟩

/-- Reads to the end of a stream. -/
partial def readAll (stream : IO.FS.Stream) (before : ByteArray) : IO ByteArray := do
  let more ← stream.read 65536
  if more.isEmpty then return before else readAll stream (before ++ more)

/-- What is at a place now, if anything. -/
def look (place : Place) : IO (Option (Place × Entry)) := do
  let path := (← IO.currentDir) / (Path.ofNames place).toString
  if !(← path.pathExists) then return none
  if ← path.isDir then return some (place, .directory)
  return some (place, .file (octets (← IO.FS.readBinFile path)))

/-- The paths on which a run may open files. -/
def Settings.paths (s : Settings) : List Text :=
  ([s.input] ++ s.output.toList).filter (· ≠ stdio) ++ s.logFile.toList

def survey (paths : List Text) : IO Files := do
  let places := paths.flatMap fun path => Path.trail [] (Path.names path)
  places.eraseDups.filterMapM look

def surroundings (arguments : List Text) : IO Surroundings := do
  let directory := Text.ofString (← IO.currentDir).toString
  let time := Text.ofString ((← Std.Time.PlainDateTime.now).format "uuuu-MM-dd HH:mm:ss,SSS")
  match parseArguments arguments with
  | .error _ => return { directory, time, files := [], stdin := [] }
  | .ok s =>
    let stdin ← if s.input = stdio then readAll (← IO.getStdin) .empty else pure .empty
    return { directory, time, files := ← survey s.paths, stdin := octets stdin }

/-- Writes the files that a run has changed or made. -/
def store (before after : Files) : IO Unit :=
  for (place, entry) in after do
    if let .file content := entry then
      if before.lookup place ≠ some entry then
        IO.FS.writeBinFile (Path.ofNames place).toString (bytes content)

end RawLift.CommandLine

open RawLift RawLift.CommandLine in
def main (arguments : List String) : IO UInt32 := do
  let arguments := arguments.map Text.ofString
  let around ← surroundings arguments
  let outcome := run arguments around
  store around.files outcome.files
  (← IO.getStdout).write (bytes outcome.stdout)
  (← IO.getStderr).write (bytes (logOctets outcome.stderr))
  return outcome.exitCode.toUInt32
