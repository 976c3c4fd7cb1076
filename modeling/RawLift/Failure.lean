import RawLift.Files
import RawLift.Json.Reader
import RawLift.Json.Shown
import RawLift.Node
import RawLift.Options
import RawLift.Report

/-!
Everything that can go wrong in a run, by cause, and how each cause is reported.
-/

namespace RawLift

inductive Failure where
  | option (fault : OptionFault)
  | missingInput (path : Text)
  | inputLookup (fault : SystemFault)
  | unusablePath (fault : PathFault)
  | blankOutput
  | blankLevel
  | logFile (path : Text) (fault : SystemFault)
  | invalidUtf8 (fault : Utf8.DecodeError)
  | unreadable (fault : SystemFault)
  | unsupportedInput (message : Text)
  | malformedJson (text : Text) (fault : Json.Fault) (rest : Text)
  | jsonSyntax (text : Text) (fault : Json.Fault) (rest : Text)
  | longInteger (digits : Nat)
  | notAnObject (typeName : Text)
  | rootType (typeName : Text)
  | noKnownMember
  | gap (gap : Gap)
  | unwritable (leaf : Unwritable)
  | wideIndent (excess : Json.Layout.Excess)
  | output (path : Text) (fault : SystemFault)
  | unsupportedOutput (typeName : Text)
  | surrogates (fault : Utf8.EncodeError)
  | missingPackage (package feature : Text)

namespace OptionFault

def parameter : OptionFault → Text
  | format _ => "raw_format"
  | indent _ | unordered _ => "indent"

def given : OptionFault → Value
  | format v | unordered v => v
  | indent i => .number (.int i)

def message : OptionFault → Text
  | format v =>
    Text.ofString "raw_format must be a non-empty string without whitespace, got " ++ v.shown
  | indent i =>
    Text.ofString "indent must be None or non-negative, got " ++ Decimal.writtenInt i
  | unordered v =>
    Text.ofString "'<' not supported between instances of '" ++ v.typeName ++
      Text.ofString "' and 'int'"

def report (fault : OptionFault) : Report :=
  match fault with
  | unordered _ => .unclassified fault.message
  | _ => .validation fault.message (some fault.parameter) fault.given

end OptionFault

def Gap.message : Gap → Text
  | notANode typeName =>
    .char '\x27' :: typeName ++ Text.ofString "' object has no attribute 'accept'"
  | noList => Unwritable.noList.message

namespace Failure

def readingStage : Text := "input_reading"

def syntaxStage : Text := "json_parsing"

def validationStage : Text := "document_validation"

def encodingStage : Text := "json_encoding"

/-- Failures without a class of their own come from what the library is built on. -/
def report : Failure → Report
  | option fault => fault.report
  | missingInput path => Report.missingFileAt path
  | inputLookup fault => .unclassified fault.message
  | unusablePath fault => .unclassified fault.message
  | blankOutput => .unclassified "expected str, bytes or os.PathLike object, not list"
  | blankLevel => .unclassified "Level not an integer or a valid string: []"
  | logFile path fault =>
    .file (Text.ofString "Cannot open log file " ++ path ++ Text.ofString ": " ++ fault.message)
      (some path)
  | invalidUtf8 fault =>
    .parsing (Text.ofString "Input is not valid UTF-8: " ++ fault.message) (some readingStage)
  | unreadable fault =>
    .parsing (Text.ofString "Failed to read input: " ++ fault.message) (some readingStage)
  | unsupportedInput message =>
    .parsing (Text.ofString "Failed to read input: " ++ message) (some readingStage)
  | malformedJson text fault rest =>
    .parsing (Text.ofString "JSON decode error: " ++
      (Json.ReadError.malformed fault rest).message text) (some syntaxStage)
  | jsonSyntax text fault rest =>
    .unclassified ((Json.ReadError.malformed fault rest).message text)
  | rootType typeName =>
    .unclassified (Text.ofString "Document root must be a JSON object, got " ++ typeName)
  | longInteger digits => .unclassified ((Json.ReadError.longInteger digits).message [])
  | notAnObject typeName =>
    .parsing (Text.ofString "Invalid document: root must be a JSON object, got " ++ typeName)
      (some validationStage)
  | noKnownMember =>
    .parsing "Invalid document: root object has neither 'blocks' nor 'meta'"
      (some validationStage)
  | gap g => .unclassified g.message
  | unwritable .noAttributes => .unclassified Unwritable.noAttributes.message
  | unwritable leaf =>
    .rendering (Text.ofString "Failed to encode document: " ++ leaf.message) (some encodingStage)
  | wideIndent excess => .unclassified excess.message
  | output path _ => Report.outputAt path
  | unsupportedOutput typeName =>
    .unclassified (Text.ofString "Unsupported output type: <class '" ++ typeName ++
      Text.ofString "'>")
  | surrogates fault => .unclassified fault.message
  | missingPackage package feature =>
    Report.missingPackages feature [(package, [])]
      (Text.ofString "pip install paraunwrap[" ++ package ++ Text.ofString "]")

def message (f : Failure) : Text := f.report.message

def exitCode (f : Failure) : Nat := f.report.exitCode

end Failure

end RawLift
