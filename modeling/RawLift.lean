import RawLift.Main
import RawLift.Gap
import RawLift.Proofs.Node.RoundTrip
import RawLift.Proofs.Document.Members
import RawLift.Proofs.Unwrap.Paragraph
import RawLift.Proofs.Unwrap.Walk
import RawLift.Proofs.Unwrap.Object
import RawLift.Proofs.Unwrap.Frame
import RawLift.Proofs.Markup.Escape
import RawLift.Proofs.Markup.Tag
import RawLift.Proofs.Unwrap.SecondPass
import RawLift.Proofs.Node.Canonical
import RawLift.Proofs.Target.Emptied
import RawLift.Proofs.Json.Alike
import RawLift.Proofs.Node.Alike
import RawLift.Proofs.Unwrap.Alike
import RawLift.Proofs.Double.Ratio
import RawLift.Proofs.Double.Shortest
import RawLift.Proofs.Json.Numeral
import RawLift.Proofs.Json.Number
import RawLift.Proofs.Json.Quoted
import RawLift.Proofs.Json.Readable
import RawLift.Proofs.Json.ReadBack
import RawLift.Proofs.Json.Sound
import RawLift.Proofs.Filter.ReadBack
import RawLift.Proofs.Text.Utf8
import RawLift.Proofs.Unwrap.Omitted
import RawLift.Proofs.Filter.Boundary
import RawLift.Proofs.CommandLine.Steps
import RawLift.Proofs.CommandLine.Agreement
import RawLift.Proofs.CommandLine.Unclassified
import RawLift.Proofs.CommandLine.Filled
import RawLift.Proofs.Document.Written
import RawLift.Proofs.Unwrap.Rules
import RawLift.Proofs.Unwrap.Visit
import RawLift.Proofs.Unwrap.Calls
import RawLift.Proofs.Inlines.Flatten
import RawLift.Proofs.Unwrap.Ruling
import RawLift.Proofs.Node.Grammar
import RawLift.Proofs.Step
import RawLift.Proofs.Blocks.Outline
import RawLift.Proofs.Blocks.Pruning
import RawLift.Proofs.Unwrap.Space
import RawLift.Proofs.Node.Faults
import RawLift.Proofs.Document.Unwritable
import RawLift.Proofs.Files.Path
import RawLift.Proofs.Filter.Routes
import RawLift.Proofs.Markup.Silent
import RawLift.Proofs.Unwrap.Rewrite
import RawLift.Proofs.Blocks.Store
import RawLift.Proofs.Unwrap.InPlace
import RawLift.Proofs.Inlines.Split
import RawLift.Proofs.Options.Record
import RawLift.Proofs.Options.History
