import SchemaStructs.CommandLine
import SchemaStructs.Compile
import SchemaStructs.CompileError
import SchemaStructs.Dict
import SchemaStructs.Dict.Entries
import SchemaStructs.Dict.Key
import SchemaStructs.Document
import SchemaStructs.Document.Load
import SchemaStructs.Event
import SchemaStructs.Json.Fault
import SchemaStructs.Json.Numeral
import SchemaStructs.Json.Quoted
import SchemaStructs.Json.Reader
import SchemaStructs.Json.Reading
import SchemaStructs.Listing
import SchemaStructs.LoadError
import SchemaStructs.Location
import SchemaStructs.Main
import SchemaStructs.Naming
import SchemaStructs.Options
import SchemaStructs.Pointer
import SchemaStructs.Pointer.Fragment
import SchemaStructs.Reference
import SchemaStructs.Registry
import SchemaStructs.Sample
import SchemaStructs.Schema.Decode
import SchemaStructs.Schema.Keyword
import SchemaStructs.Schema.Kind
import SchemaStructs.Schema.Node
import SchemaStructs.Schema.Written
import SchemaStructs.Struct
import SchemaStructs.Synthesis
import SchemaStructs.Text.Alphanumeric
import SchemaStructs.Text.Blank
import SchemaStructs.Text.UpperCase
import SchemaStructs.TypeDesc
import SchemaStructs.Proofs.Dict
import SchemaStructs.Proofs.Graph
import SchemaStructs.Proofs.Naming
import SchemaStructs.Proofs.Typing
import SchemaStructs.Proofs.Growth
import SchemaStructs.Proofs.Soundness
import SchemaStructs.Proofs.Roots
import SchemaStructs.Proofs.Meaning
import SchemaStructs.Proofs.Chain
import SchemaStructs.Proofs.Identity
import SchemaStructs.Proofs.Termination
import SchemaStructs.Proofs.History
import SchemaStructs.Proofs.Success
import SchemaStructs.Proofs.Preservation
import SchemaStructs.Proofs.Closure
import SchemaStructs.Proofs.Keys
import SchemaStructs.Proofs.Justification
import SchemaStructs.Proofs.Layering
import SchemaStructs.Proofs.Renumbering
import SchemaStructs.Proofs.Recursion
import SchemaStructs.Proofs.Fields
import SchemaStructs.Proofs.Order
import SchemaStructs.Proofs.Collisions
import SchemaStructs.Proofs.Alike
import SchemaStructs.Proofs.Agreement
import SchemaStructs.Proofs.Parallel
import SchemaStructs.Proofs.Grafting
import SchemaStructs.Proofs.Unreferenced
import SchemaStructs.Proofs.Wire
import SchemaStructs.Proofs.Spelling
import SchemaStructs.Proofs.Erasure
import SchemaStructs.Proofs.Inlining
import SchemaStructs.Proofs.Transparency
import SchemaStructs.Proofs.Requests
import SchemaStructs.Proofs.Qualified
import SchemaStructs.Proofs.Retention
import SchemaStructs.Proofs.RoundTrip
import SchemaStructs.Proofs.Grammar
import SchemaStructs.Proofs.Index
import SchemaStructs.Proofs.Ambiguity
import SchemaStructs.Proofs.FieldNames
import SchemaStructs.Proofs.OwnIdentity
import SchemaStructs.Proofs.JsonNames
import SchemaStructs.Proofs.BaseNames
import SchemaStructs.Proofs.JsonText
import SchemaStructs.Proofs.Decoding
import SchemaStructs.Proofs.Rearrangement
import SchemaStructs.Proofs.Frames
import SchemaStructs.Proofs.Identifiers
import SchemaStructs.Proofs.Renaming
import SchemaStructs.Proofs.Positions
import SchemaStructs.Proofs.Runs
import SchemaStructs.Proofs.TypeText
