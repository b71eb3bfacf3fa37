import ObjectModel.Text.Blank
import ObjectModel.Text.Escaped
import ObjectModel.Text.Quoted
import ObjectModel.Number.Basic
import ObjectModel.Number.Rounding
import ObjectModel.Number.Shortest
import ObjectModel.Number.Layout
import ObjectModel.Number.Literal
import ObjectModel.Value
import ObjectModel.Property
import ObjectModel.Key
import ObjectModel.Error
import ObjectModel.Elements
import ObjectModel.Elements.Laws
import ObjectModel.PropertyTable
import ObjectModel.Object.Basic
import ObjectModel.Object.Laws
import ObjectModel.Object.Define
import ObjectModel.Object.Length
import ObjectModel.Object.Enumeration
import ObjectModel.Heap
import ObjectModel.Inspection
import ObjectModel.Protocol.Action
import ObjectModel.Protocol.Conversion
import ObjectModel.Protocol.Assignment
import ObjectModel.Protocol.Ends
import ObjectModel.Operation
import ObjectModel.Routine
import ObjectModel.Script.Span
import ObjectModel.Script.Step
import ObjectModel.Script.Session
import ObjectModel.Script.Storage
import ObjectModel.Script.Run
import ObjectModel.Proofs.Number.Integers
import ObjectModel.Proofs.Number.Exact
import ObjectModel.Proofs.Number.Nearest
import ObjectModel.Proofs.Number.Words
import ObjectModel.Proofs.Number.Numeral
import ObjectModel.Proofs.Number.HexDigits
import ObjectModel.Proofs.Key
import ObjectModel.Proofs.Elements.Truncation
import ObjectModel.Proofs.Elements.Refinement
import ObjectModel.Proofs.Elements.Checked
import ObjectModel.Proofs.Elements.Capacity
import ObjectModel.Proofs.Elements.SmallestIndex
import ObjectModel.Proofs.PropertyTable
import ObjectModel.Proofs.Object.Fixed
import ObjectModel.Proofs.Object.Standard
import ObjectModel.Proofs.Object.Edit
import ObjectModel.Proofs.Object.ArrayLength
import ObjectModel.Proofs.Object.Revaluation
import ObjectModel.Proofs.Object.NegativeLength
import ObjectModel.Proofs.Object.View
import ObjectModel.Proofs.Object.Steps
import ObjectModel.Proofs.Object.Listing
import ObjectModel.Proofs.Object.Changes
import ObjectModel.Proofs.Object.Checked
import ObjectModel.Proofs.Heap.View
import ObjectModel.Proofs.Object.Representation
import ObjectModel.Proofs.Protocol.Outcome
import ObjectModel.Proofs.Protocol.Agreement
import ObjectModel.Proofs.Protocol.OrdinaryDefine
import ObjectModel.Proofs.Protocol.ElementDefinition
import ObjectModel.Proofs.Protocol.Put
import ObjectModel.Proofs.Protocol.Filling
import ObjectModel.Proofs.Protocol.Shrink
import ObjectModel.Proofs.Protocol.LengthValidation
import ObjectModel.Proofs.Protocol.NumberText
import ObjectModel.Proofs.Protocol.Repetition
import ObjectModel.Proofs.Protocol.Removal
import ObjectModel.Proofs.Protocol.Appending
import ObjectModel.Proofs.Run.Trace
import ObjectModel.Proofs.Run.Strictness
import ObjectModel.Proofs.Run.Atomicity
import ObjectModel.Proofs.Run.Chronicle
import ObjectModel.Proofs.Run.Enumeration
import ObjectModel.Proofs.Run.History
import ObjectModel.Proofs.Run.Integrity
import ObjectModel.Proofs.Run.Representation
import ObjectModel.Proofs.Run.ArrayLength
import ObjectModel.Proofs.Run.Listing
import ObjectModel.Proofs.Run.KeyOrder
import ObjectModel.Proofs.Run.IndexedRead
import ObjectModel.Proofs.Run.Extensibility
import ObjectModel.Proofs.Run.LengthConversion
import ObjectModel.Proofs.Run.Checked
import ObjectModel.Proofs.Run.ElementAssignment
import ObjectModel.Proofs.Run.RoundTrip
import ObjectModel.Proofs.Run.Construction
import ObjectModel.Proofs.Run.PackedFill
