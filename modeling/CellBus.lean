import CellBus.Argument
import CellBus.Behaviour
import CellBus.Bus
import CellBus.Cell
import CellBus.Cursor
import CellBus.Decoder
import CellBus.Event
import CellBus.Hub
import CellBus.Identity
import CellBus.Journal
import CellBus.Limits
import CellBus.Limits.Document
import CellBus.Listener
import CellBus.MarshalError
import CellBus.Memory
import CellBus.Memory.Segment
import CellBus.Number.Binary32
import CellBus.Number.Binary64
import CellBus.Number.Literal
import CellBus.Proofs.AppendOrder
import CellBus.Proofs.Changes
import CellBus.Proofs.ContextIsolation
import CellBus.Proofs.Course
import CellBus.Proofs.DecodedOnce
import CellBus.Proofs.DecodingSteps
import CellBus.Proofs.Dereferencing
import CellBus.Proofs.EncodedTexts
import CellBus.Proofs.ExactNumbers
import CellBus.Proofs.FaultIsolation
import CellBus.Proofs.ListenerLists
import CellBus.Proofs.LiveListeners
import CellBus.Proofs.MarshaledArguments
import CellBus.Proofs.MatchingRuns
import CellBus.Proofs.Operations
import CellBus.Proofs.OwnCells
import CellBus.Proofs.RegisteredEvents
import CellBus.Proofs.RunStates
import CellBus.Proofs.Running
import CellBus.Proofs.SegmentBlocks
import CellBus.Proofs.SignatureParts
import CellBus.Proofs.TextLayouts
import CellBus.Proofs.TurnReports
import CellBus.Proofs.UnseenJournal
import CellBus.Registry
import CellBus.Report
import CellBus.SharedBus
import CellBus.Signature
import CellBus.Text.Blank
import CellBus.Text.Utf8
import CellBus.Toml.Document
import CellBus.Toml.Item
import CellBus.Toml.Quoted
import CellBus.Toml.Reader
import CellBus.Toml.Statement
import CellBus.Toml.Unquoted
import CellBus.Value
import CellBus.Value.ToCell
import CellBus.World
import CellBus.World.Dispatch
import CellBus.World.Invocation
import CellBus.World.Machine
import CellBus.World.Run
import CellBus.World.Script
import CellBus.World.Subscription
import CellBus.Proofs.RemovedListeners
import CellBus.Proofs.ByteOrder
import CellBus.Proofs.Registrations
import CellBus.Proofs.DecodedTexts
import CellBus.Proofs.MendedNames
import CellBus.Proofs.QuestionsAsked
import CellBus.Proofs.RationedDispatch
import CellBus.Proofs.ContextTeardown
import CellBus.Proofs.AgreeingSides
import CellBus.Proofs.WellFormedRequests
import CellBus.Proofs.ConformingArguments
import CellBus.Proofs.ExcusedErrors
import CellBus.Proofs.LooserLimits
import CellBus.Proofs.GrowingSegments
import CellBus.Proofs.ReturnedIntegers
import CellBus.Proofs.ContextRecords
import CellBus.Proofs.DestroyedContexts
import CellBus.Proofs.RoundedRatios
import CellBus.Proofs.NearestDoubles
import CellBus.Proofs.TruncatedNumbers
import CellBus.Proofs.NumericGrammar
import CellBus.Proofs.NumericTexts
import CellBus.Proofs.RadixTexts
import CellBus.Proofs.IntegerTexts
import CellBus.Proofs.TextBytes
import CellBus.Proofs.NeededCells
import CellBus.Proofs.SegmentAddresses
import CellBus.Proofs.StartedBodies
import CellBus.Proofs.WrittenTexts
import CellBus.Proofs.EmptyArrays
import CellBus.Proofs.PrintedSignatures
import CellBus.Proofs.CursorSteps
import CellBus.Proofs.LoggedDispatches
