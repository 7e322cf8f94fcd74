import StreamBuffer.Queue.Basic
import StreamBuffer.Queue.Copy
import StreamBuffer.Queue.Display
import StreamBuffer.Timer.Basic
import StreamBuffer.Timer.Table
import StreamBuffer.Text.Unprintable
import StreamBuffer.Text.Quoted
import StreamBuffer.Decimal.Shortest
import StreamBuffer.Decimal.Text
import StreamBuffer.Json.StringLiteral
import StreamBuffer.Json.NumberLiteral
import StreamBuffer.Config.Basic
import StreamBuffer.Config.Error
import StreamBuffer.Config.Document
import StreamBuffer.Config.Printer
import StreamBuffer.Buffer.Error
import StreamBuffer.Buffer.Event
import StreamBuffer.Buffer.State
import StreamBuffer.Buffer.Reader
import StreamBuffer.Buffer.Basic
import StreamBuffer.Session.Basic
import StreamBuffer.Session.Op
import StreamBuffer.Proofs.Queue.Bounds
import StreamBuffer.Proofs.Queue.Additive
import StreamBuffer.Proofs.Queue.Filling
import StreamBuffer.Proofs.Queue.Iterations
import StreamBuffer.Proofs.Queue.Flat
import StreamBuffer.Proofs.Queue.Retention
import StreamBuffer.Proofs.Reader.Progress
import StreamBuffer.Proofs.Reader.Conclusion
import StreamBuffer.Proofs.Reader.Gathering
import StreamBuffer.Proofs.Buffer.Waking
import StreamBuffer.Proofs.Buffer.Action
import StreamBuffer.Proofs.Buffer.Calls
import StreamBuffer.Proofs.Buffer.Move
import StreamBuffer.Proofs.Buffer.Bounds
import StreamBuffer.Proofs.Buffer.Conservation
import StreamBuffer.Proofs.Buffer.Blocking
import StreamBuffer.Proofs.Buffer.Outcome
import StreamBuffer.Proofs.Buffer.Closing
import StreamBuffer.Proofs.Buffer.Renumber
import StreamBuffer.Proofs.Buffer.Rewaking
import StreamBuffer.Proofs.Buffer.Alone
import StreamBuffer.Proofs.Buffer.Text
import StreamBuffer.Proofs.Buffer.WholeStream
import StreamBuffer.Proofs.Buffer.Exact
import StreamBuffer.Proofs.Deadline.System
import StreamBuffer.Proofs.Deadline.Refinement
import StreamBuffer.Proofs.Session.Action
import StreamBuffer.Proofs.Session.Boundary
import StreamBuffer.Proofs.Session.Calls
import StreamBuffer.Proofs.Deadline.Kept
import StreamBuffer.Proofs.Json.StringLiteral
import StreamBuffer.Proofs.Json.NumberLiteral
import StreamBuffer.Proofs.Json.Spelling
import StreamBuffer.Proofs.Json.Numeral
import StreamBuffer.Proofs.Json.Rounding
import StreamBuffer.Proofs.Json.Magnitude
import StreamBuffer.Proofs.Config.FirstError
import StreamBuffer.Proofs.Config.Reading
import StreamBuffer.Proofs.Config.Skipping
import StreamBuffer.Proofs.Config.Members
import StreamBuffer.Proofs.Config.RoundTrip
import StreamBuffer.Proofs.Config.Meaning
import StreamBuffer.Proofs.Config.CapacityRange
import StreamBuffer.Proofs.Timer.History
import StreamBuffer.Proofs.Timer.Exclusion
import StreamBuffer.Proofs.Payload.Blank
import StreamBuffer.Proofs.Payload.Independence
import StreamBuffer.Proofs.Session.Turn
import StreamBuffer.Proofs.Session.Alarms
import StreamBuffer.Proofs.Session.Recording
import StreamBuffer.Proofs.Session.Serving
import StreamBuffer.Proofs.Session.Ownership
import StreamBuffer.Proofs.Session.Orphans
import StreamBuffer.Proofs.Session.Trail
import StreamBuffer.Proofs.Session.View
import StreamBuffer.Proofs.Session.Tending
import StreamBuffer.Proofs.Session.Viewing
import StreamBuffer.Proofs.Session.Elapsing
import StreamBuffer.Proofs.Session.Likeness
import StreamBuffer.Proofs.Session.Numbering
import StreamBuffer.Proofs.Session.Regular
import StreamBuffer.Proofs.Session.Repeating
import StreamBuffer.Proofs.Session.Tracking
import StreamBuffer.Proofs.Session.Isolation
import StreamBuffer.Proofs.Session.Kinship
import StreamBuffer.Proofs.Session.Reporting
import StreamBuffer.Proofs.Session.Repetition
