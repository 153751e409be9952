import ModbusMaster.Main
import ModbusMaster.Proofs.Transaction.Reuse
import ModbusMaster.Proofs.Session.Holding
import ModbusMaster.Proofs.Session.Members
import ModbusMaster.Proofs.Stack.Ownership
import ModbusMaster.Proofs.Frame.Octets
import ModbusMaster.Proofs.Gateway
import ModbusMaster.Proofs.Session.Receiving
import ModbusMaster.Proofs.Reporting.Awaiting
import ModbusMaster.Proofs.Transaction.Slots
import ModbusMaster.Proofs.Polling
import ModbusMaster.Proofs.Frame.Framed
import ModbusMaster.Proofs.Stack.Admission
import ModbusMaster.Proofs.Stack.Framing
import ModbusMaster.Proofs.Point.Writing
import ModbusMaster.Proofs.Stack.Recognition
import ModbusMaster.Proofs.Polling.Buckets
import ModbusMaster.Proofs.Polling.Cycles
import ModbusMaster.Proofs.Stream.Reassembly
import ModbusMaster.Proofs.Polling.Timetable
import ModbusMaster.Proofs.Polling.Service
import ModbusMaster.Proofs.Point.Reading
import ModbusMaster.Proofs.Session.Serving
import ModbusMaster.Proofs.Stack.Sessions
import ModbusMaster.Proofs.Polling.Validated
import ModbusMaster.Proofs.Session.Supply
import ModbusMaster.Proofs.Reporting.Values
import ModbusMaster.Proofs.Session.Order
import ModbusMaster.Proofs.Stack.Urgency
import ModbusMaster.Proofs.Session.Timeline
import ModbusMaster.Proofs.Session.Isolation
import ModbusMaster.Proofs.Stack.Promptness
import ModbusMaster.Proofs.Point.Naming
import ModbusMaster.Proofs.Session.Spacing
import ModbusMaster.Proofs.Stack.Return
import ModbusMaster.Proofs.Queue.Priority
import ModbusMaster.Proofs.Reporting.References
import ModbusMaster.Proofs.Session.Draining
import ModbusMaster.Proofs.Stream.Serial
import ModbusMaster.Proofs.Stream.Ending
import ModbusMaster.Proofs.Stream.HangUp
import ModbusMaster.Proofs.Frame.Checksum
import ModbusMaster.Proofs.Frame.Grammar
import ModbusMaster.Proofs.Queue.Traffic
import ModbusMaster.Proofs.Reporting.Paths
import ModbusMaster.Proofs.Number.Rounding
import ModbusMaster.Proofs.Point.Scaling
import ModbusMaster.Proofs.Frame.Places
import ModbusMaster.Proofs.Point.Places
import ModbusMaster.Proofs.Polling.Registration
import ModbusMaster.Proofs.Settings
import ModbusMaster.Proofs.Text.Hexadecimal
