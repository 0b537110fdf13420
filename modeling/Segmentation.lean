import Segmentation.Attribute
import Segmentation.Coalescer
import Segmentation.Context
import Segmentation.Context.Group
import Segmentation.Double
import Segmentation.Double.Shortest
import Segmentation.Drive
import Segmentation.Drive.Run
import Segmentation.Engine
import Segmentation.Engine.Call
import Segmentation.Engine.Service
import Segmentation.Error
import Segmentation.Expr
import Segmentation.Flight
import Segmentation.Flight.Alone
import Segmentation.Gathering
import Segmentation.Hub
import Segmentation.Issue
import Segmentation.Journal
import Segmentation.Json
import Segmentation.Json.Printer
import Segmentation.Json.Reader
import Segmentation.Keyed
import Segmentation.Machine
import Segmentation.Matcher
import Segmentation.Memo
import Segmentation.Node
import Segmentation.Node.Json
import Segmentation.Program
import Segmentation.Progress
import Segmentation.Proofs.Alarms
import Segmentation.Proofs.Chronicle
import Segmentation.Proofs.Coalescer.History
import Segmentation.Proofs.Delivery
import Segmentation.Proofs.Dropping
import Segmentation.Proofs.Independence
import Segmentation.Proofs.Keyed
import Segmentation.Proofs.Launch
import Segmentation.Proofs.Loading
import Segmentation.Proofs.Lockstep
import Segmentation.Proofs.Past.Answer
import Segmentation.Proofs.Past.Call
import Segmentation.Proofs.Past.Flight
import Segmentation.Proofs.Past.Hub
import Segmentation.Proofs.Past.Launch
import Segmentation.Proofs.Past.Recast
import Segmentation.Proofs.Past.Session
import Segmentation.Proofs.Past.Solitary
import Segmentation.Proofs.Progress.Collect
import Segmentation.Proofs.Progress.Wake
import Segmentation.Proofs.Queues
import Segmentation.Proofs.Quotation
import Segmentation.Proofs.Remembering
import Segmentation.Proofs.Settling
import Segmentation.Proofs.Sharing
import Segmentation.Proofs.Turns
import Segmentation.Registry
import Segmentation.Schema
import Segmentation.Schema.Record
import Segmentation.Session
import Segmentation.Solo
import Segmentation.Span
import Segmentation.Span.Guard
import Segmentation.StableKey
import Segmentation.Task
import Segmentation.Telemetry
import Segmentation.Telemetry.Report
import Segmentation.Text.Quoted
import Segmentation.Text.Unprintable
import Segmentation.Proofs.Deeds
import Segmentation.Proofs.Course
import Segmentation.Proofs.Company
import Segmentation.Proofs.Invocations
import Segmentation.Proofs.Effort
import Segmentation.Proofs.Termination
import Segmentation.Proofs.Recovery
import Segmentation.Proofs.Resolvers
import Segmentation.Proofs.Asking
import Segmentation.Proofs.Traffic
import Segmentation.Proofs.Reception
import Segmentation.Proofs.Twins.Flight
import Segmentation.Proofs.Twins.Session
import Segmentation.Proofs.Twins.Call
import Segmentation.Proofs.Noninterference
import Segmentation.Proofs.Double.Interval
import Segmentation.Proofs.Double.Numeral
import Segmentation.Proofs.StableKey
import Segmentation.Proofs.Entries
import Segmentation.Proofs.Instants
import Segmentation.Proofs.Schedule
import Segmentation.Proofs.Punctuality
import Segmentation.Proofs.Timetable
import Segmentation.Proofs.Batching
import Segmentation.Proofs.Conservation
import Segmentation.Proofs.Balance
import Segmentation.Proofs.Sheets
import Segmentation.Proofs.Tracing
import Segmentation.Proofs.Sightings
import Segmentation.Proofs.SpanReports
import Segmentation.Proofs.Mirrors.Flight
import Segmentation.Proofs.Mirrors.Session
import Segmentation.Proofs.Mirrors.Call
import Segmentation.Proofs.Rousing
import Segmentation.Proofs.Concert
import Segmentation.Proofs.Opening
import Segmentation.Proofs.Utf8
import Segmentation.Proofs.Matching
import Segmentation.Proofs.Promises
import Segmentation.Proofs.Voyages
import Segmentation.Proofs.Node.Json
import Segmentation.Proofs.Refusals
import Segmentation.Proofs.Blame
import Segmentation.Proofs.Racing
import Segmentation.Proofs.Canonical.Values
import Segmentation.Proofs.Canonical.Hub
import Segmentation.Proofs.Canonical.Flight
import Segmentation.Proofs.Canonical.Session
import Segmentation.Proofs.Canonical.Call
import Segmentation.Proofs.Canonical.Recipe
import Segmentation.Proofs.Canonical.Party
import Segmentation.Proofs.Capacity
import Segmentation.Proofs.Crossings
import Segmentation.Proofs.Paces
import Segmentation.Proofs.Arrivals
import Segmentation.Proofs.Kinship
import Segmentation.Proofs.Operands
import Segmentation.Proofs.Node.Legible
import Segmentation.Proofs.Closing
import Segmentation.Proofs.Rounds
import Segmentation.Proofs.Emptying
import Segmentation.Proofs.Reloads
import Segmentation.Proofs.Stalling
import Segmentation.Proofs.Requests
import Segmentation.Proofs.Recency
import Segmentation.Proofs.Validation
import Segmentation.Proofs.Leases
import Segmentation.Proofs.Subscriber
import Segmentation.Proofs.Rendering
import Segmentation.Proofs.Tracers
import Segmentation.Proofs.Causes
