import Intake.Chain.Equality
import Intake.Main
import Intake.Proofs.Schedule.Reachability
import Intake.Proofs.Table
import Intake.Proofs.Schedule.Order
import Intake.Proofs.Schedule.Soundness
import Intake.Proofs.Fallible
import Intake.Proofs.Schedule.Members
import Intake.Proofs.Entity.Arranged
import Intake.Proofs.Tracker.Growth
import Intake.Proofs.Tracker.Scope
import Intake.Proofs.Run.Growth
import Intake.Proofs.Run.Settled
import Intake.Proofs.Run.FinishedReads
import Intake.Proofs.Tracker.Twin
import Intake.Proofs.Run.TwinRuns
import Intake.Proofs.Run.Independence
import Intake.Proofs.Processor.Standard
import Intake.Proofs.Run.Applies
import Intake.Proofs.Run.Children
import Intake.Proofs.Chain.Built
import Intake.Proofs.Entity.Fits
import Intake.Proofs.Entity.Made
import Intake.Proofs.Chain.Reading
import Intake.Proofs.Entity.Cycles
import Intake.Proofs.Run.FailingChildren
import Intake.Proofs.Run.ItemReads
import Intake.Proofs.Run.ValidValues
import Intake.Proofs.Value.Members
import Intake.Proofs.Run.HeldValues
import Intake.Proofs.Run.Confined
import Intake.Proofs.Run.DeclarationOrder
import Intake.Proofs.Run.Alone
import Intake.Proofs.Schedule.History
import Intake.Proofs.Chain.Placement
import Intake.Proofs.Document.Operands
import Intake.Proofs.Document.Build
import Intake.Proofs.Entity.Numbered
import Intake.Proofs.Entity.Shape
import Intake.Proofs.Run.Begun
import Intake.Proofs.Run.ProcessedOnce
import Intake.Proofs.Catalogue.Coverage
import Intake.Proofs.Run.IssuePaths
import Intake.Proofs.Command.TextLines
import Intake.Proofs.Document.Reread
import Intake.Proofs.Schedule.Canonical
import Intake.Proofs.Document.Formats
import Intake.Proofs.Run.Presence
import Intake.Proofs.Run.FailFast
import Intake.Proofs.Entity.Refusals
import Intake.Proofs.Run.DefinedValues
import Intake.Proofs.Document.Mirrored
import Intake.Proofs.Run.Routine
import Intake.Proofs.Run.Gauge
import Intake.Proofs.Run.Counters
import Intake.Proofs.Tracker.Edits
import Intake.Proofs.Tracker.Addresses
import Intake.Proofs.Tracker.Listing
import Intake.Proofs.Number.Rounding
import Intake.Proofs.Processor.Bounds
import Intake.Proofs.Text.Plain
import Intake.Proofs.Number.Digits
import Intake.Proofs.Processor.Numerals
import Intake.Proofs.Run.Waiting
import Intake.Proofs.Run.Choices
import Intake.Proofs.Date.Calendar
import Intake.Proofs.Date.Iso
import Intake.Proofs.Processor.Dates
import Intake.Proofs.Run.CanonicalDates
import Intake.Proofs.Date.Rendering
import Intake.Proofs.Entity.Inner
import Intake.Proofs.Run.OutputFormats
import Intake.Proofs.Run.OwnFormat
import Intake.Proofs.Catalogue.Interpolation
import Intake.Proofs.Catalogue.Overlay
