import ProcessImage.DataType.Builder
import ProcessImage.Diagnostic
import ProcessImage.Settings.Load
import ProcessImage.Station
import ProcessImage.Proofs.Assembly.Action
import ProcessImage.Proofs.Assembly.Grammar
import ProcessImage.Proofs.Wire.Arena
import ProcessImage.Proofs.Wire.Arena.Growth
import ProcessImage.Proofs.Wire.Evolution
import ProcessImage.Proofs.Wire.Edit
import ProcessImage.Proofs.Wire.Reading
import ProcessImage.Proofs.Wire.Walk
import ProcessImage.Proofs.Wire.Separation
import ProcessImage.Proofs.Value.Conforming
import ProcessImage.Proofs.Value.Coercion
import ProcessImage.Proofs.Value.Complete
import ProcessImage.Proofs.Wire.Matching
import ProcessImage.Proofs.Wire.Acceptance
import ProcessImage.Proofs.Wire.Dressing
import ProcessImage.Proofs.Wire.RoundTrip
import ProcessImage.Proofs.Wire.Errands
import ProcessImage.Proofs.Wire.Overwriting
import ProcessImage.Proofs.Wire.Schema.Construction
import ProcessImage.Proofs.Wire.Intact
import ProcessImage.Proofs.Wire.Simulation
import ProcessImage.Proofs.Value.Adoption
import ProcessImage.Proofs.Wire.Marks
import ProcessImage.Proofs.Wire.Merge
import ProcessImage.Proofs.Variable.PartialUpdate
import ProcessImage.Proofs.Cache.History
import ProcessImage.Proofs.Text.Utf8
import ProcessImage.Proofs.Text.Decimal
import ProcessImage.Proofs.Ieee.Bits
import ProcessImage.Proofs.Legacy.Slot
import ProcessImage.Proofs.Legacy.RoundTrip
import ProcessImage.Proofs.Station.Echo
import ProcessImage.Proofs.Station.Admission
import ProcessImage.Proofs.Station.Traffic
import ProcessImage.Proofs.Station.Members
import ProcessImage.Proofs.Station.Agreement
import ProcessImage.Proofs.Value.Places
import ProcessImage.Proofs.Station.Latecomer
import ProcessImage.Proofs.Cache.Spending
import ProcessImage.Proofs.Station.Depth
import ProcessImage.Proofs.Station.Hearing
import ProcessImage.Proofs.Station.Seating
import ProcessImage.Proofs.Station.Operation
import ProcessImage.Proofs.Variable.ReadBack
import ProcessImage.Proofs.Station.Telling
import ProcessImage.Proofs.Station.Confirmation
import ProcessImage.Proofs.Station.Subscription
import ProcessImage.Proofs.Legacy.Reading
import ProcessImage.Proofs.Station.Typing
import ProcessImage.Proofs.Wire.Bare
import ProcessImage.Proofs.Wire.Survey
import ProcessImage.Proofs.Wire.Listing
import ProcessImage.Proofs.Wire.Cover
import ProcessImage.Proofs.Wire.Spelling
import ProcessImage.Proofs.Wire.Defaults
import ProcessImage.Proofs.Station.Refusal
import ProcessImage.Proofs.Value.Projection
import ProcessImage.Proofs.Value.Interchange
import ProcessImage.Proofs.Cache.Merging
import ProcessImage.Proofs.Assembly.Frames
import ProcessImage.Proofs.Legacy.Emptiness
import ProcessImage.Proofs.Station.Skipping
import ProcessImage.Proofs.Text.Cut
import ProcessImage.Proofs.Legacy.Slotwise
import ProcessImage.Proofs.Legacy.Truncation
import ProcessImage.Proofs.Legacy.Integers
import ProcessImage.Proofs.Ieee.Order
import ProcessImage.Proofs.Ieee.Range
import ProcessImage.Proofs.Ieee.Literal
import ProcessImage.Proofs.Scalar.Floating
import ProcessImage.Proofs.Legacy.Floating
import ProcessImage.Proofs.Value.InPlace
import ProcessImage.Proofs.Value.Lens
import ProcessImage.Proofs.Ieee.Truncation
import ProcessImage.Proofs.Scalar.Integers
import ProcessImage.Proofs.Station.Growth
import ProcessImage.Proofs.Station.Pending
