import Schemata.Main
import Schemata.Workspace
import Schemata.Proofs.Entries
import Schemata.Proofs.Results
import Schemata.Proofs.Runs
import Schemata.Proofs.Names
import Schemata.Proofs.Registry.Bisimulation
import Schemata.Proofs.Registry.Lookup
import Schemata.Proofs.Registry.Reaches
import Schemata.Proofs.Avro.Walk
import Schemata.Proofs.Avro.Faithful
import Schemata.Proofs.Registry.Operations
import Schemata.Proofs.Avro.Growth
import Schemata.Proofs.Avro.Mirror
import Schemata.Proofs.Avro.Capture
import Schemata.Proofs.Avro.RoundTrip
import Schemata.Proofs.Avro.Rollback
import Schemata.Proofs.Built
import Schemata.Proofs.Avro.Expressible
import Schemata.Proofs.Avro.Edits
import Schemata.Proofs.Avro.Conforming
import Schemata.Proofs.Avro.Accepted
import Schemata.Proofs.Avro.Orderly
import Schemata.Proofs.Registry.Unfolding
import Schemata.Proofs.Carriers
import Schemata.Proofs.Avro.Conservative
import Schemata.Proofs.Avro.Parts
import Schemata.Proofs.Registry.Beside
import Schemata.Proofs.Avro.Behind
import Schemata.Proofs.Avro.Conflicts
import Schemata.Proofs.Avro.Modular
import Schemata.Proofs.Registry.Headings
import Schemata.Proofs.Registry.Changes
import Schemata.Proofs.Registry.FieldIndex
import Schemata.Proofs.Number.Integers
import Schemata.Proofs.Number.Decimals
import Schemata.Proofs.DecimalTypes
import Schemata.Proofs.Avro.Shapes
import Schemata.Proofs.Avro.CanonicalForms
import Schemata.Proofs.Registry.Documentation
import Schemata.Proofs.Avro.Fingerprints
import Schemata.Proofs.Workspaces
import Schemata.Proofs.FieldLists
import Schemata.Proofs.Lineage
import Schemata.Proofs.EditFrames
import Schemata.Proofs.Ownership
import Schemata.Proofs.Recorded
import Schemata.Proofs.EditOrder
import Schemata.Proofs.Registry.Counterparts
import Schemata.Proofs.Avro.SameExports
import Schemata.Proofs.Outlines
import Schemata.Proofs.Json.Compact
import Schemata.Proofs.Listings
import Schemata.Proofs.Sketches
import Schemata.Proofs.Reorderings
import Schemata.Proofs.Leads
import Schemata.Proofs.Congruence
import Schemata.Proofs.Avro.Places
import Schemata.Proofs.Avro.Redundancy
import Schemata.Proofs.Widths
import Schemata.Proofs.DigitCapacity
import Schemata.Proofs.Avro.Positions
import Schemata.Proofs.Avro.Layout
import Schemata.Proofs.Avro.WireTypes
import Schemata.Proofs.Text.Lines
import Schemata.Proofs.Text.Endings
import Schemata.Proofs.Differences
import Schemata.Proofs.Calendar.Days
import Schemata.Proofs.Calendar.Moments
import Schemata.Proofs.Calendar.Digits
import Schemata.Proofs.Calendar.Timestamps
import Schemata.Proofs.Calendar.Truncations
import Schemata.Proofs.Text.Bytes
import Schemata.Proofs.Avro.Grammar
import Schemata.Proofs.Avro.Grammatical
import Schemata.Proofs.ScalarKinds
import Schemata.Proofs.Bytes.Hex
import Schemata.Proofs.Bytes.Base64
import Schemata.Proofs.BinaryLiterals
import Schemata.Proofs.Number.Printing
import Schemata.Proofs.PrintedDecimals
import Schemata.Proofs.BoundedScaling
import Schemata.Proofs.Calendar.Printing
import Schemata.Proofs.PrintedTimes
import Schemata.Proofs.Settings.Overlays
import Schemata.Proofs.Settings.Layers
import Schemata.Proofs.LayeredSettings
import Schemata.Proofs.PathTexts
