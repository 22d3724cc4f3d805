import SumLayout.Main
import SumLayout.Proofs.FieldCount
import SumLayout.Proofs.PlanOutcome
import SumLayout.Proofs.RoundTrip
import SumLayout.Proofs.Verdict
import SumLayout.Proofs.WithoutOverlap
import SumLayout.Proofs.JoinedNames
import SumLayout.Proofs.LeafPaths
import SumLayout.Proofs.Misrouting
import SumLayout.Proofs.Naming
import SumLayout.Proofs.FieldNames
import SumLayout.Proofs.Unambiguous
import SumLayout.Proofs.OverlapRegion
import SumLayout.Proofs.Reports
import SumLayout.Proofs.SavingOptions
import SumLayout.Proofs.JsonScalars
import SumLayout.Proofs.JsonReading
import SumLayout.Proofs.RecordReading
import SumLayout.Proofs.InputText
import SumLayout.Proofs.InputReading
import SumLayout.Proofs.TagOrder
import SumLayout.Proofs.Narrowing
import SumLayout.Proofs.Decomposition
import SumLayout.Proofs.Appending
import SumLayout.Proofs.HollowValues
import SumLayout.Proofs.Coverage
import SumLayout.Proofs.UnknownShapes
import SumLayout.Proofs.PresentedTypes
import SumLayout.Proofs.NullSafety
import SumLayout.Proofs.Findings
import SumLayout.Proofs.SlotHistory
import SumLayout.Proofs.TagCalls
import SumLayout.Proofs.Forest
