import RecordFilter.Main
import RecordFilter.Proofs.Grammar
import RecordFilter.Proofs.Reading
import RecordFilter.Proofs.Chains
import RecordFilter.Proofs.Conjunction
import RecordFilter.Proofs.Sessions
import RecordFilter.Proofs.Lookup
import RecordFilter.Proofs.Rereading
import RecordFilter.Proofs.Export
import RecordFilter.Proofs.Typing
import RecordFilter.Proofs.Scanning
import RecordFilter.Proofs.Partition
import RecordFilter.Proofs.Quoting
import RecordFilter.Proofs.Inference
import RecordFilter.Proofs.Registry
import RecordFilter.Proofs.Checks
import RecordFilter.Proofs.Comparing
import RecordFilter.Proofs.MixedNumbers
import RecordFilter.Proofs.TextTests
import RecordFilter.Proofs.FullSearch
import RecordFilter.Proofs.Faults
import RecordFilter.Proofs.Slots
import RecordFilter.Proofs.Parentheses
import RecordFilter.Proofs.Refusals
import RecordFilter.Proofs.Rendering
import RecordFilter.Proofs.Respelling
import RecordFilter.Proofs.Directories
import RecordFilter.Proofs.Reports
import RecordFilter.Proofs.ShownValues
