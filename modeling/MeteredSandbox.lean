import MeteredSandbox.Module.Adjustment
import MeteredSandbox.Module.Assembly
import MeteredSandbox.Instance.Basic
import MeteredSandbox.Digest.Basic
import MeteredSandbox.Meter
import MeteredSandbox.Outcome
import MeteredSandbox.Text.Scan
import MeteredSandbox.Toml.Item
import MeteredSandbox.Toml.Document
import MeteredSandbox.Policy.Basic
import MeteredSandbox.Policy.Document
import MeteredSandbox.Catalog.Basic
import MeteredSandbox.Session.Basic
import MeteredSandbox.Session.Host
import MeteredSandbox.Proofs.Following
import MeteredSandbox.Proofs.Reading
import MeteredSandbox.Proofs.Control
import MeteredSandbox.Proofs.Recording
import MeteredSandbox.Proofs.Keeping
import MeteredSandbox.Proofs.Framing
import MeteredSandbox.Proofs.Structured
import MeteredSandbox.Proofs.Compiled
import MeteredSandbox.Proofs.Placing
import MeteredSandbox.Proofs.Flattening
import MeteredSandbox.Proofs.Agreement
import MeteredSandbox.Proofs.Linked
import MeteredSandbox.Proofs.Consistency
import MeteredSandbox.Proofs.Billing
import MeteredSandbox.Proofs.Protocol
import MeteredSandbox.Proofs.Replaying
import MeteredSandbox.Proofs.Budgets
import MeteredSandbox.Proofs.Admission
import MeteredSandbox.Proofs.Guarding
import MeteredSandbox.Proofs.Ownership
import MeteredSandbox.Proofs.Contract
import MeteredSandbox.Proofs.Renaming
import MeteredSandbox.Proofs.Isolation
import MeteredSandbox.Proofs.Chronicle
import MeteredSandbox.Proofs.Lifecycle
import MeteredSandbox.Proofs.HandleTable
import MeteredSandbox.Proofs.Spelling
import MeteredSandbox.Proofs.Contents
import MeteredSandbox.Proofs.Building
import MeteredSandbox.Proofs.Locality
import MeteredSandbox.Proofs.Sectioning
import MeteredSandbox.Proofs.Changing
import MeteredSandbox.Proofs.Watching
import MeteredSandbox.Proofs.Typing
import MeteredSandbox.Proofs.Bounding
import MeteredSandbox.Proofs.Capping
import MeteredSandbox.Proofs.Adjusting
import MeteredSandbox.Proofs.Entries
import MeteredSandbox.Proofs.Depletion
import MeteredSandbox.Proofs.Exhaustion
import MeteredSandbox.Proofs.Collecting
import MeteredSandbox.Proofs.Words
import MeteredSandbox.Proofs.Bracketing
import MeteredSandbox.Proofs.Decoding
import MeteredSandbox.Proofs.Assembling
import MeteredSandbox.Proofs.Overlaying
import MeteredSandbox.Proofs.Instantiating
import MeteredSandbox.Proofs.WellFormed
import MeteredSandbox.Proofs.Refusals
import MeteredSandbox.Proofs.Terminating
import MeteredSandbox.Proofs.Selecting
import MeteredSandbox.Proofs.Grouping
import MeteredSandbox.Proofs.Shortest
import MeteredSandbox.Proofs.Truncating
import MeteredSandbox.Proofs.Accessing
import MeteredSandbox.Proofs.Ledger
import MeteredSandbox.Proofs.Arithmetic
import MeteredSandbox.Proofs.Occupancy
import MeteredSandbox.Proofs.Labelling
import MeteredSandbox.Proofs.Settling
