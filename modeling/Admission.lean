import Admission.Json.Reader
import Admission.Json.Writer
import Admission.Path.Canonical
import Admission.Settings
import Admission.Wire.Record
import Admission.Premises
import Admission.Rehearsal.StandIns
import Admission.Rehearsal.Transcript
import Admission.Http.Exchange
import Admission.CommandLine.Session
import Admission.Main
import Admission.Desk.Move
import Admission.Proofs.Desk.Change
import Admission.Proofs.Desk.Provenance
import Admission.Proofs.Ledger
import Admission.Proofs.Desk.Issues
import Admission.Proofs.Desk.Answers
import Admission.Proofs.Staleness
import Admission.Proofs.Applications
import Admission.Proofs.DeliveryOrder
import Admission.Proofs.Desk.Errands
import Admission.Proofs.Submission
import Admission.Proofs.Desk.Deeds
import Admission.Proofs.Desk.Turns
import Admission.Proofs.Warnings
import Admission.Proofs.Trust
import Admission.Proofs.Standing
import Admission.Proofs.Desk.Posts
import Admission.Proofs.Desk.Orderly
import Admission.Proofs.Validation
import Admission.Proofs.CurrentDialog
import Admission.Proofs.Json.RoundTrip
import Admission.Proofs.Additions
import Admission.Proofs.Closing
import Admission.Proofs.Desk.Line
import Admission.Proofs.Desk.Slots
import Admission.Proofs.Desk.Waits
import Admission.Proofs.Waiting
import Admission.Proofs.Settling
import Admission.Proofs.Json.Ascii
import Admission.Proofs.Saving
import Admission.Proofs.CommandLine.History
import Admission.Proofs.CommandLine.Consent
import Admission.Proofs.Desk.Visit
import Admission.Proofs.Desk.Outset
import Admission.Proofs.Http.Answers
import Admission.Proofs.Http.Bodies
import Admission.Proofs.Http.Serving
import Admission.Proofs.Agreement
import Admission.Proofs.Refusals
import Admission.Proofs.Git.SafeDirectories
import Admission.Proofs.Wire.Snapshots
import Admission.Proofs.Desk.Owners
import Admission.Proofs.Separation
import Admission.Proofs.Desk.Wakes
import Admission.Proofs.Desk.Wakeful
import Admission.Proofs.Desk.Endings
import Admission.Proofs.Sealing
import Admission.Proofs.Git.Inspections
import Admission.Proofs.Desk.Gates
import Admission.Proofs.TrustOutcomes
import Admission.Proofs.SubmissionOutcomes
import Admission.Proofs.Path.Shorthand
import Admission.Proofs.Path.FixedPoints
import Admission.Proofs.Path.Directories
import Admission.Proofs.Updates
import Admission.Proofs.Git.Complaints
import Admission.Proofs.Git.Misreadings
import Admission.Proofs.Path.TildeNames
import Admission.Proofs.Desk.Rest
import Admission.Proofs.Homeless
import Admission.Proofs.Json.Members
import Admission.Proofs.Listing
import Admission.Proofs.Desk.Outlines
import Admission.Proofs.Desk.Reviews
import Admission.Proofs.Desk.Sequence
import Admission.Proofs.Desk.CallOrder
import Admission.Proofs.Accounting
import Admission.Proofs.Timeouts
