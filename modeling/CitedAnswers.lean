import CitedAnswers.Citation.Marker
import CitedAnswers.Engine.Session
import CitedAnswers.Main
import CitedAnswers.Proofs.Accounts
import CitedAnswers.Proofs.Answering
import CitedAnswers.Proofs.Batching
import CitedAnswers.Proofs.Bookkeeping
import CitedAnswers.Proofs.Bounds
import CitedAnswers.Proofs.Choosing
import CitedAnswers.Proofs.Citing
import CitedAnswers.Proofs.Course
import CitedAnswers.Proofs.Deciding
import CitedAnswers.Proofs.Drift
import CitedAnswers.Proofs.Execution
import CitedAnswers.Proofs.Forms
import CitedAnswers.Proofs.Histories
import CitedAnswers.Proofs.Interleaving
import CitedAnswers.Proofs.Isolation
import CitedAnswers.Proofs.Labelled
import CitedAnswers.Proofs.Labels
import CitedAnswers.Proofs.Layering
import CitedAnswers.Proofs.Limits
import CitedAnswers.Proofs.Listing
import CitedAnswers.Proofs.Loading
import CitedAnswers.Proofs.Lossless
import CitedAnswers.Proofs.Markers
import CitedAnswers.Proofs.Notification
import CitedAnswers.Proofs.Numbering
import CitedAnswers.Proofs.Passages
import CitedAnswers.Proofs.Paths
import CitedAnswers.Proofs.Polling
import CitedAnswers.Proofs.Provenance
import CitedAnswers.Proofs.Rebuilding
import CitedAnswers.Proofs.Record
import CitedAnswers.Proofs.Refining
import CitedAnswers.Proofs.Restoring
import CitedAnswers.Proofs.RoundTrip
import CitedAnswers.Proofs.Spans
import CitedAnswers.Proofs.Spelling
import CitedAnswers.Proofs.Stages
import CitedAnswers.Proofs.Substitution
import CitedAnswers.Proofs.Whole
